import AssetCompiler.Proofs.Coalescing

/-!
Requests that board flights. A request that begins is settled at once, or gives way for a while, or
boards the flight of its key; a flight that is carried on lands or is to be carried on further. No step
forgets what is due, begins a request anew, or takes back an outcome.
-/
namespace AssetCompiler.Concurrent

variable {σ : Type}

/-- The request that a job is about. -/
def Job.request? : Job → Option Nat
  | .begin i | .enter i | .tick i | .deliver _ i | .resume i | .cancel i => some i
  | .advance _ | .forget _ => none

namespace Machine

/-! Runs with their steps -/

/-- A run with its steps, the oldest first: a step is a job and the machine that performs it, which does
not have the job in its queue any more. -/
inductive Trace (crew : Crew σ) (plan : Nat → Work σ Opening) : Machine σ →
    List (Machine σ × Job) → Machine σ → Prop
  | none (m : Machine σ) : Trace crew plan m [] m
  | step {m m' : Machine σ} {steps : List (Machine σ × Job)} (run : Trace crew plan m steps m')
      (before : List Job) (job : Job) (after : List Job)
      (pending : m'.queue = before ++ job :: after) :
      Trace crew plan m (steps ++ [({ m' with queue := before ++ after }, job)])
        ({ m' with queue := before ++ after }.perform crew plan job)

/-- Every sequence of steps is a run. -/
theorem trace_of_steps {crew : Crew σ} {plan : Nat → Work σ Opening} {m m' : Machine σ}
    (h : Relation.ReflTransGen (Step crew plan) m m') : ∃ steps, Trace crew plan m steps m' := by
  induction h with
  | refl => exact ⟨[], .none m⟩
  | tail _ hstep ih =>
    obtain ⟨steps, hrun⟩ := ih
    cases hstep with
    | perform before job after pending => exact ⟨_, hrun.step before job after pending⟩

theorem Trace.run {crew : Crew σ} {plan : Nat → Work σ Opening} {m m' : Machine σ}
    {steps : List (Machine σ × Job)} (h : Trace crew plan m steps m') :
    Run crew plan m (steps.flatMap fun s => s.1.events crew s.2) m' := by
  induction h with
  | none => exact .none m
  | step run before job after pending ih =>
    rw [List.flatMap_append, List.flatMap_singleton]
    exact ih.step before job after pending

/-- The request and the flight, where an opening boards one: the flight of its key, or a new one. -/
def boarding (m : Machine σ) (i : Nat) : Except Failure Opening → Option (Nat × Nat)
  | .ok (.shared owner errand) =>
    some (i, (m.table.find? (owner, errand.key)).getD m.flights.length)
  | _ => none

/-- The request and the flight, where a job makes a request board one. -/
def boards? (plan : Nat → Work σ Opening) (m : Machine σ) : Job → Option (Nat × Nat)
  | .begin i | .enter i => m.boarding i ((plan i).run m.world).1
  | _ => none

/-- Which requests have boarded which flights. -/
def boarded (plan : Nat → Work σ Opening) (steps : List (Machine σ × Job)) : List (Nat × Nat) :=
  steps.filterMap fun s => s.1.boards? plan s.2

/-- The request that is given up. -/
def givesUp? : Job → Option Nat
  | .cancel i => some i
  | _ => none

def givenUp (steps : List (Machine σ × Job)) : List Nat := steps.filterMap fun s => givesUp? s.2

/-! What is due -/

/-- A job is pending, unless an interruption has ended everything. -/
def Due (m : Machine σ) (job : Job) : Prop := m.isInterrupted = true ∨ job ∈ m.queue

theorem Due.taken {m : Machine σ} {before after : List Job} {job job' : Job} (h : m.Due job')
    (hpending : m.queue = before ++ job :: after) (hne : job' ≠ job) :
    Due { m with queue := before ++ after } job' := by
  rcases h with hend | hmem
  · exact .inl hend
  · rw [hpending, List.mem_append, List.mem_cons] at hmem
    refine .inr (List.mem_append.mpr ?_)
    exact hmem.imp id fun h => h.resolve_left hne

theorem release_of_free {m : Machine σ} (h : m.permits = none) (i : Nat) (r : Request) :
    ({ m with active := m.active - 1 }.setRequest i r).release =
      { m with active := m.active - 1 }.setRequest i r := by
  have hfree : ({ m with active := m.active - 1 }.setRequest i r).permits = none := h
  unfold release
  split
  · rfl
  · rename_i hsome
    cases hfree.symm.trans hsome

/-- One machine goes over into another: what is due stays due, and nobody begins anew. A flight that
has landed keeps its outcome, and those who wait for one that lands are to be told. -/
structure Goes (m m' : Machine σ) : Prop where
  due : ∀ job, m.Due job → m'.Due job
  begins : ∀ i, m'.queue.count (.begin i) ≤ m.queue.count (.begin i)
  enters : ∀ i, .enter i ∈ m'.queue → .enter i ∈ m.queue
  permits : m'.permits = m.permits
  length : m'.requests.length = m.requests.length
  flights : ∀ (f : Nat) (flight : Flight), m.flights[f]? = some flight → ∃ flight',
    m'.flights[f]? = some flight' ∧ flight'.key = flight.key ∧
    (∀ o, flight.outcome? = some o → flight'.outcome? = some o) ∧
    (flight.outcome? = none →
      (flight'.outcome? = none ∧ ∀ j ∈ flight.waiters, j ∈ flight'.waiters) ∨
      (m'.Due (.forget f) ∧ ∀ j ∈ flight.waiters, m'.Due (.deliver f j)))
  delivers : ∀ f j, .deliver f j ∈ m'.queue → .deliver f j ∈ m.queue ∨
    ∃ flight', m'.flights[f]? = some flight' ∧ flight'.outcome? ≠ none
  opened : ∀ (f : Nat) (flight' : Flight), m'.flights[f]? = some flight' →
    flight'.outcome? = none →
    (∃ flight, m.flights[f]? = some flight ∧ flight.outcome? = none) ∨ m'.Due (.advance f)

namespace Goes

variable {m m' m'' : Machine σ}

theorem trans (h : Goes m m') (h' : Goes m' m'') : Goes m m'' where
  due job hdue := h'.due job (h.due job hdue)
  begins i := Nat.le_trans (h'.begins i) (h.begins i)
  enters i hi := h.enters i (h'.enters i hi)
  permits := h'.permits.trans h.permits
  length := h'.length.trans h.length
  flights := by
    intro f flight hf
    obtain ⟨flight', hf', hkey, hkeeps, hwaits⟩ := h.flights f flight hf
    obtain ⟨flight'', hf'', hkey', hkeeps', hwaits'⟩ := h'.flights f flight' hf'
    refine ⟨flight'', hf'', hkey'.trans hkey, fun o ho => hkeeps' o (hkeeps o ho), ?_⟩
    intro hopen
    rcases hwaits hopen with ⟨hopen', hall⟩ | ⟨hforget, htold⟩
    · rcases hwaits' hopen' with ⟨hopen'', hall'⟩ | ⟨hforget, htold⟩
      · exact .inl ⟨hopen'', fun j hj => hall' j (hall j hj)⟩
      · exact .inr ⟨hforget, fun j hj => htold j (hall j hj)⟩
    · exact .inr ⟨h'.due _ hforget, fun j hj => h'.due _ (htold j hj)⟩
  delivers := by
    intro f j hmem
    rcases h'.delivers f j hmem with hmem' | hlanded
    · rcases h.delivers f j hmem' with hmem'' | ⟨flight', hf', hlanded⟩
      · exact .inl hmem''
      · obtain ⟨o, ho⟩ := Option.ne_none_iff_exists'.mp hlanded
        obtain ⟨flight'', hf'', _, hkeeps, _⟩ := h'.flights f flight' hf'
        refine .inr ⟨flight'', hf'', ?_⟩
        rw [hkeeps o ho]
        exact nofun
    · exact .inr hlanded
  opened := by
    intro f flight'' hf'' hopen
    rcases h'.opened f flight'' hf'' hopen with ⟨flight', hf', hopen'⟩ | hdue
    · exact (h.opened f flight' hf' hopen').imp id (h'.due _)
    · exact .inr hdue

/-- Machines with the same flights, and with more jobs that begin and deliver nothing. -/
theorem of_push {jobs : List Job} (hqueue : m'.queue = m.queue ++ jobs)
    (hjobs : ∀ job ∈ jobs, (∃ i, job = .tick i) ∨ (∃ i, job = .resume i) ∨ ∃ f, job = .advance f)
    (hend : m'.isInterrupted = m.isInterrupted) (hpermits : m'.permits = m.permits)
    (hlength : m'.requests.length = m.requests.length) (hflights : m'.flights = m.flights) :
    Goes m m' := by
  have hno : ∀ job, (∀ i, job ≠ .tick i) → (∀ i, job ≠ .resume i) → (∀ f, job ≠ .advance f) →
      job ∉ jobs := by
    intro job htick hresume hadvance hmem
    rcases hjobs job hmem with ⟨i, rfl⟩ | ⟨i, rfl⟩ | ⟨f, rfl⟩
    · exact htick i rfl
    · exact hresume i rfl
    · exact hadvance f rfl
  constructor
  · intro job hdue
    refine hdue.imp (fun h => hend.trans h) fun h => ?_
    rw [hqueue]
    exact List.mem_append_left _ h
  · intro i
    rw [hqueue, List.count_append, List.count_eq_zero.mpr (hno (.begin i) nofun nofun nofun)]
    exact Nat.le_refl _
  · intro i hi
    rw [hqueue, List.mem_append] at hi
    exact hi.resolve_right (hno _ nofun nofun nofun)
  · exact hpermits
  · exact hlength
  · intro f flight hf
    rw [hflights]
    exact ⟨flight, hf, rfl, fun o ho => ho, fun hopen => .inl ⟨hopen, fun j hj => hj⟩⟩
  · intro f j hmem
    rw [hqueue, List.mem_append] at hmem
    exact .inl (hmem.resolve_right (hno _ nofun nofun nofun))
  · intro f flight' hf hopen
    rw [hflights] at hf
    exact .inl ⟨flight', hf, hopen⟩

theorem refl (m : Machine σ) : Goes m m :=
  of_push (List.append_nil _).symm (List.forall_mem_nil _) rfl rfl rfl rfl

theorem setRequest (m : Machine σ) (i : Nat) (r : Request) : Goes m (m.setRequest i r) :=
  of_push (List.append_nil _).symm (List.forall_mem_nil _) rfl rfl List.length_set rfl

theorem act {α : Type} (m : Machine σ) (action : Work σ α) : Goes m (m.act action).2 :=
  of_push (List.append_nil _).symm (List.forall_mem_nil _) rfl rfl rfl rfl

theorem push (m : Machine σ) {job : Job}
    (h : (∃ i, job = .tick i) ∨ (∃ i, job = .resume i) ∨ ∃ f, job = .advance f) :
    Goes m (m.push [job]) :=
  of_push rfl (List.forall_mem_singleton.mpr h) rfl rfl rfl rfl

theorem halt (m : Machine σ) : Goes m m.halt where
  due _ _ := .inl rfl
  begins _ := Nat.zero_le _
  enters _ h := by cases h
  permits := rfl
  length := rfl
  flights f flight hf := ⟨flight, hf, rfl, fun o ho => ho, fun hopen => .inl ⟨hopen, fun j hj => hj⟩⟩
  delivers _ _ h := by cases h
  opened f flight hf hopen := .inl ⟨flight, hf, hopen⟩

/-- A request ends where no permits are needed. -/
theorem settle (m : Machine σ) (hfree : m.permits = none) (i : Nat)
    (outcome : Except Failure Artifact) : Goes m (m.settle i outcome) := by
  have hsettled : Goes m ({ m with active := m.active - 1 }.setRequest i (.settled outcome)) :=
    of_push (List.append_nil _).symm (List.forall_mem_nil _) rfl rfl List.length_set rfl
  unfold Machine.settle
  rw [release_of_free hfree]
  simp only
  split
  · exact hsettled.trans (halt _)
  · exact hsettled

/-- A flight becomes another one with at least the same outcome and the same passengers. -/
theorem setFlight (m : Machine σ) {f : Nat} {flight : Flight} (changed : Flight)
    (hf : m.flights[f]? = some flight) (hkey : changed.key = flight.key)
    (houtcome : changed.outcome? = flight.outcome?)
    (hwaiters : ∀ j ∈ flight.waiters, j ∈ changed.waiters) :
    Goes m (m.setFlight f changed) where
  due _ h := h
  begins _ := Nat.le_refl _
  enters _ h := h
  permits := rfl
  length := rfl
  flights := by
    intro g flight' hg
    by_cases hgf : g = f
    · subst hgf
      cases hf.symm.trans hg
      obtain ⟨hlt, _⟩ := List.getElem?_eq_some_iff.mp hf
      refine ⟨changed, List.getElem?_set_self hlt, hkey, fun o ho => houtcome.trans ho, ?_⟩
      exact fun hopen => .inl ⟨houtcome.trans hopen, hwaiters⟩
    · refine ⟨flight', (List.getElem?_set_ne (Ne.symm hgf)).trans hg, rfl, fun o ho => ho, ?_⟩
      exact fun hopen => .inl ⟨hopen, fun j hj => hj⟩
  delivers _ _ h := .inl h
  opened := by
    intro g flight' hg hopen
    rcases Sound.of_setFlight hf hg with ⟨rfl, rfl⟩ | ⟨_, hg'⟩
    · exact .inl ⟨flight, hf, houtcome.symm.trans hopen⟩
    · exact .inl ⟨flight', hg', hopen⟩

/-- A flight starts, and will be carried on. -/
theorem newFlight (m : Machine σ) (flight : Flight) (table : Keyed FlightKey Nat) :
    Goes m ({ m with flights := m.flights ++ [flight], table := table }.push
      [.advance m.flights.length]) where
  due _ h := h.imp id (List.mem_append_left _)
  begins i := by
    have hnone : [Job.advance m.flights.length].count (.begin i) = 0 :=
      List.count_eq_zero.mpr (by simp)
    change (m.queue ++ [Job.advance m.flights.length]).count _ ≤ _
    rw [List.count_append, hnone]
    exact Nat.le_refl _
  enters i h := by
    rcases List.mem_append.mp h with h | h
    · exact h
    · cases List.mem_singleton.mp h
  permits := rfl
  length := rfl
  flights := by
    intro f flight' hf
    obtain ⟨hlt, _⟩ := List.getElem?_eq_some_iff.mp hf
    refine ⟨flight', (List.getElem?_append_left hlt).trans hf, rfl, fun o ho => ho, ?_⟩
    exact fun hopen => .inl ⟨hopen, fun j hj => hj⟩
  delivers f j h := by
    rcases List.mem_append.mp h with h | h
    · exact .inl h
    · cases List.mem_singleton.mp h
  opened := by
    intro f flight' hf hopen
    change (m.flights ++ [flight])[f]? = some flight' at hf
    by_cases hlt : f < m.flights.length
    · rw [List.getElem?_append_left hlt] at hf
      exact .inl ⟨flight', hf, hopen⟩
    · obtain ⟨hle, _⟩ := List.getElem?_eq_some_iff.mp hf
      rw [List.length_append, List.length_singleton] at hle
      rw [show f = m.flights.length by omega]
      exact .inr (.inr (List.mem_append_right _ (List.mem_singleton_self _)))

/-- A flight lands, and those who wait for it are to be told. -/
theorem land (m : Machine σ) {f : Nat} {flight : Flight} (hf : m.flights[f]? = some flight)
    (hopen : flight.outcome? = none) (outcome : Except Failure Artifact) :
    Goes m (m.land f flight outcome) := by
  obtain ⟨hlt, _⟩ := List.getElem?_eq_some_iff.mp hf
  have hjobs : ∀ job ∈ Job.forget f :: flight.waiters.map (Job.deliver f),
      job = .forget f ∨ ∃ j ∈ flight.waiters, job = .deliver f j := by
    intro job hjob
    refine (List.mem_cons.mp hjob).imp id fun h => ?_
    obtain ⟨j, hj, rfl⟩ := List.mem_map.mp h
    exact ⟨j, hj, rfl⟩
  have hlanded : Goes m ((m.setFlight f { flight with stage := .landed outcome }).push
      (.forget f :: flight.waiters.map (.deliver f))) := by
    constructor
    · exact fun job h => h.imp id (List.mem_append_left _)
    · intro i
      have hnone : (Job.forget f :: flight.waiters.map (Job.deliver f)).count (.begin i) = 0 := by
        refine List.count_eq_zero.mpr fun hmem => ?_
        rcases hjobs _ hmem with h | ⟨j, _, h⟩ <;> cases h
      change (m.queue ++ _).count _ ≤ _
      rw [List.count_append, hnone]
      exact Nat.le_refl _
    · intro i hi
      rcases List.mem_append.mp hi with h | h
      · exact h
      · rcases hjobs _ h with h | ⟨j, _, h⟩ <;> cases h
    · rfl
    · rfl
    · intro g flight' hg
      by_cases hgf : g = f
      · subst hgf
        cases hf.symm.trans hg
        refine ⟨_, List.getElem?_set_self hlt, rfl, fun o ho => ?_, fun _ => .inr ⟨?_, fun j hj => ?_⟩⟩
        · cases hopen.symm.trans ho
        · exact .inr (List.mem_append_right _ (List.mem_cons_self ..))
        · refine .inr (List.mem_append_right _ (List.mem_cons_of_mem _ ?_))
          exact List.mem_map_of_mem hj
      · refine ⟨flight', (List.getElem?_set_ne (Ne.symm hgf)).trans hg, rfl, fun o ho => ho, ?_⟩
        exact fun hopen => .inl ⟨hopen, fun j hj => hj⟩
    · intro g j hmem
      rcases List.mem_append.mp hmem with h | h
      · exact .inl h
      · rcases hjobs _ h with h | ⟨j', _, h⟩
        · cases h
        · cases h
          exact .inr ⟨_, List.getElem?_set_self hlt, nofun⟩
    · intro g flight' hg hopen'
      rcases Sound.of_setFlight hf hg with ⟨rfl, rfl⟩ | ⟨_, hg'⟩
      · cases hopen'
      · exact .inl ⟨flight', hg', hopen'⟩
  unfold Machine.land
  simp only
  split
  · exact hlanded.trans (halt _)
  · exact hlanded

end Goes

/-- Flights in the table are there. -/
def IsListed (m : Machine σ) : Prop :=
  ∀ key f, m.table.find? key = some f → ∃ flight, m.flights[f]? = some flight

/-- Three ways to board the flight of a key: it has landed already, or it is under way, or it starts. -/
inductive Shares (m : Machine σ) (i : Nat) (key : FlightKey) (errand : Errand) (f : Nat) :
    Machine σ → Prop
  | landed {flight : Flight} {o : Except Failure Artifact} (listed : m.table.find? key = some f)
      (found : m.flights[f]? = some flight) (outcome : flight.outcome? = some o) :
      Shares m i key errand f ((m.act (Work.report (.joining errand.file errand.key))).2.settle i o)
  | joined {flight : Flight} (listed : m.table.find? key = some f)
      (found : m.flights[f]? = some flight) (opened : flight.outcome? = none) :
      Shares m i key errand f
        (((m.act (Work.report (.joining errand.file errand.key))).2.setFlight f
          { flight with waiters := flight.waiters ++ [i] }).setRequest i (.waiting f))
  | started (free : m.table.find? key = none) (new : f = m.flights.length) :
      Shares m i key errand f
        ((({ m with
          flights := m.flights ++ [⟨key, errand, .looking, [i]⟩]
          table := m.table.set key f } : Machine σ).push [.advance f]).setRequest i (.waiting f))

theorem shares (m : Machine σ) (hlisted : m.IsListed) (i : Nat) (key : FlightKey)
    (errand : Errand) : Shares m i key errand ((m.table.find? key).getD m.flights.length)
      (m.share i key errand) := by
  unfold Machine.share
  cases hentry : m.table.find? key with
  | none =>
    exact .started hentry rfl
  | some f =>
    obtain ⟨flight, hflight⟩ := hlisted key f hentry
    simp only [Option.bind_some, hflight, Option.map_some, Option.getD_some]
    cases houtcome : flight.outcome? with
    | none => exact .joined hentry hflight houtcome
    | some o => exact .landed hentry hflight houtcome

theorem request_setRequest_self {m : Machine σ} {i : Nat} (h : i < m.requests.length)
    (r : Request) : (m.setRequest i r).request i = r := by
  unfold request setRequest
  rw [List.getElem?_set_self h]
  rfl

theorem request_setRequest_of_ne (m : Machine σ) {i j : Nat} (h : j ≠ i) (r : Request) :
    (m.setRequest i r).request j = m.request j := by
  unfold request setRequest
  rw [List.getElem?_set_ne (Ne.symm h)]

theorem requests_settle (m : Machine σ) (i : Nat) (o : Except Failure Artifact)
    (hfree : m.permits = none) : (m.settle i o).requests = (m.setRequest i (.settled o)).requests := by
  unfold Machine.settle
  rw [release_of_free hfree]
  simp only
  split
  · rfl
  · rfl

theorem request_congr {m m' : Machine σ} (h : m'.requests = m.requests) (j : Nat) :
    m'.request j = m.request j := by
  unfold request
  rw [h]

theorem request_settle_self (m : Machine σ) {i : Nat} (o : Except Failure Artifact)
    (hfree : m.permits = none) (hi : i < m.requests.length) :
    (m.settle i o).request i = .settled o := by
  rw [request_congr (requests_settle m i o hfree)]
  exact request_setRequest_self hi _

theorem Shares.goes {m m' : Machine σ} {i f : Nat} {key : FlightKey} {errand : Errand}
    (h : Shares m i key errand f m') (hfree : m.permits = none) : Goes m m' := by
  have hacted := Goes.act m (Work.report (.joining errand.file errand.key))
  cases h with
  | landed listed found outcome =>
    refine hacted.trans (Goes.settle _ ?_ _ _)
    exact hfree
  | @joined flight listed found opened =>
    have hflown := Goes.setFlight (m.act (Work.report (.joining errand.file errand.key))).2
      { flight with waiters := flight.waiters ++ [i] } found rfl rfl
      fun j hj => List.mem_append_left _ hj
    exact (hacted.trans hflown).trans (Goes.setRequest _ _ _)
  | started free new =>
    subst new
    exact (Goes.newFlight m _ _).trans (Goes.setRequest _ _ _)

theorem Shares.requests {m m' : Machine σ} {i f : Nat} {key : FlightKey} {errand : Errand}
    (h : Shares m i key errand f m') (hfree : m.permits = none) :
    ∃ r, m'.requests = (m.setRequest i r).requests := by
  cases h with
  | @landed flight o =>
    exact ⟨.settled o, requests_settle (m.act (Work.report _)).2 i o hfree⟩
  | joined => exact ⟨.waiting f, rfl⟩
  | started => exact ⟨.waiting f, rfl⟩

/-- A request counts as under way, in a world that its beginning has left. -/
def counted (m : Machine σ) (w : World σ) : Machine σ :=
  { m with active := m.active + 1, peak := max m.peak (m.active + 1), world := w }

/-- How a request starts: it is settled at once, or gives way a while, or boards a flight. -/
inductive Starts (plan : Nat → Work σ Opening) (m : Machine σ) (i : Nat) : Machine σ → Prop
  | settled {o : Except Failure Artifact} (stays : m.boards? plan (.begin i) = none) :
      Starts plan m i ((m.counted ((plan i).run m.world).2).settle i o)
  | busy {n : Nat} {o : Except Failure Artifact} (stays : m.boards? plan (.begin i) = none) :
      Starts plan m i (((m.counted ((plan i).run m.world).2).setRequest i (.busy n o)).push [.tick i])
  | shared {owner : String} {errand : Errand} {f : Nat} {m' : Machine σ}
      (plans : ((plan i).run m.world).1 = .ok (.shared owner errand))
      (boards : m.boards? plan (.begin i) = some (i, f))
      (shares : Shares (m.counted ((plan i).run m.world).2) i (owner, errand.key) errand f m') :
      Starts plan m i m'

theorem starts (plan : Nat → Work σ Opening) (m : Machine σ) (hlisted : m.IsListed) (i : Nat) :
    Starts plan m i (m.start plan i) := by
  unfold Machine.start
  simp only [Machine.act]
  cases hplan : (plan i).run m.world with
  | mk opening w =>
    have hworld : ((plan i).run m.world).2 = w := by
      rw [hplan]
    have hboards : m.boards? plan (.begin i) = m.boarding i opening := by
      rw [boards?, hplan]
    rcases opening with e | opening
    · exact hworld ▸ .settled hboards
    · rcases opening with o | ⟨n, o⟩ | ⟨owner, errand⟩
      · exact hworld ▸ .settled hboards
      · cases n with
        | zero => exact hworld ▸ .settled hboards
        | succ n => exact hworld ▸ .busy hboards
      · exact .shared (congrArg Prod.fst hplan) hboards
          (hworld ▸ shares (m.counted w) hlisted i (owner, errand.key) errand)

theorem Goes.counted (m : Machine σ) (w : World σ) : Goes m (m.counted w) :=
  of_push (List.append_nil _).symm (List.forall_mem_nil _) rfl rfl rfl rfl

theorem Starts.goes {plan : Nat → Work σ Opening} {m m' : Machine σ} {i : Nat}
    (h : Starts plan m i m') (hfree : m.permits = none) : Goes m m' := by
  cases h with
  | settled stays =>
    refine (Goes.counted m _).trans (Goes.settle _ ?_ _ _)
    exact hfree
  | busy stays =>
    exact ((Goes.counted m _).trans (Goes.setRequest _ _ _)).trans (Goes.push _ (.inl ⟨i, rfl⟩))
  | shared plans boards shares => exact (Goes.counted m _).trans (shares.goes hfree)

theorem Starts.requests {plan : Nat → Work σ Opening} {m m' : Machine σ} {i : Nat}
    (h : Starts plan m i m') (hfree : m.permits = none) :
    ∃ r, m'.requests = (m.setRequest i r).requests := by
  cases h with
  | @settled o stays => exact ⟨.settled o, requests_settle (m.counted _) i o hfree⟩
  | @busy n o stays => exact ⟨.busy n o, rfl⟩
  | shared plans boards shares =>
    obtain ⟨r, hr⟩ := shares.requests hfree
    exact ⟨r, hr⟩

/-- A flight has been carried on: either it has landed, or it is to be carried on further. Requests and
the table are as they were. -/
structure Flown (m : Machine σ) (f : Nat) (m' : Machine σ) : Prop where
  goes : Goes m m'
  requests : m'.requests = m.requests
  table : m'.table = m.table
  carried : ∀ flight', m'.flights[f]? = some flight' → flight'.outcome? = none →
    m'.Due (.advance f)

theorem Flown.after {m m' m'' : Machine σ} {f : Nat} (h : Flown m' f m'') (hgoes : Goes m m')
    (hrequests : m'.requests = m.requests) (htable : m'.table = m.table) : Flown m f m'' where
  goes := hgoes.trans h.goes
  requests := h.requests.trans hrequests
  table := h.table.trans htable
  carried := h.carried

theorem Flown.act {m m'' : Machine σ} {α : Type} {f : Nat} {action : Work σ α}
    (h : Flown (m.act action).2 f m'') : Flown m f m'' :=
  h.after (Goes.act m action) rfl rfl

section Flying

variable {m : Machine σ} {f : Nat} {flight : Flight}

theorem flown_land (hf : m.flights[f]? = some flight) (hopen : flight.outcome? = none)
    (outcome : Except Failure Artifact) : Flown m f (m.land f flight outcome) := by
  obtain ⟨hlt, _⟩ := List.getElem?_eq_some_iff.mp hf
  have hlast : (m.land f flight outcome).requests = m.requests ∧
      (m.land f flight outcome).table = m.table ∧
      (m.land f flight outcome).flights =
        m.flights.set f { flight with stage := .landed outcome } := by
    unfold Machine.land
    simp only
    split
    · exact ⟨rfl, rfl, rfl⟩
    · exact ⟨rfl, rfl, rfl⟩
  obtain ⟨hrequests, htable, hflights⟩ := hlast
  refine ⟨Goes.land m hf hopen outcome, hrequests, htable, ?_⟩
  intro flight' hf' hopen'
  rw [hflights, List.getElem?_set_self hlt] at hf'
  cases hf'
  cases hopen'

theorem flown_follow (hf : m.flights[f]? = some flight) (hopen : flight.outcome? = none)
    (progress : Except Failure Reduction.Progress) : Flown m f (m.follow f flight progress) := by
  unfold Machine.follow
  split
  · exact flown_land hf hopen _
  · rename_i waited rest
    have hset := Goes.setFlight m { flight with stage := .fetching waited rest } hf rfl
      hopen.symm fun j hj => hj
    refine ⟨hset.trans (Goes.push _ (.inr (.inr ⟨f, rfl⟩))), rfl, rfl, ?_⟩
    exact fun _ _ _ => .inr (List.mem_append_right _ (List.mem_singleton_self _))
  · exact flown_land hf hopen _
  · rename_i a
    exact (flown_land (m := (m.act (flight.errand.deliver a)).2) hf hopen _).act

/-- Only a flight that is under way is carried on. -/
theorem advance_of_not_open {crew : Crew σ}
    (h : ∀ flight, m.flights[f]? = some flight → flight.outcome? ≠ none) :
    m.advance crew f = m := by
  unfold Machine.advance
  cases hf : m.flights[f]? with
  | none => rfl
  | some flight =>
    obtain ⟨o, ho⟩ := Option.ne_none_iff_exists'.mp (h flight hf)
    simp only [outcome?_eq_some.mp ho]

theorem flown_advance (crew : Crew σ) (m : Machine σ) (f : Nat) :
    Flown m f (m.advance crew f) := by
  by_cases hopens : ∃ flight, m.flights[f]? = some flight ∧ flight.outcome? = none
  · obtain ⟨flight, hf, hopen⟩ := hopens
    unfold Machine.advance
    rw [hf]
    simp only
    split
    · rename_i outcome hstage
      cases hopen.symm.trans (outcome?_eq_some.mpr hstage)
    · rename_i waited rest hstage
      exact (flown_follow (m := (m.act (rest.proceed crew waited)).2) hf hopen _).act
    · cases hact : m.act flight.errand.stored? with
      | mk found m' =>
        have hlooked : ∀ m'', Flown m' f m'' → Flown m f m'' := by
          intro m'' h
          have hafter : Flown (m.act flight.errand.stored?).2 f m'' := by
            rw [hact]
            exact h
          exact hafter.act
        have hf' : m'.flights[f]? = some flight := by
          rw [← hf]
          exact congrArg (fun x => x.2.flights[f]?) hact.symm
        rcases found with e | (_ | a)
        · exact hlooked _ (flown_land hf' hopen _)
        · exact hlooked _ (flown_follow (m := (m'.act (flight.errand.work.proceed crew 0)).2)
            hf' hopen _).act
        · exact hlooked _ (flown_land hf' hopen _)
  · have hlanded : ∀ flight, m.flights[f]? = some flight → flight.outcome? ≠ none :=
      fun flight hf hopen => hopens ⟨flight, hf, hopen⟩
    rw [advance_of_not_open hlanded]
    exact ⟨Goes.refl m, rfl, rfl, fun flight hf hopen => absurd hopen (hlanded flight hf)⟩

end Flying

/-- What a step does to the table, unless it removes an entry: nothing, or it enters a new flight. -/
def Enters (m m' : Machine σ) : Prop :=
  m'.table = m.table ∨ ∃ flight : Flight, flight.outcome? = none ∧
    m'.flights[m.flights.length]? = some flight ∧
    m'.table = m.table.set flight.key m.flights.length

theorem table_settle (m : Machine σ) (i : Nat) (o : Except Failure Artifact)
    (hfree : m.permits = none) : (m.settle i o).table = m.table := by
  unfold Machine.settle
  rw [release_of_free hfree]
  simp only
  split
  · rfl
  · rfl

theorem Starts.enters {plan : Nat → Work σ Opening} {m m' : Machine σ} {i : Nat}
    (h : Starts plan m i m') (hfree : m.permits = none) : m.Enters m' := by
  cases h with
  | settled stays => exact .inl (table_settle _ _ _ hfree)
  | busy stays => exact .inl rfl
  | shared plans boards shares =>
    cases shares with
    | landed listed found outcome => exact .inl (table_settle _ _ _ hfree)
    | joined listed found opened => exact .inl rfl
    | started free new =>
      subst new
      exact .inr ⟨_, rfl, List.getElem?_concat_length, rfl⟩

section Jobs

variable {crew : Crew σ} {plan : Nat → Work σ Opening} {m : Machine σ}

theorem perform_begin (hfree : m.permits = none) (i : Nat) :
    m.perform crew plan (.begin i) = m.start plan i := by
  change m.admission plan i = _
  unfold admission
  split
  · rfl
  · rename_i hsome
    cases hfree.symm.trans hsome
  · rename_i hsome
    cases hfree.symm.trans hsome

theorem Goes.perform (hfree : m.permits = none) (hlisted : m.IsListed) (job : Job) :
    Goes m (m.perform crew plan job) := by
  cases job with
  | begin i =>
    rw [perform_begin hfree]
    exact (starts plan m hlisted i).goes hfree
  | enter i => exact (starts plan m hlisted i).goes hfree
  | tick i =>
    simp only [Machine.perform]
    split
    · exact settle m hfree i _
    · exact (setRequest m i _).trans (push _ (.inl ⟨i, rfl⟩))
    · exact refl m
  | advance f => exact (flown_advance crew m f).goes
  | forget f =>
    simp only [Machine.perform]
    split
    · exact of_push (List.append_nil _).symm (List.forall_mem_nil _) rfl rfl rfl rfl
    · exact refl m
  | deliver f i =>
    simp only [Machine.perform]
    split
    · split
      · exact (setRequest m i _).trans (push _ (.inr (.inl ⟨i, rfl⟩)))
      · exact refl m
    · exact refl m
  | resume i =>
    simp only [Machine.perform]
    split
    · exact settle m hfree i _
    · exact refl m
  | cancel i =>
    simp only [Machine.perform]
    split
    · exact (setRequest m i _).trans (push _ (.inr (.inl ⟨i, rfl⟩)))
    · exact setRequest m i _
    · exact refl m

/-- A job changes no request but its own. -/
theorem request_perform (hfree : m.permits = none) (hlisted : m.IsListed) {job : Job} {j : Nat}
    (hother : job.request? ≠ some j) : (m.perform crew plan job).request j = m.request j := by
  have hset : ∀ {m' : Machine σ} {i : Nat} {r : Request}, job.request? = some i →
      m'.requests = (m.setRequest i r).requests → m'.request j = m.request j := by
    intro m' i r hi hrequests
    have hne : j ≠ i := by
      rintro rfl
      exact hother hi
    exact (request_congr hrequests j).trans (request_setRequest_of_ne m hne r)
  cases job with
  | begin i =>
    rw [perform_begin hfree]
    obtain ⟨r, hr⟩ := (starts plan m hlisted i).requests hfree
    exact hset rfl hr
  | enter i =>
    obtain ⟨r, hr⟩ := (starts plan m hlisted i).requests hfree
    exact hset rfl hr
  | tick i =>
    simp only [Machine.perform]
    split
    · exact hset rfl (requests_settle m i _ hfree)
    · exact hset rfl rfl
    · rfl
  | advance f => exact request_congr (flown_advance crew m f).requests j
  | forget f =>
    simp only [Machine.perform]
    split
    · rfl
    · rfl
  | deliver f i =>
    simp only [Machine.perform]
    split
    · split
      · exact hset rfl rfl
      · rfl
    · rfl
  | resume i =>
    simp only [Machine.perform]
    split
    · exact hset rfl (requests_settle m i _ hfree)
    · rfl
  | cancel i =>
    simp only [Machine.perform]
    split
    · exact hset rfl rfl
    · exact hset rfl rfl
    · rfl

/-- A job whose request has not begun, and that does not begin it, is of no consequence. -/
theorem request_perform_of_fresh {job : Job} {j : Nat} (hfresh : m.request j = .fresh)
    (hjob : job.request? = some j) (hbegin : job ≠ .begin j) (henter : job ≠ .enter j) :
    (m.perform crew plan job).request j = .fresh := by
  cases job with
  | begin i =>
    cases hjob
    exact absurd rfl hbegin
  | enter i =>
    cases hjob
    exact absurd rfl henter
  | advance f => cases hjob
  | forget f => cases hjob
  | tick i =>
    cases hjob
    simp only [Machine.perform, hfresh]
  | deliver f i =>
    cases hjob
    simp only [Machine.perform, hfresh]
  | resume i =>
    cases hjob
    simp only [Machine.perform, hfresh]
  | cancel i =>
    cases hjob
    simp only [Machine.perform, hfresh]

/-- The table after a job that is no removal. -/
theorem enters_perform (hfree : m.permits = none) (hlisted : m.IsListed) {job : Job}
    (hjob : ∀ f, job ≠ .forget f) : m.Enters (m.perform crew plan job) := by
  cases job with
  | begin i =>
    rw [perform_begin hfree]
    exact (starts plan m hlisted i).enters hfree
  | enter i => exact (starts plan m hlisted i).enters hfree
  | tick i =>
    simp only [Machine.perform]
    split
    · exact .inl (table_settle _ _ _ hfree)
    · exact .inl rfl
    · exact .inl rfl
  | advance f => exact .inl (flown_advance crew m f).table
  | forget f => exact absurd rfl (hjob f)
  | deliver f i =>
    simp only [Machine.perform]
    split
    · split
      · exact .inl rfl
      · exact .inl rfl
    · exact .inl rfl
  | resume i =>
    simp only [Machine.perform]
    split
    · exact .inl (table_settle _ _ _ hfree)
    · exact .inl rfl
  | cancel i =>
    simp only [Machine.perform]
    split
    · exact .inl rfl
    · exact .inl rfl
    · exact .inl rfl

end Jobs

end Machine
end AssetCompiler.Concurrent
