import AssetCompiler.Proofs.GuardedRuns
import AssetCompiler.Proofs.Rest

/-!
Machines with a limit. A request that wants to start needs a permit, and one that ends hands its permit on, so
that no more requests are under way than the limit allows. Whatever a machine does next, each request is either
settled or somebody will come back to it: a job of its own, the queue for permits, or a flight that it waits for.
So a machine that has come to rest has settled all of its requests.
-/
namespace AssetCompiler.Concurrent

variable {σ : Type}

/-- What a request counts among those under way. -/
def Request.underWay : Request → Nat
  | .busy _ _ | .waiting _ | .informed _ => 1
  | _ => 0

/-- What a job counts among those that bring a permit. -/
def Job.enters : Job → Nat
  | .enter _ => 1
  | _ => 0

namespace Machine

/-- The pending jobs that are about a request. -/
def due (m : Machine σ) (i : Nat) : List Job := m.queue.filter fun job => job.request? == some i

def underWay (m : Machine σ) : Nat := (m.requests.map Request.underWay).sum

def entering (m : Machine σ) : Nat := (m.queue.map Job.enters).sum

/-- Who will come back to a request that stands like this. -/
inductive Stands (m : Machine σ) (i : Nat) : Request → Prop
  | fresh (due : m.due i = [.begin i]) (out : i ∉ m.parked) : Stands m i .fresh
  | parked (due : m.due i = []) (waits : i ∈ m.parked) : Stands m i .parked
  | entering (due : m.due i = [.enter i]) (out : i ∉ m.parked) : Stands m i .parked
  | busy {n : Nat} {o : Except Failure Artifact} (due : m.due i = [.tick i]) (out : i ∉ m.parked) :
      Stands m i (.busy n o)
  | waiting {f : Nat} {flight : Flight} (due : m.due i = []) (out : i ∉ m.parked)
      (found : m.flights[f]? = some flight) (opened : flight.outcome? = none) (aboard : i ∈ flight.waiters) :
      Stands m i (.waiting f)
  | told {f : Nat} {flight : Flight} {o : Except Failure Artifact} (due : m.due i = [.deliver f i])
      (out : i ∉ m.parked) (found : m.flights[f]? = some flight) (landed : flight.outcome? = some o) :
      Stands m i (.waiting f)
  | informed {o : Except Failure Artifact} (due : m.due i = [.resume i]) (out : i ∉ m.parked) :
      Stands m i (.informed o)
  | settled {o : Except Failure Artifact} (due : m.due i = []) (out : i ∉ m.parked) :
      Stands m i (.settled o)

/-- The only job that can be pending for a request that stands like this. -/
inductive Suits (flights : List Flight) (i : Nat) : Job → Request → Prop
  | begin : Suits flights i (.begin i) .fresh
  | enter : Suits flights i (.enter i) .parked
  | tick {n : Nat} {o : Except Failure Artifact} : Suits flights i (.tick i) (.busy n o)
  | deliver {f : Nat} {flight : Flight} {o : Except Failure Artifact} (found : flights[f]? = some flight)
      (landed : flight.outcome? = some o) : Suits flights i (.deliver f i) (.waiting f)
  | resume {o : Except Failure Artifact} : Suits flights i (.resume i) (.informed o)

section Standing

variable {m m' : Machine σ} {i : Nat} {r : Request}

theorem Stands.suits (h : Stands m i r) {job : Job} (hjob : job ∈ m.due i) :
    m.due i = [job] ∧ i ∉ m.parked ∧ Suits m.flights i job r := by
  cases h with
  | fresh due out =>
    rw [due, List.mem_singleton] at hjob
    exact ⟨hjob ▸ due, out, hjob ▸ .begin⟩
  | parked due waits =>
    rw [due] at hjob
    cases hjob
  | entering due out =>
    rw [due, List.mem_singleton] at hjob
    exact ⟨hjob ▸ due, out, hjob ▸ .enter⟩
  | busy due out =>
    rw [due, List.mem_singleton] at hjob
    exact ⟨hjob ▸ due, out, hjob ▸ .tick⟩
  | waiting due out found opened aboard =>
    rw [due] at hjob
    cases hjob
  | told due out found landed =>
    rw [due, List.mem_singleton] at hjob
    exact ⟨hjob ▸ due, out, hjob ▸ .deliver found landed⟩
  | informed due out =>
    rw [due, List.mem_singleton] at hjob
    exact ⟨hjob ▸ due, out, hjob ▸ .resume⟩
  | settled due out =>
    rw [due] at hjob
    cases hjob

/-- A request in the queue for permits waits there. -/
theorem Stands.of_parked (h : Stands m i r) (hi : i ∈ m.parked) : r = .parked ∧ m.due i = [] := by
  cases h with
  | parked due waits => exact ⟨rfl, due⟩
  | fresh due out => exact (out hi).elim
  | entering due out => exact (out hi).elim
  | busy due out => exact (out hi).elim
  | waiting due out found opened aboard => exact (out hi).elim
  | told due out found landed => exact (out hi).elim
  | informed due out => exact (out hi).elim
  | settled due out => exact (out hi).elim

/-- A request stands as before if its jobs and the queue for permits do, and if the flight that it waits for is as
far and has kept it aboard. -/
theorem Stands.keep (h : Stands m i r) (hdue : m'.due i = m.due i) (hparked : i ∈ m'.parked ↔ i ∈ m.parked)
    (hflights : ∀ f flight, r = .waiting f → m.flights[f]? = some flight → ∃ flight',
      m'.flights[f]? = some flight' ∧ flight'.outcome? = flight.outcome? ∧
      (i ∈ flight.waiters → i ∈ flight'.waiters)) : Stands m' i r := by
  cases h with
  | fresh due out => exact .fresh (hdue.trans due) (hparked.not.mpr out)
  | parked due waits => exact .parked (hdue.trans due) (hparked.mpr waits)
  | entering due out => exact .entering (hdue.trans due) (hparked.not.mpr out)
  | busy due out => exact .busy (hdue.trans due) (hparked.not.mpr out)
  | waiting due out found opened aboard =>
    obtain ⟨flight', found', houtcome, haboard⟩ := hflights _ _ rfl found
    exact .waiting (hdue.trans due) (hparked.not.mpr out) found' (houtcome.trans opened) (haboard aboard)
  | told due out found landed =>
    obtain ⟨flight', found', houtcome, -⟩ := hflights _ _ rfl found
    exact .told (hdue.trans due) (hparked.not.mpr out) found' (houtcome.trans landed)
  | informed due out => exact .informed (hdue.trans due) (hparked.not.mpr out)
  | settled due out => exact .settled (hdue.trans due) (hparked.not.mpr out)

theorem Stands.congr (h : Stands m i r) (hdue : m'.due i = m.due i)
    (hparked : i ∈ m'.parked ↔ i ∈ m.parked) (hflights : m'.flights = m.flights) : Stands m' i r :=
  h.keep hdue hparked fun _ flight _ hf => ⟨flight, hflights ▸ hf, rfl, id⟩

theorem due_push (m : Machine σ) (jobs : List Job) (i : Nat) :
    (m.push jobs).due i = m.due i ++ jobs.filter fun job => job.request? == some i :=
  List.filter_append ..

theorem due_push_of_other {jobs : List Job} (h : ∀ job ∈ jobs, job.request? ≠ some i) :
    (m.push jobs).due i = m.due i := by
  rw [due_push, List.filter_eq_nil_iff.mpr, List.append_nil]
  intro job hjob
  rw [beq_iff_eq]
  exact h job hjob

theorem due_push_self {job : Job} (h : job.request? = some i) : (m.push [job]).due i = m.due i ++ [job] := by
  rw [due_push, List.filter_singleton, h, BEq.rfl]
  rfl

theorem due_push_none {job : Job} (h : job.request? = none) : (m.push [job]).due i = m.due i :=
  due_push_of_other (List.forall_mem_singleton.mpr (h ▸ nofun))

end Standing

/-- What a step has in its hand: a request that asks for a permit, one that holds a permit, one that is under way;
a permit; a flight that is to be carried on. -/
inductive Hand
  | empty
  | asks (request : Nat)
  | holds (request : Nat)
  | works (request : Nat)
  | permit
  | flies (flight : Nat)

namespace Hand

def request? : Hand → Option Nat
  | asks i | holds i | works i => some i
  | _ => none

def flight? : Hand → Option Nat
  | flies f => some f
  | _ => none

def permits : Hand → Nat
  | holds _ | permit => 1
  | _ => 0

def underWay : Hand → Nat
  | works _ => 1
  | _ => 0

/-- What a request in the hand counts so far. -/
def counted (hand : Hand) (m : Machine σ) : Nat := (hand.request?.map fun i => (m.request i).underWay).getD 0

/-- What the hand takes with a job. -/
def ofJob : Job → Hand
  | .begin i => asks i
  | .enter i => holds i
  | .tick i | .deliver _ i | .resume i | .cancel i => works i
  | .advance f => flies f
  | .forget _ => empty

theorem request?_ofJob (job : Job) : (ofJob job).request? = job.request? := by
  cases job <;> rfl

end Hand

/-- No request is forgotten, but for what is in the hand. -/
structure Attends (count : Nat) (hand : Hand) (m : Machine σ) : Prop where
  length : m.requests.length = count
  nodup : m.parked.Nodup
  known : ∀ i, m.due i ≠ [] ∨ i ∈ m.parked → i < count
  stands : ∀ i < count, hand.request? ≠ some i → Stands m i (m.request i)
  held : ∀ i, hand.request? = some i → i < count ∧ m.due i = [] ∧ i ∉ m.parked
  aboard : ∀ (f : Nat) (flight : Flight), m.flights[f]? = some flight → flight.outcome? = none →
    flight.waiters.Nodup ∧ ∀ j ∈ flight.waiters, hand.request? ≠ some j ∧ m.request j = .waiting f
  carried : ∀ (f : Nat) (flight : Flight), m.flights[f]? = some flight → flight.outcome? = none →
    hand.flight? = some f ∨ .advance f ∈ m.queue
  listed : m.IsListed

/-- The permits are out or at hand, and as many requests are under way as are counted. -/
structure Counts (limit : Nat) (hand : Hand) (m : Machine σ) : Prop where
  permits : ∃ p, m.permits = some p ∧ p + m.active + m.entering + hand.permits = limit ∧
    (m.parked ≠ [] → p = 0)
  peak : m.peak ≤ limit
  active : m.active + hand.counted m = m.underWay + hand.underWay

section Attending

variable {count : Nat} {hand hand' : Hand} {m m' : Machine σ} {i f : Nat} {flight : Flight}

/-- The world is nobody's concern here. -/
theorem Attends.congr (h : Attends count hand m) (hqueue : m'.queue = m.queue)
    (hrequests : m'.requests = m.requests) (hflights : m'.flights = m.flights) (htable : m'.table = m.table)
    (hparked : m'.parked = m.parked) : Attends count hand m' := by
  have hdue : ∀ j, m'.due j = m.due j := fun j => by
    unfold due
    rw [hqueue]
  have hrequest : ∀ j, m'.request j = m.request j := request_congr hrequests
  constructor
  · rw [hrequests]
    exact h.length
  · rw [hparked]
    exact h.nodup
  · intro j hj
    rw [hdue, hparked] at hj
    exact h.known j hj
  · intro j hj hne
    rw [hrequest]
    exact (h.stands j hj hne).congr (hdue j) (by rw [hparked]) hflights
  · intro j hj
    rw [hdue, hparked]
    exact h.held j hj
  · intro f flight hf hopen
    rw [hflights] at hf
    refine ⟨(h.aboard f flight hf hopen).1, fun j hj => ?_⟩
    rw [hrequest]
    exact (h.aboard f flight hf hopen).2 j hj
  · intro f flight hf hopen
    rw [hflights] at hf
    rw [hqueue]
    exact h.carried f flight hf hopen
  · intro key f hf
    rw [htable] at hf
    rw [hflights]
    exact h.listed key f hf

/-- Flights may be taken out of the table. -/
theorem Attends.forgets (h : Attends count hand m) (key : FlightKey) :
    Attends count hand { m with table := m.table.erase key } where
  length := h.length
  nodup := h.nodup
  known := h.known
  stands := fun j hj hne => (h.stands j hj hne).congr rfl Iff.rfl rfl
  held := h.held
  aboard := h.aboard
  carried := h.carried
  listed := fun key' g hg => by
    change (m.table.erase key).find? key' = some g at hg
    rw [Keyed.find?_erase] at hg
    split at hg
    · cases hg
    · exact h.listed key' g hg

theorem Attends.hold (h : Attends count hand m) (hrequest : hand'.request? = hand.request?)
    (hflight : hand'.flight? = hand.flight?) : Attends count hand' m where
  length := h.length
  nodup := h.nodup
  known := h.known
  stands := fun j hj hne => h.stands j hj (hrequest ▸ hne)
  held := fun j hj => h.held j (hrequest ▸ hj)
  aboard := fun f flight hf hopen => hrequest ▸ h.aboard f flight hf hopen
  carried := fun f flight hf hopen => hflight ▸ h.carried f flight hf hopen
  listed := h.listed

/-- A flight that has landed need not be carried on. -/
theorem Attends.drop (h : Attends count (.flies f) m)
    (hlanded : ∀ flight, m.flights[f]? = some flight → flight.outcome? ≠ none) : Attends count .empty m where
  length := h.length
  nodup := h.nodup
  known := h.known
  stands := h.stands
  held := nofun
  aboard := h.aboard
  carried := fun g flight hg hopen => by
    refine .inr ((h.carried g flight hg hopen).resolve_left fun heq => ?_)
    cases heq
    exact hlanded flight hg hopen
  listed := h.listed

/-- The request in the hand is put down where somebody will come back to it. -/
theorem Attends.put (h : Attends count hand m) (hi : hand.request? = some i) {r : Request}
    (hempty : hand'.request? = none) (hrequests : m'.requests = m.requests.set i r)
    (hdue : ∀ j ≠ i, m'.due j = m.due j) (hparked : ∀ j ≠ i, j ∈ m'.parked ↔ j ∈ m.parked)
    (hnodup : m'.parked.Nodup) (hflights : m'.flights = m.flights) (htable : m'.table = m.table)
    (hqueue : ∀ f, .advance f ∈ m.queue → .advance f ∈ m'.queue) (hstands : Stands m' i r) :
    Attends count hand' m' := by
  have hcount := (h.held i hi).1
  have hrequest : m'.request i = r := by
    rw [request_congr (m := m.setRequest i r) hrequests]
    exact request_setRequest_self (h.length.symm ▸ hcount) r
  have hothers : ∀ j ≠ i, m'.request j = m.request j := fun j hj => by
    rw [request_congr (m := m.setRequest i r) hrequests]
    exact request_setRequest_of_ne m hj r
  constructor
  · rw [hrequests, List.length_set]
    exact h.length
  · exact hnodup
  · intro j hj
    by_cases hji : j = i
    · exact hji ▸ hcount
    · rw [hdue j hji, hparked j hji] at hj
      exact h.known j hj
  · intro j hj _
    by_cases hji : j = i
    · subst hji
      rw [hrequest]
      exact hstands
    · rw [hothers j hji]
      refine (h.stands j hj ?_).congr (hdue j hji) (hparked j hji) hflights
      rw [hi]
      exact fun heq => hji (Option.some.inj heq).symm
  · intro j hj
    rw [hempty] at hj
    cases hj
  · intro f flight hf hopen
    rw [hflights] at hf
    obtain ⟨hwaiters, haboard⟩ := h.aboard f flight hf hopen
    refine ⟨hwaiters, fun j hj => ⟨hempty ▸ nofun, ?_⟩⟩
    have hji : j ≠ i := fun heq => (haboard j hj).1 (heq ▸ hi)
    rw [hothers j hji]
    exact (haboard j hj).2
  · intro f flight hf hopen
    rw [hflights] at hf
    right
    refine (h.carried f flight hf hopen).elim (fun hflight => ?_) (hqueue f)
    -- a hand with a request in it has no flight
    cases hand with
    | empty => cases hi
    | permit => cases hi
    | flies f => cases hi
    | asks j => cases hflight
    | holds j => cases hflight
    | works j => cases hflight
  · intro key f hf
    rw [htable] at hf
    rw [hflights]
    exact h.listed key f hf

/-- A request that has to wait for a permit. -/
theorem Attends.parks (h : Attends count (.asks i) m) :
    Attends count .empty ({ m with parked := m.parked ++ [i] }.setRequest i .parked) := by
  obtain ⟨-, hdue, hout⟩ := h.held i rfl
  refine h.put rfl rfl rfl (fun _ _ => rfl) (fun j hj => ?_) ?_ rfl rfl (fun _ h => h) (.parked hdue ?_)
  · change j ∈ m.parked ++ [i] ↔ _
    rw [List.mem_append, List.mem_singleton, or_iff_left hj]
  · exact h.nodup.append (List.nodup_singleton i) (List.disjoint_singleton.mpr hout)
  · exact List.mem_append_right _ (List.mem_singleton_self i)

/-- A request that ends. -/
theorem Attends.ends (h : Attends count (.works i) m) (active : Nat) (o : Except Failure Artifact) :
    Attends count .permit ({ m with active := active }.setRequest i (.settled o)) := by
  obtain ⟨-, hdue, hout⟩ := h.held i rfl
  exact h.put rfl rfl rfl (fun _ _ => rfl) (fun _ _ => Iff.rfl) h.nodup rfl rfl (fun _ h => h)
    (.settled hdue hout)

/-- A request that gives way and will be gone on with. -/
theorem Attends.pauses (h : Attends count (.works i) m) {r : Request} {job : Job} (hjob : job.request? = some i)
    (hstands : ∀ m' : Machine σ, m'.due i = [job] → i ∉ m'.parked → Stands m' i r) :
    Attends count .empty ((m.setRequest i r).push [job]) := by
  obtain ⟨-, hdue, hout⟩ := h.held i rfl
  refine h.put rfl rfl rfl (fun j hj => ?_) (fun _ _ => Iff.rfl) h.nodup rfl rfl
    (fun _ h => List.mem_append_left _ h) (hstands _ ?_ hout)
  · rw [due_push_of_other (List.forall_mem_singleton.mpr ?_)]
    · rfl
    · rw [hjob]
      exact fun heq => hj (Option.some.inj heq).symm
  · rw [due_push_self hjob]
    change m.due i ++ [job] = [job]
    rw [hdue]
    rfl

/-- A permit goes to the first request that waits for one. -/
theorem Attends.release (h : Attends count .permit m) : Attends count .empty m.release := by
  have hheld : Attends count .empty m := h.hold rfl rfl
  unfold Machine.release
  split
  · exact hheld
  · split
    · exact hheld.congr rfl rfl rfl rfl rfl
    · rename_i j rest hparked
      have hnodup := h.nodup
      rw [hparked, List.nodup_cons] at hnodup
      have hj : j ∈ m.parked := hparked ▸ List.mem_cons_self
      -- the request that enters is the only one that is concerned
      have hother : ∀ k ≠ j, ∀ job ∈ [Job.enter j], job.request? ≠ some k := fun k hk =>
        List.forall_mem_singleton.mpr fun heq => hk (Option.some.inj heq).symm
      have hdue : ∀ k ≠ j, ({ m with parked := rest }.push [.enter j]).due k = m.due k := fun k hk =>
        due_push_of_other (hother k hk)
      have hstands := h.stands j (h.known j (.inr hj)) nofun
      have hparks : ∀ k ≠ j, k ∈ rest ↔ k ∈ m.parked := fun k hk => by
        rw [hparked, List.mem_cons, or_iff_right hk]
      constructor
      · exact h.length
      · exact hnodup.2
      · intro k hk
        by_cases hkj : k = j
        · exact hkj ▸ h.known j (.inr hj)
        · rw [hdue k hkj] at hk
          exact h.known k (hk.imp id (hparks k hkj).mp)
      · intro k hk _
        by_cases hkj : k = j
        · subst hkj
          obtain ⟨hr, hnone⟩ := hstands.of_parked hj
          change Stands _ k (m.request k)
          rw [hr]
          refine .entering ?_ hnodup.1
          rw [due_push_self rfl]
          change m.due k ++ _ = _
          rw [hnone]
          rfl
        · exact (h.stands k hk nofun).congr (hdue k hkj) (hparks k hkj) rfl
      · exact nofun
      · exact fun f flight hf hopen => h.aboard f flight hf hopen
      · exact fun f flight hf hopen => (h.carried f flight hf hopen).imp id (List.mem_append_left _)
      · exact h.listed

/-- The request in the hand boards a flight. -/
theorem Attends.boards (h : Attends count (.works i) m) (hrequests : m'.requests = m.requests.set i (.waiting f))
    (hdue : ∀ j, m'.due j = m.due j) (hparked : m'.parked = m.parked)
    (hself : ∃ flight' : Flight, m'.flights[f]? = some flight' ∧ flight'.outcome? = none ∧ i ∈ flight'.waiters)
    (hold : ∀ (g : Nat) (flight : Flight), m.flights[g]? = some flight → ∃ flight' : Flight, m'.flights[g]? = some flight' ∧
      flight'.outcome? = flight.outcome? ∧ ∀ j ∈ flight.waiters, j ∈ flight'.waiters)
    (hnew : ∀ (g : Nat) (flight' : Flight), m'.flights[g]? = some flight' → flight'.outcome? = none →
      .advance g ∈ m'.queue ∧ flight'.waiters.Nodup ∧ ∀ j ∈ flight'.waiters, j = i ∧ g = f ∨
        ∃ flight : Flight, m.flights[g]? = some flight ∧ flight.outcome? = none ∧ j ∈ flight.waiters)
    (hlisted : m'.IsListed) : Attends count .empty m' := by
  obtain ⟨hcount, hnone, hout⟩ := h.held i rfl
  have hrequest : m'.request i = .waiting f := by
    rw [request_congr (m := m.setRequest i (.waiting f)) hrequests]
    exact request_setRequest_self (h.length.symm ▸ hcount) _
  have hothers : ∀ j ≠ i, m'.request j = m.request j := fun j hj => by
    rw [request_congr (m := m.setRequest i (.waiting f)) hrequests]
    exact request_setRequest_of_ne m hj _
  constructor
  · rw [hrequests, List.length_set]
    exact h.length
  · exact hparked ▸ h.nodup
  · intro j hj
    rw [hdue, hparked] at hj
    exact h.known j hj
  · intro j hj _
    by_cases hji : j = i
    · subst hji
      obtain ⟨flight', hf, hopen, haboard⟩ := hself
      rw [hrequest]
      exact .waiting ((hdue j).trans hnone) (hparked ▸ hout) hf hopen haboard
    · rw [hothers j hji]
      refine (h.stands j hj fun heq => hji (Option.some.inj heq).symm).keep (hdue j) (by rw [hparked]) ?_
      intro g flight _ hg
      obtain ⟨flight', hg', houtcome, haboard⟩ := hold g flight hg
      exact ⟨flight', hg', houtcome, haboard j⟩
  · exact nofun
  · intro g flight' hg hopen
    obtain ⟨-, hnodup, haboard⟩ := hnew g flight' hg hopen
    refine ⟨hnodup, fun j hj => ⟨nofun, ?_⟩⟩
    rcases haboard j hj with ⟨rfl, rfl⟩ | ⟨flight, hg', hopen', hj'⟩
    · exact hrequest
    · obtain ⟨hother, hwaits⟩ := (h.aboard g flight hg' hopen').2 j hj'
      rw [hothers j fun heq => hother (congrArg some heq.symm)]
      exact hwaits
  · exact fun g flight' hg hopen => .inr (hnew g flight' hg hopen).1
  · exact hlisted

/-- The flight of its key is under way. -/
theorem Attends.joins (h : Attends count (.works i) m) (hf : m.flights[f]? = some flight)
    (hopen : flight.outcome? = none) :
    Attends count .empty
      ((m.setFlight f { flight with waiters := flight.waiters ++ [i] }).setRequest i (.waiting f)) := by
  obtain ⟨hlt, -⟩ := List.getElem?_eq_some_iff.mp hf
  have hself : (m.setFlight f { flight with waiters := flight.waiters ++ [i] }).flights[f]? =
      some { flight with waiters := flight.waiters ++ [i] } := List.getElem?_set_self hlt
  have hold : ∀ (g : Nat) (flight' : Flight), m.flights[g]? = some flight' → ∃ flight'' : Flight,
      (m.setFlight f { flight with waiters := flight.waiters ++ [i] }).flights[g]? = some flight'' ∧
      flight''.outcome? = flight'.outcome? ∧ ∀ j ∈ flight'.waiters, j ∈ flight''.waiters := by
    intro g flight' hg
    by_cases hgf : g = f
    · subst hgf
      cases hf.symm.trans hg
      exact ⟨_, hself, rfl, fun j hj => List.mem_append_left _ hj⟩
    · exact ⟨flight', (List.getElem?_set_ne (Ne.symm hgf)).trans hg, rfl, fun _ hj => hj⟩
  refine h.boards rfl (fun _ => rfl) rfl ⟨_, hself, hopen, ?_⟩ hold ?_ ?_
  · exact List.mem_append_right _ (List.mem_singleton_self i)
  · intro g flight' hg hopen'
    rcases Sound.of_setFlight hf hg with ⟨rfl, rfl⟩ | ⟨-, hg'⟩
    · obtain ⟨hnodup, haboard⟩ := h.aboard g flight hf hopen
      refine ⟨(h.carried g flight hf hopen).resolve_left nofun, ?_, ?_⟩
      · refine hnodup.append (List.nodup_singleton i) (List.disjoint_singleton.mpr ?_)
        exact fun hi => (haboard i hi).1 rfl
      · intro j hj
        rcases List.mem_append.mp hj with hj | hj
        · exact .inr ⟨flight, hf, hopen, hj⟩
        · exact .inl ⟨List.mem_singleton.mp hj, rfl⟩
    · refine ⟨(h.carried g flight' hg' hopen').resolve_left nofun, (h.aboard g flight' hg' hopen').1, ?_⟩
      exact fun j hj => .inr ⟨flight', hg', hopen', hj⟩
  · intro key g hg
    obtain ⟨flight', hg'⟩ := h.listed key g hg
    obtain ⟨flight'', hg'', -⟩ := hold g flight' hg'
    exact ⟨flight'', hg''⟩

/-- There is no flight for its key, and one starts. -/
theorem Attends.founds (h : Attends count (.works i) m) (key : FlightKey) (errand : Errand) :
    Attends count .empty
      ((({ m with
        flights := m.flights ++ [⟨key, errand, .looking, [i]⟩]
        table := m.table.set key m.flights.length } : Machine σ).push
          [.advance m.flights.length]).setRequest i (.waiting m.flights.length)) := by
  have hself : (m.flights ++ [(⟨key, errand, .looking, [i]⟩ : Flight)])[m.flights.length]? =
      some ⟨key, errand, .looking, [i]⟩ := List.getElem?_concat_length
  have hold : ∀ (g : Nat) (flight' : Flight), m.flights[g]? = some flight' →
      (m.flights ++ [(⟨key, errand, .looking, [i]⟩ : Flight)])[g]? = some flight' := by
    intro g flight' hg
    obtain ⟨hlt, -⟩ := List.getElem?_eq_some_iff.mp hg
    exact (List.getElem?_append_left hlt).trans hg
  refine h.boards rfl (fun j => due_push_none rfl) rfl ⟨_, hself, rfl, List.mem_singleton_self i⟩ ?_ ?_ ?_
  · exact fun g flight' hg => ⟨flight', hold g flight' hg, rfl, fun _ hj => hj⟩
  · intro g flight' hg hopen
    change (m.flights ++ [(⟨key, errand, .looking, [i]⟩ : Flight)])[g]? = some flight' at hg
    by_cases hlt : g < m.flights.length
    · rw [List.getElem?_append_left hlt] at hg
      refine ⟨List.mem_append_left _ ((h.carried g flight' hg hopen).resolve_left nofun),
        (h.aboard g flight' hg hopen).1, fun j hj => .inr ⟨flight', hg, hopen, hj⟩⟩
    · obtain ⟨hle, -⟩ := List.getElem?_eq_some_iff.mp hg
      rw [List.length_append, List.length_singleton] at hle
      obtain rfl : g = m.flights.length := by omega
      cases hself.symm.trans hg
      refine ⟨List.mem_append_right _ (List.mem_singleton_self _), List.nodup_singleton i, ?_⟩
      exact fun j hj => .inl ⟨List.mem_singleton.mp hj, rfl⟩
  · intro key' g hg
    change (m.table.set key m.flights.length).find? key' = some g at hg
    rw [Keyed.find?_set] at hg
    split at hg
    · cases hg
      exact ⟨_, hself⟩
    · obtain ⟨flight', hg'⟩ := h.listed key' g hg
      exact ⟨flight', hold g flight' hg'⟩

/-- The flight in the hand goes on or lands. -/
theorem Attends.flies (h : Attends count (.flies f) m) (hf : m.flights[f]? = some flight)
    (hopen : flight.outcome? = none) {changed : Flight} {jobs : List Job}
    (hwaiters : changed.waiters = flight.waiters)
    (hothers : ∀ j ∉ flight.waiters, ∀ job ∈ jobs, job.request? ≠ some j)
    (hadvance : changed.outcome? = none → .advance f ∈ jobs)
    (hstands : ∀ m' : Machine σ, m'.flights[f]? = some changed → ∀ j ∈ flight.waiters,
      m'.due j = jobs.filter (fun job => job.request? == some j) → j ∉ m'.parked →
      Stands m' j (.waiting f)) :
    Attends count .empty ((m.setFlight f changed).push jobs) := by
  obtain ⟨hlt, -⟩ := List.getElem?_eq_some_iff.mp hf
  have hself : (m.setFlight f changed).flights[f]? = some changed := List.getElem?_set_self hlt
  obtain ⟨hnodup, haboard⟩ := h.aboard f flight hf hopen
  have hdue : ∀ j ∉ flight.waiters, ((m.setFlight f changed).push jobs).due j = m.due j := fun j hj =>
    due_push_of_other (hothers j hj)
  -- a passenger of the flight stands in it, and nothing else is pending for it
  have hwaits : ∀ j ∈ flight.waiters, j < count → m.due j = [] ∧ j ∉ m.parked := by
    intro j hj hcount
    have hstood := h.stands j hcount nofun
    rw [(haboard j hj).2] at hstood
    cases hstood with
    | waiting due out => exact ⟨due, out⟩
    | told due out found landed =>
      cases hf.symm.trans found
      cases hopen.symm.trans landed
  have hcounts : ∀ j ∈ flight.waiters, j < count := by
    intro j hj
    by_contra hge
    have hfresh : m.request j = .fresh := by
      unfold request
      rw [List.getElem?_eq_none (by rw [h.length]; omega)]
      rfl
    cases hfresh.symm.trans (haboard j hj).2
  constructor
  · exact h.length
  · exact h.nodup
  · intro j hj
    by_cases hpassenger : j ∈ flight.waiters
    · exact hcounts j hpassenger
    · rw [hdue j hpassenger] at hj
      exact h.known j hj
  · intro j hj _
    by_cases hpassenger : j ∈ flight.waiters
    · have hnone : (m.setFlight f changed).due j = [] := (hwaits j hpassenger hj).1
      change Stands _ j (m.request j)
      rw [(haboard j hpassenger).2]
      refine hstands ((m.setFlight f changed).push jobs) hself j hpassenger ?_ (hwaits j hpassenger hj).2
      rw [due_push, hnone, List.nil_append]
    · refine (h.stands j hj nofun).keep (hdue j hpassenger) Iff.rfl ?_
      intro g flight' hwaiting hg
      by_cases hgf : g = f
      · subst hgf
        cases hf.symm.trans hg
        have hstood := h.stands j hj nofun
        rw [hwaiting] at hstood
        cases hstood with
        | waiting due out found opened aboard =>
          cases hf.symm.trans found
          exact (hpassenger aboard).elim
        | told due out found landed =>
          cases hf.symm.trans found
          cases hopen.symm.trans landed
      · exact ⟨flight', (List.getElem?_set_ne (Ne.symm hgf)).trans hg, rfl, id⟩
  · exact nofun
  · intro g flight' hg hopen'
    rcases Sound.of_setFlight hf hg with ⟨rfl, rfl⟩ | ⟨-, hg'⟩
    · rw [hwaiters]
      exact h.aboard g flight hf hopen
    · exact h.aboard g flight' hg' hopen'
  · intro g flight' hg hopen'
    right
    rcases Sound.of_setFlight hf hg with ⟨rfl, rfl⟩ | ⟨hgf, hg'⟩
    · exact List.mem_append_right _ (hadvance hopen')
    · refine List.mem_append_left _ ((h.carried g flight' hg' hopen').resolve_left ?_)
      exact fun heq => hgf (Option.some.inj heq).symm
  · intro key g hg
    obtain ⟨flight', hg'⟩ := h.listed key g hg
    by_cases hgf : g = f
    · exact ⟨changed, hgf ▸ hself⟩
    · exact ⟨flight', (List.getElem?_set_ne (Ne.symm hgf)).trans hg'⟩

theorem Attends.carries (h : Attends count (.flies f) m) (hf : m.flights[f]? = some flight)
    (hopen : flight.outcome? = none) {stage : Stage}
    (hstage : Flight.outcome? { flight with stage := stage } = none) :
    Attends count .empty ((m.setFlight f { flight with stage := stage }).push [.advance f]) := by
  refine h.flies hf hopen rfl (fun j _ => List.forall_mem_singleton.mpr nofun)
    (fun _ => List.mem_singleton_self _) ?_
  exact fun m' hself j hj hdue hout => .waiting hdue hout hself hstage hj

/-- Those who wait for a flight that lands will be told. -/
theorem Attends.lands (h : Attends count (.flies f) m) (hf : m.flights[f]? = some flight)
    (hopen : flight.outcome? = none) (o : Except Failure Artifact) :
    Attends count .empty ((m.setFlight f { flight with stage := .landed o }).push
      (.forget f :: flight.waiters.map (.deliver f))) := by
  refine h.flies hf hopen rfl ?_ nofun ?_
  · intro j hj job hjob
    rcases List.mem_cons.mp hjob with rfl | hjob
    · exact nofun
    · obtain ⟨k, hk, rfl⟩ := List.mem_map.mp hjob
      exact fun heq => hj (Option.some.inj heq ▸ hk)
  · intro m' hself j hj hdue hout
    refine .told (hdue.trans ?_) hout hself rfl
    rw [List.filter_cons_of_neg (by simp [Job.request?]), List.filter_map]
    have hone : flight.waiters.filter ((fun job : Job => job.request? == some j) ∘ Job.deliver f) = [j] := by
      have hiff : ((fun job : Job => job.request? == some j) ∘ Job.deliver f) = fun k => k == j := by
        funext k
        exact Option.some_beq_some
      rw [hiff, List.filter_beq, List.count_eq_one_of_mem (h.aboard f flight hf hopen).1 hj]
      rfl
    rw [hone]
    rfl

section Taking

variable {before after : List Job} {job : Job}

theorem due_taken_of_other (hpending : m.queue = before ++ job :: after) {j : Nat}
    (hj : job.request? ≠ some j) : due { m with queue := before ++ after } j = m.due j := by
  unfold due
  rw [hpending, List.filter_append, List.filter_append, List.filter_cons_of_neg (by simpa using hj)]

theorem due_taken_self (hpending : m.queue = before ++ job :: after) (hi : job.request? = some i)
    (hone : m.due i = [job]) : due { m with queue := before ++ after } i = [] := by
  unfold due at hone ⊢
  rw [hpending, List.filter_append, List.filter_cons_of_pos (by simp [hi])] at hone
  have hlength := congrArg List.length hone
  rw [List.length_append, List.length_cons, List.length_singleton] at hlength
  refine List.length_eq_zero_iff.mp ?_
  rw [List.filter_append, List.length_append]
  omega

/-- The request of a pending job can only stand as the job is meant. -/
theorem Attends.suits (h : Attends count .empty m) (hpending : m.queue = before ++ job :: after)
    (hi : job.request? = some i) : m.due i = [job] ∧ i ∉ m.parked ∧ Suits m.flights i job (m.request i) := by
  have hjob : job ∈ m.due i := by
    refine List.mem_filter.mpr ⟨?_, by simp [hi]⟩
    rw [hpending]
    exact List.mem_append_right _ List.mem_cons_self
  exact (h.stands i (h.known i (.inl (List.ne_nil_of_mem hjob))) nofun).suits hjob

/-- A job that is taken up leaves its request, or its flight, in the hand. -/
theorem Attends.takes (h : Attends count .empty m) (hpending : m.queue = before ++ job :: after) :
    Attends count (.ofJob job) { m with queue := before ++ after } := by
  have hmem : ∀ job', job' ∈ m.queue → job' = job ∨ job' ∈ before ++ after := by
    intro job' hjob'
    rw [hpending, List.mem_append, List.mem_cons] at hjob'
    rw [List.mem_append]
    exact hjob'.elim (fun h => .inr (.inl h)) (Or.imp id .inr)
  have hdue : ∀ j, due { m with queue := before ++ after } j ≠ [] → m.due j ≠ [] := by
    intro j hj hnone
    by_cases hself : job.request? = some j
    · exact (h.suits hpending hself).1.symm.trans hnone |> List.cons_ne_nil _ _
    · exact hj ((due_taken_of_other hpending hself).trans hnone)
  constructor
  · exact h.length
  · exact h.nodup
  · exact fun j hj => h.known j (hj.imp (hdue j) id)
  · intro j hj hne
    rw [Hand.request?_ofJob] at hne
    exact (h.stands j hj nofun).congr (due_taken_of_other hpending hne) Iff.rfl rfl
  · intro i hi
    rw [Hand.request?_ofJob] at hi
    obtain ⟨hone, hout, -⟩ := h.suits hpending hi
    exact ⟨h.known i (.inl (hone ▸ List.cons_ne_nil _ _)), due_taken_self hpending hi hone, hout⟩
  · intro f flight hf hopen
    refine ⟨(h.aboard f flight hf hopen).1, fun j hj => ?_⟩
    have hwaits := ((h.aboard f flight hf hopen).2 j hj).2
    refine ⟨fun hi => ?_, hwaits⟩
    rw [Hand.request?_ofJob] at hi
    -- a passenger that is told has landed
    have hsuits := (h.suits hpending hi).2.2
    rw [hwaits] at hsuits
    cases hsuits with
    | deliver found landed =>
      cases hf.symm.trans found
      cases hopen.symm.trans landed
  · intro f flight hf hopen
    refine ((hmem _ ((h.carried f flight hf hopen).resolve_left nofun))).imp (fun heq => ?_) id
    rw [← heq]
    rfl
  · exact h.listed

end Taking

end Attending

section Counting

variable {limit : Nat} {hand hand' : Hand} {m m' : Machine σ} {i : Nat}

theorem underWay_set (m : Machine σ) (hi : i < m.requests.length) (r : Request) :
    ((m.requests.set i r).map Request.underWay).sum + (m.request i).underWay = m.underWay + r.underWay := by
  refine sum_map_set Request.underWay (b := m.request i) ?_
  unfold request
  rw [List.getElem?_eq_getElem hi]
  rfl

theorem entering_push (m : Machine σ) (jobs : List Job) :
    (m.push jobs).entering = m.entering + (jobs.map Job.enters).sum := by
  simp only [entering, push, List.map_append, List.sum_append]

/-- A job that is taken up takes its permit with it. -/
theorem Counts.takes {before after : List Job} {job : Job} (h : Counts limit .empty m)
    (hpending : m.queue = before ++ job :: after)
    (hsuits : ∀ i, job.request? = some i → Suits m.flights i job (m.request i)) :
    Counts limit (.ofJob job) { m with queue := before ++ after } := by
  obtain ⟨p, hp, hlimit, hparked⟩ := h.permits
  have hentering : entering { m with queue := before ++ after } + (Hand.ofJob job).permits = m.entering := by
    have henters : (Hand.ofJob job).permits = job.enters := by cases job <;> rfl
    simp only [entering, hpending, henters, List.map_append, List.map_cons, List.sum_append, List.sum_cons]
    omega
  have hcounted : (Hand.ofJob job).counted m = (Hand.ofJob job).underWay := by
    unfold Hand.counted
    cases hi : job.request? with
    | none =>
      rw [Hand.request?_ofJob, hi]
      cases job <;> first | rfl | cases hi
    | some i =>
      rw [Hand.request?_ofJob, hi]
      have hsuited := hsuits i hi
      simp only [Option.map_some, Option.getD_some]
      generalize m.request i = r at hsuited
      cases hsuited <;> rfl
  refine ⟨⟨p, hp, ?_, hparked⟩, h.peak, ?_⟩
  · simp only [Hand.permits] at hlimit
    change p + m.active + _ + _ = _
    omega
  · have hactive := h.active
    simp only [Hand.counted, Hand.request?, Option.map_none, Option.getD_none, Hand.underWay] at hactive
    change m.active + (Hand.ofJob job).counted m = m.underWay + _
    rw [hcounted]
    omega

/-- The request in the hand is put down, and goes on counting as it did. -/
theorem Counts.put (h : Counts limit hand m) (hi : hand.request? = some i) (hlt : i < m.requests.length)
    {r : Request} (hr : r.underWay = hand.underWay) (hempty : hand'.request? = none)
    (hidle : hand'.underWay = 0) (hsame : hand'.permits = hand.permits)
    (hrequests : m'.requests = m.requests.set i r) (hpermits : m'.permits = m.permits)
    (hactive : m'.active = m.active) (hentering : m'.entering = m.entering)
    (hparked : m'.parked ≠ [] → m.parked ≠ [] ∨ m.permits = some 0) (hpeak : m'.peak = m.peak) :
    Counts limit hand' m' := by
  obtain ⟨p, hp, hlimit, hnone⟩ := h.permits
  refine ⟨⟨p, hpermits.trans hp, ?_, fun hne => ?_⟩, hpeak ▸ h.peak, ?_⟩
  · rw [hactive, hentering, hsame]
    exact hlimit
  · exact (hparked hne).elim hnone fun hzero => Option.some.inj (hp.symm.trans hzero)
  · have hset := underWay_set m hlt r
    have hcounted := h.active
    simp only [Hand.counted, hi, Option.map_some, Option.getD_some] at hcounted
    have hnothing : hand'.counted m' = 0 := by
      rw [Hand.counted, hempty]
      rfl
    rw [hnothing, hidle, hactive, underWay, hrequests]
    omega

/-- A request gets a permit. -/
theorem Counts.grants (h : Counts limit (.asks i) m) {n : Nat} (hn : m.permits = some (n + 1)) :
    Counts limit (.holds i) { m with permits := some n } := by
  obtain ⟨p, hp, hlimit, hparked⟩ := h.permits
  cases hp.symm.trans hn
  refine ⟨⟨n, rfl, ?_, fun hne => ?_⟩, h.peak, h.active⟩
  · simp only [Hand.permits] at hlimit ⊢
    change n + m.active + m.entering + 1 = limit
    omega
  · cases hparked hne

/-- A request with a permit is under way. -/
theorem Counts.counted (h : Counts limit (.holds i) m) (w : World σ) :
    Counts limit (.works i) (m.counted w) := by
  obtain ⟨p, hp, hlimit, hparked⟩ := h.permits
  simp only [Hand.permits] at hlimit
  refine ⟨⟨p, hp, ?_, hparked⟩, ?_, ?_⟩
  · change p + (m.active + 1) + m.entering + 0 = limit
    omega
  · refine max_le h.peak ?_
    omega
  · have hactive : m.active + Hand.counted (.works i) m = m.underWay + 0 := h.active
    change m.active + 1 + Hand.counted (.works i) m = m.underWay + 1
    omega

/-- A request that ends leaves its permit. -/
theorem Counts.ends (h : Counts limit (.works i) m) (hlt : i < m.requests.length)
    (o : Except Failure Artifact) :
    Counts limit .permit ({ m with active := m.active - 1 }.setRequest i (.settled o)) := by
  obtain ⟨p, hp, hlimit, hparked⟩ := h.permits
  have hset : ((m.requests.set i (.settled o)).map Request.underWay).sum + (m.request i).underWay =
    m.underWay + 0 := underWay_set m hlt _
  have hactive : m.active + (m.request i).underWay = m.underWay + 1 := h.active
  simp only [Hand.permits] at hlimit
  refine ⟨⟨p, hp, ?_, hparked⟩, h.peak, ?_⟩
  · change p + (m.active - 1) + m.entering + 1 = limit
    omega
  · change m.active - 1 + 0 = ((m.requests.set i (.settled o)).map Request.underWay).sum + 0
    omega

theorem Counts.release (h : Counts limit .permit m) : Counts limit .empty m.release := by
  obtain ⟨p, hp, hlimit, hparked⟩ := h.permits
  simp only [Hand.permits] at hlimit
  unfold Machine.release
  split
  · rename_i hfree
    cases hp.symm.trans hfree
  · rename_i n hn
    cases hp.symm.trans hn
    split
    · rename_i hqueue
      refine ⟨⟨p + 1, rfl, ?_, fun hne => (hne hqueue).elim⟩, h.peak, h.active⟩
      change p + 1 + m.active + m.entering + 0 = limit
      omega
    · rename_i j rest hqueue
      refine ⟨⟨p, hp, ?_, fun _ => hparked (hqueue ▸ List.cons_ne_nil _ _)⟩, h.peak, h.active⟩
      rw [entering_push]
      change p + m.active + (m.entering + 1) + 0 = limit
      omega

/-- No request changes, and no permit. -/
theorem Counts.congr (h : Counts limit hand m) (hempty : hand.request? = none) (hempty' : hand'.request? = none)
    (hidle : hand'.underWay = hand.underWay) (hsame : hand'.permits = hand.permits)
    (hrequests : m'.requests = m.requests) (hpermits : m'.permits = m.permits) (hactive : m'.active = m.active)
    (hentering : m'.entering = m.entering) (hparked : m'.parked = m.parked) (hpeak : m'.peak = m.peak) :
    Counts limit hand' m' := by
  refine ⟨?_, hpeak ▸ h.peak, ?_⟩
  · rw [hpermits, hactive, hentering, hparked, hsame]
    exact h.permits
  · have hcounted := h.active
    rw [Hand.counted, hempty] at hcounted
    rw [Hand.counted, hempty', hactive, underWay, hrequests, hidle]
    exact hcounted

end Counting

/-- A machine that forgets nobody and keeps to its limit. -/
structure Keeps (limit count : Nat) (hand : Hand) (m : Machine σ) : Prop where
  attends : Attends count hand m
  counts : Counts limit hand m

/-- A machine is in order between its steps: it has been interrupted, or it keeps to its limit. -/
def IsOrderly (limit count : Nat) (m : Machine σ) : Prop :=
  m.isInterrupted = true ∧ m.queue = [] ∧ m.peak ≤ limit ∨ Keeps limit count .empty m

section Stepping

variable {limit count : Nat} {m m' : Machine σ} {i f : Nat} {crew : Crew σ} {plan : Nat → Work σ Opening}

theorem Keeps.orderly (h : Keeps limit count .empty m) : m.IsOrderly limit count := .inr h

theorem Keeps.lt (h : Keeps limit count (.works i) m) : i < m.requests.length :=
  h.attends.length.symm ▸ (h.attends.held i rfl).1

theorem Keeps.goes {hand : Hand} (h : Keeps limit count hand m) (w : World σ) :
    Keeps limit count hand { m with world := w } where
  attends := h.attends.congr rfl rfl rfl rfl rfl
  counts := ⟨h.counts.permits, h.counts.peak, h.counts.active⟩

theorem Keeps.settle (h : Keeps limit count (.works i) m) (o : Except Failure Artifact) :
    (m.settle i o).IsOrderly limit count := by
  have hreleased : Keeps limit count .empty
      ({ m with active := m.active - 1 }.setRequest i (.settled o)).release :=
    ⟨(h.attends.ends _ o).release, (h.counts.ends h.lt o).release⟩
  unfold Machine.settle
  simp only
  split
  · exact .inl ⟨rfl, rfl, hreleased.counts.peak⟩
  · exact .inr hreleased

/-- A request that is under way gives way. -/
theorem Keeps.pauses (h : Keeps limit count (.works i) m) {r : Request} {job : Job}
    (hr : r.underWay = 1) (hjob : job.request? = some i) (henters : job.enters = 0)
    (hstands : ∀ m' : Machine σ, m'.due i = [job] → i ∉ m'.parked → Stands m' i r) :
    Keeps limit count .empty ((m.setRequest i r).push [job]) where
  attends := h.attends.pauses hjob hstands
  counts := h.counts.put rfl h.lt hr rfl rfl rfl rfl rfl rfl
    ((entering_push _ _).trans (by simp only [List.map_cons, List.map_nil, henters, List.sum_cons]; rfl))
    .inl rfl

theorem Keeps.shares (h : Keeps limit count (.works i) m) {key : FlightKey} {errand : Errand}
    (hshares : Shares m i key errand f m') : m'.IsOrderly limit count := by
  cases hshares with
  | landed listed found outcome => exact (h.goes _).settle _
  | joined listed found opened =>
    exact .inr ⟨(h.goes _).attends.joins found opened,
      (h.goes _).counts.put rfl h.lt rfl rfl rfl rfl rfl rfl rfl rfl .inl rfl⟩
  | started free new =>
    subst new
    exact .inr ⟨h.attends.founds key errand,
      h.counts.put rfl h.lt rfl rfl rfl rfl rfl rfl rfl (entering_push _ _) .inl rfl⟩

theorem Keeps.start (h : Keeps limit count (.holds i) m) : (m.start plan i).IsOrderly limit count := by
  have hworks : ∀ w, Keeps limit count (.works i) (m.counted w) := fun w =>
    ⟨.congr (h.attends.hold rfl rfl) rfl rfl rfl rfl rfl, h.counts.counted w⟩
  have hstarts := starts plan m h.attends.listed i
  generalize m.start plan i = m' at hstarts
  cases hstarts with
  | settled stays => exact (hworks _).settle _
  | busy stays => exact ((hworks _).pauses rfl rfl rfl fun _ => .busy).orderly
  | shared plans boards shares => exact (hworks _).shares shares

theorem Keeps.admission (h : Keeps limit count (.asks i) m) : (m.admission plan i).IsOrderly limit count := by
  have hlt : i < m.requests.length := h.attends.length.symm ▸ (h.attends.held i rfl).1
  have hparks : m.parked ≠ [] ∨ m.permits = some 0 → Keeps limit count .empty
      ({ m with parked := m.parked ++ [i] }.setRequest i .parked) := fun hwaits =>
    ⟨h.attends.parks, h.counts.put rfl hlt rfl rfl rfl rfl rfl rfl rfl rfl (fun _ => hwaits) rfl⟩
  obtain ⟨p, hp, -⟩ := h.counts.permits
  unfold Machine.admission
  split
  · rename_i hfree
    cases hp.symm.trans hfree
  · rename_i hzero
    exact .inr (hparks (.inr hzero))
  · rename_i n hn
    split
    · have hholds : Keeps limit count (.holds i) { m with permits := some n } :=
        ⟨.congr (h.attends.hold rfl rfl) rfl rfl rfl rfl rfl, h.counts.grants hn⟩
      exact hholds.start
    · rename_i hwaits
      exact .inr (hparks (.inl fun hnone => hwaits (hnone ▸ rfl)))

theorem Keeps.arrive (h : Keeps limit count (.flies f) m) {flight : Flight} (hf : m.flights[f]? = some flight)
    (hopen : flight.outcome? = none) (reached : Stage × World σ) :
    (m.arrive f flight reached).IsOrderly limit count := by
  obtain ⟨stage, w⟩ := reached
  have hcarries : Flight.outcome? { flight with stage := stage } = none → Keeps limit count .empty
      (({ m with world := w } : Machine σ).setFlight f { flight with stage := stage } |>.push [.advance f]) :=
    fun hstage => ⟨(h.goes w).attends.carries hf hopen hstage,
      h.counts.congr rfl rfl rfl rfl rfl rfl rfl (entering_push _ _) rfl rfl⟩
  cases stage with
  | looking => exact .inr (hcarries rfl)
  | fetching waited rest => exact .inr (hcarries rfl)
  | landed o =>
    have hnone : ((Job.forget f :: flight.waiters.map (Job.deliver f)).map Job.enters).sum = 0 := by
      refine List.sum_eq_zero fun n hn => ?_
      simp only [List.map_cons, List.map_map, List.mem_cons, List.mem_map, Function.comp_apply] at hn
      rcases hn with rfl | ⟨i, -, rfl⟩ <;> rfl
    have hlands : Keeps limit count .empty (({ m with world := w } : Machine σ).setFlight f
        { flight with stage := .landed o } |>.push (.forget f :: flight.waiters.map (.deliver f))) :=
      ⟨(h.goes w).attends.lands hf hopen o,
        h.counts.congr rfl rfl rfl rfl rfl rfl rfl ((entering_push _ _).trans (congrArg _ hnone)) rfl rfl⟩
    unfold Machine.arrive Machine.land
    simp only
    split
    · exact .inl ⟨rfl, rfl, hlands.counts.peak⟩
    · exact .inr hlands

theorem Keeps.advance (h : Keeps limit count (.flies f) m) : (m.advance crew f).IsOrderly limit count := by
  rcases advance_cases crew m f with ⟨flight, hf, hopen, harrives⟩ | ⟨hlanded, hsame⟩
  · rw [harrives]
    exact h.arrive hf hopen _
  · rw [hsame]
    exact .inr ⟨h.attends.drop hlanded, h.counts.congr rfl rfl rfl rfl rfl rfl rfl rfl rfl rfl⟩

/-- Whatever pending job is performed, the machine stays in order. -/
theorem IsOrderly.perform (h : m.IsOrderly limit count) {before after : List Job} {job : Job}
    (hpending : m.queue = before ++ job :: after) :
    ({ m with queue := before ++ after }.perform crew plan job).IsOrderly limit count := by
  have hkeeps : Keeps limit count .empty m := h.resolve_left fun hended => by
    rw [hended.2.1] at hpending
    exact List.append_ne_nil_of_right_ne_nil _ (List.cons_ne_nil _ _) hpending.symm
  have hsuits : ∀ i, job.request? = some i → Suits m.flights i job (m.request i) := fun i hi =>
    (hkeeps.attends.suits hpending hi).2.2
  have htaken : Keeps limit count (.ofJob job) { m with queue := before ++ after } :=
    ⟨hkeeps.attends.takes hpending, hkeeps.counts.takes hpending hsuits⟩
  change ∀ i, job.request? = some i → Suits _ i job (request { m with queue := before ++ after } i) at hsuits
  change ∀ i, _ → Suits (Machine.flights { m with queue := before ++ after }) i job _ at hsuits
  generalize ({ m with queue := before ++ after } : Machine σ) = m₁ at htaken hsuits ⊢
  cases job with
  | begin i => exact htaken.admission
  | enter i => exact htaken.start
  | advance f => exact htaken.advance
  | forget f =>
    unfold Machine.perform
    simp only
    split
    · exact .inr ⟨htaken.attends.forgets _, ⟨htaken.counts.permits, htaken.counts.peak, htaken.counts.active⟩⟩
    · exact .inr htaken
  | tick i =>
    have hsuited := hsuits i rfl
    unfold Machine.perform
    simp only
    generalize hr : m₁.request i = r at hsuited
    cases hsuited with
    | @tick n o =>
      cases n with
      | zero => exact htaken.settle o
      | succ n => exact .inr (htaken.pauses rfl rfl rfl fun _ => .busy)
  | deliver f i =>
    have hsuited := hsuits i rfl
    unfold Machine.perform
    simp only
    generalize hr : m₁.request i = r at hsuited
    cases hsuited with
    | deliver found landed =>
      simp only [found, Option.bind_some, landed, if_true]
      exact .inr (htaken.pauses rfl rfl rfl fun _ => .informed)
  | resume i =>
    have hsuited := hsuits i rfl
    unfold Machine.perform
    simp only
    generalize hr : m₁.request i = r at hsuited
    cases hsuited with
    | resume => exact htaken.settle _
  | cancel i => cases hsuits i rfl

/-- All through a run. -/
theorem IsOrderly.steps (h : m.IsOrderly limit count) (hsteps : Relation.ReflTransGen (Step crew plan) m m') :
    m'.IsOrderly limit count := by
  induction hsteps with
  | refl => exact h
  | tail _ hstep ih =>
    obtain ⟨before, job, after, hpending⟩ := hstep
    exact ih.perform hpending

/-- Before anything is asked. -/
theorem IsOrderly.initial (w : World σ) {limit : Nat} (count : Nat) :
    (Machine.initial w count (some limit)).IsOrderly limit count := by
  have hfresh : ∀ i, (Machine.initial w count (some limit)).request i = .fresh := by
    intro i
    change ((List.replicate count Request.fresh)[i]?).getD .fresh = .fresh
    rw [List.getElem?_replicate]
    split <;> rfl
  have hdue : ∀ i, (Machine.initial w count (some limit)).due i = if i < count then [.begin i] else [] := by
    intro i
    change ((List.range count).map Job.begin).filter _ = _
    have hiff : ((fun job : Job => job.request? == some i) ∘ Job.begin) = fun k => k == i := by
      funext k
      exact Option.some_beq_some
    rw [List.filter_map, hiff, List.filter_beq]
    split
    · rename_i hi
      rw [List.count_eq_one_of_mem List.nodup_range (List.mem_range.mpr hi)]
      rfl
    · rename_i hi
      rw [List.count_eq_zero.mpr (mt List.mem_range.mp hi)]
      rfl
  have hnone : ∀ job ∈ (List.range count).map Job.begin, job.enters = 0 := by
    intro job hjob
    obtain ⟨i, -, rfl⟩ := List.mem_map.mp hjob
    rfl
  refine .inr ⟨⟨List.length_replicate, List.nodup_nil, ?_, ?_, nofun, nofun, nofun, nofun⟩,
    ⟨⟨limit, rfl, ?_, fun h => (h rfl).elim⟩, Nat.zero_le _, ?_⟩⟩
  · intro i hi
    by_contra hge
    refine hi.elim (fun hne => hne ?_) nofun
    rw [hdue, if_neg hge]
  · intro i hi _
    rw [hfresh]
    refine .fresh ?_ nofun
    rw [hdue, if_pos hi]
  · have hentering : (((List.range count).map Job.begin).map Job.enters).sum = 0 := by
      refine List.sum_eq_zero fun n hn => ?_
      obtain ⟨job, hjob, rfl⟩ := List.mem_map.mp hn
      exact hnone job hjob
    change limit + 0 + (((List.range count).map Job.begin).map Job.enters).sum + 0 = limit
    omega
  · change 0 + 0 = ((List.replicate count Request.fresh).map Request.underWay).sum + 0
    rw [List.map_replicate, List.sum_replicate]
    rfl

/-- A machine at rest has settled all requests, unless it has been interrupted. -/
theorem IsOrderly.rest (h : m.IsOrderly limit count) (hlimit : 0 < limit) (hrest : m.queue = [])
    (hgoes : m.isInterrupted = false) {i : Nat} (hi : i < count) : ∃ o, m.request i = .settled o := by
  have hkeeps : Keeps limit count .empty m := h.resolve_left fun hended => by
    rw [hgoes] at hended
    cases hended.1
  have hdue : ∀ j, m.due j = [] := fun j => by
    unfold due
    rw [hrest]
    rfl
  -- without a job, a request is either settled or in the queue for permits
  have hstands : ∀ j < count, m.request j = .parked ∧ j ∈ m.parked ∨ ∃ o, m.request j = .settled o := by
    intro j hj
    have hstood := hkeeps.attends.stands j hj nofun
    cases hr : m.request j with
    | settled o => exact .inr ⟨o, rfl⟩
    | parked =>
      rw [hr] at hstood
      cases hstood with
      | parked due waits => exact .inl ⟨rfl, waits⟩
      | entering due out => cases (hdue j).symm.trans due
    | fresh =>
      rw [hr] at hstood
      cases hstood with
      | fresh due out => cases (hdue j).symm.trans due
    | busy n o =>
      rw [hr] at hstood
      cases hstood with
      | busy due out => cases (hdue j).symm.trans due
    | informed o =>
      rw [hr] at hstood
      cases hstood with
      | informed due out => cases (hdue j).symm.trans due
    | waiting f =>
      rw [hr] at hstood
      cases hstood with
      | told due out found landed => cases (hdue j).symm.trans due
      | waiting due out found opened aboard =>
        have hcarried := hkeeps.attends.carried f _ found opened
        rw [hrest] at hcarried
        cases hcarried with
        | inl h => cases h
        | inr h => cases h
  -- nobody is under way, so there is a permit, and nobody waits for one
  have hidle : m.underWay = 0 := by
    refine List.sum_eq_zero fun n hn => ?_
    obtain ⟨r, hr, rfl⟩ := List.mem_map.mp hn
    obtain ⟨j, hj, rfl⟩ := List.mem_iff_getElem.mp hr
    have hrequest : m.request j = m.requests[j] := by
      unfold request
      rw [List.getElem?_eq_getElem hj]
      rfl
    rw [← hrequest]
    rcases hstands j (hkeeps.attends.length ▸ hj) with ⟨hp, -⟩ | ⟨o, ho⟩
    · rw [hp]
      rfl
    · rw [ho]
      rfl
  have hentering : m.entering = 0 := by
    unfold entering
    rw [hrest]
    rfl
  obtain ⟨p, -, hpermits, hparked⟩ := hkeeps.counts.permits
  have hactive : m.active + 0 = m.underWay + 0 := hkeeps.counts.active
  simp only [Hand.permits] at hpermits
  have hfree : m.parked = [] := by
    by_contra hne
    have hzero := hparked hne
    omega
  refine (hstands i hi).resolve_left fun hwaits => ?_
  rw [hfree] at hwaits
  cases hwaits.2

/-- No more requests are under way than the limit allows. -/
theorem Keeps.underWay_le (h : Keeps limit count .empty m) : m.underWay ≤ limit := by
  obtain ⟨p, -, hpermits, -⟩ := h.counts.permits
  have hactive : m.active + 0 = m.underWay + 0 := h.counts.active
  omega

theorem IsOrderly.peak_le (h : m.IsOrderly limit count) : m.peak ≤ limit :=
  h.elim (fun hended => hended.2.2) fun hkeeps => hkeeps.counts.peak

end Stepping

end Machine

end AssetCompiler.Concurrent
