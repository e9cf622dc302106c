import AssetCompiler.Proofs.TreeWalks

/-!
Requests that begin in their order. Requests that are worked on together may go on in any order once they
have begun; what is watched here is the order in which they begin. A flight is then started by the first of
those who want it. When always the job goes on that has waited longest, requests begin in their order.
-/
namespace AssetCompiler.Concurrent

variable {σ : Type}

/-- The request that a job makes start. -/
def Job.starts? : Job → Option Nat
  | .begin i | .enter i => some i
  | _ => none

namespace Machine

/-- When a request has begun, so have all those before it. -/
def InTurn (m : Machine σ) : Prop :=
  ∀ i j, i ≤ j → (m.request j).hasBegun = true → (m.request i).hasBegun = true

/-- Some pending job is performed, and requests begin in their order. -/
structure TurnStep (crew : Crew σ) (plan : Nat → Work σ Opening) (m m' : Machine σ) : Prop where
  step : Step crew plan m m'
  turn : m'.InTurn

/-- An interruption has come out of a request or of a flight. -/
def IsBroken (m : Machine σ) : Prop :=
  (∃ i o, m.request i = .settled o ∧ isInterruption o = true) ∨
    ∃ (f : Nat) (flight : Flight) (o : Except Failure Artifact), m.flights[f]? = some flight ∧
      flight.stage = .landed o ∧ isInterruption o = true

/-- What a step does for the requests that wait for a permit: nothing, or it admits the first of them. An
interruption ends everything. -/
inductive Admits (m m' : Machine σ) : Prop
  | nobody {jobs : List Job} (calm : m'.isInterrupted = m.isInterrupted)
      (queue : m'.queue = m.queue ++ jobs) (quiet : ∀ job ∈ jobs, job.starts? = none)
      (parked : m'.parked = m.parked)
  | first {i : Nat} {rest : List Nat} (calm : m'.isInterrupted = m.isInterrupted)
      (waited : m.parked = i :: rest) (queue : m'.queue = m.queue ++ [.enter i])
      (parked : m'.parked = rest)
  | ends (broken : m'.IsBroken)

/-- What a step leaves of the order of requests: who has begun has begun, and so have those who start a
flight. -/
structure Continues (m m' : Machine σ) : Prop where
  begun : ∀ i, (m.request i).hasBegun = true → (m'.request i).hasBegun = true
  starters : ∀ (f : Nat) (flight : Flight) (i : Nat), m'.flights[f]? = some flight →
    Started flight i →
    (∃ (g : Nat) (earlier : Flight), m.flights[g]? = some earlier ∧ Started earlier i) ∨
      (m'.request i).hasBegun = true
  admits : Admits m m'

section Continuing

variable {m m₁ m' : Machine σ} {i f : Nat} {flight : Flight}

theorem Continues.of_eq (h : Continues m₁ m') (hqueue : m₁.queue = m.queue)
    (hrequests : m₁.requests = m.requests) (hflights : m₁.flights = m.flights)
    (hparked : m₁.parked = m.parked) (hcalm : m₁.isInterrupted = m.isInterrupted) :
    Continues m m' where
  begun j hj := h.begun j (by rwa [request_congr hrequests])
  starters := hflights ▸ h.starters
  admits := by
    cases h.admits with
    | nobody calm queue quiet parked =>
      exact .nobody (calm.trans hcalm) (hqueue ▸ queue) quiet (parked.trans hparked)
    | first calm waited queue parked =>
      exact .first (calm.trans hcalm) (hparked ▸ waited) (hqueue ▸ queue) parked
    | ends broken => exact .ends broken

theorem begun_set (hi : i < m.requests.length) {r : Request} (hr : r.hasBegun = true)
    (hrequests : m'.requests = m.requests.set i r) (j : Nat)
    (hj : (m.request j).hasBegun = true) : (m'.request j).hasBegun = true := by
  rw [request_congr (m := m.setRequest i r) hrequests]
  by_cases hji : j = i
  · rw [hji, request_setRequest_self hi, hr]
  · rwa [request_setRequest_of_ne m hji]

/-- A request that has begun goes on. -/
theorem continues_setRequest (hi : i < m.requests.length) {r : Request} (hr : r.hasBegun = true)
    {jobs : List Job} (hquiet : ∀ job ∈ jobs, job.starts? = none) :
    Continues m ((m.setRequest i r).push jobs) where
  begun := begun_set hi hr rfl
  starters _ _ _ hf hstarted := .inl ⟨_, _, hf, hstarted⟩
  admits := .nobody rfl rfl hquiet rfl

theorem settle_requests (m : Machine σ) (i : Nat) (o : Except Failure Artifact) :
    (m.settle i o).requests = m.requests.set i (.settled o) ∧ (m.settle i o).flights = m.flights := by
  obtain ⟨-, hrequests, -, hflights⟩ :=
    release_keeps ({ m with active := m.active - 1 }.setRequest i (.settled o))
  unfold Machine.settle
  simp only
  split
  · exact ⟨hrequests, hflights⟩
  · exact ⟨hrequests, hflights⟩

theorem admits_release (m : Machine σ) : Admits m m.release := by
  unfold Machine.release
  split
  · exact .nobody rfl (List.append_nil _).symm (List.forall_mem_nil _) rfl
  · split
    · exact .nobody rfl (List.append_nil _).symm (List.forall_mem_nil _) rfl
    · rename_i j rest hparked
      exact .first rfl hparked rfl rfl

/-- A request ends, and hands its permit on. -/
theorem continues_settle (hi : i < m.requests.length) (o : Except Failure Artifact) :
    Continues m (m.settle i o) := by
  obtain ⟨hrequests, hflights⟩ := settle_requests m i o
  refine ⟨begun_set hi rfl hrequests, fun f flight j hf hstarted => ?_, ?_⟩
  · rw [hflights] at hf
    exact .inl ⟨f, flight, hf, hstarted⟩
  · by_cases ho : isInterruption o = true
    · refine .ends (.inl ⟨i, o, ?_, ho⟩)
      rw [request_congr (m := m.setRequest i (.settled o)) hrequests]
      exact request_setRequest_self hi _
    · have hreleased := admits_release ({ m with active := m.active - 1 }.setRequest i (.settled o))
      unfold Machine.settle
      simp only [ho]
      cases hreleased with
      | nobody calm queue quiet parked => exact .nobody calm queue quiet parked
      | first calm waited queue parked => exact .first calm waited queue parked
      | ends broken => exact .ends broken

/-- A request boards the flight of its key. -/
theorem Shares.continues {key : FlightKey} {errand : Errand} (h : Shares m i key errand f m')
    (hi : i < m.requests.length) : Continues m m' := by
  cases h with
  | landed listed found outcome =>
    have hnoted : i < (m.act (Work.report (.joining errand.file errand.key))).2.requests.length := hi
    exact (continues_settle hnoted _).of_eq rfl rfl rfl rfl rfl
  | @joined flight listed found opened =>
    refine ⟨begun_set hi rfl rfl, fun g flight' j hg hstarted => ?_, ?_⟩
    · change (m.flights.set f _)[g]? = some flight' at hg
      by_cases hgf : g = f
      · subst hgf
        rw [List.getElem?_set_self (List.getElem?_eq_some_iff.mp found).1] at hg
        cases hg
        cases hwaiters : flight.waiters with
        | nil =>
          -- a flight for which nobody waited has the request itself as its first one
          refine .inr ?_
          have hji : j = i := by
            unfold Started at hstarted
            rw [hwaiters] at hstarted
            exact (Option.some.inj hstarted).symm
          rw [hji, request_setRequest_self (by exact hi)]
          rfl
        | cons k rest =>
          refine .inl ⟨g, flight, found, ?_⟩
          unfold Started at hstarted ⊢
          rw [hwaiters] at hstarted ⊢
          exact hstarted
      · rw [List.getElem?_set_ne (Ne.symm hgf)] at hg
        exact .inl ⟨g, flight', hg, hstarted⟩
    · exact .nobody rfl (List.append_nil _).symm (List.forall_mem_nil _) rfl
  | started free new =>
    refine ⟨begun_set hi rfl rfl, fun g flight' j hg hstarted => ?_, ?_⟩
    · change (m.flights ++ [_])[g]? = some flight' at hg
      by_cases hlt : g < m.flights.length
      · rw [List.getElem?_append_left hlt] at hg
        exact .inl ⟨g, flight', hg, hstarted⟩
      · rw [List.getElem?_append_right (Nat.le_of_not_lt hlt), List.getElem?_singleton] at hg
        split at hg
        · cases hg
          cases hstarted
          refine .inr ?_
          rw [request_setRequest_self (by exact hi)]
          rfl
        · cases hg
    · exact .nobody rfl rfl (List.forall_mem_singleton.mpr rfl) rfl

/-- A request starts. -/
theorem continues_start (plan : Nat → Work σ Opening) (hlisted : m.IsListed)
    (hi : i < m.requests.length) : Continues m (m.start plan i) := by
  have hstarts := starts plan m hlisted i
  generalize m.start plan i = m' at hstarts
  cases hstarts with
  | settled stays =>
    have hcounted : i < (m.counted ((plan i).run m.world).2).requests.length := hi
    exact (continues_settle hcounted _).of_eq rfl rfl rfl rfl rfl
  | busy stays =>
    have hcounted : i < (m.counted ((plan i).run m.world).2).requests.length := hi
    exact (continues_setRequest hcounted rfl (List.forall_mem_singleton.mpr rfl)).of_eq
      rfl rfl rfl rfl rfl
  | shared plans boards shares =>
    have hcounted : i < (m.counted ((plan i).run m.world).2).requests.length := hi
    exact (shares.continues hcounted).of_eq rfl rfl rfl rfl rfl

/-- A flight gets to a stage. -/
theorem continues_arrive (hf : m.flights[f]? = some flight) (reached : Stage × World σ) :
    Continues m (m.arrive f flight reached) := by
  obtain ⟨stage, w⟩ := reached
  obtain ⟨hlt, -⟩ := List.getElem?_eq_some_iff.mp hf
  have hstarters : ∀ (g : Nat) (flight' : Flight) (j : Nat),
      (m.flights.set f { flight with stage := stage })[g]? = some flight' → Started flight' j →
      ∃ (g : Nat) (earlier : Flight), m.flights[g]? = some earlier ∧ Started earlier j := by
    intro g flight' j hg hstarted
    by_cases hgf : g = f
    · subst hgf
      rw [List.getElem?_set_self hlt] at hg
      cases hg
      exact ⟨g, flight, hf, hstarted⟩
    · rw [List.getElem?_set_ne (Ne.symm hgf)] at hg
      exact ⟨g, flight', hg, hstarted⟩
  cases stage with
  | looking =>
    exact ⟨fun _ hj => hj, fun g flight' j hg hs => .inl (hstarters g flight' j hg hs),
      .nobody rfl rfl (List.forall_mem_singleton.mpr rfl) rfl⟩
  | fetching waited rest =>
    exact ⟨fun _ hj => hj, fun g flight' j hg hs => .inl (hstarters g flight' j hg hs),
      .nobody rfl rfl (List.forall_mem_singleton.mpr rfl) rfl⟩
  | landed o =>
    have hflights : (m.arrive f flight (.landed o, w)).flights =
        m.flights.set f { flight with stage := .landed o } := by
      unfold Machine.arrive Machine.land
      simp only
      split <;> rfl
    have hrequests : (m.arrive f flight (.landed o, w)).requests = m.requests := by
      unfold Machine.arrive Machine.land
      simp only
      split <;> rfl
    refine ⟨fun j hj => ?_, fun g flight' j hg hs => .inl (hstarters g flight' j ?_ hs), ?_⟩
    · rwa [request_congr hrequests]
    · rwa [hflights] at hg
    · by_cases ho : isInterruption o = true
      · refine .ends (.inr ⟨f, { flight with stage := .landed o }, o, ?_, rfl, ho⟩)
        rw [hflights]
        exact List.getElem?_set_self hlt
      · unfold Machine.arrive Machine.land
        simp only [ho]
        refine .nobody rfl rfl ?_ rfl
        intro job hjob
        rcases List.mem_cons.mp hjob with rfl | hjob
        · rfl
        · obtain ⟨j, -, rfl⟩ := List.mem_map.mp hjob
          rfl

theorem continues_refl (m : Machine σ) : Continues m m :=
  ⟨fun _ hj => hj, fun _ _ _ hf hs => .inl ⟨_, _, hf, hs⟩,
    .nobody rfl (List.append_nil _).symm (List.forall_mem_nil _) rfl⟩

theorem continues_advance (crew : Crew σ) (m : Machine σ) (f : Nat) :
    Continues m (m.advance crew f) := by
  rcases advance_cases crew m f with ⟨flight, hf, -, harrives⟩ | ⟨-, hsame⟩
  · rw [harrives]
    exact continues_arrive hf _
  · rw [hsame]
    exact continues_refl m

/-- A request waits for a permit. -/
def park (m : Machine σ) (i : Nat) : Machine σ :=
  { m with parked := m.parked ++ [i] }.setRequest i .parked

/-- Asking for a permit makes a request start or wait. -/
theorem admission_cases (plan : Nat → Work σ Opening) (m : Machine σ) (i : Nat) :
    (∃ permits, (m.permits.isSome = true → m.parked = []) ∧
      m.admission plan i = { m with permits := permits }.start plan i) ∨
    m.admission plan i = m.park i := by
  unfold Machine.admission
  split
  · rename_i hfree
    refine .inl ⟨m.permits, fun hsome => ?_, rfl⟩
    rw [hfree] at hsome
    cases hsome
  · exact .inr rfl
  · split
    · rename_i n _ hempty
      exact .inl ⟨some n, fun _ => List.isEmpty_iff.mp hempty, rfl⟩
    · exact .inr rfl

/-- Whatever job is performed for a request or a flight that it suits. -/
theorem continues_perform (crew : Crew σ) (plan : Nat → Work σ Opening) (hlisted : m.IsListed)
    {job : Job} (hrange : ∀ i, job.request? = some i → i < m.requests.length)
    (hbegins : ∀ i, job ≠ .begin i) : Continues m (m.perform crew plan job) := by
  cases job with
  | begin i => exact absurd rfl (hbegins i)
  | enter i => exact continues_start plan hlisted (hrange i rfl)
  | advance f => exact continues_advance crew m f
  | forget f =>
    unfold Machine.perform
    simp only
    split
    · exact ⟨fun _ hj => hj, fun _ _ _ hg hs => .inl ⟨_, _, hg, hs⟩,
        .nobody rfl (List.append_nil _).symm (List.forall_mem_nil _) rfl⟩
    · exact continues_refl m
  | tick i =>
    unfold Machine.perform
    simp only
    split
    · exact continues_settle (hrange i rfl) _
    · exact continues_setRequest (hrange i rfl) rfl (List.forall_mem_singleton.mpr rfl)
    · exact continues_refl m
  | deliver f i =>
    unfold Machine.perform
    simp only
    split
    · split
      · exact continues_setRequest (hrange i rfl) rfl (List.forall_mem_singleton.mpr rfl)
      · exact continues_refl m
    · exact continues_refl m
  | resume i =>
    unfold Machine.perform
    simp only
    split
    · exact continues_settle (hrange i rfl) _
    · exact continues_refl m
  | cancel i =>
    unfold Machine.perform
    simp only
    split
    · exact continues_setRequest (hrange i rfl) rfl (List.forall_mem_singleton.mpr rfl)
    · have hset := continues_setRequest (m := m) (hrange i rfl)
        (r := .informed (.error .cancelled)) rfl (List.forall_mem_nil _)
      rwa [push_nil] at hset
    · exact continues_refl m

end Continuing

/-! Runs in order -/

/-- Nobody is told of an interruption, and none comes out of a flight. -/
structure IsCalm (W : Watch σ) : Prop where
  told : ∀ w i o, W.told w i o → isInterruption o = false
  meant : ∀ w i key errand o, W.meant w i key errand (.landed o) → isInterruption o = false

/-- What holds between steps in which requests begin in their order. -/
structure Watched (W : Watch σ) (limit count : Nat) (m : Machine σ) : Prop where
  guarded : m.Guarded W
  keeps : Keeps limit count .empty m
  calm : m.isInterrupted = false
  starters : ∀ (f : Nat) (flight : Flight) (i : Nat), m.flights[f]? = some flight →
    Started flight i → (m.request i).hasBegun = true

section Watching

variable {W : Watch σ} {crew : Crew σ} {plan : Nat → Work σ Opening} {limit count : Nat}
variable {m m' : Machine σ}

theorem Guarded.not_isBroken (h : m.Guarded W) (hcalm : IsCalm W) : ¬ m.IsBroken := by
  rintro (⟨i, o, hsettled, ho⟩ | ⟨f, flight, o, hf, hstage, ho⟩)
  · have htold := h.requests i
    rw [hsettled] at htold
    rw [hcalm.told _ i o htold] at ho
    cases ho
  · obtain ⟨j, -, hmeant⟩ := h.flights f flight hf
    rw [hstage] at hmeant
    rw [hcalm.meant _ j _ _ o hmeant] at ho
    cases ho

/-- A request for which a job that starts it is pending has not begun. -/
theorem Keeps.not_hasBegun (h : Keeps limit count .empty m) {before after : List Job} {job : Job}
    (hpending : m.queue = before ++ job :: after) {i : Nat} (hi : job.starts? = some i) :
    (m.request i).hasBegun = false := by
  have hsuits : ∀ i, job.request? = some i → Suits m.flights i job (m.request i) := fun i hi =>
    (h.attends.suits hpending hi).2.2
  cases job with
  | begin j =>
    cases hi
    have hsuited := hsuits i rfl
    generalize m.request i = r at hsuited
    cases hsuited
    rfl
  | enter j =>
    cases hi
    have hsuited := hsuits i rfl
    generalize m.request i = r at hsuited
    cases hsuited
    rfl
  | _ => cases hi

/-- Flights that are under way, or were, have been started by earlier requests than the next one. -/
theorem Watched.inOrder (h : Watched W limit count m) (hbefore : ∀ j i, j < i → W.before j i)
    (hturn : m.InTurn) {before after : List Job} {job : Job}
    (hpending : m.queue = before ++ job :: after) :
    InOrder W { m with queue := before ++ after } job := by
  intro i hi f flight j hf hstarted
  have hstarts : job.starts? = some i := by
    rcases hi with rfl | rfl <;> rfl
  have hfresh := h.keeps.not_hasBegun hpending hstarts
  refine hbefore j i (Nat.lt_of_not_le fun hle => ?_)
  rw [hturn i j hle (h.starters f flight j hf hstarted)] at hfresh
  cases hfresh

/-- A step in the order of requests. -/
theorem Watched.perform (rules : W.Rules crew plan) (hcalm : IsCalm W)
    (hbefore : ∀ j i, j < i → W.before j i) (h : Watched W limit count m) (hturn : m.InTurn)
    {before after : List Job} {job : Job} (hpending : m.queue = before ++ job :: after) :
    let taken : Machine σ := { m with queue := before ++ after }
    Watched W limit count (taken.perform crew plan job) ∧
      (Continues taken (taken.perform crew plan job) ∧ (∀ i, job = .begin i → m.parked = []) ∨
        ∃ i, job = .begin i ∧ taken.perform crew plan job = taken.park i) := by
  intro taken
  have hlisted : taken.IsListed := h.keeps.attends.listed
  have hrange : ∀ i, job.request? = some i → i < taken.requests.length := by
    intro i hi
    obtain ⟨hone, -, -⟩ := h.keeps.attends.suits hpending hi
    have hlt := h.keeps.attends.known i (.inl (hone ▸ List.cons_ne_nil _ _))
    exact h.keeps.attends.length.symm ▸ hlt
  have htaken : taken.Guarded W := h.guarded.congr rfl rfl rfl rfl
  have hguarded := htaken.perform rules (h.inOrder hbefore hturn hpending) fun i hi => by
    obtain ⟨-, -, hsuited⟩ := h.keeps.attends.suits hpending (i := i) (by rw [hi]; rfl)
    generalize m.request i = r at hsuited
    rw [hi] at hsuited
    cases hsuited
  have horderly : (taken.perform crew plan job).IsOrderly limit count :=
    (show m.IsOrderly limit count from .inr h.keeps).perform hpending
  have hwatched : Continues taken (taken.perform crew plan job) →
      Watched W limit count (taken.perform crew plan job) := by
    intro hcontinues
    have hends : (taken.perform crew plan job).isInterrupted = false := by
      cases hcontinues.admits with
      | nobody calm _ _ _ => exact calm.trans h.calm
      | first calm _ _ _ => exact calm.trans h.calm
      | ends broken => exact absurd broken (hguarded.not_isBroken hcalm)
    refine ⟨hguarded, ?_, hends, ?_⟩
    · refine horderly.resolve_left fun hended => ?_
      rw [hends] at hended
      cases hended.1
    · intro f flight i hf hstarted
      rcases hcontinues.starters f flight i hf hstarted with ⟨g, earlier, hg, hearlier⟩ | hbegun
      · exact hcontinues.begun i (h.starters g earlier i hg hearlier)
      · exact hbegun
  by_cases hbegin : ∃ i, job = .begin i
  · obtain ⟨i, rfl⟩ := hbegin
    rcases admission_cases plan taken i with ⟨permits, hfree, hstart⟩ | hparks
    · have hcontinues : Continues taken (taken.perform crew plan (.begin i)) := by
        have hstarted : Continues { taken with permits := permits }
            ({ taken with permits := permits }.start plan i) :=
          continues_start plan hlisted (hrange i rfl)
        change Continues taken (taken.admission plan i)
        rw [hstart]
        exact hstarted.of_eq rfl rfl rfl rfl rfl
      obtain ⟨p, hp, -⟩ := h.keeps.counts.permits
      refine ⟨hwatched hcontinues, .inl ⟨hcontinues, fun _ _ => hfree ?_⟩⟩
      change m.permits.isSome = true
      rw [hp]
      rfl
    · change taken.perform crew plan (.begin i) = taken.park i at hparks
      refine ⟨⟨hguarded, ?_, ?_, ?_⟩, .inr ⟨i, rfl, hparks⟩⟩
      · refine horderly.resolve_left fun hended => ?_
        rw [hparks] at hended
        change m.isInterrupted = true ∧ _ at hended
        rw [h.calm] at hended
        cases hended.1
      · rw [hparks]
        exact h.calm
      · intro f flight j hf hstarted
        rw [hparks] at hf ⊢
        have hbegun := h.starters f flight j hf hstarted
        have hji : j ≠ i := by
          rintro rfl
          rw [h.keeps.not_hasBegun hpending rfl] at hbegun
          cases hbegun
        unfold park
        rw [request_setRequest_of_ne _ hji]
        exact hbegun
  · have hcontinues : Continues taken (taken.perform crew plan job) :=
      continues_perform crew plan hlisted hrange fun i hi => hbegin ⟨i, hi⟩
    exact ⟨hwatched hcontinues, .inl ⟨hcontinues, fun i hi => absurd ⟨i, hi⟩ hbegin⟩⟩

/-- All through a run in the order of requests. -/
theorem Watched.steps (rules : W.Rules crew plan) (hcalm : IsCalm W)
    (hbefore : ∀ j i, j < i → W.before j i) (h : Watched W limit count m) (hturn : m.InTurn)
    (hsteps : Relation.ReflTransGen (TurnStep crew plan) m m') :
    Watched W limit count m' ∧ m'.InTurn := by
  induction hsteps with
  | refl => exact ⟨h, hturn⟩
  | tail _ hstep ih =>
    obtain ⟨⟨before, job, after, hpending⟩, hturns⟩ := hstep
    exact ⟨(ih.1.perform rules hcalm hbefore ih.2 hpending).1, hturns⟩

theorem hasBegun_initial (w : World σ) (permits : Option Nat) (i : Nat) :
    ((Machine.initial w count permits).request i).hasBegun = false := by
  change (((List.replicate count Request.fresh)[i]?).getD .fresh).hasBegun = false
  rw [List.getElem?_replicate]
  split <;> rfl

theorem inTurn_initial (w : World σ) (permits : Option Nat) :
    (Machine.initial w count permits).InTurn := by
  intro i j _ hj
  rw [hasBegun_initial] at hj
  cases hj

theorem Watched.initial {w : World σ} (hfine : W.fine w) :
    Watched W limit count (Machine.initial w count (some limit)) where
  guarded := (push_nil (Machine.initial w count (some limit))) ▸
    Guarded.initial hfine count (some limit) []
  keeps := (IsOrderly.initial w count).resolve_left fun hended => by cases hended.1
  calm := rfl
  starters := nofun

end Watching

/-! The job that has waited longest -/

/-- The request that a job starts with the permit that it has been given. -/
def Job.entered? : Job → Option Nat
  | .enter i => some i
  | _ => none

/-- Requests stand in line: those with a permit first, then those that wait for one, then those that have not
asked yet. Nobody is given a permit while others have not asked. -/
structure Lined (count : Nat) (begins : List Nat) (rest : List Job) (m : Machine σ) : Prop where
  queue : m.queue = begins.map .begin ++ rest
  asked : ∀ i, .begin i ∉ rest
  first : begins ≠ [] → rest.filterMap Job.entered? = []
  line : ∃ k ≤ count, rest.filterMap Job.entered? ++ m.parked ++ begins = List.range' k (count - k)

section Lining

variable {limit count : Nat} {begins : List Nat} {rest : List Job} {m m' : Machine σ}

theorem entered_of_quiet {jobs : List Job} (h : ∀ job ∈ jobs, job.starts? = none) :
    jobs.filterMap Job.entered? = [] ∧ ∀ i, .begin i ∉ jobs := by
  refine ⟨List.filterMap_eq_nil_iff.mpr fun job hjob => ?_, fun i hjob => ?_⟩
  · have hquiet := h job hjob
    cases job with
    | enter i => cases hquiet
    | _ => rfl
  · cases h _ hjob

theorem range'_tail {k count i : Nat} {l : List Nat} (hk : k ≤ count)
    (h : i :: l = List.range' k (count - k)) : k + 1 ≤ count ∧ l = List.range' (k + 1) (count - (k + 1)) := by
  cases hlong : count - k with
  | zero =>
    rw [hlong] at h
    cases h
  | succ n =>
    rw [hlong, List.range'_succ] at h
    obtain ⟨-, rfl⟩ := List.cons.inj h
    have hn : count - (k + 1) = n := by omega
    rw [hn]
    exact ⟨by omega, rfl⟩

/-- The next in line is the first. -/
theorem Lined.continues (h : Lined count begins rest m) {job : Job} {queue : List Job}
    (hqueue : m.queue = job :: queue) (hcontinues : Continues { m with queue := queue } m')
    (hfree : ∀ i, job = .begin i → m.parked = []) (hsound : ¬ m'.IsBroken) :
    ∃ begins' rest', Lined count begins' rest' m' := by
  obtain ⟨k, hk, hline⟩ := h.line
  have hpending := h.queue
  rw [hqueue] at hpending
  cases begins with
  | cons i begins =>
    -- one that has not asked yet is given a permit at once, and nobody waits
    obtain ⟨rfl, rfl⟩ := List.cons.inj hpending
    have hparked := hfree i rfl
    have hnone := h.first (List.cons_ne_nil _ _)
    rw [hnone, hparked] at hline
    obtain ⟨hk', hline'⟩ := range'_tail hk hline
    cases hcontinues.admits with
    | @nobody jobs calm hq quiet parked =>
      obtain ⟨hquiet, hbegins⟩ := entered_of_quiet quiet
      refine ⟨begins, rest ++ jobs, ?_, ?_, ?_, k + 1, hk', ?_⟩
      · exact hq.trans (List.append_assoc _ _ _)
      · intro j hj
        exact (List.mem_append.mp hj).elim (h.asked j) (hbegins j)
      · intro _
        rw [List.filterMap_append, hnone, hquiet]
        rfl
      · rw [List.filterMap_append, hnone, hquiet, parked]
        change [] ++ m.parked ++ begins = _
        rw [hparked]
        exact hline'
    | first calm waited hq parked =>
      change m.parked = _ at waited
      rw [hparked] at waited
      cases waited
    | ends broken => exact absurd broken hsound
  | nil =>
    rw [List.map_nil, List.nil_append] at hpending
    subst hpending
    have hasked : ∀ j, .begin j ∉ queue := fun j hj => h.asked j (List.mem_cons_of_mem _ hj)
    rw [List.append_nil] at hline
    have hrest : ∃ k' ≤ count, queue.filterMap Job.entered? ++ m.parked =
        List.range' k' (count - k') := by
      cases job with
      | enter i =>
        obtain ⟨hk', hline'⟩ := range'_tail hk hline
        exact ⟨k + 1, hk', hline'⟩
      | _ => exact ⟨k, hk, hline⟩
    obtain ⟨k', hk', hline'⟩ := hrest
    cases hcontinues.admits with
    | @nobody jobs calm hq quiet parked =>
      obtain ⟨hquiet, hbegins⟩ := entered_of_quiet quiet
      refine ⟨[], queue ++ jobs, hq, ?_, fun hne => absurd rfl hne, k', hk', ?_⟩
      · intro j hj
        exact (List.mem_append.mp hj).elim (hasked j) (hbegins j)
      · rw [List.filterMap_append, hquiet, parked, List.append_nil, List.append_nil]
        exact hline'
    | @first i waiting calm waited hq parked =>
      refine ⟨[], queue ++ [.enter i], hq, ?_, fun hne => absurd rfl hne, k', hk', ?_⟩
      · intro j hj
        rcases List.mem_append.mp hj with hj | hj
        · exact hasked j hj
        · cases List.mem_singleton.mp hj
      · rw [List.filterMap_append, parked, List.append_nil, List.append_assoc]
        change m.parked = i :: waiting at waited
        rw [waited] at hline'
        exact hline'
    | ends broken => exact absurd broken hsound

/-- One that has to wait goes from the end of the line to the end of those who wait. -/
theorem Lined.parks (h : Lined count begins rest m) {i : Nat} {queue : List Job}
    (hqueue : m.queue = .begin i :: queue) :
    ∃ begins' rest', Lined count begins' rest' (({ m with queue := queue } : Machine σ).park i) := by
  obtain ⟨k, hk, hline⟩ := h.line
  have hpending := h.queue
  rw [hqueue] at hpending
  cases begins with
  | nil =>
    rw [List.map_nil, List.nil_append] at hpending
    exact absurd (hpending ▸ List.mem_cons_self) (h.asked i)
  | cons j begins =>
    obtain ⟨hji, rfl⟩ := List.cons.inj hpending
    cases hji
    refine ⟨begins, rest, rfl, h.asked, fun _ => h.first (List.cons_ne_nil _ _), k, hk, ?_⟩
    rw [← hline]
    change _ ++ (m.parked ++ [i]) ++ begins = _
    simp only [List.append_assoc, List.singleton_append]

variable {W : Watch σ} {crew : Crew σ} {plan : Nat → Work σ Opening}

end Lining
end Machine
end AssetCompiler.Concurrent
