import AssetCompiler.Proofs.Boarding

/-!
What is watched in a run of requests that are worked on together. Whatever is right for each opening of a
request and for each part of a flight, and stays right while the world goes on, is right in every state of
the run: the worlds are fine, flights are as they are meant by the request that started them, and requests
are told what they may be told.
-/
namespace AssetCompiler.Concurrent

variable {σ : Type}

/-! One part of a flight -/

/-- The stage that progress of a reduction leads to. -/
def Flight.reached (errand : Errand) (w : World σ) :
    Except Failure Reduction.Progress → Stage × World σ
  | .error e => (.landed (.error e), w)
  | .ok (.waiting waited rest) => (.fetching waited rest, w)
  | .ok (.finished (.error e)) => (.landed (.error e), w)
  | .ok (.finished (.ok a)) =>
    (.landed ((errand.deliver a).run w).1, ((errand.deliver a).run w).2)

/-- The next stage of a flight. -/
def Flight.next (crew : Crew σ) (errand : Errand) (w : World σ) : Stage → Stage × World σ
  | .landed o => (.landed o, w)
  | .fetching waited rest =>
    reached errand ((rest.proceed crew waited).run w).2 ((rest.proceed crew waited).run w).1
  | .looking =>
    match (errand.stored?).run w with
    | (.error e, w) => (.landed (.error e), w)
    | (.ok (some a), w) => (.landed (.ok a), w)
    | (.ok none, w) =>
      reached errand ((errand.work.proceed crew 0).run w).2 ((errand.work.proceed crew 0).run w).1

namespace Machine

/-- A flight has come to a stage. -/
def arrive (m : Machine σ) (f : Nat) (flight : Flight) : Stage × World σ → Machine σ
  | (.landed o, w) => { m with world := w }.land f flight o
  | (stage, w) =>
    ({ m with world := w }.setFlight f { flight with stage := stage }).push [.advance f]

theorem follow_eq_arrive (m : Machine σ) (f : Nat) (flight : Flight)
    (progress : Except Failure Reduction.Progress) :
    m.follow f flight progress = m.arrive f flight (Flight.reached flight.errand m.world progress) := by
  unfold follow Flight.reached
  split <;> rfl

/-- Carrying a flight on takes it to its next stage. -/
theorem advance_eq_arrive (crew : Crew σ) {m : Machine σ} {f : Nat} {flight : Flight}
    (hf : m.flights[f]? = some flight) (hopen : flight.outcome? = none) :
    m.advance crew f = m.arrive f flight (Flight.next crew flight.errand m.world flight.stage) := by
  unfold advance Flight.next
  rw [hf]
  simp only
  cases hstage : flight.stage with
  | landed o =>
    rw [Flight.outcome?, hstage] at hopen
    cases hopen
  | fetching waited rest => exact follow_eq_arrive _ f flight _
  | looking =>
    simp only [act]
    rcases (flight.errand.stored?).run m.world with ⟨found, w⟩
    rcases found with e | (_ | a)
    · rfl
    · exact follow_eq_arrive { m with world := _ } f flight _
    · rfl

/-- A flight that is under way is taken to its next stage, and nothing else is carried on. -/
theorem advance_cases (crew : Crew σ) (m : Machine σ) (f : Nat) :
    (∃ flight, m.flights[f]? = some flight ∧ flight.outcome? = none ∧
      m.advance crew f = m.arrive f flight (Flight.next crew flight.errand m.world flight.stage)) ∨
    (∀ flight, m.flights[f]? = some flight → flight.outcome? ≠ none) ∧ m.advance crew f = m := by
  by_cases hopens : ∃ flight, m.flights[f]? = some flight ∧ flight.outcome? = none
  · obtain ⟨flight, hf, hopen⟩ := hopens
    exact .inl ⟨flight, hf, hopen, advance_eq_arrive crew hf hopen⟩
  · have hlanded : ∀ flight, m.flights[f]? = some flight → flight.outcome? ≠ none :=
      fun flight hf hopen => hopens ⟨flight, hf, hopen⟩
    exact .inr ⟨hlanded, advance_of_not_open hlanded⟩

end Machine

/-! What is watched -/

/-- What is watched in a run. A key is wanted by a request, a stage of a flight is meant by the request that
started it, an outcome is told to a request; and of two requests for one key one may have to start before
the other. -/
structure Watch (σ : Type) where
  fine : World σ → Prop
  later : World σ → World σ → Prop
  wants : Nat → FlightKey → Prop
  meant : World σ → (starter : Nat) → FlightKey → Errand → Stage → Prop
  told : World σ → Nat → Except Failure Artifact → Prop
  before : Nat → Nat → Prop

namespace Watch

/-- What the opening of a request may come to. -/
def Opens (W : Watch σ) (w : World σ) (i : Nat) : Except Failure Opening → Prop
  | .error e => W.told w i (.error e)
  | .ok (.settled o) | .ok (.busy _ o) => W.told w i o
  | .ok (.shared owner errand) => W.wants i (owner, errand.key) ∧
    W.meant w i (owner, errand.key) errand .looking

/-- What is right goes on being right. -/
structure Rules (W : Watch σ) (crew : Crew σ) (plan : Nat → Work σ Opening) : Prop where
  stays : ∀ w, W.later w w
  goes : ∀ w w' w'', W.later w w' → W.later w' w'' → W.later w w''
  start : ∀ i, W.before i i
  opens : ∀ w i, W.fine w → W.fine ((plan i).run w).2 ∧ W.later w ((plan i).run w).2 ∧
    W.Opens ((plan i).run w).2 i ((plan i).run w).1
  notes : ∀ w journal, W.fine w →
    W.fine { w with journal := journal } ∧ W.later w { w with journal := journal }
  carries : ∀ w j key errand stage, W.fine w → W.meant w j key errand stage →
    W.fine (Flight.next crew errand w stage).2 ∧ W.later w (Flight.next crew errand w stage).2 ∧
    W.meant (Flight.next crew errand w stage).2 j key errand (Flight.next crew errand w stage).1
  keepsMeant : ∀ w w' j key errand stage, W.later w w' → W.meant w j key errand stage →
    W.meant w' j key errand stage
  keepsTold : ∀ w w' i o, W.later w w' → W.told w i o → W.told w' i o
  tells : ∀ w i j key errand o, W.fine w → W.wants i key → W.before j i →
    W.meant w j key errand (.landed o) → W.told w i o

end Watch

namespace Machine

variable {W : Watch σ}

/-- A request started a flight. -/
def Started (flight : Flight) (j : Nat) : Prop := flight.waiters.head? = some j

/-- How a request may stand. -/
def Fits (W : Watch σ) (m : Machine σ) (i : Nat) : Request → Prop
  | .fresh | .parked => True
  | .busy _ o | .informed o | .settled o => W.told m.world i o
  | .waiting f => ∃ flight j, m.flights[f]? = some flight ∧ Started flight j ∧
    W.wants i flight.key ∧ W.before j i

/-- What is right in every state of a run. -/
structure Guarded (W : Watch σ) (m : Machine σ) : Prop where
  world : W.fine m.world
  flights : ∀ (f : Nat) (flight : Flight), m.flights[f]? = some flight → ∃ j, Started flight j ∧
    W.meant m.world j flight.key flight.errand flight.stage
  requests : ∀ i, Fits W m i (m.request i)
  table : ∀ key f, m.table.find? key = some f → ∃ flight, m.flights[f]? = some flight ∧
    flight.key = key

/-- A job that makes a request start comes after the flights whose key the request may want. -/
def InOrder (W : Watch σ) (m : Machine σ) (job : Job) : Prop :=
  ∀ i, job = .begin i ∨ job = .enter i → ∀ (f : Nat) (flight : Flight) (j : Nat),
    m.flights[f]? = some flight → Started flight j → W.before j i

section Keeping

variable {crew : Crew σ} {plan : Nat → Work σ Opening} {m m' : Machine σ} {i f : Nat}
variable {flight : Flight}

/-- How a request fits does not depend on what is pending. -/
theorem Fits.congr {r : Request} (h : Fits W m i r) (hworld : m'.world = m.world)
    (hflights : m'.flights = m.flights) : Fits W m' i r := by
  cases r with
  | fresh => trivial
  | parked => trivial
  | busy n o => exact (congrArg (W.told · i o) hworld).mpr h
  | informed o => exact (congrArg (W.told · i o) hworld).mpr h
  | settled o => exact (congrArg (W.told · i o) hworld).mpr h
  | waiting f =>
    obtain ⟨flight, j, hf, hrest⟩ := h
    exact ⟨flight, j, hflights ▸ hf, hrest⟩

theorem Guarded.congr (h : Guarded W m) (hworld : m'.world = m.world)
    (hflights : m'.flights = m.flights) (hrequests : m'.requests = m.requests)
    (htable : m'.table = m.table) : Guarded W m' where
  world := hworld ▸ h.world
  flights := by
    rw [hflights, hworld]
    exact h.flights
  requests := fun i => by
    rw [request_congr hrequests]
    exact (h.requests i).congr hworld hflights
  table := by
    rw [htable, hflights]
    exact h.table

/-- The world goes on. -/
theorem Guarded.goes (rules : W.Rules crew plan) (h : Guarded W m) {w : World σ} (hfine : W.fine w)
    (hlater : W.later m.world w) : Guarded W { m with world := w } where
  world := hfine
  flights := by
    intro f flight hf
    obtain ⟨j, hj, hmeant⟩ := h.flights f flight hf
    exact ⟨j, hj, rules.keepsMeant _ _ _ _ _ _ hlater hmeant⟩
  requests := by
    intro i
    have hfits := h.requests i
    change Fits W { m with world := w } i (m.request i)
    cases hr : m.request i with
    | fresh => trivial
    | parked => trivial
    | busy n o =>
      rw [hr] at hfits
      exact rules.keepsTold _ _ _ _ hlater hfits
    | informed o =>
      rw [hr] at hfits
      exact rules.keepsTold _ _ _ _ hlater hfits
    | settled o =>
      rw [hr] at hfits
      exact rules.keepsTold _ _ _ _ hlater hfits
    | waiting f =>
      rw [hr] at hfits
      exact hfits
  table := h.table

theorem Guarded.setRequest (h : Guarded W m) {r : Request} (hr : Fits W m i r) :
    Guarded W (m.setRequest i r) where
  world := h.world
  flights := h.flights
  requests := by
    intro j
    by_cases hj : j = i
    · subst hj
      by_cases hlt : j < m.requests.length
      · rw [request_setRequest_self hlt]
        exact hr.congr rfl rfl
      · have hsame : (m.setRequest j r).requests = m.requests :=
          List.set_eq_of_length_le (Nat.le_of_not_lt hlt)
        rw [request_congr hsame]
        exact (h.requests j).congr rfl rfl
    · rw [request_setRequest_of_ne m hj]
      exact (h.requests j).congr rfl rfl
  table := h.table

theorem Guarded.release (h : Guarded W m) : Guarded W m.release := by
  unfold Machine.release
  split
  · exact h
  · split
    · exact h.congr rfl rfl rfl rfl
    · exact h.congr rfl rfl rfl rfl

theorem Guarded.settle (h : Guarded W m) {o : Except Failure Artifact}
    (ho : W.told m.world i o) : Guarded W (m.settle i o) := by
  have hbusy : Guarded W { m with active := m.active - 1 } := h.congr rfl rfl rfl rfl
  have hset : Guarded W ({ m with active := m.active - 1 }.setRequest i (.settled o)) :=
    hbusy.setRequest ho
  unfold Machine.settle
  simp only
  split
  · exact hset.release.congr rfl rfl rfl rfl
  · exact hset.release

/-- A flight becomes another one for the same key, and more requests wait for it. -/
theorem Guarded.setFlight (h : Guarded W m) (hf : m.flights[f]? = some flight) (changed : Flight)
    (hkey : changed.key = flight.key) (hstarter : changed.waiters.head? = flight.waiters.head?)
    (hmeant : ∀ j, Started flight j →
      W.meant m.world j flight.key flight.errand flight.stage →
      W.meant m.world j changed.key changed.errand changed.stage) :
    Guarded W (m.setFlight f changed) := by
  obtain ⟨hlt, -⟩ := List.getElem?_eq_some_iff.mp hf
  have hself : (m.setFlight f changed).flights[f]? = some changed := List.getElem?_set_self hlt
  refine ⟨h.world, ?_, ?_, ?_⟩
  · intro g flight' hg
    rcases Sound.of_setFlight hf hg with ⟨rfl, rfl⟩ | ⟨-, hg'⟩
    · obtain ⟨j, hj, hj'⟩ := h.flights g flight hf
      exact ⟨j, hstarter.trans hj, hmeant j hj hj'⟩
    · exact h.flights g flight' hg'
  · intro i
    have hfits := h.requests i
    change Fits W (m.setFlight f changed) i (m.request i)
    cases hr : m.request i with
    | fresh => trivial
    | parked => trivial
    | busy n o => rwa [hr] at hfits
    | informed o => rwa [hr] at hfits
    | settled o => rwa [hr] at hfits
    | waiting g =>
      rw [hr] at hfits
      obtain ⟨flight', j, hg, hj, hwants, hbefore⟩ := hfits
      by_cases hgf : g = f
      · subst hgf
        cases hf.symm.trans hg
        exact ⟨changed, j, hself, hstarter.trans hj, hkey ▸ hwants, hbefore⟩
      · exact ⟨flight', j, (List.getElem?_set_ne (Ne.symm hgf)).trans hg, hj, hwants, hbefore⟩
  · intro key g hg
    obtain ⟨flight', hg', hkey'⟩ := h.table key g hg
    by_cases hgf : g = f
    · subst hgf
      cases hf.symm.trans hg'
      exact ⟨changed, hself, hkey.trans hkey'⟩
    · exact ⟨flight', (List.getElem?_set_ne (Ne.symm hgf)).trans hg', hkey'⟩

/-- A flight starts. -/
theorem Guarded.newFlight (rules : W.Rules crew plan) (h : Guarded W m) {key : FlightKey}
    {errand : Errand} (hwants : W.wants i key) (hmeant : W.meant m.world i key errand .looking) :
    Guarded W (({ m with
      flights := m.flights ++ [⟨key, errand, .looking, [i]⟩]
      table := m.table.set key m.flights.length } : Machine σ).setRequest i
        (.waiting m.flights.length)) := by
  have hlast : (m.flights ++ [(⟨key, errand, .looking, [i]⟩ : Flight)])[m.flights.length]? =
      some ⟨key, errand, .looking, [i]⟩ := List.getElem?_concat_length
  have hold : ∀ {f : Nat} {flight : Flight}, m.flights[f]? = some flight →
      (m.flights ++ [(⟨key, errand, .looking, [i]⟩ : Flight)])[f]? = some flight := by
    intro f flight hf
    obtain ⟨hlt, -⟩ := List.getElem?_eq_some_iff.mp hf
    exact (List.getElem?_append_left hlt).trans hf
  have hlisted : Guarded W { m with
      flights := m.flights ++ [⟨key, errand, .looking, [i]⟩]
      table := m.table.set key m.flights.length } := by
    refine ⟨h.world, ?_, ?_, ?_⟩
    · intro f flight hf
      by_cases hlt : f < m.flights.length
      · exact h.flights f flight ((List.getElem?_append_left hlt).symm.trans hf)
      · obtain ⟨hle, -⟩ := List.getElem?_eq_some_iff.mp hf
        rw [List.length_append, List.length_singleton] at hle
        obtain rfl : f = m.flights.length := by omega
        cases hlast.symm.trans hf
        exact ⟨i, rfl, hmeant⟩
    · intro j
      have hfits := h.requests j
      change Fits W _ j (m.request j)
      cases hr : m.request j with
      | fresh => trivial
      | parked => trivial
      | busy n o => rwa [hr] at hfits
      | informed o => rwa [hr] at hfits
      | settled o => rwa [hr] at hfits
      | waiting f =>
        rw [hr] at hfits
        obtain ⟨flight, k, hf, hrest⟩ := hfits
        exact ⟨flight, k, hold hf, hrest⟩
    · intro key' f hf
      change (m.table.set key m.flights.length).find? key' = some f at hf
      rw [Keyed.find?_set] at hf
      split at hf
      · rename_i heq
        cases hf
        exact ⟨_, hlast, heq.symm⟩
      · obtain ⟨flight, hf', hkey⟩ := h.table key' f hf
        exact ⟨flight, hold hf', hkey⟩
  exact hlisted.setRequest ⟨_, i, hlast, rfl, hwants, rules.start i⟩

theorem Guarded.isListed (h : Guarded W m) : m.IsListed := fun key f hf => by
  obtain ⟨flight, hflight, -⟩ := h.table key f hf
  exact ⟨flight, hflight⟩

/-- A request boards the flight of its key. -/
theorem Guarded.share (rules : W.Rules crew plan) (h : Guarded W m) {key : FlightKey} {errand : Errand}
    (hwants : W.wants i key) (hmeant : W.meant m.world i key errand .looking)
    (hbefore : ∀ (f : Nat) (flight : Flight) (j : Nat), m.flights[f]? = some flight →
      Started flight j → W.before j i) : Guarded W (m.share i key errand) := by
  have hshares := shares m h.isListed i key errand
  have hnoted : Guarded W (m.act (Work.report (.joining errand.file errand.key))).2 := by
    obtain ⟨hfine, hlater⟩ := rules.notes m.world
      (⟨Log.Context.none, .joining errand.file errand.key⟩ :: m.world.journal) h.world
    exact h.goes rules hfine hlater
  have hlisted : ∀ {f : Nat} {flight : Flight}, m.table.find? key = some f →
      m.flights[f]? = some flight → flight.key = key := by
    intro f flight hentry hf
    obtain ⟨flight', hf', hkey⟩ := h.table key f hentry
    cases hf.symm.trans hf'
    exact hkey
  generalize m.share i key errand = m' at hshares ⊢
  generalize (m.table.find? key).getD m.flights.length = f at hshares
  cases hshares with
  | @landed flight o listed found outcome =>
    obtain ⟨j, hj, hmeant'⟩ := hnoted.flights _ flight found
    refine hnoted.settle ?_
    rw [outcome?_eq_some.mp outcome] at hmeant'
    exact rules.tells _ i j _ _ o hnoted.world (hlisted listed found ▸ hwants) (hbefore _ _ j found hj)
      hmeant'
  | @joined flight listed found opened =>
    obtain ⟨j, hj, -⟩ := hnoted.flights _ flight found
    have hhead : (flight.waiters ++ [i]).head? = flight.waiters.head? := by
      rw [List.head?_append, hj]
      rfl
    have hset := hnoted.setFlight found { flight with waiters := flight.waiters ++ [i] }
      rfl hhead fun _ _ hmeant' => hmeant'
    obtain ⟨hlt, -⟩ := List.getElem?_eq_some_iff.mp found
    refine hset.setRequest ⟨_, j, List.getElem?_set_self hlt, hhead.trans hj, ?_,
      hbefore _ _ j found hj⟩
    exact hlisted listed found ▸ hwants
  | started free new =>
    rw [new]
    exact (h.newFlight rules hwants hmeant).congr rfl rfl rfl rfl

theorem Guarded.start (rules : W.Rules crew plan) (h : Guarded W m)
    (hbefore : ∀ (f : Nat) (flight : Flight) (j : Nat), m.flights[f]? = some flight →
      Started flight j → W.before j i) : Guarded W (m.start plan i) := by
  obtain ⟨hfine, hlater, hopens⟩ := rules.opens m.world i h.world
  have hcounted : Guarded W (m.counted ((plan i).run m.world).2) :=
    (h.goes rules hfine hlater).congr rfl rfl rfl rfl
  unfold Machine.start
  simp only [act]
  cases hplan : (plan i).run m.world with
  | mk opening w =>
    rw [hplan] at hopens hcounted
    rcases opening with e | opening
    · exact hcounted.settle hopens
    · rcases opening with o | ⟨n, o⟩ | ⟨owner, errand⟩
      · exact hcounted.settle hopens
      · cases n with
        | zero => exact hcounted.settle hopens
        | succ n => exact (hcounted.setRequest (r := .busy n o) hopens).congr rfl rfl rfl rfl
      · exact hcounted.share rules hopens.1 hopens.2 hbefore

theorem Guarded.land (h : Guarded W m) (hf : m.flights[f]? = some flight) {o : Except Failure Artifact}
    (hmeant : ∀ j, Started flight j →
      W.meant m.world j flight.key flight.errand (.landed o)) : Guarded W (m.land f flight o) := by
  have hset := h.setFlight hf { flight with stage := .landed o } rfl rfl
    fun j hj _ => hmeant j hj
  unfold Machine.land
  simp only
  split
  · exact hset.congr rfl rfl rfl rfl
  · exact hset.congr rfl rfl rfl rfl

theorem Guarded.advance (rules : W.Rules crew plan) (h : Guarded W m) (f : Nat) :
    Guarded W (m.advance crew f) := by
  rcases advance_cases crew m f with ⟨flight, hf, -, harrives⟩ | ⟨-, hsame⟩
  · rw [harrives]
    obtain ⟨j, hj, hmeant⟩ := h.flights f flight hf
    obtain ⟨hfine, hlater, hnext⟩ := rules.carries m.world j _ _ _ h.world hmeant
    have hgone := h.goes rules hfine hlater
    have hstarter : ∀ k, Started flight k → k = j := fun k hk =>
      Option.some.inj (hk.symm.trans hj)
    cases hreached : Flight.next crew flight.errand m.world flight.stage with
    | mk stage w =>
      rw [hreached] at hgone hnext
      cases stage with
      | landed o => exact hgone.land hf fun k hk => hstarter k hk ▸ hnext
      | looking =>
        exact (hgone.setFlight hf { flight with stage := .looking } rfl rfl
          fun k hk _ => hstarter k hk ▸ hnext).congr rfl rfl rfl rfl
      | fetching waited rest =>
        exact (hgone.setFlight hf { flight with stage := .fetching waited rest } rfl rfl
          fun k hk _ => hstarter k hk ▸ hnext).congr rfl rfl rfl rfl
  · rw [hsame]
    exact h

/-- What is right stays right in a step. Whoever is given up has to bear that. -/
theorem Guarded.perform (rules : W.Rules crew plan) (h : Guarded W m) {job : Job}
    (horder : m.InOrder W job)
    (hcancels : ∀ i, job = .cancel i → W.told m.world i (.error .cancelled)) :
    Guarded W (m.perform crew plan job) := by
  have hparked : ∀ i, Guarded W ({ m with parked := m.parked ++ [i] }.setRequest i .parked) := by
    intro i
    have hlonger : Guarded W { m with parked := m.parked ++ [i] } := h.congr rfl rfl rfl rfl
    exact hlonger.setRequest (r := .parked) trivial
  cases job with
  | begin i =>
    have hbefore := horder i (.inl rfl)
    simp only [Machine.perform]
    unfold Machine.admission
    split
    · exact h.start rules hbefore
    · exact hparked i
    · split
      · exact Guarded.start rules (h.congr rfl rfl rfl rfl) hbefore
      · exact hparked i
  | enter i => exact h.start rules (horder i (.inr rfl))
  | tick i =>
    simp only [Machine.perform]
    have hfits := h.requests i
    split
    · rename_i o hbusy
      rw [hbusy] at hfits
      exact h.settle hfits
    · rename_i n o hbusy
      rw [hbusy] at hfits
      exact (h.setRequest (r := .busy n o) hfits).congr rfl rfl rfl rfl
    · exact h
  | advance f => exact h.advance rules f
  | forget f =>
    simp only [Machine.perform]
    split
    · rename_i flight hf
      refine ⟨h.world, h.flights, fun i => (h.requests i).congr rfl rfl, ?_⟩
      intro key g hg
      change (m.table.erase flight.key).find? key = some g at hg
      rw [Keyed.find?_erase] at hg
      split at hg
      · cases hg
      · exact h.table key g hg
    · exact h
  | deliver f i =>
    simp only [Machine.perform]
    have hfits := h.requests i
    split
    · rename_i f' o hwaiting hlanded
      rw [hwaiting] at hfits
      split
      · rename_i hsame
        subst hsame
        obtain ⟨flight, j, hf, hj, hwants, hbefore⟩ := hfits
        rw [hf, Option.bind_some] at hlanded
        obtain ⟨k, hk, hmeant⟩ := h.flights f' flight hf
        obtain rfl := Option.some.inj (hk.symm.trans hj)
        rw [outcome?_eq_some.mp hlanded] at hmeant
        have htold := rules.tells _ i _ _ _ o h.world hwants hbefore hmeant
        exact (h.setRequest (r := .informed o) htold).congr rfl rfl rfl rfl
      · exact h
    · exact h
  | resume i =>
    simp only [Machine.perform]
    have hfits := h.requests i
    split
    · rename_i o hinformed
      rw [hinformed] at hfits
      exact h.settle hfits
    · exact h
  | cancel i =>
    simp only [Machine.perform]
    have hcancelled : Guarded W (m.setRequest i (.informed (.error .cancelled))) :=
      h.setRequest (hcancels i rfl)
    split
    · exact hcancelled.congr rfl rfl rfl rfl
    · exact hcancelled
    · exact h

/-- Before anything begins, all is right if the world is fine. -/
theorem Guarded.initial {w : World σ} (hfine : W.fine w) (count : Nat) (permits : Option Nat)
    (jobs : List Job) : Guarded W ((Machine.initial w count permits).push jobs) where
  world := hfine
  flights := nofun
  requests := by
    intro i
    have hfresh : ((Machine.initial w count permits).push jobs).request i = .fresh := by
      change ((List.replicate count Request.fresh)[i]?).getD .fresh = .fresh
      rw [List.getElem?_replicate]
      split <;> rfl
    rw [hfresh]
    trivial
  table := nofun

/-- What is right stays right in a run in which nobody has to start before others. -/
theorem Guarded.steps (rules : W.Rules crew plan) (hbefore : ∀ j i, W.before j i)
    (hcancels : ∀ w i, W.told w i (.error .cancelled)) (h : Guarded W m)
    (hsteps : Relation.ReflTransGen (Step crew plan) m m') : Guarded W m' := by
  induction hsteps with
  | refl => exact h
  | @tail reached _ _ hstep ih =>
    cases hstep with
    | perform before job after pending =>
      have htaken : Guarded W { reached with queue := before ++ after } := ih.congr rfl rfl rfl rfl
      exact htaken.perform rules (fun i _ _ _ j _ _ => hbefore j i) fun i _ => hcancels _ i

/-- Performing the jobs in turn is one way to go. -/
theorem steps_runAll (crew : Crew σ) (plan : Nat → Work σ Opening) (fuel : Nat) (m : Machine σ) :
    Relation.ReflTransGen (Step crew plan) m (m.runAll crew plan fuel) := by
  induction fuel generalizing m with
  | zero => exact .refl
  | succ fuel ih =>
    rw [runAll]
    split
    · exact .refl
    · rename_i job rest hqueue
      exact .head (.perform m [] job rest hqueue) (ih _)

end Keeping

end Machine
end AssetCompiler.Concurrent
