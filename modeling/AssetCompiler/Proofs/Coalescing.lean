import AssetCompiler.Concurrent
import AssetCompiler.Proofs.CacheEntries
import Mathlib.Logic.Relation

/-!
Requests for one cache. Look-ups and fetches come in any number and any order, wait as long as they
like, fail or are given up. A flight that has not landed has the entry of its key in the table, and
keeps it until its own removal is performed, so nobody starts a second one meanwhile; and what one
flight has stored, every later flight for the key finds.
-/
namespace AssetCompiler.Concurrent

variable {σ : Type}

/-- What is asked of a cache. -/
inductive Ask
  | look (file : String)
  | fetch (file : String) (work : Fingerprint → Reduction)

/-- The first part of a request. -/
def Ask.begin (c : Cache) (owner : String) : Ask → Work σ Opening
  | look file => do
    match ← c.get (Path.ofText file) with
    | some a => return .settled (.ok a)
    | none => return .settled (.error (.notPrecompiled file))
  | fetch file work => c.openFetch owner file work

/-- The requests for a cache by number. -/
def planOf (c : Cache) (owner : String) (asks : List Ask) (i : Nat) : Work σ Opening :=
  match asks[i]? with
  | some ask => ask.begin c owner
  | none => throw .cancelled

/-- What a run is watched for: that a fetcher starts for a key, and that it ends with a result that
is stored. -/
inductive Event
  | started (key : FlightKey)
  | stored (key : FlightKey)
  deriving DecidableEq

/-- A fetcher's key is not fetched again, nor stored to, once its result is stored. -/
def Event.Follows (earlier later : Event) : Prop :=
  ∀ key, earlier = .stored key → later ≠ .started key ∧ later ≠ .stored key

namespace Machine

/-- Whether the progress of a fetcher is an end with a result that is stored. -/
def storing (m : Machine σ) (flight : Flight) : Except Failure Reduction.Progress → List Event
  | .ok (.finished (.ok a)) =>
    match (m.act (flight.errand.deliver a)).1 with
    | .ok _ => if a.isPrecompiled then [.stored flight.key] else []
    | .error _ => []
  | _ => []

/-- What happens in a job. -/
def events (crew : Crew σ) (m : Machine σ) : Job → List Event
  | .advance f =>
    match m.flights[f]? with
    | none => []
    | some flight =>
      match flight.stage with
      | .landed _ => []
      | .fetching waited rest =>
        let (progress, m) := m.act (rest.proceed crew waited)
        m.storing flight progress
      | .looking =>
        match m.act flight.errand.stored? with
        | (.ok none, m) =>
          let (progress, m) := m.act (flight.errand.work.proceed crew 0)
          .started flight.key :: m.storing flight progress
        | _ => []
  | _ => []

theorem started_not_mem_storing (m : Machine σ) (flight : Flight)
    (progress : Except Failure Reduction.Progress) (key : FlightKey) :
    .started key ∉ m.storing flight progress := by
  unfold storing
  split
  · split
    · split <;> simp
    · simp
  · simp

/-- A fetcher is started for a flight that has looked in the store and has found nothing there. -/
theorem lacked_of_started {crew : Crew σ} {m : Machine σ} {job : Job} {key : FlightKey}
    (hstarted : .started key ∈ m.events crew job) :
    ∃ (f : Nat) (flight : Flight), m.flights[f]? = some flight ∧ flight.key = key ∧
      (m.act flight.errand.stored?).1 = .ok none := by
  cases job with
  | advance f =>
    unfold events at hstarted
    cases hf : m.flights[f]? with
    | none =>
      simp only [hf] at hstarted
      cases hstarted
    | some flight =>
      simp only [hf] at hstarted
      cases hstage : flight.stage with
      | landed outcome =>
        simp only [hstage] at hstarted
        cases hstarted
      | fetching waited rest =>
        simp only [hstage] at hstarted
        exact absurd hstarted (started_not_mem_storing _ _ _ _)
      | looking =>
        simp only [hstage] at hstarted
        cases hact : m.act flight.errand.stored? with
        | mk found m' =>
          rw [hact] at hstarted
          rcases found with e | (_ | a)
          · cases hstarted
          · rcases List.mem_cons.mp hstarted with heq | hlater
            · cases heq
              exact ⟨f, flight, hf, rfl, congrArg Prod.fst hact⟩
            · exact absurd hlater (started_not_mem_storing _ _ _ _)
          · cases hstarted
  | _ => cases hstarted

/-- Performs so many of the pending jobs at most, always the one that has waited longest. -/
def runAll (crew : Crew σ) (plan : Nat → Work σ Opening) : (fuel : Nat) → Machine σ → Machine σ
  | 0, m => m
  | fuel + 1, m =>
    match m.queue with
    | [] => m
    | job :: rest => runAll crew plan fuel ({ m with queue := rest }.perform crew plan job)

/-- A run with what happened in it, the oldest event first. -/
inductive Run (crew : Crew σ) (plan : Nat → Work σ Opening) : Machine σ → List Event →
    Machine σ → Prop
  | none (m : Machine σ) : Run crew plan m [] m
  | step {m m' : Machine σ} {log : List Event} (run : Run crew plan m log m')
      (before : List Job) (job : Job) (after : List Job)
      (pending : m'.queue = before ++ job :: after) :
      Run crew plan m (log ++ { m' with queue := before ++ after }.events crew job)
        ({ m' with queue := before ++ after }.perform crew plan job)

/-- Every sequence of steps is a run. -/
theorem run_of_steps {crew : Crew σ} {plan : Nat → Work σ Opening} {m m' : Machine σ}
    (h : Relation.ReflTransGen (Step crew plan) m m') : ∃ log, Run crew plan m log m' := by
  induction h with
  | refl => exact ⟨[], .none m⟩
  | tail _ hstep ih =>
    obtain ⟨log, hrun⟩ := ih
    cases hstep with
    | perform before job after pending => exact ⟨_, hrun.step before job after pending⟩

/-! What no job but a few touches -/

/-- A flight without those who wait for it. -/
def core (f : Flight) : FlightKey × Errand × Stage := (f.key, f.errand, f.stage)

/-- Two machines that differ in requests, and in jobs that remove nothing from the table. -/
structure Alike (m m' : Machine σ) : Prop where
  flights : m'.flights.map core = m.flights.map core
  table : m'.table = m.table
  surroundings : Work.surroundings m'.world = Work.surroundings m.world
  removals : ∀ f, m'.queue.count (.forget f) ≤ m.queue.count (.forget f)

namespace Alike

variable {m m' m'' : Machine σ}

theorem refl (m : Machine σ) : Alike m m := ⟨rfl, rfl, rfl, fun _ => Nat.le_refl _⟩

theorem trans (h : Alike m m') (h' : Alike m' m'') : Alike m m'' :=
  ⟨h'.flights.trans h.flights, h'.table.trans h.table, h'.surroundings.trans h.surroundings,
    fun f => Nat.le_trans (h'.removals f) (h.removals f)⟩

/-- Machines that differ in nothing but requests and permits are alike. -/
theorem of_eq (hworld : m'.world = m.world) (hqueue : m'.queue = m.queue)
    (hflights : m'.flights = m.flights) (htable : m'.table = m.table) : Alike m m' := by
  refine ⟨by rw [hflights], htable, by rw [hworld], fun f => ?_⟩
  exact Nat.le_of_eq (congrArg (List.count _) hqueue)

theorem setRequest (m : Machine σ) (i : Nat) (r : Request) : Alike m (m.setRequest i r) :=
  of_eq rfl rfl rfl rfl

theorem push (m : Machine σ) {jobs : List Job} (h : ∀ f, .forget f ∉ jobs) :
    Alike m (m.push jobs) := by
  refine ⟨rfl, rfl, rfl, fun f => ?_⟩
  change (m.queue ++ jobs).count (.forget f) ≤ _
  rw [List.count_append, List.count_eq_zero.mpr (h f)]
  exact Nat.le_refl _

theorem halt (m : Machine σ) : Alike m m.halt :=
  ⟨rfl, rfl, rfl, fun _ => Nat.zero_le _⟩

theorem act {α : Type} (m : Machine σ) {action : Work σ α}
    (h : Work.Keeps Work.surroundings action) : Alike m (m.act action).2 :=
  ⟨rfl, rfl, h m.world, fun _ => Nat.le_refl _⟩

theorem release (m : Machine σ) : Alike m m.release := by
  unfold Machine.release
  split
  · exact refl m
  · split
    · exact of_eq rfl rfl rfl rfl
    · rename_i j rest _
      have hparked : Alike m { m with parked := rest } := of_eq rfl rfl rfl rfl
      exact hparked.trans (push _ (by simp))

theorem settle (m : Machine σ) (i : Nat) (outcome : Except Failure Artifact) :
    Alike m (m.settle i outcome) := by
  have hsettled : Alike m ({ m with active := m.active - 1 }.setRequest i (.settled outcome)) :=
    of_eq rfl rfl rfl rfl
  have hreleased := hsettled.trans (release _)
  unfold Machine.settle
  simp only
  split
  · exact hreleased.trans (halt _)
  · exact hreleased

/-- One more request waits for a flight. -/
theorem await (m : Machine σ) {f : Nat} {flight : Flight} (h : m.flights[f]? = some flight)
    (waiters : List Nat) : Alike m (m.setFlight f { flight with waiters := waiters }) := by
  refine ⟨?_, rfl, rfl, fun _ => Nat.le_refl _⟩
  change (m.flights.set f _).map core = _
  rw [List.map_set]
  apply List.ext_getElem?
  intro i
  rw [List.getElem?_set]
  split
  · rename_i heq
    subst heq
    split
    · rw [List.getElem?_map, h]
      rfl
    · rename_i hlen
      rw [List.getElem?_eq_none (by omega)]
  · rfl

end Alike

/-! The invariant -/

/-- What holds in every state of a run. A flight that has not landed has the entry of its key. One
that will be removed has landed and still has it, and will be removed once only. A fetcher at work
finds nothing stored before it, and what is stored stays. -/
structure Sound (c : Cache) (owner : String) (place : Store.Place) (m : Machine σ)
    (log : List Event) : Prop where
  own : ∀ (f : Nat) (flight : Flight), m.flights[f]? = some flight →
    flight.key = (owner, flight.errand.key) ∧ flight.errand.cache = c
  entered : ∀ (f : Nat) (flight : Flight), m.flights[f]? = some flight → flight.outcome? = none →
    m.table.find? flight.key = some f
  removals : ∀ f, .forget f ∈ m.queue → ∃ flight, m.flights[f]? = some flight ∧
    flight.outcome? ≠ none ∧ m.table.find? flight.key = some f
  once : ∀ f, m.queue.count (.forget f) ≤ 1
  listed : ∀ key f, m.table.find? key = some f → ∃ flight, m.flights[f]? = some flight ∧
    flight.key = key
  fetching : ∀ (f : Nat) (flight : Flight) waited rest, m.flights[f]? = some flight →
    flight.stage = .fetching waited rest → .stored flight.key ∉ log
  place : c.store.At m.world.volume place
  date : m.world.now.IsDate
  held : ∀ key, .stored key ∈ log → ∃ e, c.store.Holds m.world.volume key.2 e
  order : log.Pairwise Event.Follows

theorem getElem?_core {m : Machine σ} {f : Nat} {flight : Flight}
    (h : m.flights[f]? = some flight) : (m.flights.map core)[f]? = some (core flight) := by
  rw [List.getElem?_map, h]
  rfl

theorem of_getElem?_core {m : Machine σ} {f : Nat} {x : FlightKey × Errand × Stage}
    (h : (m.flights.map core)[f]? = some x) : ∃ flight, m.flights[f]? = some flight ∧
      core flight = x := by
  rw [List.getElem?_map, Option.map_eq_some_iff] at h
  exact h

theorem outcome?_eq {flight flight' : Flight} (h : flight.stage = flight'.stage) :
    flight.outcome? = flight'.outcome? := by
  unfold Flight.outcome?
  rw [h]

theorem outcome?_eq_some {flight : Flight} {o : Except Failure Artifact} :
    flight.outcome? = some o ↔ flight.stage = .landed o := by
  unfold Flight.outcome?
  cases flight.stage <;> simp

namespace Sound

variable {c : Cache} {owner : String} {place : Store.Place} {m m' : Machine σ} {log : List Event}

theorem alike (h : Sound c owner place m log) (alike : Alike m m') :
    Sound c owner place m' log := by
  have hback : ∀ (f : Nat) (flight : Flight), m'.flights[f]? = some flight →
      ∃ flight', m.flights[f]? = some flight' ∧ flight'.key = flight.key ∧
        flight'.errand = flight.errand ∧ flight'.stage = flight.stage := by
    intro f flight hf
    have hcore := getElem?_core hf
    rw [alike.flights] at hcore
    obtain ⟨flight', hf', heq⟩ := of_getElem?_core hcore
    simp only [core, Prod.mk.injEq] at heq
    exact ⟨flight', hf', heq⟩
  have hforth : ∀ (f : Nat) (flight : Flight), m.flights[f]? = some flight →
      ∃ flight', m'.flights[f]? = some flight' ∧ flight'.key = flight.key ∧
        flight'.errand = flight.errand ∧ flight'.stage = flight.stage := by
    intro f flight hf
    have hcore := getElem?_core hf
    rw [← alike.flights] at hcore
    obtain ⟨flight', hf', heq⟩ := of_getElem?_core hcore
    simp only [core, Prod.mk.injEq] at heq
    exact ⟨flight', hf', heq⟩
  have hvolume : m'.world.volume = m.world.volume := congrArg Prod.fst alike.surroundings
  have hnow : m'.world.now = m.world.now := congrArg (fun x => x.2.2) alike.surroundings
  constructor
  · intro f flight hf
    obtain ⟨flight', hf', hkey, herrand, _⟩ := hback f flight hf
    rw [← hkey, ← herrand]
    exact h.own f flight' hf'
  · intro f flight hf hopen
    obtain ⟨flight', hf', hkey, _, hstage⟩ := hback f flight hf
    rw [alike.table, ← hkey]
    exact h.entered f flight' hf' ((outcome?_eq hstage).trans hopen)
  · intro f hf
    have hcount := alike.removals f
    have hpos : 0 < m'.queue.count (.forget f) := List.count_pos_iff.mpr hf
    obtain ⟨flight, hflight, hlanded, hentry⟩ :=
      h.removals f (List.count_pos_iff.mp (by omega))
    obtain ⟨flight', hflight', hkey, _, hstage⟩ := hforth f flight hflight
    refine ⟨flight', hflight', ?_, ?_⟩
    · rw [outcome?_eq hstage]
      exact hlanded
    · rw [alike.table, hkey]
      exact hentry
  · intro f
    exact Nat.le_trans (alike.removals f) (h.once f)
  · intro key f hf
    rw [alike.table] at hf
    obtain ⟨flight, hflight, hkey⟩ := h.listed key f hf
    obtain ⟨flight', hflight', hkey', _, _⟩ := hforth f flight hflight
    exact ⟨flight', hflight', hkey'.trans hkey⟩
  · intro f flight waited rest hf hstage
    obtain ⟨flight', hf', hkey, _, hstage'⟩ := hback f flight hf
    rw [← hkey]
    exact h.fetching f flight' waited rest hf' (hstage'.trans hstage)
  · rw [hvolume]
    exact h.place
  · rw [hnow]
    exact h.date
  · intro key hkey
    rw [hvolume]
    exact h.held key hkey
  · exact h.order

/-- A flight that has not landed is the only one for its key. -/
theorem unique (h : Sound c owner place m log) {f g : Nat} {flight flight' : Flight}
    (hf : m.flights[f]? = some flight) (hg : m.flights[g]? = some flight')
    (hopen : flight.outcome? = none) (hopen' : flight'.outcome? = none)
    (hkey : flight.key = flight'.key) : f = g := by
  have hentry := h.entered f flight hf hopen
  rw [hkey, h.entered g flight' hg hopen'] at hentry
  exact (Option.some.inj hentry).symm

/-- No removal is due for a flight that has not landed. -/
theorem no_removal (h : Sound c owner place m log) {f : Nat} {flight : Flight}
    (hf : m.flights[f]? = some flight) (hopen : flight.outcome? = none) :
    .forget f ∉ m.queue := by
  intro hmem
  obtain ⟨flight', hf', hlanded, _⟩ := h.removals f hmem
  cases hf.symm.trans hf'
  exact hlanded hopen

/-- A flight is started for a key that has no entry. -/
theorem newFlight (h : Sound c owner place m log) {errand : Errand} (hcache : errand.cache = c)
    (hfree : m.table.find? (owner, errand.key) = none) (waiters : List Nat) :
    Sound c owner place { m with
      flights := m.flights ++ [⟨(owner, errand.key), errand, .looking, waiters⟩]
      table := m.table.set (owner, errand.key) m.flights.length } log := by
  have hcases : ∀ (f : Nat) (flight : Flight),
      (m.flights ++ [⟨(owner, errand.key), errand, .looking, waiters⟩])[f]? = some flight →
      m.flights[f]? = some flight ∨
        (f = m.flights.length ∧ flight = ⟨(owner, errand.key), errand, .looking, waiters⟩) := by
    intro f flight hf
    rcases Nat.lt_trichotomy f m.flights.length with hlt | rfl | hgt
    · rw [List.getElem?_append_left hlt] at hf
      exact Or.inl hf
    · rw [List.getElem?_concat_length] at hf
      exact Or.inr ⟨rfl, (Option.some.inj hf).symm⟩
    · rw [List.getElem?_eq_none (by simp; omega)] at hf
      cases hf
  constructor
  · intro f flight hf
    rcases hcases f flight hf with hold | ⟨_, rfl⟩
    · exact h.own f flight hold
    · exact ⟨rfl, hcache⟩
  · intro f flight hf hopen
    rcases hcases f flight hf with hold | ⟨rfl, rfl⟩
    · have hentry := h.entered f flight hold hopen
      have hne : flight.key ≠ (owner, errand.key) := by
        intro heq
        rw [heq, hfree] at hentry
        cases hentry
      exact (Keyed.find?_set_of_ne hne _ _).trans hentry
    · exact Keyed.find?_set_self _ _ _
  · intro f hf
    obtain ⟨flight, hflight, hlanded, hentry⟩ := h.removals f hf
    have hne : flight.key ≠ (owner, errand.key) := by
      intro heq
      rw [heq, hfree] at hentry
      cases hentry
    refine ⟨flight, ?_, hlanded, (Keyed.find?_set_of_ne hne _ _).trans hentry⟩
    obtain ⟨hlt, _⟩ := List.getElem?_eq_some_iff.mp hflight
    exact (List.getElem?_append_left hlt).trans hflight
  · exact h.once
  · intro key f hf
    change (m.table.set _ _).find? key = some f at hf
    rw [Keyed.find?_set] at hf
    split at hf
    · rename_i heq
      cases hf
      exact ⟨_, List.getElem?_concat_length, heq.symm⟩
    · obtain ⟨flight, hflight, hkey⟩ := h.listed key f hf
      obtain ⟨hlt, _⟩ := List.getElem?_eq_some_iff.mp hflight
      exact ⟨flight, (List.getElem?_append_left hlt).trans hflight, hkey⟩
  · intro f flight waited rest hf hstage
    rcases hcases f flight hf with hold | ⟨_, rfl⟩
    · exact h.fetching f flight waited rest hold hstage
    · cases hstage
  · exact h.place
  · exact h.date
  · exact h.held
  · exact h.order

/-- Joining a flight, or starting one. -/
theorem share (h : Sound c owner place m log) (i : Nat) {errand : Errand}
    (hcache : errand.cache = c) :
    Sound c owner place (m.share i (owner, errand.key) errand) log := by
  unfold Machine.share
  split
  · rename_i f flight hfound
    have hflight : m.flights[f]? = some flight := by
      obtain ⟨f', _, hmap⟩ := Option.bind_eq_some_iff.mp hfound
      obtain ⟨flight', hflight, heq⟩ := Option.map_eq_some_iff.mp hmap
      cases heq
      exact hflight
    have hjoined : Alike m (m.act (Work.report (.joining errand.file errand.key))).2 :=
      Alike.act m (Work.keeps_report _).surroundings
    simp only
    split
    · exact h.alike (hjoined.trans (Alike.settle _ _ _))
    · have hawaited := Alike.await (m.act (Work.report (.joining errand.file errand.key))).2
        (show _ = some flight from hflight) (flight.waiters ++ [i])
      exact h.alike ((hjoined.trans hawaited).trans (Alike.setRequest _ _ _))
  · rename_i hnone
    have hfree : m.table.find? (owner, errand.key) = none := by
      cases hentry : m.table.find? (owner, errand.key) with
      | none => rfl
      | some f =>
        obtain ⟨flight, hflight, _⟩ := h.listed _ f hentry
        rw [hentry, Option.bind_some, hflight] at hnone
        cases hnone
    have hnew := h.newFlight hcache hfree [i]
    exact (hnew.alike (Alike.setRequest _ i _)).alike (Alike.push _ (by simp))

/-- The entry of a flight is removed, by its own removal. -/
theorem forget (h : Sound c owner place m log) {before after : List Job} {f : Nat}
    (hpending : m.queue = before ++ .forget f :: after) {flight : Flight}
    (hflight : m.flights[f]? = some flight) :
    Sound c owner place
      { m with queue := before ++ after, table := m.table.erase flight.key } log := by
  have hdue : .forget f ∈ m.queue := by
    rw [hpending]
    simp
  obtain ⟨flight', hflight', hlanded, hentry⟩ := h.removals f hdue
  cases hflight.symm.trans hflight'
  have hcount : ∀ g, (before ++ after).count (.forget g) =
      m.queue.count (.forget g) - if g = f then 1 else 0 := by
    intro g
    rw [hpending, List.count_append, List.count_append, List.count_cons]
    by_cases hg : g = f
    · subst hg
      simp
    · have hne : ¬ ((Job.forget f == Job.forget g) = true) := by
        simp [Ne.symm hg]
      simp [hg, Ne.symm hg]
  constructor
  · exact h.own
  · intro g flight' hg hopen
    have hentry' := h.entered g flight' hg hopen
    have hne : flight'.key ≠ flight.key := by
      intro heq
      rw [heq, hentry] at hentry'
      obtain rfl := Option.some.inj hentry'
      cases hflight.symm.trans hg
      exact hlanded hopen
    exact (Keyed.find?_erase_of_ne hne _).trans hentry'
  · intro g hg
    have hpos : 0 < (before ++ after).count (.forget g) := List.count_pos_iff.mpr hg
    have hle := h.once g
    have hcountg := hcount g
    have hgf : g ≠ f := by
      rintro rfl
      rw [if_pos rfl] at hcountg
      omega
    obtain ⟨flight', hflight', hlanded', hentry'⟩ :=
      h.removals g (List.count_pos_iff.mp (by omega))
    have hne : flight'.key ≠ flight.key := by
      intro heq
      rw [heq, hentry] at hentry'
      exact hgf (Option.some.inj hentry').symm
    exact ⟨flight', hflight', hlanded', (Keyed.find?_erase_of_ne hne _).trans hentry'⟩
  · intro g
    have hle := h.once g
    have hcountg := hcount g
    change (before ++ after).count (.forget g) ≤ 1
    omega
  · intro key g hg
    change (m.table.erase flight.key).find? key = some g at hg
    rw [Keyed.find?_erase] at hg
    split at hg
    · cases hg
    · exact h.listed key g hg
  · exact h.fetching
  · exact h.place
  · exact h.date
  · exact h.held
  · exact h.order

/-- What is pending may be performed in any order. -/
theorem taken (h : Sound c owner place m log) {before after : List Job} {job : Job}
    (hpending : m.queue = before ++ job :: after) :
    Sound c owner place { m with queue := before ++ after } log := by
  refine h.alike ⟨rfl, rfl, rfl, fun f => ?_⟩
  rw [hpending]
  exact ((List.sublist_cons_self job after).append_left before).count_le _

/-- What one flight has become, and what the others still are. -/
theorem of_setFlight {f g : Nat} {flight flight' changed : Flight}
    (hf : m.flights[f]? = some flight)
    (hg : (m.setFlight f changed).flights[g]? = some flight') :
    (g = f ∧ flight' = changed) ∨ (g ≠ f ∧ m.flights[g]? = some flight') := by
  obtain ⟨hlt, _⟩ := List.getElem?_eq_some_iff.mp hf
  change (m.flights.set f changed)[g]? = some flight' at hg
  by_cases hgf : g = f
  · subst hgf
    rw [List.getElem?_set_self hlt] at hg
    exact Or.inl ⟨rfl, (Option.some.inj hg).symm⟩
  · rw [List.getElem?_set_ne (Ne.symm hgf)] at hg
    exact Or.inr ⟨hgf, hg⟩

/-- Flights keep their keys. -/
theorem setFlight_listed {f g : Nat} {flight : Flight} (hf : m.flights[f]? = some flight)
    (changed : Flight) (hkey : changed.key = flight.key) {key : FlightKey}
    (h : ∃ flight', m.flights[g]? = some flight' ∧ flight'.key = key) :
    ∃ flight', (m.setFlight f changed).flights[g]? = some flight' ∧ flight'.key = key := by
  obtain ⟨flight', hg, hkey'⟩ := h
  change ∃ flight', (m.flights.set f changed)[g]? = some flight' ∧ _
  by_cases hgf : g = f
  · subst hgf
    cases hf.symm.trans hg
    obtain ⟨hlt, _⟩ := List.getElem?_eq_some_iff.mp hf
    exact ⟨changed, List.getElem?_set_self hlt, hkey.trans hkey'⟩
  · exact ⟨flight', (List.getElem?_set_ne (Ne.symm hgf)).trans hg, hkey'⟩

/-- A flight lands, and its entry will be removed. What it may have stored is new. -/
theorem land (h : Sound c owner place m log) {f : Nat} {flight : Flight}
    (hf : m.flights[f]? = some flight) (hopen : flight.outcome? = none)
    (outcome : Except Failure Artifact) {log' : List Event}
    (hnew : ∀ key, .stored key ∈ log' → .stored key ∈ log ∨ key = flight.key)
    (held : ∀ key, .stored key ∈ log' → ∃ e, c.store.Holds m.world.volume key.2 e)
    (order : log'.Pairwise Event.Follows) :
    Sound c owner place (m.land f flight outcome) log' := by
  obtain ⟨hlt, _⟩ := List.getElem?_eq_some_iff.mp hf
  have hlanded : Sound c owner place
      ((m.setFlight f { flight with stage := .landed outcome }).push
        (.forget f :: flight.waiters.map (.deliver f))) log' := by
    constructor
    · intro g flight' hg
      rcases of_setFlight hf hg with ⟨_, rfl⟩ | ⟨_, hg'⟩
      · exact h.own f flight hf
      · exact h.own g flight' hg'
    · intro g flight' hg hopen'
      rcases of_setFlight hf hg with ⟨_, rfl⟩ | ⟨_, hg'⟩
      · cases hopen'
      · exact h.entered g flight' hg' hopen'
    · intro g hg
      change .forget g ∈ m.queue ++ .forget f :: flight.waiters.map (.deliver f) at hg
      rw [List.mem_append, List.mem_cons] at hg
      rcases hg with hold | hnow | hwaiter
      · obtain ⟨flight', hg', hdone, hentry⟩ := h.removals g hold
        have hne : f ≠ g := by
          rintro rfl
          exact h.no_removal hf hopen hold
        exact ⟨flight', (List.getElem?_set_ne hne).trans hg', hdone, hentry⟩
      · cases hnow
        exact ⟨_, List.getElem?_set_self hlt, nofun, h.entered f flight hf hopen⟩
      · obtain ⟨i, _, hi⟩ := List.mem_map.mp hwaiter
        cases hi
    · intro g
      change (m.queue ++ Job.forget f :: flight.waiters.map (Job.deliver f)).count _ ≤ 1
      have hwaiters : (flight.waiters.map (Job.deliver f)).count (.forget g) = 0 := by
        refine List.count_eq_zero.mpr fun hmem => ?_
        obtain ⟨i, _, hi⟩ := List.mem_map.mp hmem
        cases hi
      rw [List.count_append, List.count_cons, hwaiters]
      by_cases hgf : g = f
      · subst hgf
        rw [List.count_eq_zero.mpr (h.no_removal hf hopen)]
        simp
      · have hold := h.once g
        simp only [beq_iff_eq, Job.forget.injEq, Ne.symm hgf, if_false]
        omega
    · intro key g hg
      exact setFlight_listed hf { flight with stage := .landed outcome } rfl (h.listed key g hg)
    · intro g flight' waited rest hg hstage hstored
      rcases of_setFlight hf hg with ⟨_, rfl⟩ | ⟨hne, hg'⟩
      · cases hstage
      · have hopen' : flight'.outcome? = none := by
          rw [Flight.outcome?, hstage]
        rcases hnew _ hstored with hold | hkey
        · exact h.fetching g flight' waited rest hg' hstage hold
        · exact hne (h.unique hg' hf hopen' hopen hkey)
    · exact h.place
    · exact h.date
    · exact held
    · exact order
  unfold Machine.land
  simp only
  split
  · exact hlanded.alike (Alike.halt _)
  · exact hlanded

/-- The fetcher of a flight gives way. -/
theorem wait (h : Sound c owner place m log) {f : Nat} {flight : Flight}
    (hf : m.flights[f]? = some flight) (hopen : flight.outcome? = none)
    (hfree : .stored flight.key ∉ log) (waited : Nat) (rest : Reduction) :
    Sound c owner place
      ((m.setFlight f { flight with stage := .fetching waited rest }).push [.advance f]) log := by
  refine Sound.alike (m := m.setFlight f { flight with stage := .fetching waited rest }) ?_
    (Alike.push _ (by simp))
  constructor
  · intro g flight' hg
    rcases of_setFlight hf hg with ⟨_, rfl⟩ | ⟨_, hg'⟩
    · exact h.own f flight hf
    · exact h.own g flight' hg'
  · intro g flight' hg hopen'
    rcases of_setFlight hf hg with ⟨rfl, rfl⟩ | ⟨_, hg'⟩
    · exact h.entered g flight hf hopen
    · exact h.entered g flight' hg' hopen'
  · intro g hg
    obtain ⟨flight', hg', hdone, hentry⟩ := h.removals g hg
    have hne : f ≠ g := by
      rintro rfl
      exact h.no_removal hf hopen hg
    exact ⟨flight', (List.getElem?_set_ne hne).trans hg', hdone, hentry⟩
  · exact h.once
  · intro key g hg
    exact setFlight_listed hf { flight with stage := .fetching waited rest } rfl
      (h.listed key g hg)
  · intro g flight' waited' rest' hg hstage
    rcases of_setFlight hf hg with ⟨_, rfl⟩ | ⟨_, hg'⟩
    · exact hfree
    · exact h.fetching g flight' waited' rest' hg' hstage
  · exact h.place
  · exact h.date
  · exact h.held
  · exact h.order

/-- A result is stored, or storing it fails. -/
theorem stores (h : Sound c owner place m log) {key : String} {e : Entry}
    {r : Except Failure Unit} {v : Volume}
    (hstores : Store.Stores c.store place key e m.world.volume r v) :
    Sound c owner place { m with world := { m.world with volume := v } } log :=
  ⟨h.own, h.entered, h.removals, h.once, h.listed, h.fetching, hstores.kept, h.date,
    fun key hkey => hstores.holds_some (h.held key hkey), h.order⟩

/-- A fetcher may start for a key nothing was stored under. -/
theorem starts (h : Sound c owner place m log) {key : FlightKey} (hfree : .stored key ∉ log) :
    Sound c owner place m (log ++ [.started key]) := by
  have hsame : ∀ key', .stored key' ∈ log ++ [.started key] → .stored key' ∈ log := by
    intro key' hkey'
    rw [List.mem_append, List.mem_singleton] at hkey'
    exact hkey'.resolve_right nofun
  refine ⟨h.own, h.entered, h.removals, h.once, h.listed, ?_, h.place, h.date, ?_, ?_⟩
  · intro f flight waited rest hf hstage hstored
    exact h.fetching f flight waited rest hf hstage (hsame _ hstored)
  · intro key' hkey'
    exact h.held key' (hsame _ hkey')
  · refine List.pairwise_append.mpr ⟨h.order, List.pairwise_singleton _ _, ?_⟩
    intro earlier hearlier later hlater key' hkey'
    rw [List.mem_singleton] at hlater
    subst hlater
    refine ⟨?_, nofun⟩
    rintro ⟨⟩
    exact hfree (hkey' ▸ hearlier)

end Sound

theorem act_of_run {α : Type} {m : Machine σ} {action : Work σ α} {r : Except Failure α}
    {w : World σ} (h : action.run m.world = (r, w)) : m.act action = (r, { m with world := w }) := by
  rw [Machine.act, h]

namespace Sound

variable {c : Cache} {owner : String} {place : Store.Place} {m : Machine σ} {log : List Event}

/-- A flight goes on by what its fetcher came to. -/
theorem follow (h : Sound c owner place m log) {f : Nat} {flight : Flight}
    (hf : m.flights[f]? = some flight) (hopen : flight.outcome? = none)
    (hfree : .stored flight.key ∉ log) (progress : Except Failure Reduction.Progress) :
    Sound c owner place (m.follow f flight progress) (log ++ m.storing flight progress) := by
  have hquiet : ∀ {m' : Machine σ}, Sound c owner place m' log → m'.flights = m.flights →
      ∀ outcome, Sound c owner place (m'.land f flight outcome) log := by
    intro m' hm' hflights outcome
    exact hm'.land (hflights ▸ hf) hopen outcome (fun _ => Or.inl) hm'.held hm'.order
  cases progress with
  | error e =>
    simp only [storing, List.append_nil]
    exact hquiet h rfl _
  | ok progress =>
    cases progress with
    | waiting waited rest =>
      simp only [storing, List.append_nil]
      exact h.wait hf hopen hfree waited rest
    | finished outcome =>
      cases outcome with
      | error e =>
        simp only [storing, List.append_nil]
        exact hquiet h rfl _
      | ok a =>
        obtain ⟨hkey, hcache⟩ := h.own f flight hf
        cases hcontent : a.isPrecompiled with
        | false =>
          have hact := act_of_run (flight.errand.run_deliver_empty hcontent m.world)
          simp only [storing, Machine.follow, hact, hcontent]
          rw [if_neg Bool.false_ne_true, List.append_nil]
          exact hquiet h rfl _
        | true =>
          obtain ⟨r, v, hrun, hstores⟩ :=
            flight.errand.run_deliver hcontent (hcache ▸ h.place) h.date
          rw [hcache] at hstores
          have hstored := h.stores hstores
          simp only [storing, Machine.follow, act_of_run hrun, hcontent]
          cases r with
          | error e =>
            simp only [Except.map, List.append_nil]
            exact hquiet hstored rfl _
          | ok u =>
            simp only [Except.map, if_true]
            refine hstored.land hf hopen _ ?_ ?_ ?_
            · intro key hmem
              rw [List.mem_append, List.mem_singleton] at hmem
              exact hmem.imp id Event.stored.inj
            · intro key hmem
              rw [List.mem_append, List.mem_singleton] at hmem
              rcases hmem with hold | hnow
              · exact hstored.held key hold
              · cases hnow
                rw [hkey]
                exact ⟨_, hstores.holds rfl⟩
            · refine List.pairwise_append.mpr ⟨h.order, List.pairwise_singleton _ _, ?_⟩
              intro earlier hearlier later hlater key' hkey'
              rw [List.mem_singleton] at hlater
              subst hlater
              refine ⟨nofun, ?_⟩
              rintro ⟨⟩
              exact hfree (hkey' ▸ hearlier)

/-- A flight is carried on. -/
theorem advance (crew : Crew σ) (h : Sound c owner place m log) (f : Nat) :
    Sound c owner place (m.advance crew f) (log ++ m.events crew (.advance f)) := by
  cases hf : m.flights[f]? with
  | none =>
    simp only [Machine.advance, events, hf, List.append_nil]
    exact h
  | some flight =>
    obtain ⟨hkey, hcache⟩ := h.own f flight hf
    cases hstage : flight.stage with
    | landed outcome =>
      simp only [Machine.advance, events, hf, hstage, List.append_nil]
      exact h
    | fetching waited rest =>
      have hopen : flight.outcome? = none := by
        rw [Flight.outcome?, hstage]
      have hproceed := h.alike (Alike.act m (rest.keeps_proceed crew waited).surroundings)
      simp only [Machine.advance, events, hf, hstage]
      exact hproceed.follow hf hopen (h.fetching f flight waited rest hf hstage) _
    | looking =>
      have hopen : flight.outcome? = none := by
        rw [Flight.outcome?, hstage]
      have hlooked := h.alike (Alike.act m flight.errand.keeps_stored?.surroundings)
      simp only [Machine.advance, events, hf, hstage]
      cases hact : m.act flight.errand.stored? with
      | mk found m' =>
        rw [hact] at hlooked
        have hf' : m'.flights[f]? = some flight := by
          rw [← hf]
          exact congrArg (fun x => x.2.flights[f]?) hact.symm
        rcases found with e | (_ | a)
        · simp only [List.append_nil]
          exact hlooked.land hf' hopen _ (fun _ => Or.inl) hlooked.held hlooked.order
        · -- what was stored would have been found
          have hfree : .stored flight.key ∉ log := by
            intro hstored
            obtain ⟨e, he⟩ := h.held _ hstored
            rw [hkey, ← hcache] at he
            rw [act_of_run (Errand.run_stored?_of_holds he)] at hact
            cases hact
          have hfree' : .stored flight.key ∉ log ++ [.started flight.key] := by
            rw [List.mem_append, List.mem_singleton]
            rintro (hstored | hstored)
            · exact hfree hstored
            · cases hstored
          have hproceed := (hlooked.starts hfree).alike
            (Alike.act m' (flight.errand.work.keeps_proceed crew 0).surroundings)
          have hfollowed := hproceed.follow hf' hopen hfree'
            (m'.act (flight.errand.work.proceed crew 0)).1
          rw [List.append_assoc] at hfollowed
          exact hfollowed
        · simp only [List.append_nil]
          exact hlooked.land hf' hopen _ (fun _ => Or.inl) hlooked.held hlooked.order

end Sound

/-- A request for a cache is answered, or has an errand for that cache. -/
theorem planOf_shared {c : Cache} {owner owner' : String} {asks : List Ask} {i : Nat}
    {errand : Errand} {w : World σ}
    (h : ((planOf c owner asks i).run w).1 = .ok (.shared owner' errand)) :
    owner' = owner ∧ errand.cache = c := by
  unfold planOf at h
  cases hask : asks[i]? with
  | none =>
    rw [hask] at h
    cases h
  | some ask =>
    rw [hask] at h
    obtain ⟨opening, w', hrun, hopening⟩ : ∃ o w', (ask.begin c owner).run w = (.ok o, w') ∧
        o = .shared owner' errand := ⟨_, _, Prod.ext h rfl, rfl⟩
    cases ask with
    | look file =>
      obtain ⟨found, w'', _, hfound⟩ := Action.of_run_bind_ok hrun
      cases found with
      | none =>
        cases hfound
        cases hopening
      | some a =>
        cases hfound
        cases hopening
    | fetch file work =>
      obtain ⟨i, w'', _, hpure⟩ := Action.of_run_bind_ok hrun
      cases hpure
      cases hopening
      exact ⟨rfl, rfl⟩

theorem keeps_planOf (c : Cache) (owner : String) (asks : List Ask) (i : Nat) :
    Work.Keeps Work.surroundings (planOf c owner asks i : Work σ Opening) := by
  unfold planOf
  cases asks[i]? with
  | none => exact Work.keeps_throw _
  | some ask =>
    cases ask with
    | look file =>
      refine (c.keeps_get _).bind fun found => ?_
      cases found with
      | none => exact Work.keeps_pure _
      | some a => exact Work.keeps_pure _
    | fetch file work => exact c.keeps_openFetch owner file work

namespace Sound

variable {c : Cache} {owner : String} {place : Store.Place} {m : Machine σ} {log : List Event}

/-- A request begins. -/
theorem start (asks : List Ask) (h : Sound c owner place m log) (i : Nat) :
    Sound c owner place (m.start (planOf c owner asks) i) log := by
  have hcounted : Alike m { m with active := m.active + 1, peak := max m.peak (m.active + 1) } :=
    Alike.of_eq rfl rfl rfl rfl
  have hasked := h.alike (hcounted.trans (Alike.act _ (keeps_planOf c owner asks i)))
  unfold Machine.start
  simp only
  cases hact : Machine.act { m with active := m.active + 1, peak := max m.peak (m.active + 1) }
      (planOf c owner asks i) with
  | mk opening m' =>
    rw [hact] at hasked
    rcases opening with e | opening
    · exact hasked.alike (Alike.settle _ _ _)
    · cases opening with
      | settled outcome => exact hasked.alike (Alike.settle _ _ _)
      | busy left outcome =>
        cases left with
        | zero => exact hasked.alike (Alike.settle _ _ _)
        | succ left =>
          exact hasked.alike ((Alike.setRequest _ _ _).trans (Alike.push _ (by simp)))
      | shared owner' errand =>
        obtain ⟨rfl, hcache⟩ := planOf_shared (congrArg Prod.fst hact)
        exact hasked.share i hcache

/-- A request begins once it has a permit. -/
theorem admission (asks : List Ask) (h : Sound c owner place m log) (i : Nat) :
    Sound c owner place (m.admission (planOf c owner asks) i) log := by
  have hparked : Alike m ({ m with parked := m.parked ++ [i] }.setRequest i .parked) :=
    Alike.of_eq rfl rfl rfl rfl
  unfold Machine.admission
  split
  · exact h.start asks i
  · exact h.alike hparked
  · split
    · rename_i n _ _
      have hpermitted : Alike m { m with permits := some n } := Alike.of_eq rfl rfl rfl rfl
      exact (h.alike hpermitted).start asks i
    · exact h.alike hparked

/-- Any pending job may be performed. -/
theorem perform (crew : Crew σ) (asks : List Ask) (h : Sound c owner place m log)
    {before after : List Job} {job : Job} (hpending : m.queue = before ++ job :: after) :
    Sound c owner place
      ({ m with queue := before ++ after }.perform crew (planOf c owner asks) job)
      (log ++ { m with queue := before ++ after }.events crew job) := by
  have htaken := h.taken hpending
  generalize hm' : ({ m with queue := before ++ after } : Machine σ) = m' at htaken ⊢
  cases job with
  | begin i =>
    simp only [events, List.append_nil]
    exact htaken.admission asks i
  | enter i =>
    simp only [events, List.append_nil]
    exact htaken.start asks i
  | tick i =>
    simp only [events, List.append_nil, Machine.perform]
    split
    · exact htaken.alike (Alike.settle _ _ _)
    · exact htaken.alike ((Alike.setRequest _ _ _).trans (Alike.push _ (by simp)))
    · exact htaken
  | advance f => exact htaken.advance crew f
  | forget f =>
    simp only [events, List.append_nil, Machine.perform]
    subst hm'
    split
    · rename_i flight hflight
      exact h.forget hpending hflight
    · exact htaken
  | deliver f i =>
    simp only [events, List.append_nil, Machine.perform]
    split
    · split
      · exact htaken.alike ((Alike.setRequest _ _ _).trans (Alike.push _ (by simp)))
      · exact htaken
    · exact htaken
  | resume i =>
    simp only [events, List.append_nil, Machine.perform]
    split
    · exact htaken.alike (Alike.settle _ _ _)
    · exact htaken
  | cancel i =>
    simp only [events, List.append_nil, Machine.perform]
    split
    · exact htaken.alike ((Alike.setRequest _ _ _).trans (Alike.push _ (by simp)))
    · exact htaken.alike (Alike.setRequest _ _ _)
    · exact htaken

/-- Before anything is asked. -/
theorem initial {w : World σ} (hat : c.store.At w.volume place) (hdate : w.now.IsDate)
    (count : Nat) (permits : Option Nat) (cancelled : List Nat) :
    Sound c owner place
      ((Machine.initial w count permits).push (cancelled.map .cancel)) [] := by
  have hno : ∀ f, .forget f ∉ (List.range count).map Job.begin ++ cancelled.map Job.cancel := by
    intro f hmem
    simp at hmem
  constructor
  · nofun
  · nofun
  · intro f hf
    exact absurd hf (hno f)
  · intro f
    exact Nat.le_trans (Nat.le_of_eq (List.count_eq_zero.mpr (hno f))) (Nat.zero_le 1)
  · nofun
  · nofun
  · exact hat
  · exact hdate
  · nofun
  · exact List.Pairwise.nil

/-- The invariant holds all through a run. -/
theorem run {crew : Crew σ} {asks : List Ask} {m' : Machine σ} {log : List Event}
    (h : Sound c owner place m []) (hrun : Run crew (planOf c owner asks) m log m') :
    Sound c owner place m' log := by
  induction hrun with
  | none => exact h
  | step _ before job after pending ih => exact ih.perform crew asks pending

/-- A fetcher starts only where the store has nothing. -/
theorem not_held_of_started {crew : Crew σ} (h : Sound c owner place m log) {job : Job}
    {key : FlightKey} (hstarted : .started key ∈ m.events crew job) (e : Entry) :
    ¬ c.store.Holds m.world.volume key.2 e := by
  intro hheld
  obtain ⟨f, flight, hf, rfl, hlooked⟩ := lacked_of_started hstarted
  obtain ⟨hkey, hcache⟩ := h.own f flight hf
  rw [hkey, ← hcache] at hheld
  rw [act_of_run (Errand.run_stored?_of_holds hheld)] at hlooked
  cases hlooked

/-- A removal that is due takes away the entry of its flight, and no other. -/
theorem find?_forget {crew : Crew σ} {plan : Nat → Work σ Opening} (h : Sound c owner place m log)
    {before after : List Job} {f : Nat} (hpending : m.queue = before ++ .forget f :: after)
    (key : FlightKey) :
    ({ m with queue := before ++ after }.perform crew plan (.forget f)).table.find? key =
      if m.table.find? key = some f then none else m.table.find? key := by
  have hdue : .forget f ∈ m.queue := by
    rw [hpending]
    simp
  obtain ⟨flight, hflight, _, hentry⟩ := h.removals f hdue
  simp only [Machine.perform, hflight]
  rw [Keyed.find?_erase]
  by_cases hkey : key = flight.key
  · subst hkey
    rw [if_pos rfl, if_pos hentry]
  · have hother : m.table.find? key ≠ some f := by
      intro hf
      obtain ⟨flight', hflight', hkey'⟩ := h.listed key f hf
      cases hflight.symm.trans hflight'
      exact hkey hkey'.symm
    rw [if_neg hkey, if_neg hother]

end Sound

/-- No key is stored to twice. -/
theorem count_stored_le {log : List Event} (h : log.Pairwise Event.Follows) (key : FlightKey) :
    log.count (.stored key) ≤ 1 := by
  induction h with
  | nil => exact Nat.zero_le 1
  | cons hfollows _ ih =>
    rename_i event log _
    rw [List.count_cons]
    by_cases hevent : event = .stored key
    · have hnone : log.count (.stored key) = 0 := by
        refine List.count_eq_zero.mpr fun hmem => ?_
        exact (hfollows _ hmem key hevent).2 rfl
      rw [hnone]
      split <;> omega
    · simp only [beq_iff_eq, hevent, if_false]
      exact ih

/-- Requests for one cache share their work, however they interleave, whoever fails and whoever is
given up. In every state that is reached, a flight that has not landed has the entry of its key, and
so is the only one for it; a removal takes away the entry of its own flight only; no fetcher starts
under a key that has an entry in the store. And in every run at most one fetcher for a key ends with
a result that is stored, which stays and after which none starts. -/
theorem shares_work {crew : Crew σ} {c : Cache} {owner : String} {asks : List Ask}
    {permits : Option Nat} {cancelled : List Nat} {w : World σ} {place : Store.Place}
    (hat : c.store.At w.volume place) (hdate : w.now.IsDate) {log : List Event} {m : Machine σ}
    (hrun : Run crew (planOf c owner asks)
      ((Machine.initial w asks.length permits).push (cancelled.map .cancel)) log m) :
    (∀ (f : Nat) (flight : Flight), m.flights[f]? = some flight → flight.outcome? = none →
      m.table.find? flight.key = some f ∧
      ∀ (g : Nat) (flight' : Flight), m.flights[g]? = some flight' → flight'.outcome? = none →
        flight'.key = flight.key → g = f) ∧
    (∀ before f after, m.queue = before ++ .forget f :: after → ∀ key,
      ({ m with queue := before ++ after }.perform crew (planOf c owner asks)
        (.forget f)).table.find? key =
        if m.table.find? key = some f then none else m.table.find? key) ∧
    (∀ before job after, m.queue = before ++ job :: after → ∀ key,
      .started key ∈ { m with queue := before ++ after }.events crew job →
      ∀ e, ¬ c.store.Holds m.world.volume key.2 e) ∧
    (∀ key, log.count (.stored key) ≤ 1 ∧
      (.stored key ∈ log → ∃ e, c.store.Holds m.world.volume key.2 e)) ∧
    log.Pairwise Event.Follows := by
  have hsound : Sound c owner place m log :=
    (Sound.initial hat hdate asks.length permits cancelled).run hrun
  refine ⟨?_, ?_, ?_, ?_, hsound.order⟩
  · intro f flight hf hopen
    refine ⟨hsound.entered f flight hf hopen, ?_⟩
    intro g flight' hg hopen' hkey
    exact hsound.unique hg hf hopen' hopen hkey
  · intro before f after hpending
    exact hsound.find?_forget hpending
  · intro before job after hpending key hstarted
    exact (hsound.taken hpending).not_held_of_started hstarted
  · intro key
    exact ⟨count_stored_le hsound.order key, hsound.held key⟩

/-- A world with a style sheet and a table for results. -/
def smallWorld : World Unit where
  volume := ⟨[(["a.css"], .file [97] 5), (["cache.db"], .table [] 7)], [], 0⟩
  environment := []
  desks := []
  journal := []
  now := ⟨2024, 2, 29, 12, 0, 0, 0, none⟩
  tools := ()

def smallCache : Cache := ⟨.table (Path.ofText "/cache.db") "css-1" true, 0⟩

def smallCrew : Crew Unit := ⟨fun _ s => (⟨.ok .null, []⟩, s), fun _ => 0⟩

/-- Two fetches of the style sheet. -/
def smallAsks : List Ask :=
  [.fetch "/a.css" fun _ => .done (.ok (.ofContent "a" "text/css" [])),
    .fetch "/a.css" fun _ => .done (.error .cancelled)]

/-- One fetch begins and its flight stores a result before the other, which is to be given up,
begins. -/
theorem shares_work_small : smallCache.store.At smallWorld.volume (.rows ["cache.db"] "css-1") ∧
    smallWorld.now.IsDate ∧
    ∃ log m, Run smallCrew (planOf smallCache "css" smallAsks)
      ((Machine.initial smallWorld smallAsks.length none).push ([1].map .cancel)) log m ∧
      m.queue.length = 4 ∧ log.length = 2 ∧ log.Pairwise Event.Follows := by
  have hat : smallCache.store.At smallWorld.volume (.rows ["cache.db"] "css-1") :=
    ⟨rfl, rfl, by decide, [], 7, rfl⟩
  have hdate : smallWorld.now.IsDate := by
    constructor <;> simp [smallWorld, Instant.daysIn, Instant.isLeap]
  obtain ⟨log, m, hrun, hqueue, hlog⟩ : ∃ log m, Run smallCrew (planOf smallCache "css" smallAsks)
      ((Machine.initial smallWorld smallAsks.length none).push ([1].map .cancel)) log m ∧
      m.queue.length = 4 ∧ log.length = 2 :=
    ⟨_, _, .step (.step (.none _) [] (.begin 0) [.begin 1, .cancel 1] rfl)
      [.begin 1, .cancel 1] (.advance 0) [] (by decide), by decide,
      by decide⟩
  exact ⟨hat, hdate, log, m, hrun, hqueue, hlog, (shares_work hat hdate hrun).2.2.2.2⟩

end Machine
end AssetCompiler.Concurrent
