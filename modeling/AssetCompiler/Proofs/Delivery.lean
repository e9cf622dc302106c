import AssetCompiler.Proofs.Consultations
import AssetCompiler.Proofs.Endings
import AssetCompiler.Proofs.ServedResults

/-!
What requests for one cache get. Every run ends, and at its end each request is settled: one that has
boarded a flight with the flight's outcome, which is what its fetcher came to, unless it was given up. The
store is as it was, but for the results with content that fetchers return, which are found from then on.
-/
namespace AssetCompiler

variable {σ : Type}

/-- A cache answers for the files of a key with a result, where the volume is the given one. -/
def Cache.Finds (c : Cache) (v : Volume) (key : String) (a : Artifact) : Prop :=
  ∀ (σ : Type) (w w₁ : World σ) (p : Path) (i : Fingerprint), w.volume = v →
    (Work.fingerprint c.desk p).run w = (.ok i, w₁) → i.cacheKey = key →
    (c.get p).run w = (.ok (some a), w₁)

theorem Cache.finds_of_serves {c : Cache} {v : Volume} {key : String} {a : Artifact}
    (h : c.store.Serves v key a) : c.Finds v key a := by
  intro σ w w₁ p i hv hrun hkey
  have hsurroundings := Work.keeps_fingerprint c.desk p w
  rw [hrun] at hsurroundings
  have hvolume : w₁.volume = w.volume := congrArg Prod.fst hsurroundings
  have hserves : c.store.Serves w₁.volume i.cacheKey a := by
    rw [hvolume, hv, hkey]
    exact h
  obtain ⟨entry, hlookup, rfl⟩ := Cache.run_lookup_of_serves hserves
  unfold Cache.get
  rw [Action.run_bind_ok hrun, Action.run_bind_ok hlookup]
  rfl

namespace Concurrent.Machine

/-- A flight has landed with an outcome. -/
def Landed (m : Machine σ) (f : Nat) (o : Except Failure Artifact) : Prop :=
  ∃ flight, m.flights[f]? = some flight ∧ flight.outcome? = some o

/-- What a fetcher has come to, if it is through. -/
def ended : Except Failure Reduction.Progress → Option (Except Failure Artifact)
  | .error e => some (.error e)
  | .ok (.waiting _ _) => none
  | .ok (.finished outcome) => some outcome

/-- What the fetcher of a flight comes to when the flight is carried on, if it comes to its end. -/
def fetched? (crew : Crew σ) (m : Machine σ) (f : Nat) : Option (Except Failure Artifact) :=
  match m.flights[f]? with
  | none => none
  | some flight =>
    match flight.stage with
    | .landed _ => none
    | .fetching waited rest => ended (m.act (rest.proceed crew waited)).1
    | .looking =>
      match m.act flight.errand.stored? with
      | (.ok none, m) => ended (m.act (flight.errand.work.proceed crew 0)).1
      | _ => none

/-- The entry that is made of a result. -/
def entryOf (c : Cache) (m : Machine σ) (flight : Flight) (a : Artifact) : Entry :=
  Entry.ofArtifact m.world.now flight.errand.key c.space a

/-- What carrying a flight on does to the store: nothing, unless its fetcher returns a result with
content, which is put into the store. -/
inductive Brings (crew : Crew σ) (c : Cache) (place : Store.Place) (m : Machine σ) (f : Nat)
    (m' : Machine σ) : Prop
  | quiet (volume : m'.world.volume = m.world.volume)
      (poor : ∀ a, m.fetched? crew f = some (.ok a) → a.isPrecompiled = false)
      (lands : ∀ o, m.fetched? crew f = some o → m'.Landed f o)
  | stores {flight : Flight} {a : Artifact} {r : Except Failure Unit}
      (found : m.flights[f]? = some flight) (fetched : m.fetched? crew f = some (.ok a))
      (rich : a.isPrecompiled = true)
      (put : (c.store.put flight.errand.key (entryOf c m flight a)).run m.world.volume =
        (r, m'.world.volume))
      (stores : Store.Stores c.store place flight.errand.key (entryOf c m flight a) m.world.volume r
        m'.world.volume)
      (lands : m'.Landed f (r.map fun _ => a))
      (logged : r = .ok () → .stored flight.key ∈ m.events crew (.advance f))

section Fetching

variable {crew : Crew σ} {c : Cache} {owner : String} {place : Store.Place} {m m' : Machine σ}
variable {f : Nat} {flight : Flight}

theorem landed_land (hf : m.flights[f]? = some flight) (o : Except Failure Artifact) :
    (m.land f flight o).Landed f o := by
  obtain ⟨hlt, _⟩ := List.getElem?_eq_some_iff.mp hf
  unfold Machine.land
  simp only
  split
  · exact ⟨_, List.getElem?_set_self hlt, rfl⟩
  · exact ⟨_, List.getElem?_set_self hlt, rfl⟩

theorem volume_land (o : Except Failure Artifact) :
    (m.land f flight o).world.volume = m.world.volume := by
  unfold Machine.land
  simp only
  split
  · rfl
  · rfl

/-- A flight goes on by what its fetcher came to. -/
theorem brings_follow {log : List Event} (h : Sound c owner place m log)
    (hf : m.flights[f]? = some flight) {m₀ : Machine σ} (hf₀ : m₀.flights[f]? = some flight)
    (hworld : Work.surroundings m.world = Work.surroundings m₀.world)
    (progress : Except Failure Reduction.Progress) (hfetched : m₀.fetched? crew f = ended progress)
    (hevents : ∀ event ∈ m.storing flight progress, event ∈ m₀.events crew (.advance f)) :
    Brings crew c place m₀ f (m.follow f flight progress) := by
  have hvolume : m.world.volume = m₀.world.volume := congrArg Prod.fst hworld
  have hnow : m.world.now = m₀.world.now := congrArg (fun x => x.2.2) hworld
  cases progress with
  | error e =>
    refine .quiet ((volume_land _).trans hvolume) ?_ ?_
    · intro a ha
      cases hfetched.symm.trans ha
    · intro o ho
      cases hfetched.symm.trans ho
      exact landed_land hf _
  | ok progress =>
    cases progress with
    | waiting waited rest =>
      refine .quiet hvolume ?_ ?_
      · intro a ha
        cases hfetched.symm.trans ha
      · intro o ho
        cases hfetched.symm.trans ho
    | finished outcome =>
      cases outcome with
      | error e =>
        refine .quiet ((volume_land _).trans hvolume) ?_ ?_
        · intro a ha
          cases hfetched.symm.trans ha
        · intro o ho
          cases hfetched.symm.trans ho
          exact landed_land hf _
      | ok a =>
        obtain ⟨hkey, hcache⟩ := h.own f flight hf
        cases hcontent : a.isPrecompiled with
        | false =>
          have hact := act_of_run (flight.errand.run_deliver_empty hcontent m.world)
          simp only [Machine.follow, hact]
          refine .quiet ((volume_land _).trans hvolume) ?_ ?_
          · intro a' ha'
            cases hfetched.symm.trans ha'
            exact hcontent
          · intro o ho
            cases hfetched.symm.trans ho
            exact landed_land hf _
        | true =>
          have hat : flight.errand.cache.store.At m.world.volume place := hcache ▸ h.place
          obtain ⟨r, v', hput, hstores⟩ := Store.run_put hat flight.errand.key
            (show (Entry.ofArtifact m.world.now flight.errand.key flight.errand.cache.space
              a).createdAt.IsDate from h.date)
          have hentry : Entry.ofArtifact m.world.now flight.errand.key flight.errand.cache.space a =
              entryOf c m₀ flight a := by
            rw [entryOf, hnow, hcache]
          have hrun := flight.errand.run_deliver_put hcontent m.world
          rw [hput] at hrun
          have hact := act_of_run hrun
          rw [hentry, hcache, hvolume] at hput hstores
          simp only [storing, hact, hcontent, if_true] at hevents
          simp only [Machine.follow, hact]
          have hvolume' : (Machine.land { m with world := { m.world with volume := v' } } f flight
              (r.map fun _ => a)).world.volume = v' := volume_land _
          have hlands := landed_land (m := { m with world := { m.world with volume := v' } }) hf
            (r.map fun _ => a)
          refine .stores hf₀ hfetched hcontent ?_ ?_ hlands ?_
          · rw [hvolume']
            exact hput
          · rw [hvolume']
            exact hstores
          · rintro rfl
            exact hevents _ (List.mem_singleton_self _)

/-- What carrying a flight on brings. -/
theorem brings_advance {log : List Event} (h : Sound c owner place m log) (f : Nat) :
    Brings crew c place m f (m.advance crew f) := by
  cases hf : m.flights[f]? with
  | none =>
    have hnone : m.fetched? crew f = none := by
      rw [fetched?, hf]
    rw [advance_of_not_open fun flight hf' => by cases hf.symm.trans hf']
    refine .quiet rfl ?_ ?_
    · intro a ha
      cases hnone.symm.trans ha
    · intro o ho
      cases hnone.symm.trans ho
  | some flight =>
    cases hstage : flight.stage with
    | landed outcome =>
      have hnone : m.fetched? crew f = none := by
        simp only [fetched?, hf, hstage]
      have hsame : m.advance crew f = m := by
        refine advance_of_not_open fun flight' hf' => ?_
        cases hf.symm.trans hf'
        rw [Flight.outcome?, hstage]
        exact Option.some_ne_none outcome
      rw [hsame]
      refine .quiet rfl ?_ ?_
      · intro a ha
        cases hnone.symm.trans ha
      · intro o ho
        cases hnone.symm.trans ho
    | fetching waited rest =>
      have hkeeps := (rest.keeps_proceed crew waited).surroundings m.world
      have hfetched : m.fetched? crew f = ended (m.act (rest.proceed crew waited)).1 := by
        simp only [fetched?, hf, hstage]
      have hproceed : Sound c owner place (m.act (rest.proceed crew waited)).2 log :=
        h.alike (Alike.act m (rest.keeps_proceed crew waited).surroundings)
      simp only [Machine.advance, hf, hstage]
      refine brings_follow hproceed hf hf hkeeps _ hfetched ?_
      intro event hevent
      simp only [events, hf, hstage]
      exact hevent
    | looking =>
      have hkeeps := flight.errand.keeps_stored?.surroundings m.world
      have hlooked : Sound c owner place (m.act flight.errand.stored?).2 log :=
        h.alike (Alike.act m flight.errand.keeps_stored?.surroundings)
      simp only [Machine.advance, hf, hstage]
      cases hact : m.act flight.errand.stored? with
      | mk found m' =>
        have hm' : m' = (m.act flight.errand.stored?).2 := by
          rw [hact]
        have hf' : m'.flights[f]? = some flight := by
          rw [hm']
          exact hf
        have hsurroundings : Work.surroundings m'.world = Work.surroundings m.world := by
          rw [hm']
          exact hkeeps
        rw [hact] at hlooked
        have hquiet : ∀ o, m.fetched? crew f = none →
            Brings crew c place m f (m'.land f flight o) := by
          intro o hnone
          refine .quiet ((volume_land _).trans (congrArg Prod.fst hsurroundings)) ?_ ?_
          · intro a ha
            cases hnone.symm.trans ha
          · intro o ho
            cases hnone.symm.trans ho
        rcases found with e | (_ | a)
        · refine hquiet _ ?_
          simp only [fetched?, hf, hstage, hact]
        · have hproceed := hlooked.alike
            (Alike.act m' (flight.errand.work.keeps_proceed crew 0).surroundings)
          have hworked := ((flight.errand.work.keeps_proceed crew 0).surroundings m'.world).trans
            hsurroundings
          refine brings_follow hproceed hf' hf hworked _ ?_ ?_
          · simp only [fetched?, hf, hstage, hact]
          · intro event hevent
            simp only [events, hf, hstage, hact]
            exact List.mem_cons_of_mem _ hevent
        · refine hquiet _ ?_
          simp only [fetched?, hf, hstage, hact]

/-- Only a flight that is carried on may change the volume. -/
theorem volume_perform (asks : List Ask) {job : Job} (hjob : ∀ f, job ≠ .advance f) :
    (m.perform crew (planOf c owner asks) job).world.volume = m.world.volume := by
  have hplan : ∀ i, Work.Keeps World.volume (planOf c owner asks i : Work σ Opening) :=
    fun i w => congrArg Prod.fst (keeps_planOf c owner asks i w)
  cases job with
  | begin i => exact part_admission Work.isApart_volume hplan m i
  | enter i => exact part_start Work.isApart_volume hplan m i
  | advance f => exact absurd rfl (hjob f)
  | tick i | forget f | deliver f i | resume i | cancel i =>
    exact congrArg World.volume (m.perform_of_quiet (by nofun) (by nofun) (by nofun)).1

end Fetching

/-! Whole runs -/

section Running

variable {crew : Crew σ} {plan : Nat → Work σ Opening} {m m' : Machine σ}
variable {steps : List (Machine σ × Job)} {aboard : List (Nat × Nat)} {left : List Nat}

/-- What has happened in the steps of a run. -/
def happened (crew : Crew σ) (steps : List (Machine σ × Job)) : List Event :=
  steps.flatMap fun s => s.1.events crew s.2

theorem happened_append (steps later : List (Machine σ × Job)) :
    happened crew (steps ++ later) = happened crew steps ++ happened crew later :=
  List.flatMap_append

theorem happened_cons (s : Machine σ × Job) :
    happened crew (s :: steps) = s.1.events crew s.2 ++ happened crew steps :=
  List.flatMap_cons

theorem filterMap_concat {α β : Type} (g : α → Option β) (l : List α) (a : α) :
    (l ++ [a]).filterMap g = l.filterMap g ++ (g a).toList := by
  rw [List.filterMap_append]
  cases h : g a with
  | none => simp [h]
  | some b => simp [h]

/-- The machine before a step of a run, and the run after it. -/
theorem Trace.of_mem (h : Trace crew plan m steps m') {s : Machine σ × Job} (hs : s ∈ steps) :
    ∃ earlier later m₁ before after, steps = earlier ++ s :: later ∧ Trace crew plan m earlier m₁ ∧
      m₁.queue = before ++ s.2 :: after ∧ s.1 = { m₁ with queue := before ++ after } ∧
      Trace crew plan (s.1.perform crew plan s.2) later m' := by
  induction h with
  | none => cases hs
  | @step m₁ steps run before job after pending ih =>
    rcases List.mem_append.mp hs with hold | hnew
    · obtain ⟨earlier, later, m₂, before', after', rfl, hrun, hpending, hs', hlater⟩ := ih hold
      refine ⟨earlier, later ++ [_], m₂, before', after', ?_, hrun, hpending, hs',
        hlater.step before job after pending⟩
      rw [List.append_assoc, List.cons_append]
    · cases List.mem_singleton.mp hnew
      exact ⟨steps, [], m₁, before, after, rfl, run, pending, rfl, .none _⟩

/-- Performing the jobs in the order in which they came is a run. -/
theorem trace_runAll (crew : Crew σ) (plan : Nat → Work σ Opening) (fuel : Nat)
    (h : Trace crew plan m steps m') :
    ∃ steps', Trace crew plan m steps' (m'.runAll crew plan fuel) := by
  induction fuel generalizing m' steps with
  | zero => exact ⟨steps, h⟩
  | succ fuel ih =>
    rw [Machine.runAll]
    cases hqueue : m'.queue with
    | nil => exact ⟨steps, h⟩
    | cons job rest => exact ih (h.step [] job rest hqueue)

/-- Before anything is asked, all requests are about to begin. -/
theorem Tended.initial (w : World σ) (count : Nat) (cancelled : List Nat) :
    Tended ((Machine.initial w count none).push (cancelled.map .cancel)) [] [] := by
  have hmem : ∀ job ∈ (List.range count).map Job.begin ++ cancelled.map Job.cancel,
      (∃ i, i < count ∧ job = .begin i) ∨ ∃ i, job = .cancel i := by
    intro job hjob
    rw [List.mem_append, List.mem_map, List.mem_map] at hjob
    rcases hjob with ⟨i, hi, rfl⟩ | ⟨i, _, rfl⟩
    · exact .inl ⟨i, List.mem_range.mp hi, rfl⟩
    · exact .inr ⟨i, rfl⟩
  have hfresh : ∀ i, ((Machine.initial w count none).push (cancelled.map .cancel)).request i =
      .fresh := by
    intro i
    change ((List.replicate count Request.fresh)[i]?).getD .fresh = .fresh
    rw [List.getElem?_replicate]
    split
    · rfl
    · rfl
  constructor
  · rfl
  · intro i hi
    rcases hmem _ hi with ⟨j, _, h⟩ | ⟨j, h⟩ <;> cases h
  · exact fun i _ => hfresh i
  · intro i
    have hcancel : (cancelled.map Job.cancel).count (.begin i) = 0 := by
      refine List.count_eq_zero.mpr fun h => ?_
      obtain ⟨j, _, h⟩ := List.mem_map.mp h
      cases h
    have hnodup : ((List.range count).map Job.begin).Nodup :=
      List.nodup_range.map fun _ _ h => Job.begin.inj h
    change ((List.range count).map Job.begin ++ cancelled.map Job.cancel).count (.begin i) ≤ 1
    rw [List.count_append, hcancel]
    exact List.nodup_iff_count_le_one.mp hnodup (Job.begin i)
  · intro j hj
    refine .fresh (hfresh j) (.inr ?_) fun f h => by cases h
    rw [show ((Machine.initial w count none).push (cancelled.map .cancel)).requests.length = count
      from List.length_replicate] at hj
    exact List.mem_append_left _ (List.mem_map_of_mem (List.mem_range.mpr hj))
  · intro f j hf
    rcases hmem _ hf with ⟨i, _, h⟩ | ⟨i, h⟩ <;> cases h
  · intro f flight hf
    cases hf
  · intro key f hf
    cases hf

/-- Requests are tended to all through a run. -/
theorem Trace.tended (h : Trace crew plan m steps m') (hstart : m.Tended aboard left) :
    m'.Tended (aboard ++ boarded plan steps) (left ++ givenUp steps) := by
  induction h with
  | none =>
    rw [show boarded plan [] = [] from rfl, show givenUp [] = [] from rfl, List.append_nil,
      List.append_nil]
    exact hstart
  | step run before job after pending ih =>
    unfold boarded givenUp
    rw [filterMap_concat, filterMap_concat, ← List.append_assoc, ← List.append_assoc]
    exact ih.perform pending

theorem Trace.length (h : Trace crew plan m steps m') (hstart : m.Tended aboard left) :
    m'.requests.length = m.requests.length := by
  induction h with
  | none => rfl
  | @step m₁ steps run before job after pending ih =>
    have htended := run.tended hstart
    have hfree : Machine.permits { m₁ with queue := before ++ after } = Option.none := htended.free
    have hlisted : IsListed { m₁ with queue := before ++ after } := htended.isListed
    have hgoes : Goes { m₁ with queue := before ++ after }
        ({ m₁ with queue := before ++ after }.perform crew plan job) := Goes.perform hfree hlisted job
    exact hgoes.length.trans ih

/-- A flight keeps its outcome all through a run. -/
theorem Trace.landed (h : Trace crew plan m steps m') (hstart : m.Tended aboard left) {f : Nat}
    {o : Except Failure Artifact} (hlanded : m.Landed f o) : m'.Landed f o := by
  induction h with
  | none => exact hlanded
  | @step m₁ steps run before job after pending ih =>
    have htended := run.tended hstart
    have hfree : Machine.permits { m₁ with queue := before ++ after } = Option.none := htended.free
    have hlisted : IsListed { m₁ with queue := before ++ after } := htended.isListed
    have hgoes : Goes { m₁ with queue := before ++ after }
        ({ m₁ with queue := before ++ after }.perform crew plan job) := Goes.perform hfree hlisted job
    obtain ⟨flight, hf, ho⟩ := ih
    obtain ⟨flight', hf', _, hkeeps, _⟩ := hgoes.flights f flight hf
    exact ⟨flight', hf', hkeeps o ho⟩

end Running

section Keeping

variable {crew : Crew σ} {c : Cache} {owner : String} {asks : List Ask} {place : Store.Place}
variable {m m' : Machine σ} {steps : List (Machine σ × Job)} {log : List Event}

theorem Trace.sound (h : Trace crew (planOf c owner asks) m steps m')
    (hstart : Sound c owner place m log) :
    Sound c owner place m' (log ++ happened crew steps) := by
  induction h with
  | none =>
    rw [show happened crew ([] : List (Machine σ × Job)) = [] from rfl, List.append_nil]
    exact hstart
  | step run before job after pending ih =>
    rw [happened_append, ← List.append_assoc]
    have hperformed := ih.perform crew asks pending
    unfold happened
    rw [List.flatMap_singleton]
    exact hperformed

/-- A step that stores nothing under what a key is told by leaves the store's answer for the key. -/
theorem answer_perform (h : Sound c owner place m log) (job : Job)
    {key : String} (hother : ∀ key', .stored key' ∈ m.events crew job →
      c.store.slotOf key'.2 ≠ c.store.slotOf key) (now : Instant) :
    ((c.store.get now key).run (m.perform crew (planOf c owner asks) job).world.volume).1 =
      ((c.store.get now key).run m.world.volume).1 := by
  by_cases hjob : ∃ f, job = .advance f
  · obtain ⟨f, rfl⟩ := hjob
    have hbrings : Brings crew c place m f (m.advance crew f) := brings_advance h f
    change ((c.store.get now key).run (m.advance crew f).world.volume).1 = _
    cases hbrings with
    | quiet volume poor lands => rw [volume]
    | @stores flight a r found fetched rich put stores lands logged =>
      refine stores.other now key ?_
      cases r with
      | error e => exact .inl ⟨e, rfl⟩
      | ok u =>
        have hslot := hother flight.key (logged rfl)
        rw [(h.own f flight found).1] at hslot
        exact .inr hslot.symm
  · rw [volume_perform asks fun f hf => hjob ⟨f, hf⟩]

/-- So does a run. -/
theorem Trace.answer (h : Trace crew (planOf c owner asks) m steps m')
    (hstart : Sound c owner place m log) {key : String}
    (hother : ∀ key', .stored key' ∈ happened crew steps →
      c.store.slotOf key'.2 ≠ c.store.slotOf key) (now : Instant) :
    ((c.store.get now key).run m'.world.volume).1 =
      ((c.store.get now key).run m.world.volume).1 := by
  induction h with
  | none => rfl
  | @step m₁ steps run before job after pending ih =>
    have hsound := (run.sound hstart).taken pending
    have hold : ∀ key', .stored key' ∈ happened crew steps →
        c.store.slotOf key'.2 ≠ c.store.slotOf key := by
      intro key' hkey'
      refine hother key' ?_
      rw [happened_append]
      exact List.mem_append_left _ hkey'
    have hnew : ∀ key', .stored key' ∈ Machine.events crew { m₁ with queue := before ++ after } job →
        c.store.slotOf key'.2 ≠ c.store.slotOf key := by
      intro key' hkey'
      refine hother key' ?_
      rw [happened_append, happened_cons]
      exact List.mem_append_right _ (List.mem_append_left _ hkey')
    exact (answer_perform hsound job hnew now).trans (ih hold)

end Keeping

/-- A step of a run, with what stands before it and what follows. -/
structure Taken (crew : Crew σ) (c : Cache) (owner : String) (asks : List Ask) (place : Store.Place)
    (earlier : List (Machine σ × Job)) (s : Machine σ × Job) (later : List (Machine σ × Job))
    (m : Machine σ) : Prop where
  free : s.1.permits = none
  sound : Sound c owner place s.1 (happened crew earlier)
  entries : ∀ key f, s.1.table.find? key = some f → ∃ flight, s.1.flights[f]? = some flight ∧
    flight.key = key ∧ (flight.outcome? = none ∨ s.2 = .forget f ∨ s.1.Due (.forget f))
  performed : Sound c owner place (s.1.perform crew (planOf c owner asks) s.2)
    (happened crew earlier ++ s.1.events crew s.2)
  tended : ∃ aboard left, (s.1.perform crew (planOf c owner asks) s.2).Tended aboard left
  onward : Trace crew (planOf c owner asks) (s.1.perform crew (planOf c owner asks) s.2) later m

section Delivering

variable {crew : Crew σ} {c : Cache} {owner : String} {asks : List Ask} {place : Store.Place}
variable {m m' : Machine σ} {steps earlier later : List (Machine σ × Job)} {s : Machine σ × Job}
variable {aboard : List (Nat × Nat)} {left : List Nat} {log : List Event}

theorem Trace.taken (h : Trace crew (planOf c owner asks) m steps m')
    (hsound : Sound c owner place m []) (htended : m.Tended [] []) (hs : s ∈ steps) :
    ∃ earlier later, steps = earlier ++ s :: later ∧
      Taken crew c owner asks place earlier s later m' := by
  obtain ⟨earlier, later, m₁, before, after, rfl, hrun, hpending, hs₁, hlater⟩ := h.of_mem hs
  have hsound₁ : Sound c owner place m₁ (happened crew earlier) := hrun.sound hsound
  have htended₁ := hrun.tended htended
  obtain ⟨m₂, job⟩ := s
  simp only at hs₁ hpending hlater
  subst hs₁
  refine ⟨earlier, later, rfl, ?_⟩
  constructor
  · exact htended₁.free
  · exact hsound₁.taken hpending
  · intro key f hf
    obtain ⟨flight, hflight, hkey, hstands⟩ := htended₁.entries key f hf
    refine ⟨flight, hflight, hkey, hstands.imp id fun hdue => ?_⟩
    by_cases hjob : job = .forget f
    · exact .inl hjob
    · exact .inr (hdue.taken hpending (Ne.symm hjob))
  · exact hsound₁.perform crew asks hpending
  · exact ⟨_, _, htended₁.perform hpending⟩
  · exact hlater

theorem Taken.isListed (h : Taken crew c owner asks place earlier s later m) : s.1.IsListed := by
  intro key f hf
  obtain ⟨flight, hflight, _⟩ := h.entries key f hf
  exact ⟨flight, hflight⟩

theorem Taken.landed (h : Taken crew c owner asks place earlier s later m) {f : Nat}
    {o : Except Failure Artifact}
    (hlanded : (s.1.perform crew (planOf c owner asks) s.2).Landed f o) : m.Landed f o := by
  obtain ⟨aboard, left, htended⟩ := h.tended
  exact h.onward.landed htended hlanded

/-- The flight that a request boards has the key that it asks for. -/
theorem Shares.key {m m' : Machine σ} {i f : Nat} {key : FlightKey} {errand : Errand}
    (h : Shares m i key errand f m') (hfree : m.permits = none)
    (hentries : ∀ f, m.table.find? key = some f → ∃ flight, m.flights[f]? = some flight ∧
      flight.key = key) : ∃ flight, m'.flights[f]? = some flight ∧ flight.key = key := by
  have hgoes := h.goes hfree
  have hlisted : m.table.find? key = some f → ∃ flight, m'.flights[f]? = some flight ∧
      flight.key = key := by
    intro hf
    obtain ⟨flight, hflight, hkey⟩ := hentries f hf
    obtain ⟨flight', hflight', hkey', _⟩ := hgoes.flights f flight hflight
    exact ⟨flight', hflight', hkey'.trans hkey⟩
  cases h with
  | landed listed found outcome => exact hlisted listed
  | joined listed found opened => exact hlisted listed
  | started free new =>
    subst new
    exact ⟨_, List.getElem?_concat_length, rfl⟩

theorem Taken.boards (h : Taken crew c owner asks place earlier s later m) {i f : Nat}
    (hboards : s.1.boards? (planOf c owner asks) s.2 = some (i, f)) :
    ∃ errand flight, ((planOf c owner asks i).run s.1.world).1 = .ok (.shared owner errand) ∧
      (s.1.perform crew (planOf c owner asks) s.2).flights[f]? = some flight ∧
      flight.key = (owner, errand.key) := by
  have hstarts : ∀ {j m'}, Starts (planOf c owner asks) s.1 j m' →
      s.1.boards? (planOf c owner asks) (.begin j) = some (i, f) →
      ∃ errand flight, ((planOf c owner asks i).run s.1.world).1 = .ok (.shared owner errand) ∧
        m'.flights[f]? = some flight ∧ flight.key = (owner, errand.key) := by
    intro j m' hstarts hboards
    cases hstarts with
    | settled stays => cases stays.symm.trans hboards
    | busy stays => cases stays.symm.trans hboards
    | @shared owner' errand f' _ plans boards shares =>
      cases boards.symm.trans hboards
      obtain ⟨rfl, _⟩ := planOf_shared plans
      obtain ⟨flight, hflight, hkey⟩ := shares.key h.free fun f hf => by
        obtain ⟨flight, hflight, hkey, _⟩ := h.entries _ f hf
        exact ⟨flight, hflight, hkey⟩
      exact ⟨errand, flight, plans, hflight, hkey⟩
  obtain ⟨m₁, job⟩ := s
  cases job with
  | begin j =>
    have hbegun := starts (planOf c owner asks) m₁ h.isListed j
    have hperform : m₁.perform crew (planOf c owner asks) (.begin j) = _ := perform_begin h.free j
    rw [← hperform] at hbegun
    exact hstarts hbegun hboards
  | enter j => exact hstarts (starts (planOf c owner asks) m₁ h.isListed j) hboards
  | _ => cases hboards

/-- A request that is settled after it has boarded a flight has the outcome of the flight, unless it is
given up. -/
theorem Tended.told (h : m.Tended aboard left) {i f : Nat} {o : Except Failure Artifact}
    (hboarded : (i, f) ∈ aboard) (hstays : i ∉ left) (hsettled : m.request i = .settled o) :
    m.Landed f o := by
  have hi : i < m.requests.length := by
    refine Nat.lt_of_not_le fun hle => ?_
    unfold request at hsettled
    rw [List.getElem?_eq_none hle] at hsettled
    cases hsettled
  cases h.status i hi with
  | settled state only gets =>
    cases state.symm.trans hsettled
    obtain rfl := (only f).mp hboarded
    exact gets.resolve_right fun hleft => hstays hleft.2
  | alone state ashore => exact absurd hboarded (ashore f)
  | fresh state => cases state.symm.trans hsettled
  | busy state => cases state.symm.trans hsettled
  | waiting state => cases state.symm.trans hsettled
  | informed state => cases state.symm.trans hsettled

/-- When nothing is pending nobody waits. -/
theorem Tended.rest (h : m.Tended aboard left) (hqueue : m.queue = [])
    (hend : m.isInterrupted = false) :
    (∀ i < m.requests.length, ∃ o, m.request i = .settled o) ∧
    ∀ (f : Nat) (flight : Flight), m.flights[f]? = some flight → ∃ o, flight.outcome? = some o := by
  have hnone : ∀ job, ¬ m.Due job := by
    rintro job (hinterrupted | hmem)
    · cases hend.symm.trans hinterrupted
    · rw [hqueue] at hmem
      cases hmem
  have hlanded : ∀ (f : Nat) (flight : Flight), m.flights[f]? = some flight →
      flight.outcome? ≠ none := by
    intro f flight hf hopen
    exact hnone _ (h.carried f flight hf hopen)
  refine ⟨fun i hi => ?_, fun f flight hf => Option.ne_none_iff_exists'.mp (hlanded f flight hf)⟩
  cases h.status i hi with
  | settled state only gets => exact ⟨_, state⟩
  | alone state ashore => exact ⟨_, state⟩
  | fresh state due => exact absurd due (hnone _)
  | busy state due => exact absurd due (hnone _)
  | waiting state only found tended =>
    exact absurd (tended.resolve_left fun hopen => hlanded _ _ found hopen.1) (hnone _)
  | informed state only due => exact absurd due (hnone _)

/-- When no flight is under way and no removal is pending the table is empty. -/
theorem Tended.empty (h : m.Tended aboard left) (hend : m.isInterrupted = false)
    (hlanded : ∀ (f : Nat) (flight : Flight), m.flights[f]? = some flight → flight.outcome? ≠ none)
    (hremoved : ∀ f, .forget f ∉ m.queue) (key : FlightKey) : m.table.find? key = none := by
  cases hentry : m.table.find? key with
  | none => rfl
  | some f =>
    obtain ⟨flight, hf, _, hopen | hinterrupted | hmem⟩ := h.entries key f hentry
    · exact absurd hopen (hlanded f flight hf)
    · cases hend.symm.trans hinterrupted
    · exact absurd hmem (hremoved f)

/-- A key that is under way nowhere is flown for anew. -/
theorem Starts.renews {plan : Nat → Work σ Opening} {i : Nat} {owner' : String} {errand : Errand}
    (h : Starts plan m i m')
    (hplan : ((plan i).run m.world).1 = .ok (.shared owner' errand))
    (hfree : m.table.find? (owner', errand.key) = none) :
    m'.flights = m.flights ++ [⟨(owner', errand.key), errand, .looking, [i]⟩] ∧
      .advance m.flights.length ∈ m'.queue := by
  have hboards : m.boards? plan (.begin i) = some (i, m.flights.length) := by
    rw [boards?, hplan, boarding, hfree, Option.getD_none]
  cases h with
  | settled stays => cases stays.symm.trans hboards
  | busy stays => cases stays.symm.trans hboards
  | shared plans boards shares =>
    cases plans.symm.trans hplan
    cases shares with
    | landed listed found outcome => cases hfree.symm.trans listed
    | joined listed found opened => cases hfree.symm.trans listed
    | started free new =>
      subst new
      exact ⟨rfl, List.mem_append_right _ (List.mem_singleton_self _)⟩

/-- A fetcher starts where the store has nothing to serve, -/
theorem Sound.lacks_of_started (h : Sound c owner place m log) {job : Job} {key : FlightKey}
    (hstarted : .started key ∈ m.events crew job) : c.store.Lacks m.world.volume key.2 := by
  obtain ⟨f, flight, hf, rfl, hlooked⟩ := lacked_of_started hstarted
  obtain ⟨hkey, hcache⟩ := h.own f flight hf
  rw [hkey, ← hcache]
  exact Errand.lacks_of_stored? hlooked

/-- and there every flight starts its own. -/
theorem Sound.started_of_lacks (h : Sound c owner place m log) {f : Nat} {flight : Flight}
    (hf : m.flights[f]? = some flight) (hstage : flight.stage = .looking)
    (hlacks : c.store.Lacks m.world.volume flight.errand.key) :
    .started flight.key ∈ m.events crew (.advance f) := by
  obtain ⟨_, hcache⟩ := h.own f flight hf
  rw [← hcache] at hlacks
  have hlooked : (m.act flight.errand.stored?).1 = .ok none := Errand.run_stored?_of_lacks hlacks
  simp only [events, hf, hstage]
  cases hact : m.act flight.errand.stored? with
  | mk found m' =>
    rw [hact] at hlooked
    cases hlooked
    exact List.mem_cons_self ..

end Delivering

section Delivering

variable {crew : Crew σ} {c : Cache} {owner : String} {asks : List Ask} {place : Store.Place}
variable {m : Machine σ} {steps earlier later : List (Machine σ × Job)} {s : Machine σ × Job}

theorem Taken.brings (h : Taken crew c owner asks place earlier s later m) {f : Nat}
    (hjob : s.2 = .advance f) :
    Brings crew c place s.1 f (s.1.perform crew (planOf c owner asks) s.2) := by
  rw [hjob]
  exact brings_advance h.sound f

theorem Taken.returned (h : Taken crew c owner asks place earlier s later m) {f : Nat}
    {o : Except Failure Artifact} (hjob : s.2 = .advance f) (hfetched : s.1.fetched? crew f = some o)
    (hpoor : ∀ a, o = .ok a → a.isPrecompiled = false) : m.Landed f o := by
  cases h.brings hjob with
  | quiet volume poor lands => exact h.landed (lands o hfetched)
  | stores found fetched rich put stores lands logged =>
    cases fetched.symm.trans hfetched
    cases rich.symm.trans (hpoor _ rfl)

theorem Taken.untouched (h : Taken crew c owner asks place earlier s later m)
    (hpoor : ∀ f a, s.2 = .advance f → s.1.fetched? crew f = some (.ok a) →
      a.isPrecompiled = false) :
    (s.1.perform crew (planOf c owner asks) s.2).world.volume = s.1.world.volume := by
  by_cases hjob : ∃ f, s.2 = .advance f
  · obtain ⟨f, hjob⟩ := hjob
    cases h.brings hjob with
    | quiet volume poor lands => exact volume
    | stores found fetched rich put stores lands logged =>
      cases rich.symm.trans (hpoor f _ hjob fetched)
  · exact volume_perform asks fun f hf => hjob ⟨f, hf⟩

/-- What a fetcher has stored stays, since no other flight stores under its key. -/
theorem Taken.stored (h : Taken crew c owner asks place earlier s later m) {f : Nat}
    {flight : Flight} {a : Artifact} (hjob : s.2 = .advance f) (hf : s.1.flights[f]? = some flight)
    (hfetched : s.1.fetched? crew f = some (.ok a)) (hwhole : a.IsWhole)
    (hput : ((c.store.put flight.errand.key (entryOf c s.1 flight a)).run s.1.world.volume).1 =
      .ok ()) :
    m.Landed f (.ok a) ∧
    c.Finds (s.1.perform crew (planOf c owner asks) s.2).world.volume flight.errand.key a ∧
    ((∀ key, .stored key ∈ happened crew later →
        c.store.slotOf key.2 = c.store.slotOf flight.errand.key → key = flight.key) →
      c.Finds m.world.volume flight.errand.key a) := by
  cases h.brings hjob with
  | quiet volume poor lands => cases (poor a hfetched).symm.trans hwhole.isPrecompiled
  | @stores flight' a' r found fetched rich put stores lands logged =>
    cases found.symm.trans hf
    cases fetched.symm.trans hfetched
    rw [put] at hput
    cases hput
    have hserves := stores.serves rfl
    rw [entryOf, hwhole.toArtifact_ofArtifact] at hserves
    refine ⟨h.landed lands, Cache.finds_of_serves hserves, fun hapart => ?_⟩
    have horder := (h.onward.sound h.performed).order
    have hlogged : .stored flight.key ∈ happened crew earlier ++ s.1.events crew s.2 := by
      rw [hjob]
      exact List.mem_append_right _ (logged rfl)
    have hother : ∀ key, .stored key ∈ happened crew later →
        c.store.slotOf key.2 ≠ c.store.slotOf flight.errand.key := by
      intro key hkey hslot
      cases hapart key hkey hslot
      have hfollows := (List.pairwise_append.mp horder).2.2 _ hlogged _ hkey
      exact (hfollows _ rfl).2 rfl
    have hstays := hserves.congr (h.onward.answer h.performed hother)
    exact Cache.finds_of_serves hstays

theorem Taken.renews (h : Taken crew c owner asks place earlier s later m) {i : Nat}
    {errand : Errand} (hjob : s.2 = .begin i) (hend : s.1.isInterrupted = false)
    (hplan : ((planOf c owner asks i).run s.1.world).1 = .ok (.shared owner errand))
    (hlanded : ∀ (f : Nat) (flight : Flight), s.1.flights[f]? = some flight →
      flight.key = (owner, errand.key) → flight.outcome? ≠ none ∧ .forget f ∉ s.1.queue) :
    (s.1.perform crew (planOf c owner asks) s.2).flights =
      s.1.flights ++ [⟨(owner, errand.key), errand, .looking, [i]⟩] ∧
    .advance s.1.flights.length ∈ (s.1.perform crew (planOf c owner asks) s.2).queue := by
  have hfree : s.1.table.find? (owner, errand.key) = none := by
    cases hentry : s.1.table.find? (owner, errand.key) with
    | none => rfl
    | some f =>
      obtain ⟨flight, hf, hkey, hopen | hforget | hinterrupted | hmem⟩ := h.entries _ f hentry
      · exact absurd hopen (hlanded f flight hf hkey).1
      · cases hjob.symm.trans hforget
      · cases hend.symm.trans hinterrupted
      · exact absurd hmem (hlanded f flight hf hkey).2
  rw [hjob, perform_begin h.free]
  exact (starts (planOf c owner asks) s.1 h.isListed i).renews hplan hfree

/-- What a key's fetcher has not changed, no other one has. -/
theorem Taken.lacks (h : Taken crew c owner asks place earlier s later m) {key : FlightKey}
    (hstarted : .started key ∈ s.1.events crew s.2)
    (hother : ∀ key', .stored key' ∈ happened crew (s :: later) →
      c.store.slotOf key'.2 ≠ c.store.slotOf key.2) : c.store.Lacks m.world.volume key.2 := by
  rw [happened_cons] at hother
  have hlacks := h.sound.lacks_of_started hstarted
  refine hlacks.congr fun now => ?_
  have hlater := h.onward.answer h.performed
    (fun key' hkey' => hother key' (List.mem_append_right _ hkey')) now
  exact hlater.trans (answer_perform h.sound s.2
    (fun key' hkey' => hother key' (List.mem_append_left _ hkey')) now)

/-- A request that is given up is told so, and nothing else happens. -/
theorem perform_cancel (crew : Crew σ) (plan : Nat → Work σ Opening) (m : Machine σ) (i : Nat) :
    (m.perform crew plan (.cancel i)).world = m.world ∧
    (m.perform crew plan (.cancel i)).flights = m.flights ∧
    (m.perform crew plan (.cancel i)).table = m.table ∧
    (∀ job ∈ m.queue, job ∈ (m.perform crew plan (.cancel i)).queue) ∧
    ∀ j, j ≠ i → (m.perform crew plan (.cancel i)).request j = m.request j := by
  simp only [Machine.perform]
  split
  · refine ⟨rfl, rfl, rfl, fun job hjob => List.mem_append_left _ hjob, fun j hj => ?_⟩
    exact request_setRequest_of_ne m hj _
  · exact ⟨rfl, rfl, rfl, fun job hjob => hjob, fun j hj => request_setRequest_of_ne m hj _⟩
  · exact ⟨rfl, rfl, rfl, fun job hjob => hjob, fun j _ => rfl⟩

end Delivering

/-! What every run comes to -/

/-- What requests for a cache get in a run, and what the run does to the store. -/
structure Delivers (crew : Crew σ) (c : Cache) (owner : String) (asks : List Ask)
    (steps : List (Machine σ × Job)) (m : Machine σ) : Prop where
  /-- A request that boards a flight joins the one of its key, or starts it. -/
  boards : ∀ s ∈ steps, ∀ i f, s.1.boards? (planOf c owner asks) s.2 = some (i, f) →
    ∃ errand flight, ((planOf c owner asks i).run s.1.world).1 = .ok (.shared owner errand) ∧
      (s.1.perform crew (planOf c owner asks) s.2).flights[f]? = some flight ∧
      flight.key = (owner, errand.key)
  /-- Unless it is given up it is settled with the outcome of the flight. -/
  told : ∀ i f o, (i, f) ∈ boarded (planOf c owner asks) steps → i ∉ givenUp steps →
    m.request i = .settled o → m.Landed f o
  /-- When nothing is pending any more all requests are settled and all flights have landed. -/
  rest : m.queue = [] → m.isInterrupted = false →
    (∀ i < asks.length, ∃ o, m.request i = .settled o) ∧
    ∀ (f : Nat) (flight : Flight), m.flights[f]? = some flight → ∃ o, flight.outcome? = some o
  /-- Giving a request up leaves the flights alone and all other requests. -/
  cancels : ∀ s ∈ steps, ∀ i, s.2 = .cancel i →
    (s.1.perform crew (planOf c owner asks) s.2).world = s.1.world ∧
    (s.1.perform crew (planOf c owner asks) s.2).flights = s.1.flights ∧
    (s.1.perform crew (planOf c owner asks) s.2).table = s.1.table ∧
    (∀ job ∈ s.1.queue, job ∈ (s.1.perform crew (planOf c owner asks) s.2).queue) ∧
    ∀ j, j ≠ i → (s.1.perform crew (planOf c owner asks) s.2).request j = s.1.request j
  /-- A flight whose fetcher fails or returns nothing with content lands with that. -/
  returned : ∀ s ∈ steps, ∀ f o, s.2 = .advance f → s.1.fetched? crew f = some o →
    (∀ a, o = .ok a → a.isPrecompiled = false) → m.Landed f o
  /-- No step changes the volume unless a fetcher returns a result with content. -/
  untouched : ∀ s ∈ steps,
    (∀ f a, s.2 = .advance f → s.1.fetched? crew f = some (.ok a) → a.isPrecompiled = false) →
    (s.1.perform crew (planOf c owner asks) s.2).world.volume = s.1.world.volume
  /-- A result with content that a fetcher returns, and that is stored, is found from then on. -/
  stored : ∀ s ∈ steps, ∀ (f : Nat) (flight : Flight) (a : Artifact), s.2 = .advance f →
    s.1.flights[f]? = some flight → s.1.fetched? crew f = some (.ok a) → a.IsWhole →
    ((c.store.put flight.errand.key (entryOf c s.1 flight a)).run s.1.world.volume).1 = .ok () →
    m.Landed f (.ok a) ∧
    c.Finds (s.1.perform crew (planOf c owner asks) s.2).world.volume flight.errand.key a ∧
    ((∀ key, .stored key ∈ happened crew steps →
        c.store.slotOf key.2 = c.store.slotOf flight.errand.key → key = flight.key) →
      c.Finds m.world.volume flight.errand.key a)
  /-- When no flight is under way and no removal is pending the table is empty. -/
  empty : m.isInterrupted = false →
    (∀ (f : Nat) (flight : Flight), m.flights[f]? = some flight → flight.outcome? ≠ none) →
    (∀ f, .forget f ∉ m.queue) → ∀ key, m.table.find? key = none
  /-- A request for a key whose flights have all landed and been removed starts a new flight. -/
  renews : ∀ s ∈ steps, ∀ i errand, s.2 = .begin i → s.1.isInterrupted = false →
    ((planOf c owner asks i).run s.1.world).1 = .ok (.shared owner errand) →
    (∀ (f : Nat) (flight : Flight), s.1.flights[f]? = some flight →
      flight.key = (owner, errand.key) → flight.outcome? ≠ none ∧ .forget f ∉ s.1.queue) →
    (s.1.perform crew (planOf c owner asks) s.2).flights =
      s.1.flights ++ [⟨(owner, errand.key), errand, .looking, [i]⟩] ∧
    .advance s.1.flights.length ∈ (s.1.perform crew (planOf c owner asks) s.2).queue
  /-- And if no fetcher for the key has stored anything yet, the new flight runs its own. -/
  again : ∀ key, .started key ∈ happened crew steps →
    (∀ key', .stored key' ∈ happened crew steps → c.store.slotOf key'.2 ≠ c.store.slotOf key.2) →
    ∀ before f after flight, m.queue = before ++ .advance f :: after →
    m.flights[f]? = some flight → flight.key = key → flight.stage = .looking →
    .started key ∈ { m with queue := before ++ after }.events crew (.advance f)

/-- Whatever is asked of a cache, in whatever order it is worked on, whoever fails and whoever is given
up: the work ends, and everyone gets what the flight of its key has come to. -/
theorem outcomes_delivered {crew : Crew σ} {c : Cache} {owner : String} {asks : List Ask}
    {cancelled : List Nat} {w : World σ} {place : Store.Place}
    (hat : c.store.At w.volume place) (hdate : w.now.IsDate) :
    Acc (fun m' m => Step crew (planOf c owner asks) m m')
      ((Machine.initial w asks.length none).push (cancelled.map .cancel)) ∧
    ∀ steps m, Trace crew (planOf c owner asks)
      ((Machine.initial w asks.length none).push (cancelled.map .cancel)) steps m →
      Delivers crew c owner asks steps m := by
  have htended := Tended.initial w asks.length cancelled
  have hsound : Sound c owner place
      ((Machine.initial w asks.length none).push (cancelled.map .cancel)) [] :=
    Sound.initial hat hdate asks.length none cancelled
  refine ⟨htended.ends, fun steps m hrun => ?_⟩
  have hend := hrun.tended htended
  rw [List.nil_append, List.nil_append] at hend
  have hlength : m.requests.length = asks.length :=
    (hrun.length htended).trans List.length_replicate
  constructor
  · intro s hs i f hboards
    obtain ⟨_, _, _, htaken⟩ := hrun.taken hsound htended hs
    exact htaken.boards hboards
  · intro i f o hboarded hstays hsettled
    exact hend.told hboarded hstays hsettled
  · intro hqueue hgoes
    rw [← hlength]
    exact hend.rest hqueue hgoes
  · intro s hs i hjob
    rw [hjob]
    exact perform_cancel crew (planOf c owner asks) s.1 i
  · intro s hs f o hjob hfetched hpoor
    obtain ⟨_, _, _, htaken⟩ := hrun.taken hsound htended hs
    exact htaken.returned hjob hfetched hpoor
  · intro s hs hpoor
    obtain ⟨_, _, _, htaken⟩ := hrun.taken hsound htended hs
    exact htaken.untouched hpoor
  · intro s hs f flight a hjob hf hfetched hwhole hput
    obtain ⟨earlier, later, rfl, htaken⟩ := hrun.taken hsound htended hs
    obtain ⟨hlanded, hfinds, hstays⟩ := htaken.stored hjob hf hfetched hwhole hput
    refine ⟨hlanded, hfinds, fun hapart => hstays fun key hkey => hapart key ?_⟩
    rw [happened_append, happened_cons]
    exact List.mem_append_right _ (List.mem_append_right _ hkey)
  · exact hend.empty
  · intro s hs i errand hjob hgoes hplan hlanded
    obtain ⟨_, _, _, htaken⟩ := hrun.taken hsound htended hs
    exact htaken.renews hjob hgoes hplan hlanded
  · intro key hstarted hother before f after flight hpending hf hkey hstage
    obtain ⟨s, hs, hevent⟩ := List.mem_flatMap.mp hstarted
    obtain ⟨earlier, later, rfl, htaken⟩ := hrun.taken hsound htended hs
    have hlacks : c.store.Lacks m.world.volume key.2 := by
      refine htaken.lacks hevent fun key' hkey' => hother key' ?_
      rw [happened_append]
      exact List.mem_append_right _ hkey'
    have hreached := (hrun.sound hsound).taken hpending
    rw [← hkey] at hlacks ⊢
    rw [(hreached.own f flight hf).1] at hlacks
    exact hreached.started_of_lacks hf hstage hlacks

/-- Two fetches of one style sheet, the second of which is given up, all the way. -/
theorem outcomes_delivered_small :
    smallCache.store.At smallWorld.volume (.rows ["cache.db"] "css-1") ∧ smallWorld.now.IsDate ∧
    ∃ steps m, Trace smallCrew (planOf smallCache "css" smallAsks)
      ((Machine.initial smallWorld smallAsks.length none).push ([1].map .cancel)) steps m ∧
      m.queue = [] ∧ m.isInterrupted = false ∧ m.flights.length = 1 ∧
      Delivers smallCrew smallCache "css" smallAsks steps m := by
  have hat : smallCache.store.At smallWorld.volume (.rows ["cache.db"] "css-1") :=
    ⟨rfl, rfl, eq_ok_of_toOption (by decide), [], 7, rfl⟩
  have hdate : smallWorld.now.IsDate := by
    constructor <;> simp [smallWorld, Instant.daysIn, Instant.isLeap]
  obtain ⟨steps, hrun⟩ := trace_runAll smallCrew (planOf smallCache "css" smallAsks) 9
    (.none ((Machine.initial smallWorld smallAsks.length none).push ([1].map .cancel)))
  refine ⟨hat, hdate, steps, _, hrun, ?_, ?_, ?_, (outcomes_delivered hat hdate).2 steps _ hrun⟩
  · decide +kernel
  · decide +kernel
  · decide +kernel

end Concurrent.Machine
end AssetCompiler
