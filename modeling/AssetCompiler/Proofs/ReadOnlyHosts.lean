import AssetCompiler.Proofs.Deployments
import AssetCompiler.Proofs.Sessions
import AssetCompiler.Proofs.SteadyCrews

/-!
Hosts that only read. A host in this mode looks results up, and whatever it is called for it consults
nobody and writes nothing. A host of stand-ins stores nothing even where a full compilation is asked of it:
the stand-in that is picked takes the file and then fails.
-/
namespace AssetCompiler

variable {σ : Type}

open Reduction (Exchange)
open Concurrent (Machine exchangesIn)

/-! Requests that never share a flight -/

namespace Concurrent.Machine

/-- No opening asks for a flight. -/
def IsAlone (plan : Nat → Work σ Opening) : Prop :=
  ∀ i w owner errand, ((plan i).run w).1 ≠ .ok (.shared owner errand)

variable {γ : Type} {part : World σ → γ} {crew : Crew σ} {plan : Nat → Work σ Opening}

theorem IsAlone.flights_start (halone : IsAlone plan) (m : Machine σ) (i : Nat) :
    (m.start plan i).flights = m.flights := by
  have hopening := halone i m.world
  unfold start
  simp only [act]
  rcases hrun : (plan i).run m.world with ⟨r, w⟩
  rw [hrun] at hopening
  rcases r with e | (o | ⟨_ | n, o⟩ | ⟨owner, errand⟩)
  · exact flights_settle_any _ i _
  · exact flights_settle_any _ i _
  · exact flights_settle_any _ i _
  · rfl
  · exact absurd rfl (hopening owner errand)

/-- Where there are no flights, none are started. -/
theorem IsAlone.perform (halone : IsAlone plan) (m : Machine σ) (job : Job) (h : m.flights = []) :
    (m.perform crew plan job).flights = [] := by
  cases job with
  | begin i =>
    change (m.admission plan i).flights = []
    unfold admission
    split
    · rw [halone.flights_start, h]
    · exact h
    · split
      · rw [halone.flights_start]
        exact h
      · exact h
  | enter i => exact (halone.flights_start m i).trans h
  | advance f =>
    change (m.advance crew f).flights = []
    unfold advance
    simp only [h, List.getElem?_nil]
  | tick i | forget f | deliver f i | resume i | cancel i =>
    exact (m.perform_of_quiet (by nofun) (by nofun) (by nofun)).2.trans h

/-- Where there are no flights, a job changes what the openings change. -/
theorem part_perform (hapart : Work.IsApart part) (hplan : ∀ i, Work.Keeps part (plan i))
    (m : Machine σ) (job : Job) (h : m.flights = []) :
    part (m.perform crew plan job).world = part m.world := by
  cases job with
  | begin i => exact part_admission hapart hplan m i
  | enter i => exact part_start hapart hplan m i
  | advance f =>
    change part (m.advance crew f).world = _
    unfold advance
    simp only [h, List.getElem?_nil]
  | tick i | forget f | deliver f i | resume i | cancel i =>
    exact congrArg part (m.perform_of_quiet (by nofun) (by nofun) (by nofun)).1

theorem exchanges_of_no_flights (m : Machine σ) (job : Job) (h : m.flights = []) :
    m.exchanges crew job = [] := by
  cases job with
  | advance f => simp only [exchanges, h, List.getElem?_nil]
  | begin i | enter i | tick i | forget f | deliver f i | resume i | cancel i => rfl

/-- A run of such requests consults nobody, and changes what their openings change. -/
theorem Trace.alone (hapart : Work.IsApart part) (halone : IsAlone plan)
    (hplan : ∀ i, Work.Keeps part (plan i)) {m m' : Machine σ} {steps : List (Machine σ × Job)}
    (htrace : Trace crew plan m steps m') (h : m.flights = []) :
    m'.flights = [] ∧ exchangesIn crew steps = [] ∧ part m'.world = part m.world := by
  induction htrace with
  | none => exact ⟨h, rfl, rfl⟩
  | @step m' _ run before job after pending ih =>
    obtain ⟨hflights, hexchanges, hpart⟩ := ih
    have hend : part ({ m' with queue := before ++ after }.perform crew plan job).world =
        part m'.world := part_perform hapart hplan _ job hflights
    refine ⟨halone.perform _ job hflights, ?_, hend.trans hpart⟩
    unfold exchangesIn at hexchanges ⊢
    rw [List.flatMap_append, hexchanges, List.flatMap_singleton]
    exact exchanges_of_no_flights _ job hflights

end Concurrent.Machine

/-! The mode in which a host only reads -/

namespace Host

section Reading

variable {h : Host} {crew : Crew σ} {γ : Type} {part : World σ → γ}

theorem openCompile_of_readOnly (hmode : h.readOnly = true) (file : String) :
    h.openCompile file =
      (do return .settled (.ok (← h.compileReadOnly file)) : Work σ Opening) := by
  unfold openCompile
  rw [hmode]
  rfl

/-- A host that only reads settles every request at once. -/
theorem openCompile_alone (hmode : h.readOnly = true) (file : String) (w : World σ) (owner : String)
    (errand : Errand) : ((h.openCompile file).run w).1 ≠ .ok (.shared owner errand) := by
  intro hshared
  rw [openCompile_of_readOnly hmode, Action.run_bind] at hshared
  rcases hrun : (h.compileReadOnly file).run w with ⟨e | a, w'⟩
  · rw [hrun] at hshared
    cases hshared
  · rw [hrun] at hshared
    cases hshared

theorem exchangesOf_openCompile (hmode : h.readOnly = true) (crew : Crew σ) (file : String)
    (w : World σ) : exchangesOf crew (h.openCompile file) w = [] := by
  have halone := openCompile_alone hmode file w
  unfold exchangesOf
  split
  · rename_i owner errand w' hrun
    exact absurd (congrArg Prod.fst hrun) (halone owner errand)
  · rfl

theorem keeps_compile_of_readOnly (hapart : Work.IsApart part) (hmode : h.readOnly = true)
    (crew : Crew σ) (file : String) : Work.Keeps part (h.compile crew file) := by
  unfold compile
  rw [openCompile_of_readOnly hmode, bind_assoc]
  refine (hapart.compileReadOnly h file).bind fun a => ?_
  rw [pure_bind]
  exact Work.keeps_lift (.ok a)

theorem visits_alone (hmode : h.readOnly = true) (wanted : String → Bool) (files : List String) :
    Machine.IsAlone (h.visits (σ := σ) wanted files) := by
  intro i w owner errand hshared
  obtain ⟨file, -, hopened⟩ := shared_of_visits hshared
  exact openCompile_alone hmode file w owner errand hopened

/-- Whatever a host that only reads is called for, nobody is consulted, and all that comes of it is in the
journal and in the memories of fingerprinters. -/
theorem Session.of_readOnly (hapart : Work.IsApart part) (hmode : h.readOnly = true) {w w' : World σ}
    {xs : List Exchange} (session : Session h crew w xs w') : xs = [] ∧ part w' = part w := by
  induction session with
  | opened => exact ⟨rfl, rfl⟩
  | noted session journal ih => exact ⟨ih.1, (hapart.journal _ journal).trans ih.2⟩
  | compiled session file ih =>
    refine ⟨?_, (keeps_compile_of_readOnly hapart hmode crew file _).trans ih.2⟩
    rw [ih.1, exchangesOf_openCompile hmode]
    rfl
  | together session wanted files permits givenUp trace ih =>
    obtain ⟨-, hexchanges, hpart⟩ := trace.alone hapart (visits_alone hmode wanted files)
      (keeps_visits hapart h wanted files) rfl
    refine ⟨?_, hpart.trans ih.2⟩
    rw [ih.1, hexchanges]
    rfl

end Reading

/-! Stand-ins -/

/-- The fingerprinter of the host is that of its caches, and its transformers are stand-ins. -/
structure IsStandIn (h : Host) : Prop where
  tidy : h.IsTidy
  standIns : ∀ name s, h.registry.slot? name = some s → s.transformer.form = .standIn

theorem standInFor_form {made : Keyed String Transformer}
    (hmade : ∀ name t, made.find? name = some t → t.form = .standIn) (c : Credentials) :
    (standInFor made c).2.form = .standIn ∧
      ∀ name t, (standInFor made c).1.find? name = some t → t.form = .standIn := by
  unfold standInFor
  cases hfound : made.find? c.name with
  | some t => exact ⟨hmade _ _ hfound, hmade⟩
  | none =>
    refine ⟨rfl, fun name t ht => ?_⟩
    change Keyed.find? name (made.set c.name _) = some t at ht
    rw [Keyed.find?_set] at ht
    split at ht
    · cases ht
      rfl
    · exact hmade name t ht

theorem standIns_form {made : Keyed String Transformer}
    (hmade : ∀ name t, made.find? name = some t → t.form = .standIn)
    (records : List (String × Credentials)) :
    (∀ e ∈ (standIns made records).2, e.2.form = .standIn) ∧
      ∀ name t, (standIns made records).1.find? name = some t → t.form = .standIn := by
  induction records generalizing made with
  | nil => exact ⟨List.forall_mem_nil _, hmade⟩
  | cons record rest ih =>
    obtain ⟨hfirst, hmade'⟩ := standInFor_form hmade record.2
    obtain ⟨hrest, hlast⟩ := ih hmade'
    exact ⟨List.forall_mem_cons.mpr ⟨hfirst, hrest⟩, hlast⟩

/-- What is built from the records of a saved host is a host of stand-ins that only reads. -/
theorem isStandIn_of_buildReadOnly {directory : Path} {desk : Nat} {settings : Work σ Settings}
    {h : Host} {w w' : World σ} (hrun : (buildReadOnly directory desk settings).run w = (.ok h, w')) :
    h.readOnly = true ∧ h.IsStandIn := by
  unfold buildReadOnly at hrun
  obtain ⟨c, w₁, hload, hrest⟩ := Action.of_run_bind_ok hrun
  obtain ⟨given, w₂, hgiven, hbuild⟩ := Action.of_run_bind_ok hrest
  obtain ⟨-, hdesk, hmode, hregistry⟩ := of_run_build hbuild
  have hempty : ∀ name t, Keyed.find? name ([] : Keyed String Transformer) = some t →
      t.form = .standIn := nofun
  obtain ⟨htypes, hmade⟩ := standIns_form hempty c.transformers
  have hmake : ∀ t ∈ Registry.registered (standIns [] c.transformers).2
      (c.fallback.map fun f => (standInFor (standIns [] c.transformers).1 f).2),
      ∀ (v : World σ) k v', (Cache.ofTransformer t desk { given with cacheRoot := directory }).run v =
        (.ok k, v') → k.desk = desk ∧ t.form = .standIn := by
    intro t ht v k v' hk
    obtain ⟨-, -, hnumber, -⟩ := run_ofTransformer hk
    refine ⟨hnumber, ?_⟩
    rcases List.mem_append.mp ht with ht | ht
    · obtain ⟨e, he, rfl⟩ := List.mem_map.mp ht
      exact htypes e he
    · obtain ⟨f, -, rfl⟩ := Option.map_eq_some_iff.mp (Option.mem_toList.mp ht)
      exact (standInFor_form hmade f).1
  have hholds := Registry.holds_of_build
    (P := fun s => s.cache.desk = desk ∧ s.transformer.form = .standIn) hmake hregistry
  refine ⟨hmode, ⟨fun name s hs => (hholds name s hs).1, fun name s hs => ?_⟩, fun name s hs => ?_⟩
  · rw [hdesk]
    exact (hholds name s hs).2.1
  · exact (hholds name s hs).2.2

end Host

namespace Reduction

section StandIns

variable {f : Frame} (hform : f.transformer.form = .standIn) (crew : Crew σ) (s : σ)
include hform

/-- A stand-in takes every code, without dependencies. -/
theorem answer_of_standIn (scratch : List (String × Json)) :
    crew.answer (f.call .accepts scratch) s = (⟨.ok (.bool true), scratch⟩, s) ∧
      crew.answer (f.call .dependencies scratch) s = (⟨.ok (.arr []), scratch⟩, s) := by
  have haccepts : (f.call .accepts scratch).ownAnswer? = some (.ok (.bool true)) := by
    simp only [Call.ownAnswer?, Frame.call, hform]
  have hdependencies : (f.call .dependencies scratch).ownAnswer? = some (.ok (.arr [])) := by
    simp only [Call.ownAnswer?, Frame.call, hform]
  unfold Crew.answer
  rw [haccepts, hdependencies]
  exact ⟨rfl, rfl⟩

/-- A stand-in makes no output. -/
theorem course_withOutput_of_standIn (v : Volume) (scratch : List (String × Json))
    (rest : Output → Reduction) : ((f.withOutput scratch rest).course crew v s).tools = s ∧
      ∃ e, ((f.withOutput scratch rest).course crew v s).outcome = .error e := by
  obtain ⟨e, hanswer⟩ := Call.ownAnswer?_standIn (c := f.call .transform scratch) hform rfl
  have hreply : crew.answer (f.call .transform scratch) s = (⟨.error e, scratch⟩, s) := by
    unfold Crew.answer
    rw [hanswer]
    rfl
  unfold Frame.withOutput
  rw [course_asking, hreply]
  exact ⟨rfl, _, rfl⟩

end StandIns

/-- A reduction goes on with some code, or fails because the file cannot be read. -/
theorem course_withSource (crew : Crew σ) (v : Volume) (i : Fingerprint) (file : String)
    (rest : String → Reduction) (s : σ) :
    (∃ e, (withSource i file rest).course crew v s = ⟨[], .error e, s⟩) ∨
      ∃ code, (withSource i file rest).course crew v s = (rest code).course crew v s := by
  unfold withSource
  cases i.source with
  | some code => exact .inr ⟨code, rfl⟩
  | none =>
    simp only [Reduction.course]
    cases (v.readTextLossy (Path.ofText file)).map String.ofList with
    | error e => exact .inl ⟨e, rfl⟩
    | ok code => exact .inr ⟨code, rfl⟩

/-- A reduction that a stand-in begins fails, and nobody else is consulted. -/
theorem course_of_standIn (crew : Crew σ) (next? : Option String → Option Transformer) (limit : Int)
    (file : String) (i : Fingerprint) {t : Transformer} (hform : t.form = .standIn) (v : Volume)
    (s : σ) : ((ofFile next? limit file i t).course crew v s).tools = s ∧
      ∃ e, ((ofFile next? limit file i t).course crew v s).outcome = .error e := by
  have hpass (code : String) (rest : List Json → Output → Reduction) :
      let frame : Frame := ⟨file, t, 0, inputType file i, code⟩
      let work := frame.withDependencies [] [] fun dependencies scratch =>
        frame.withOutput scratch (rest dependencies)
      (work.course crew v s).tools = s ∧ ∃ e, (work.course crew v s).outcome = .error e := by
    intro frame work
    have hwork : work.course crew v s = Course.after
        [⟨frame.call .dependencies [], ⟨.ok (.arr []), []⟩⟩]
        ((frame.withOutput [] (rest [])).course crew v s) := by
      have hask := (answer_of_standIn (f := frame) hform crew s []).2
      simp only [work, Frame.withDependencies, show frame.index = 0 from rfl, if_true]
      rw [course_asking, hask]
      rfl
    rw [hwork]
    exact course_withOutput_of_standIn (f := frame) hform crew s v [] (rest [])
  unfold ofFile
  cases limit.toNat with
  | zero => exact ⟨rfl, _, rfl⟩
  | succ left =>
    rw [passes]
    rcases course_withSource crew v i file _ s with ⟨e, hcourse⟩ | ⟨code, hcourse⟩
    · rw [hcourse]
      exact ⟨rfl, e, rfl⟩
    · have hask := (answer_of_standIn (f := ⟨file, t, 0, inputType file i, code⟩) hform crew s []).1
      rw [hcourse, course_asking, hask]
      exact hpass code _

end Reduction

/-- An errand whose work fails comes to a result that is stored, or to a failure. -/
theorem Errand.run_of_failing {crew : Crew σ} {e : Errand}
    (hfails : ∀ v s, (e.work.course crew v s).tools = s ∧
      ∃ f, (e.work.course crew v s).outcome = .error f) (w : World σ) :
    ((e.run crew).run w).2.volume = w.volume ∧ ((e.run crew).run w).2.tools = w.tools ∧
      ∀ a, ((e.run crew).run w).1 = .ok a ↔ e.cache.store.Serves w.volume e.key a := by
  have hvolume := e.volume_stored? w
  have htools := Work.isApart_tools.stored? e w
  have hserved : ∀ a, e.cache.store.Serves w.volume e.key a → (e.stored?.run w).1 = .ok (some a) :=
    fun a ha => congrArg Prod.fst (run_stored?_of_serves ha)
  unfold Errand.run
  rw [Action.run_bind]
  rcases hstored : e.stored?.run w with ⟨stored, w₁⟩
  rw [hstored] at hvolume htools hserved
  rcases stored with f | (_ | b)
  · refine ⟨hvolume, htools, fun a => ⟨nofun, fun ha => ?_⟩⟩
    cases hserved a ha
  · obtain ⟨htools', f, hfailed⟩ := hfails w₁.volume w₁.tools
    obtain ⟨journal, hcourse⟩ := Reduction.run_eq_course crew e.work w₁
    rw [hfailed, htools'] at hcourse
    simp only
    rw [Action.run_bind_error hcourse]
    refine ⟨hvolume, htools, fun a => ⟨nofun, fun ha => ?_⟩⟩
    cases hserved a ha
  · have hb := serves_of_stored? hstored
    refine ⟨hvolume, htools, fun a => ⟨fun ha => ?_, fun ha => ?_⟩⟩
    · cases ha
      exact hb
    · rw [hb.unique ha]
      rfl

namespace Host

variable {h : Host} {file : String}

/-- What a full compilation opens with, whatever the fingerprinter remembers. -/
def openingOf (h : Host) (file : String) : Except Failure Fingerprint → Except Failure Opening
  | .error e => .error e
  | .ok i =>
    match h.registry.select? (Path.ofText file) i with
    | some (s, _) => .ok (.shared s.id (h.errandFor file i s))
    | none => .error (.noTransformer file)

theorem select_ok {i : Fingerprint} {s : Slot Cache} {isFallback : Bool}
    (hselect : h.registry.select? (Path.ofText file) i = some (s, isFallback)) (w : World σ) :
    ∃ journal, (h.select file i).run w = (.ok s, { w with journal := journal }) := by
  unfold select
  rw [hselect]
  cases isFallback with
  | false => exact ⟨w.journal, rfl⟩
  | true => exact ⟨⟨Log.Context.none, .fallingBack s.id file⟩ :: w.journal, rfl⟩

/-- The fingerprint of the file decides what a full compilation opens with. -/
theorem openFull_eq (htidy : h.IsTidy) (file : String) (w : World σ) :
    ((h.openFull file).run w).1 =
      h.openingOf file ((Work.fingerprint h.desk (Path.ofText file)).run w).1 := by
  have hreported : ((Work.fingerprint h.desk (Path.ofText file)).run
      { w with journal := ⟨Log.Context.none, .compiling file⟩ :: w.journal }).1 =
        ((Work.fingerprint h.desk (Path.ofText file)).run w).1 := Work.run_fingerprint_congr rfl rfl
  unfold openFull resolve
  rw [Action.run_bind_ok (Work.run_report _ w), ← hreported, bind_assoc]
  generalize { w with journal := ⟨Log.Context.none, .compiling file⟩ :: w.journal } = w₀
  rcases htaken : (Work.fingerprint h.desk (Path.ofText file)).run w₀ with ⟨e | i, w₁⟩
  · rw [Action.run_bind_error htaken]
    rfl
  · rw [Action.run_bind_ok htaken]
    unfold openingOf
    simp only
    cases hselect : h.registry.select? (Path.ofText file) i with
    | none =>
      unfold select
      rw [hselect]
      rfl
    | some found =>
      obtain ⟨s, isFallback⟩ := found
      have hvolume : w₁.volume = w₀.volume := by
        have hkept := Work.isApart_volume.fingerprint h.desk (Path.ofText file) w₀
        rwa [htaken] at hkept
      obtain ⟨journal, hslot⟩ := select_ok hselect w₁
      have hagain : (Work.fingerprint h.desk (Path.ofText file)).run { w₁ with journal := journal } =
          (.ok i, { w₁ with journal := journal }) := Work.fingerprint_again htaken hvolume rfl
      rw [← htidy.desk s.id s (htidy.slot?_of_select? hselect)] at hagain
      unfold Cache.openFetch
      rw [Action.run_bind_ok hslot, Action.run_bind_ok hagain]
      rfl

/-- What a full compilation by stand-ins comes to: a result that is stored, or a failure. -/
theorem compileFull_of_standIn (hstandIn : h.IsStandIn) (crew : Crew σ) (file : String)
    (w : World σ) : ((h.compileFull crew file).run w).2.volume = w.volume ∧
      ((h.compileFull crew file).run w).2.tools = w.tools ∧
      ∀ a, ((h.compileFull crew file).run w).1 = .ok a ↔ ∃ i s isFallback,
        ((Work.fingerprint h.desk (Path.ofText file)).run w).1 = .ok i ∧
        h.registry.select? (Path.ofText file) i = some (s, isFallback) ∧
        s.cache.store.Serves w.volume i.cacheKey a := by
  have hvolume := Work.isApart_volume.openFull h file w
  have htools := Work.isApart_tools.openFull h file w
  have hopening := openFull_eq hstandIn.tidy file w
  unfold compileFull
  rw [Action.run_bind]
  rcases hopen : (h.openFull file).run w with ⟨r, w₁⟩
  rw [hopen] at hvolume htools hopening
  cases htaken : ((Work.fingerprint h.desk (Path.ofText file)).run w).1 with
  | error e =>
    rw [htaken] at hopening
    subst hopening
    refine ⟨hvolume, htools, fun a => ⟨nofun, ?_⟩⟩
    rintro ⟨i, s, isFallback, hi, -⟩
    cases hi
  | ok i =>
    rw [htaken] at hopening
    cases hselect : h.registry.select? (Path.ofText file) i with
    | none =>
      simp only [openingOf, hselect] at hopening
      subst hopening
      refine ⟨hvolume, htools, fun a => ⟨nofun, ?_⟩⟩
      rintro ⟨i', s, isFallback, hi, hs, -⟩
      cases hi
      cases hselect.symm.trans hs
    | some found =>
      obtain ⟨s, isFallback⟩ := found
      simp only [openingOf, hselect] at hopening
      subst hopening
      have hform := hstandIn.standIns s.id s (hstandIn.tidy.slot?_of_select? hselect)
      obtain ⟨hvolume', htools', hresult⟩ := Errand.run_of_failing (e := h.errandFor file i s)
        (Reduction.course_of_standIn crew h.next? h.settings.maxPasses file i hform) w₁
      refine ⟨hvolume'.trans hvolume, htools'.trans htools, fun a => ?_⟩
      rw [hvolume] at hresult
      refine (hresult a).trans ⟨fun ha => ⟨i, s, isFallback, rfl, hselect, ha⟩, ?_⟩
      rintro ⟨i', s', isFallback', hi, hs, ha⟩
      cases hi
      rw [hselect] at hs
      cases hs
      exact ha

/-- Whatever callers order, filling the orders is a session. A host that only reads consults nobody in a
session, and the files and the state of the crew stay as they are. A host that is built from the records of
a saved one only reads, and not even a full compilation writes: it returns what is stored for the
fingerprint of the file, and fails where nothing is. -/
theorem readOnly_frame (crew : Crew σ) :
    (∀ (h : Host) (orders : List Order) (w : World σ),
      ∃ xs, Session h crew w xs ((h.fillAll crew orders).run w).2) ∧
    (∀ (h : Host) (w w' : World σ) (xs : List Exchange), h.readOnly = true →
      Session h crew w xs w' → xs = [] ∧ w'.volume = w.volume ∧ w'.tools = w.tools) ∧
    ∀ (directory : Path) (desk : Nat) (settings : Work σ Settings) (h : Host) (w₀ w₁ : World σ),
      (buildReadOnly directory desk settings).run w₀ = (.ok h, w₁) → h.readOnly = true ∧
      ∀ (file : String) (w : World σ), ((h.compileFull crew file).run w).2.volume = w.volume ∧
        ((h.compileFull crew file).run w).2.tools = w.tools ∧
        ∀ a, ((h.compileFull crew file).run w).1 = .ok a ↔ ∃ i s isFallback,
          ((Work.fingerprint h.desk (Path.ofText file)).run w).1 = .ok i ∧
          h.registry.select? (Path.ofText file) i = some (s, isFallback) ∧
          s.cache.store.Serves w.volume i.cacheKey a := by
  refine ⟨fun h orders w => session_fillAll h crew orders w, ?_, ?_⟩
  · intro h w w' xs hmode session
    obtain ⟨hexchanges, hvolume⟩ := session.of_readOnly Work.isApart_volume hmode
    exact ⟨hexchanges, hvolume, (session.of_readOnly Work.isApart_tools hmode).2⟩
  · intro directory desk settings h w₀ w₁ hrun
    obtain ⟨hmode, hstandIn⟩ := isStandIn_of_buildReadOnly hrun
    exact ⟨hmode, fun file w => compileFull_of_standIn hstandIn crew file w⟩

open Deploys in
/-- A host of stand-ins serves the file that was compiled, and fails for the other one. -/
theorem readOnly_frame_small :
    (∀ (xs : List Exchange) (w : World Nat),
      Session (laterHost compiledWorld) smallCrew (laterEnd compiledWorld) xs w →
        xs = [] ∧ w.volume = (laterEnd compiledWorld).volume) ∧
    (∃ i s isFallback, (laterHost compiledWorld).registry.select? (Path.ofText "/p.txt") i =
        some (s, isFallback) ∧
      s.cache.store.Serves (laterEnd compiledWorld).volume i.cacheKey compiled) ∧
    (((laterHost compiledWorld).compileFull smallCrew "/q.txt").run
      (laterEnd compiledWorld)).1.isOk = false ∧
    (((laterHost compiledWorld).compileFull smallCrew "/q.txt").run
      (laterEnd compiledWorld)).2.volume = (laterEnd compiledWorld).volume := by
  obtain ⟨-, hsessions, hfull⟩ := readOnly_frame smallCrew
  obtain ⟨-, -, hrebuilt⟩ := later_run isSeen_compiledWorld.isRoot
    ⟨compiledWorld_now, isSeen_compiledWorld.here⟩ compiledWorld_saves compiledWorld_builds
  obtain ⟨hmode, hcompiles⟩ := hfull _ _ _ _ _ _ hrebuilt
  obtain ⟨s, isFallback, hselect, hstored⟩ := stored_laterEnd
  refine ⟨fun xs w session => ?_, ⟨_, s, isFallback, hselect, hstored⟩, by decide +kernel,
    (hcompiles "/q.txt" _).1⟩
  obtain ⟨hexchanges, hvolume, -⟩ := hsessions _ _ w xs hmode session
  exact ⟨hexchanges, hvolume⟩

end Host
end AssetCompiler
