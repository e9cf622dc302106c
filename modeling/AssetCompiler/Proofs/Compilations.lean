import AssetCompiler.Proofs.CacheRoots
import AssetCompiler.Proofs.Fingerprints
import AssetCompiler.Proofs.ServedResults

/-!
What a compilation does. A host takes the fingerprint of a file twice and gets the same one; the slot
that it picks decides whose store serves the result. Compiling leaves what the stores serve, and adds
its own result at most.
-/
namespace AssetCompiler

namespace Store

variable {backend : Backend} {q : Path} {d : Location} {space space' : String} {s s' : Store}

/-- Stores at one place give the same answers. -/
theorem get_eq_of_placeOf (h : named backend q space = some s) (h' : named backend q space' = some s')
    (hplace : placeOf backend d space' = placeOf backend d space) :
    (∀ now key, s'.get now key = s.get now key) ∧ ∀ key, s'.slotOf key = s.slotOf key := by
  cases backend with
  | json =>
    cases h
    cases h'
    have hname : safeName space' = safeName space := by
      simpa [placeOf] using hplace
    rw [hname]
    exact ⟨fun _ _ => rfl, fun _ => rfl⟩
  | sqlite =>
    have hspace : space' = space := by
      simpa [placeOf] using hplace
    subst hspace
    cases h.symm.trans h'
    exact ⟨fun _ _ => rfl, fun _ => rfl⟩
  | unknown name => cases h

theorem placeOf_isLike (backend : Backend) (d : Location) (space space' : String) :
    (placeOf backend d space).IsLike (placeOf backend d space') := by
  cases backend <;> exact trivial

end Store

namespace Host

variable {σ : Type}

/-- The stores of a host lie where they belong. -/
structure Stands (h : Host) (q : Path) (d : Location) (v : Volume) : Prop where
  root : v.IsRoot q d
  named : ∀ name s, h.registry.slot? name = some s →
    Store.named h.settings.backend q s.transformer.space = some s.cache.store
  places : ∀ name s, h.registry.slot? name = some s →
    s.cache.store.At v (Store.placeOf h.settings.backend d s.transformer.space)

/-- A host that is built stands on the stores that it has opened. -/
theorem stands_of_build {h : Host} {root q : Path} {types : List (String × Transformer)}
    {desk : Nat} {mode : Option Bool} {fallback : Option Transformer} {given : Settings}
    {w w' : World σ} {d : Location}
    (hrun : (build root types desk mode fallback given).run w = (.ok h, w'))
    (hexpand : root.expandHome? (w.environment.lookup "HOME") = some q)
    (hroot : w'.volume.IsRoot q d) : h.Stands q d w'.volume := by
  obtain ⟨hbuilt, _, _, hslots⟩ := build_ok hrun hexpand
  have hbackend : h.settings.backend = given.backend := by
    rw [hbuilt.settings]
  refine ⟨hroot, ?_, ?_⟩
  · intro name s hs
    rw [hbackend]
    exact (hslots name s hs).1
  · intro name s hs
    rw [hbackend]
    exact Store.at_of_isOpened hroot (hslots name s hs).1 (Store.isName_space _)
      (hslots name s hs).2

/-- The locations that a host stores at. -/
def Owns (h : Host) (d : Location) (l : Location) : Prop :=
  ∃ name s, h.registry.slot? name = some s ∧
    (Store.placeOf h.settings.backend d s.transformer.space).Owns l

variable {h : Host} {q : Path} {d : Location}

/-- What storing in one slot means for all of them. -/
theorem Stands.stores {v v' : Volume} (hstands : h.Stands q d v) {s : Slot Cache} {key : String}
    {entry : Entry} {stored : Except Failure Unit}
    (hstores : Store.Stores s.cache.store (Store.placeOf h.settings.backend d s.transformer.space)
      key entry v stored v') : h.Stands q d v' where
  root := hstands.root.grows hstores.advances.grows
  named := hstands.named
  places := by
    intro name' s' hs'
    exact (hstores.others _ _ (hstands.places name' s' hs')
      (Store.placeOf_isLike _ _ _ _)).1

/-- What is stored in one slot is all that changes in what the slots answer. -/
theorem Stands.answers {v v' : Volume} (hstands : h.Stands q d v) {name : String} {s : Slot Cache}
    (hs : h.registry.slot? name = some s) {key : String} {entry : Entry}
    {stored : Except Failure Unit}
    (hstores : Store.Stores s.cache.store (Store.placeOf h.settings.backend d s.transformer.space)
      key entry v stored v') {name' : String} {s' : Slot Cache}
    (hs' : h.registry.slot? name' = some s') (key' : String) :
    (∀ now, ((s'.cache.store.get now key').run v').1 = ((s'.cache.store.get now key').run v).1) ∨
      (stored = .ok () ∧ Store.placeOf h.settings.backend d s'.transformer.space =
          Store.placeOf h.settings.backend d s.transformer.space ∧
        s'.cache.store.slotOf key' = s'.cache.store.slotOf key ∧
        (∀ now, s'.cache.store.get now key' = s.cache.store.get now key)) := by
  by_cases hplace : Store.placeOf h.settings.backend d s'.transformer.space =
      Store.placeOf h.settings.backend d s.transformer.space
  · obtain ⟨hget, hslot⟩ := Store.get_eq_of_placeOf (hstands.named name s hs)
      (hstands.named name' s' hs') hplace
    cases hstored : stored with
    | error f =>
      left
      intro now
      rw [hget]
      exact hstores.other now key' (Or.inl ⟨f, hstored⟩)
    | ok u =>
      by_cases hsame : s.cache.store.slotOf key' = s.cache.store.slotOf key
      · right
        refine ⟨rfl, hplace, by rw [hslot, hslot, hsame], fun now => ?_⟩
        rw [hget, Store.get_eq_of_slotOf now hsame]
      · left
        intro now
        rw [hget]
        exact hstores.other now key' (Or.inr hsame)
  · left
    intro now
    exact (hstores.others _ _ (hstands.places name' s' hs')
      (Store.placeOf_isLike _ _ _ _)).2 hplace now key'

/-- The stores of a host lie where they lay, and serve what they served. -/
structure Keeps (h : Host) (q : Path) (d : Location) (v v' : Volume) : Prop where
  stands : h.Stands q d v'
  serves : ∀ name s key a, h.registry.slot? name = some s →
    s.cache.store.Serves v key a → s.cache.store.Serves v' key a

theorem Keeps.refl {v : Volume} (hstands : h.Stands q d v) : h.Keeps q d v v :=
  ⟨hstands, fun _ _ _ _ _ hserves => hserves⟩

theorem Keeps.trans {v v' v'' : Volume} (hkeeps : h.Keeps q d v v') (hkeeps' : h.Keeps q d v' v'') :
    h.Keeps q d v v'' :=
  ⟨hkeeps'.stands, fun name s key a hs hserves =>
    hkeeps'.serves name s key a hs (hkeeps.serves name s key a hs hserves)⟩

/-- What is stored where nothing was served leaves what was served. -/
theorem Stands.keeps {v v' : Volume} (hstands : h.Stands q d v) {name : String} {s : Slot Cache}
    (hs : h.registry.slot? name = some s) {key : String} {entry : Entry}
    {stored : Except Failure Unit}
    (hstores : Store.Stores s.cache.store (Store.placeOf h.settings.backend d s.transformer.space)
      key entry v stored v') (hnone : ∀ a, ¬ s.cache.store.Serves v key a) : h.Keeps q d v v' where
  stands := hstands.stores hstores
  serves := by
    intro name' s' key' a hs' hserves
    rcases hstands.answers hs hstores hs' key' with hsame | ⟨_, _, _, hget⟩
    · exact hserves.congr hsame
    · refine absurd (hserves.congr fun now => ?_) (hnone a)
      rw [hget]

/-- The fingerprinter of the host is that of its caches. -/
structure IsTidy (h : Host) : Prop where
  id : ∀ name s, h.registry.slot? name = some s → s.id = name
  desk : ∀ name s, h.registry.slot? name = some s → s.cache.desk = h.desk

theorem IsBuilt.isTidy {root : Path} {types : List (String × Transformer)} {number : Nat}
    {mode : Option Bool} {fallback : Option Transformer} {given : Settings}
    (hbuilt : h.IsBuilt root q types number mode fallback given) : h.IsTidy where
  id := fun _ _ hs => (hbuilt.registry.of_slot? hs).1
  desk := by
    intro name s hs
    rw [(hbuilt.registry.of_slot? hs).2.2, hbuilt.desk]
    rfl

/-- A slot that is picked for a file is one of the registry's. -/
theorem IsTidy.slot?_of_select? (htidy : h.IsTidy) {path : Path} {i : Fingerprint} {s : Slot Cache}
    {isFallback : Bool} (hselect : h.registry.select? path i = some (s, isFallback)) :
    h.registry.slot? s.id = some s := by
  have hnamed : ∀ {name : Option String}, name.bind h.registry.slot? = some s →
      h.registry.slot? s.id = some s := by
    intro name hname
    obtain ⟨n, _, hslot⟩ := Option.bind_eq_some_iff.mp hname
    rw [htidy.id n s hslot]
    exact hslot
  have hlookup : ∀ {m : Option String}, h.registry.lookup? m = some s →
      h.registry.slot? s.id = some s := by
    intro m hm
    cases m with
    | none => cases hm
    | some t => exact hnamed hm
  unfold Registry.select? at hselect
  simp only at hselect
  split at hselect
  · rename_i s' hregistered
    cases hselect
    split at hregistered
    · exact hlookup hregistered
    · exact hlookup hregistered
  · obtain ⟨s', hfallback, heq⟩ := Option.map_eq_some_iff.mp hselect
    cases heq
    exact hnamed hfallback

/-! Openings -/

section Openings

variable {options : ClassifyOptions} {past : List Volume} {file : String} {w : World σ}

/-- What looking at a file leaves of a world. -/
structure Looks (h : Host) (options : ClassifyOptions) (past : List Volume) (w w' : World σ) :
    Prop where
  setting : (w'.volume, w'.environment, w'.now, w'.tools) =
    (w.volume, w.environment, w.now, w.tools)
  recalls : w'.Recalls h.desk options (w.volume :: past)
  others : ∀ n, n ≠ h.desk → Keyed.find? n w'.desks = Keyed.find? n w.desks

/-- A slot is picked by the fingerprint of the file, which can be taken again. -/
theorem run_resolve (hrecalls : w.Recalls h.desk options past)
    (hhere : ∀ v ∈ w.volume :: past, AreProper v.here) {real : Path} {bytes : List UInt8}
    {mtime : Int} (hinspect : w.volume.inspect (Path.ofText file) = .ok (real, bytes, mtime)) :
    ∃ i w', Work.Sees h.desk options past file real bytes mtime w i ∧
      h.Looks options past w w' ∧
      (h.resolve file).run w = (match h.registry.select? (Path.ofText file) i with
        | some (s, _) => .ok s
        | none => .error (.noTransformer file), w') ∧
      (Work.fingerprint h.desk (Path.ofText file)).run w' = (.ok i, w') := by
  obtain ⟨i, w₁, hprints, hright⟩ := Work.fingerprints hrecalls hhere hinspect
  have htold : Work.Sees h.desk options past file real bytes mtime w i :=
    ⟨by rw [hprints.run], hright⟩
  obtain ⟨desks, hw₁⟩ := hprints.desks
  have hlogged : ∀ journal, h.Looks options past w { w₁ with journal := journal } ∧
      (Work.fingerprint h.desk (Path.ofText file)).run { w₁ with journal := journal } =
        (.ok i, { w₁ with journal := journal }) := by
    intro journal
    refine ⟨⟨?_, hprints.recalls.mono rfl fun v hv => hv, fun n hn => ?_⟩,
      hprints.again _ ?_ rfl⟩
    · rw [hw₁]
    · have hkept := Work.keeps_fingerprint_desk hn (Path.ofText file) w
      rw [hprints.run] at hkept
      exact hkept
    · rw [hw₁]
  have hresolve : (h.resolve file).run w = (h.select file i).run w₁ :=
    Action.run_bind_ok hprints.run
  cases hselect : h.registry.select? (Path.ofText file) i with
  | none =>
    refine ⟨i, w₁, htold, (hlogged w₁.journal).1, ?_, (hlogged w₁.journal).2⟩
    rw [hresolve, select, hselect]
    rfl
  | some found =>
    obtain ⟨s, isFallback⟩ := found
    cases isFallback with
    | false =>
      refine ⟨i, w₁, htold, (hlogged w₁.journal).1, ?_, (hlogged w₁.journal).2⟩
      rw [hresolve, select, hselect]
      rfl
    | true =>
      obtain ⟨hlooks, hagain⟩ :=
        hlogged (⟨Log.Context.none, .fallingBack s.id file⟩ :: w₁.journal)
      refine ⟨i, _, htold, hlooks, ?_, hagain⟩
      rw [hresolve, select, hselect]
      rfl

/-- The errand of a full compilation. -/
def errandFor (h : Host) (file : String) (i : Fingerprint) (s : Slot Cache) : Errand :=
  ⟨s.cache, i.cacheKey, file, h.reduction file i s.transformer⟩

/-- A full compilation opens with the errand of the slot that is picked. -/
theorem run_openFull (htidy : h.IsTidy) (hrecalls : w.Recalls h.desk options past)
    (hhere : ∀ v ∈ w.volume :: past, AreProper v.here) {real : Path} {bytes : List UInt8}
    {mtime : Int} (hinspect : w.volume.inspect (Path.ofText file) = .ok (real, bytes, mtime)) :
    ∃ i w', Work.Sees h.desk options past file real bytes mtime w i ∧
      h.Looks options past w w' ∧
      (h.openFull file).run w = (match h.registry.select? (Path.ofText file) i with
        | some (s, _) => .ok (.shared s.id (h.errandFor file i s))
        | none => .error (.noTransformer file), w') := by
  obtain ⟨i, w', htold, hlooks, hresolve, hagain⟩ := run_resolve (h := h)
    (w := { w with journal := ⟨Log.Context.none, .compiling file⟩ :: w.journal })
    (hrecalls.mono rfl fun v hv => hv) hhere hinspect
  have hseen : Work.Sees h.desk options past file real bytes mtime w i := by
    refine ⟨?_, htold.right⟩
    rw [← htold.taken]
    exact Eq.symm (Work.run_fingerprint_congr rfl rfl)
  refine ⟨i, w', hseen, ⟨hlooks.setting, hlooks.recalls, hlooks.others⟩, ?_⟩
  unfold openFull
  rw [Action.run_bind_ok (Work.run_report _ w)]
  cases hselect : h.registry.select? (Path.ofText file) i with
  | none =>
    rw [hselect] at hresolve
    rw [Action.run_bind_error hresolve]
  | some found =>
    obtain ⟨s, isFallback⟩ := found
    rw [hselect] at hresolve
    rw [← htidy.desk s.id s (htidy.slot?_of_select? hselect)] at hagain
    rw [Action.run_bind_ok hresolve]
    unfold Cache.openFetch
    rw [Action.run_bind_ok hagain]
    rfl

/-- A file that cannot be looked at cannot be compiled. -/
theorem run_openFull_error {e : Failure}
    (hinspect : w.volume.inspect (Path.ofText file) = .error e) :
    (h.openFull file).run w =
      (.error e, { w with journal := ⟨Log.Context.none, .compiling file⟩ :: w.journal }) := by
  unfold openFull
  rw [Action.run_bind_ok (Work.run_report _ w)]
  exact Action.run_bind_error (Action.run_bind_error (Work.run_fingerprint_error hinspect))

end Openings

/-! Whole compilations -/

section Compiling

variable {options : ClassifyOptions} {past : List Volume} {file : String} {w : World σ}

theorem run_compileFull_error (crew : Crew σ) {e : Failure}
    (hinspect : w.volume.inspect (Path.ofText file) = .error e) :
    (h.compileFull crew file).run w =
      (.error e, { w with journal := ⟨Log.Context.none, .compiling file⟩ :: w.journal }) :=
  Action.run_bind_error (run_openFull_error hinspect)

/-- A full compilation runs the errand of the slot that is picked. -/
theorem run_compileFull (crew : Crew σ) (htidy : h.IsTidy) (hrecalls : w.Recalls h.desk options past)
    (hhere : ∀ v ∈ w.volume :: past, AreProper v.here) {real : Path} {bytes : List UInt8}
    {mtime : Int} (hinspect : w.volume.inspect (Path.ofText file) = .ok (real, bytes, mtime)) :
    ∃ i w₁, Work.Sees h.desk options past file real bytes mtime w i ∧
      h.Looks options past w w₁ ∧
      (h.compileFull crew file).run w = match h.registry.select? (Path.ofText file) i with
        | some (s, _) => ((h.errandFor file i s).run crew).run w₁
        | none => (.error (.noTransformer file), w₁) := by
  obtain ⟨i, w₁, htold, hlooks, hopen⟩ := run_openFull htidy hrecalls hhere hinspect
  refine ⟨i, w₁, htold, hlooks, ?_⟩
  cases hselect : h.registry.select? (Path.ofText file) i with
  | none =>
    rw [hselect] at hopen
    exact Action.run_bind_error hopen
  | some found =>
    rw [hselect] at hopen
    exact Action.run_bind_ok hopen

theorem errandFor_runs (file : String) (crew : Crew σ) (hstands : h.Stands q d w.volume) (hnow : w.now.IsDate)
    {s : Slot Cache} (hs : h.registry.slot? s.id = some s) (i : Fingerprint) :
    (h.errandFor file i s).Runs (Store.placeOf h.settings.backend d s.transformer.space) w
      (((h.errandFor file i s).run crew).run w).1 (((h.errandFor file i s).run crew).run w).2 :=
  Errand.runs crew (hstands.places s.id s hs) hnow fun _ _ _ hrun => isWhole_of_run_reduction hrun

/-- What a compilation leaves of a world: the stores serve what they served, and the fingerprinter
remembers one more volume. -/
structure Goes (h : Host) (q : Path) (d : Location) (options : ClassifyOptions)
    (past : List Volume) (w w' : World σ) : Prop where
  keeps : h.Keeps q d w.volume w'.volume
  advances : Volume.Advances (h.Owns d) w.volume w'.volume
  setting : (w'.environment, w'.now) = (w.environment, w.now)
  recalls : w'.Recalls h.desk options (w.volume :: past)
  others : ∀ n, n ≠ h.desk → Keyed.find? n w'.desks = Keyed.find? n w.desks

theorem Looks.goes {w' : World σ} (hlooks : h.Looks options past w w')
    (hstands : h.Stands q d w.volume) : h.Goes q d options past w w' := by
  have hsetting := hlooks.setting
  simp only [Prod.mk.injEq] at hsetting
  obtain ⟨hvolume, henvironment, hnow, _⟩ := hsetting
  refine ⟨?_, ?_, ?_, hlooks.recalls, hlooks.others⟩
  · rw [hvolume]
    exact Keeps.refl hstands
  · rw [hvolume]
    exact Volume.Advances.refl _ _
  · rw [henvironment, hnow]

/-- Running the errand of a slot. -/
theorem Looks.goes_errand {w₁ w₂ : World σ} {i : Fingerprint} {s : Slot Cache}
    {r : Except Failure Artifact} (hlooks : h.Looks options past w w₁)
    (hstands : h.Stands q d w.volume) (hs : h.registry.slot? s.id = some s)
    (hruns : (h.errandFor file i s).Runs (Store.placeOf h.settings.backend d s.transformer.space)
      w₁ r w₂) : h.Goes q d options past w w₂ := by
  have hgoes := hlooks.goes hstands
  have hvolume : w₁.volume = w.volume := congrArg Prod.fst hlooks.setting
  have hruns' := hruns.setting
  simp only [Prod.mk.injEq] at hruns'
  obtain ⟨henvironment, hdesks, hnow⟩ := hruns'
  have hsetting := hgoes.setting
  refine ⟨?_, ?_, ?_, ?_, ?_⟩
  · rcases hruns.volume with hsame | ⟨⟨entry, stored, hstores, _⟩, hnone⟩
    · rw [hsame]
      exact hgoes.keeps
    · rw [hvolume] at hstores hnone
      exact hstands.keeps hs hstores hnone
  · rcases hruns.volume with hsame | ⟨⟨entry, stored, hstores, _⟩, _⟩
    · rw [hsame]
      exact hgoes.advances
    · rw [hvolume] at hstores
      exact hstores.advances.mono fun l hl => ⟨s.id, s, hs, hl⟩
  · rw [henvironment, hnow]
    exact hsetting
  · exact hlooks.recalls.mono hdesks fun v hv => hv
  · rw [hdesks]
    exact hlooks.others

/-- A full compilation of any file. -/
theorem compileFull_goes (crew : Crew σ) (file : String) (htidy : h.IsTidy)
    (hstands : h.Stands q d w.volume) (hrecalls : w.Recalls h.desk options past)
    (hhere : ∀ v ∈ w.volume :: past, AreProper v.here) (hnow : w.now.IsDate) :
    h.Goes q d options past w ((h.compileFull crew file).run w).2 := by
  cases hinspect : w.volume.inspect (Path.ofText file) with
  | error e =>
    rw [run_compileFull_error crew hinspect]
    exact ⟨Keeps.refl hstands, Volume.Advances.refl _ _, rfl,
      hrecalls.mono rfl fun v hv => List.mem_cons_of_mem _ hv, fun _ _ => rfl⟩
  | ok found =>
    obtain ⟨real, bytes, mtime⟩ := found
    obtain ⟨i, w₁, _, hlooks, hrun⟩ := run_compileFull crew htidy hrecalls hhere hinspect
    rw [hrun]
    cases hselect : h.registry.select? (Path.ofText file) i with
    | none => exact hlooks.goes hstands
    | some found =>
      obtain ⟨s, isFallback⟩ := found
      have hs := htidy.slot?_of_select? hselect
      have hsetting := hlooks.setting
      simp only [Prod.mk.injEq] at hsetting
      obtain ⟨hvolume, _, hnow₁, _⟩ := hsetting
      exact hlooks.goes_errand hstands hs
        (errandFor_runs file crew (hvolume ▸ hstands) (hnow₁ ▸ hnow) hs i)

/-- What a host that only reads makes of what was found. -/
def served (file : String) (found : Option Entry) : Except Failure Artifact :=
  match found.map Entry.toArtifact with
  | some a => if a.isPrecompiled then .ok a else .error (.notPrecompiled file)
  | none => .error (.notPrecompiled file)

/-- A host that only reads looks once, in the cache of the slot that it resolves. -/
theorem run_compileReadOnly_of_resolve {w₁ w₂ : World σ} {s : Slot Cache} {i : Fingerprint}
    {answer : Except Failure (Option Entry)} (hresolve : (h.resolve file).run w = (.ok s, w₁))
    (hagain : (Work.fingerprint s.cache.desk (Path.ofText file)).run w₁ = (.ok i, w₁))
    (hlookup : (s.cache.lookup i.cacheKey).run w₁ = (answer, w₂)) :
    (h.compileReadOnly file).run w = (answer.bind (served file), w₂) := by
  unfold compileReadOnly Cache.get
  rw [Action.run_bind_ok hresolve, Action.run_bind]
  cases answer with
  | error e =>
    rw [Action.run_bind_ok hagain, Action.run_bind_error hlookup]
    rfl
  | ok found =>
    rw [Action.run_bind_ok hagain, Action.run_bind_ok hlookup]
    cases found <;> rfl

/-- A look-up of a precompiled result. -/
theorem run_compileReadOnly (htidy : h.IsTidy) (hrecalls : w.Recalls h.desk options past)
    (hhere : ∀ v ∈ w.volume :: past, AreProper v.here) {real : Path} {bytes : List UInt8}
    {mtime : Int} (hinspect : w.volume.inspect (Path.ofText file) = .ok (real, bytes, mtime)) :
    ∃ i w', Work.Sees h.desk options past file real bytes mtime w i ∧
      h.Looks options past w w' ∧ ((h.compileReadOnly file).run w).2 = w' ∧
      (h.registry.select? (Path.ofText file) i = none →
        ((h.compileReadOnly file).run w).1 = .error (.noTransformer file)) ∧
      ∀ s isFallback, h.registry.select? (Path.ofText file) i = some (s, isFallback) →
        (∀ a, s.cache.store.Serves w.volume i.cacheKey a →
          ((h.compileReadOnly file).run w).1 = .ok a) ∧
        (s.cache.store.Lacks w.volume i.cacheKey →
          ((h.compileReadOnly file).run w).1 = .error (.notPrecompiled file)) := by
  obtain ⟨i, w₁, htold, hlooks, hresolve, hagain⟩ := run_resolve (h := h) hrecalls hhere hinspect
  have hvolume : w₁.volume = w.volume := congrArg Prod.fst hlooks.setting
  cases hselect : h.registry.select? (Path.ofText file) i with
  | none =>
    rw [hselect] at hresolve
    have hrun : (h.compileReadOnly file).run w = (.error (.noTransformer file), w₁) :=
      Action.run_bind_error hresolve
    refine ⟨i, w₁, htold, hlooks, by rw [hrun], fun _ => by rw [hrun], ?_⟩
    intro s isFallback hs
    rw [hselect] at hs
    cases hs
  | some found =>
    obtain ⟨s, isFallback⟩ := found
    rw [hselect] at hresolve
    rw [← htidy.desk s.id s (htidy.slot?_of_select? hselect)] at hagain
    obtain ⟨answer, journal, hlookup⟩ := s.cache.run_lookup i.cacheKey w₁
    have hrun : (h.compileReadOnly file).run w =
        (answer.bind (served file), { w₁ with journal := journal }) :=
      run_compileReadOnly_of_resolve hresolve hagain hlookup
    refine ⟨i, { w₁ with journal := journal }, htold,
      ⟨hlooks.setting, hlooks.recalls, hlooks.others⟩, by rw [hrun], ?_, ?_⟩
    · intro hnone
      rw [hselect] at hnone
      cases hnone
    intro s' isFallback' hs'
    rw [hselect] at hs'
    cases hs'
    refine ⟨?_, ?_⟩
    · intro a hserves
      obtain ⟨entry, hfound, rfl⟩ := Cache.run_lookup_of_serves (hvolume ▸ hserves)
      rw [hlookup] at hfound
      obtain ⟨rfl, _⟩ := Prod.mk.inj hfound
      rw [hrun]
      rfl
    · intro hlacks
      have hfound := Cache.run_lookup_of_lacks (hvolume ▸ hlacks)
      rw [hlookup] at hfound
      cases hfound
      rw [hrun]
      rfl

end Compiling

end Host
end AssetCompiler
