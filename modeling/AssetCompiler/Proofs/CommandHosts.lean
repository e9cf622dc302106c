import AssetCompiler.Proofs.ExitCodes
import AssetCompiler.Proofs.FilledStores
import AssetCompiler.Proofs.MediaMaps

/-!
The hosts of commands. A command prepares with its settings, the directory of its caches, and a fingerprinter
that takes up what an earlier run has saved. The transformers of its class paths are instances with handles of
their own, so a registry that was built of them has no clash and can be built again.
-/
namespace AssetCompiler

/-! Settings -/

namespace Settings

open Schema

theorem pos_of_positive {v : Json} {n : Int} (h : positive v = .ok n) : 0 < n := by
  unfold positive at h
  split at h
  · split at h
    · cases h
    · cases h
      omega
  · cases h

theorem scanLimit_of_readFields {fields : List (String × Json)} {s : Settings}
    (h : readFields fields = .ok s) : 0 < s.scanLimit := by
  unfold readFields at h
  iterate 8
    obtain ⟨_, _, hfront, -, rfl⟩ := Reading.apply_eq_ok.mp h
    clear h
    rename' hfront => h
  obtain ⟨_, limit, hfront, hlimit, rfl⟩ := Reading.apply_eq_ok.mp h
  clear h
  rename' hfront => h
  iterate 4
    obtain ⟨_, _, hfront, -, rfl⟩ := Reading.apply_eq_ok.mp h
    clear h
    rename' hfront => h
  cases h
  unfold Schema.optional at hlimit
  split at hlimit
  · rw [Reading.within_eq_ok] at hlimit
    exact pos_of_positive hlimit
  · cases hlimit
    simp

/-- Some visit may always be under way. -/
theorem scanLimit_of_load {v : Volume} {environment : List (String × String)} {given : List (String × Json)}
    {s : Settings} (h : load v environment given = .ok s) : 0 < s.scanLimit := by
  obtain ⟨file, -, h⟩ := of_bind_eq_ok h
  obtain ⟨s', hread, h⟩ := of_bind_eq_ok h
  simp only at h
  split at h
  · cases h
    exact scanLimit_of_readFields (Reading.checked_eq_ok.mp hread)
  · cases h

end Settings

/-! Instances -/

namespace Catalogue

variable {c : Catalogue} {n : Nat} {path : String} {paths : List String} {t : Transformer}
variable {ts : List Transformer}

theorem handle_of_transformer (h : c.transformer n path = .ok t) : t.handle = n := by
  unfold transformer at h
  split at h
  · cases h
  · obtain ⟨m, -, h⟩ := of_bind_eq_ok h
    split at h
    · cases h
    · cases h
    · cases h
    · obtain ⟨sample, -, h⟩ := of_bind_eq_ok h
      cases h
      rfl

/-- The handles of transformers follow one another. -/
theorem handles_of_transformers (h : c.transformers n paths = .ok ts) :
    ts.map (·.handle) = List.range' n paths.length := by
  induction paths generalizing n ts with
  | nil =>
    cases h
    rfl
  | cons path rest ih =>
    obtain ⟨t, ht, h⟩ := of_bind_eq_ok h
    obtain ⟨ts', hrest, h⟩ := of_bind_eq_ok h
    cases h
    rw [List.map_cons, handle_of_transformer ht, ih hrest, List.length_cons, List.range'_succ]

/-- A handle belongs to one of them, and none has a smaller handle than the first. -/
theorem areInstances_of_transformers (h : c.transformers n paths = .ok ts) :
    Registry.AreInstances ts ∧ ∀ t ∈ ts, n ≤ t.handle := by
  have hhandles := handles_of_transformers h
  constructor
  · have hnodup : (ts.map (·.handle)).Nodup := by
      rw [hhandles]
      exact List.nodup_range'
    exact fun t ht u hu hsame => List.inj_on_of_nodup_map hnodup ht hu hsame
  · intro t ht
    have hmem : t.handle ∈ ts.map (·.handle) := List.mem_map_of_mem ht
    rw [hhandles, List.mem_range'_1] at hmem
    exact hmem.1

end Catalogue

namespace MediaMap

variable {σ τ : Type} {ts : List Transformer} {passthrough : Transformer} {map : Keyed String Transformer}

/-- The map does not depend on where it is built. -/
theorem build_alike {w w₁ : World σ} (hrun : (build ts true passthrough).run w = (.ok map, w₁)) (w' : World τ) :
    ∃ journal, (build ts true passthrough).run w' = (.ok map, { w' with journal := journal }) := by
  obtain ⟨journal, hfirst⟩ := run_assignAll [] (served ts) w
  obtain ⟨journal', hsecond⟩ := run_assignAll [] (served ts) w'
  refine ⟨journal', ?_⟩
  unfold build at hrun ⊢
  rw [Action.run_bind_ok hfirst] at hrun
  rw [Action.run_bind_ok hsecond]
  split at hrun
  · rename_i hplain
    rw [if_pos hplain]
    cases hrun
    rfl
  · rename_i hplain
    rw [if_neg hplain]
    cases hrun
    rfl

/-- A map has the given transformers and the passthrough only. -/
theorem mem_of_build {w w₁ : World σ} (hrun : (build ts true passthrough).run w = (.ok map, w₁)) {m : String}
    {t : Transformer} (hmem : (m, t) ∈ map) : t ∈ ts ∨ t = passthrough := by
  obtain ⟨map', journal, hrun', hkeys, hfind⟩ := run_build ts passthrough w
  rw [hrun'] at hrun
  cases hrun
  have hfound := Keyed.find?_of_mem hkeys hmem
  rw [hfind] at hfound
  rcases Option.or_eq_some_iff.mp hfound with hlast | ⟨-, hplain⟩
  · exact .inl (mem_of_lastServing hlast)
  · split at hplain
    · exact .inr (Option.some.inj hplain).symm
    · cases hplain

end MediaMap

namespace Registry

variable {κ σ : Type} {make : Transformer → Work σ κ} {r r' : Registry κ} {w w' : World σ}

/-- An instance has the slot of its name. -/
def HasSlotFor (r : Registry κ) (t : Transformer) : Prop :=
  ∃ s, r.slot? t.name = some s ∧ s.transformer.handle = t.handle

theorem hasSlotFor_addSlot {t : Transformer} (hrun : (r.addSlot make t).run w = (.ok r', w')) :
    r'.HasSlotFor t ∧ ∀ u, r.HasSlotFor u → r'.HasSlotFor u := by
  unfold addSlot at hrun
  cases hslot : r.slot? t.name with
  | none =>
    rw [hslot] at hrun
    obtain ⟨k, w₁, -, hrun⟩ := Action.of_run_bind_ok hrun
    cases hrun
    refine ⟨⟨_, Keyed.find?_set_self _ _ _, rfl⟩, ?_⟩
    intro u hu
    obtain ⟨s, hs, hhandle⟩ := hu
    have hname : u.name ≠ t.name := by
      intro hsame
      rw [hsame, hslot] at hs
      cases hs
    refine ⟨s, ?_, hhandle⟩
    unfold slot?
    rw [Keyed.find?_set_of_ne hname]
    exact hs
  | some s =>
    rw [hslot] at hrun
    simp only at hrun
    split at hrun
    · rename_i hhandle
      cases hrun
      exact ⟨⟨s, hslot, hhandle⟩, fun _ hu => hu⟩
    · cases hrun

theorem hasSlotFor_addTypes {types : List (String × Transformer)}
    (hrun : (r.addTypes make types).run w = (.ok r', w')) :
    (∀ e ∈ types, r'.HasSlotFor e.2) ∧ ∀ u, r.HasSlotFor u → r'.HasSlotFor u := by
  induction types generalizing r w with
  | nil =>
    cases hrun
    exact ⟨nofun, fun _ hu => hu⟩
  | cons e rest ih =>
    obtain ⟨r₁, w₁, hfirst, hrun⟩ := Action.of_run_bind_ok hrun
    obtain ⟨hself, hkept⟩ := hasSlotFor_addSlot hfirst
    obtain ⟨hrest, hlater⟩ := ih hrun
    refine ⟨?_, fun u hu => hlater u (hkept u hu)⟩
    intro e' he'
    rcases List.mem_cons.mp he' with rfl | hmem
    · exact hlater _ hself
    · exact hrest e' hmem

/-- Instances of which a registry was built have names of their own. -/
theorem isConsistent_of_build {types : List (String × Transformer)}
    (hinstances : AreInstances (registered types none))
    (hrun : (build make types none).run w = (.ok r, w')) : IsConsistent (registered types none) := by
  have hslots : ∀ t ∈ registered types none, r.HasSlotFor t := by
    obtain ⟨r₁, w₁, htypes, hrun⟩ := Action.of_run_bind_ok hrun
    obtain ⟨r₂, w₂, hnone, hrun⟩ := Action.of_run_bind_ok hrun
    obtain ⟨_, _, -, hrun⟩ := Action.of_run_bind_ok hrun
    cases hnone
    cases hrun
    intro t ht
    simp only [registered, Option.toList_none, List.append_nil, List.mem_map] at ht
    obtain ⟨e, he, rfl⟩ := ht
    exact (hasSlotFor_addTypes htypes).1 e he
  intro t ht u hu hname
  obtain ⟨s, hs, hhandle⟩ := hslots t ht
  obtain ⟨s', hs', hhandle'⟩ := hslots u hu
  rw [hname, hs'] at hs
  cases hs
  exact hinstances t ht u hu (hhandle.symm.trans hhandle')

end Registry

/-! Preparations -/

namespace CommandLine

variable {σ τ : Type} {cacheDir : Option Path} {settings : Settings} {q : Path} {n : Nat} {w w' : World σ}

theorem isName_memory : Volume.IsName "fingerprints.json" :=
  ⟨Path.ofText_of_not_mem (by decide) (by decide) (by decide), by decide⟩

theorem expandHome?_memoryFile {home : Option String} (hplain : q.expandHome? home = some q) :
    (memoryFile q).expandHome? home = some (memoryFile q) := by
  unfold memoryFile
  rw [Path.expandHome?_child isName_memory (by decide +kernel), hplain]
  rfl

/-- The first part of a command that needs a host. -/
def prepare (cacheDir : Option Path) : Work σ (Settings × Path × Nat) := do
  let settings ← loadSettings cacheDir
  let root ← Work.lift (settings.resolvedRoot (← Work.environment))
  let desk ← freshDesk
  Work.setDesk desk (.fresh settings.classifyOptions)
  let _ ← Work.loadMemory desk (memoryFile root)
  return (settings, root, desk)

theorem buildHost_eq (s : Surroundings σ) (cacheDir : Option Path) (classPaths : List String)
    (readOnly : Bool) : buildHost s cacheDir classPaths readOnly = (do
      let (settings, root, desk) ← prepare cacheDir
      if readOnly || settings.readOnly then Host.buildReadOnly root desk (pure settings)
      else
        let ts ← Work.lift (s.catalogue.transformers 1 (settings.transformerList ++ classPaths))
        let types ← MediaMap.build ts true (.passthrough 0)
        Host.build root types desk none none settings) := by
  simp only [buildHost, prepare, bind_assoc, pure_bind]

/-- A command has its settings, its directory of caches and its fingerprinter. -/
structure Prepares (cacheDir : Option Path) (settings : Settings) (q : Path) (n : Nat) (w w' : World σ) :
    Prop where
  loads : (loadSettings cacheDir).run w = (.ok settings, w)
  root : settings.cacheRoot.expandHome? (w.environment.lookup "HOME") = some q
  kept : (w'.volume, w'.environment, w'.now) = (w.volume, w.environment, w.now)
  desk : ∃ f, Keyed.find? n w'.desks = some f ∧ f.options = settings.classifyOptions ∧ f.memory.keys.Nodup

theorem load_of_loadSettings (h : (loadSettings cacheDir).run w = (.ok settings, w')) :
    ∃ given, Settings.load w.volume w.environment given = .ok settings := by
  unfold loadSettings Work.loadSettings at h
  rw [Action.run_bind_ok (Action.run_get w), Work.run_lift] at h
  exact ⟨_, congrArg Prod.fst h⟩

theorem run_resolvedRoot (hexpand : settings.cacheRoot.expandHome? (w.environment.lookup "HOME") = some q) :
    (Work.lift (settings.resolvedRoot w.environment)).run w = (.ok q, w) := by
  rw [Work.run_lift, Settings.resolvedRoot, hexpand]

/-- The state in which a fingerprinter begins that has not loaded anything yet. -/
def atDesk (settings : Settings) (w : World σ) (n : Nat) : World σ :=
  { w with desks := w.desks.set n (.fresh settings.classifyOptions) }

/-- With its settings and its directory of caches, preparing depends on what is loaded. -/
theorem run_prepare (hloads : (loadSettings cacheDir).run w = (.ok settings, w))
    (hexpand : settings.cacheRoot.expandHome? (w.environment.lookup "HOME") = some q) : ∃ n,
    (prepare cacheDir).run w = (do
      let _ ← Work.loadMemory n (memoryFile q)
      return (settings, q, n) : Work σ (Settings × Path × Nat)).run (atDesk settings w n) := by
  unfold prepare
  rw [Action.run_bind_ok hloads, Action.run_bind_ok (show Work.environment.run w = (.ok w.environment, w) from rfl),
    Action.run_bind_ok (run_resolvedRoot hexpand)]
  exact ⟨_, rfl⟩

theorem Prepares.of_run (hloads : (loadSettings cacheDir).run w = (.ok settings, w))
    (hexpand : settings.cacheRoot.expandHome? (w.environment.lookup "HOME") = some q)
    {found : Settings × Path × Nat} (hrun : (prepare cacheDir).run w = (.ok found, w')) :
    ∃ n, found = (settings, q, n) ∧ Prepares cacheDir settings q n w w' := by
  obtain ⟨n, hprepare⟩ := run_prepare hloads hexpand
  have hfresh : Keyed.find? n (atDesk settings w n).desks = some (.fresh settings.classifyOptions) :=
    Keyed.find?_set_self _ _ _
  obtain ⟨r, journal, f, hload, hoptions, hkeys⟩ :=
    Work.run_loadMemory_of_distinct hfresh List.nodup_nil (memoryFile q)
  rw [hprepare] at hrun
  cases r with
  | error e =>
    rw [Action.run_bind_error hload] at hrun
    cases hrun
  | ok count =>
    rw [Action.run_bind_ok hload] at hrun
    cases hrun
    exact ⟨n, rfl, hloads, hexpand, rfl, f, Keyed.find?_set_self _ _ _, hoptions, hkeys⟩

/-- A saved memory is taken up as a whole. -/
theorem Prepares.of_saved (hloads : (loadSettings cacheDir).run w = (.ok settings, w))
    (hexpand : settings.cacheRoot.expandHome? (w.environment.lookup "HOME") = some q)
    (hplain : q.expandHome? (w.environment.lookup "HOME") = some q) {f : Fingerprinter}
    (hsaved : f.IsSaved (memoryFile q) w.volume) (hkeys : f.memory.keys.Nodup) : ∃ n w',
    (prepare cacheDir).run w = (.ok (settings, q, n), w') ∧ Prepares cacheDir settings q n w w' ∧
      w'.fingerprinter n = { f with options := settings.classifyOptions } := by
  obtain ⟨n, hprepare⟩ := run_prepare hloads hexpand
  have hfresh : Keyed.find? n (atDesk settings w n).desks = some (.fresh settings.classifyOptions) :=
    Keyed.find?_set_self _ _ _
  have hload := Work.run_loadMemory (w := atDesk settings w n) hkeys hsaved (expandHome?_memoryFile hplain) hfresh
  rw [Fingerprinter.joined_of_empty rfl hkeys] at hload
  have hdesk : Keyed.find? n ((atDesk settings w n).desks.set n { f with options := settings.classifyOptions }) =
      some { f with options := settings.classifyOptions } := Keyed.find?_set_self _ _ _
  refine ⟨n, _, hprepare.trans (Action.run_bind_ok hload), ⟨hloads, hexpand, rfl, _, hdesk, rfl, hkeys⟩, ?_⟩
  unfold World.fingerprinter
  exact congrArg (fun f? : Option Fingerprinter => f?.getD (.fresh .standard)) hdesk

/-! Full hosts -/

/-- The map of media types for some class paths, which are found after those of the settings. -/
structure IsStaff (c : Catalogue) (settings : Settings) (classPaths : List String)
    (types : List (String × Transformer)) : Prop where
  instances : Registry.AreInstances (Registry.registered types none)
  mapped : ∃ ts, c.transformers 1 (settings.transformerList ++ classPaths) = .ok ts ∧
    ∀ (τ : Type) (w : World τ), ∃ journal,
      (MediaMap.build ts true (.passthrough 0)).run w = (.ok types, { w with journal := journal })

theorem isStaff_of_build {c : Catalogue} {classPaths : List String} {ts : List Transformer}
    {types : List (String × Transformer)}
    (hfound : c.transformers 1 (settings.transformerList ++ classPaths) = .ok ts)
    (hmapped : (MediaMap.build ts true (.passthrough 0)).run w = (.ok types, w')) :
    IsStaff c settings classPaths types := by
  obtain ⟨hinstances, hfirst⟩ := Catalogue.areInstances_of_transformers hfound
  refine ⟨?_, ts, hfound, fun τ w₁ => MediaMap.build_alike hmapped w₁⟩
  have hcases : ∀ t ∈ Registry.registered types none, t ∈ ts ∨ t = .passthrough 0 := by
    intro t ht
    simp only [Registry.registered, Option.toList_none, List.append_nil, List.mem_map] at ht
    obtain ⟨⟨m, t'⟩, hmem, rfl⟩ := ht
    exact MediaMap.mem_of_build hmapped hmem
  -- the passthrough has a handle that comes before those of the class paths
  have happart : ∀ t ∈ ts, t.handle ≠ (Transformer.passthrough 0).handle := by
    intro t ht hsame
    have hpositive := hfirst t ht
    change t.handle = 0 at hsame
    omega
  intro t ht u hu hhandle
  rcases hcases t ht with ht' | rfl
  · rcases hcases u hu with hu' | rfl
    · exact hinstances t ht' u hu' hhandle
    · exact absurd hhandle (happart t ht')
  · rcases hcases u hu with hu' | rfl
    · exact absurd hhandle.symm (happart u hu')
    · rfl

section Full

variable {s : Surroundings σ} {classPaths : List String} {types : List (String × Transformer)} {w₁ : World σ}

/-- The full host of a command is built of its staff. -/
theorem IsStaff.run_buildHost (hstaff : IsStaff s.catalogue settings classPaths types)
    (hmode : settings.readOnly = false) (hprepare : (prepare cacheDir).run w = (.ok (settings, q, n), w₁)) :
    ∃ journal, (buildHost s cacheDir classPaths false).run w =
      (Host.build q types n none none settings).run { w₁ with journal := journal } := by
  obtain ⟨-, ts, hfound, hmapped⟩ := hstaff
  obtain ⟨journal, hmap⟩ := hmapped σ w₁
  have hlift : (Work.lift (s.catalogue.transformers 1 (settings.transformerList ++ classPaths))).run w₁ =
      (.ok ts, w₁) := by
    rw [Work.run_lift, hfound]
  refine ⟨journal, ?_⟩
  rw [buildHost_eq, Action.run_bind_ok hprepare]
  simp only [hmode, Bool.or_false, Bool.false_eq_true, if_false]
  rw [Action.run_bind_ok hlift, Action.run_bind_ok hmap]

/-- What a command has prepared and found when it has built a full host. -/
theorem of_buildHost (hloads : (loadSettings cacheDir).run w = (.ok settings, w))
    (hexpand : settings.cacheRoot.expandHome? (w.environment.lookup "HOME") = some q)
    (hmode : settings.readOnly = false) {h : Host}
    (hrun : (buildHost s cacheDir classPaths false).run w = (.ok h, w')) : ∃ n w₁ types journal,
      Prepares cacheDir settings q n w w₁ ∧ IsStaff s.catalogue settings classPaths types ∧
      (Host.build q types n none none settings).run { w₁ with journal := journal } = (.ok h, w') := by
  have hbuild := hrun
  rw [buildHost_eq] at hrun
  obtain ⟨found, w₁, hprepare, hrun⟩ := Action.of_run_bind_ok hrun
  obtain ⟨n, rfl, hprepares⟩ := Prepares.of_run hloads hexpand hprepare
  simp only [hmode, Bool.or_false, Bool.false_eq_true, if_false] at hrun
  obtain ⟨ts, w₂, hfound, hrun⟩ := Action.of_run_bind_ok hrun
  obtain ⟨types, w₃, hmapped, -⟩ := Action.of_run_bind_ok hrun
  have hts : s.catalogue.transformers 1 (settings.transformerList ++ classPaths) = .ok ts := by
    rw [Work.run_lift] at hfound
    exact congrArg Prod.fst hfound
  have hstaff := isStaff_of_build hts hmapped
  obtain ⟨journal, hagain⟩ := hstaff.run_buildHost hmode hprepare
  exact ⟨n, w₁, types, journal, hprepares, hstaff, hagain.symm.trans hbuild⟩

/-- The staff of a host that was built has names of its own. -/
theorem IsStaff.isConsistent {c : Catalogue} (hstaff : IsStaff c settings classPaths types) {h : Host}
    (hrun : (Host.build q types n none none settings).run w = (.ok h, w')) :
    Registry.IsConsistent (Registry.registered types none) :=
  Registry.isConsistent_of_build hstaff.instances (Host.of_run_build hrun).2.2.2

/-- From a full host that a command has built files can be visited, once its root is free of links. -/
theorem mayVisit_of_buildHost (hloads : (loadSettings cacheDir).run w = (.ok settings, w))
    (hexpand : settings.cacheRoot.expandHome? (w.environment.lookup "HOME") = some q)
    (hplain : q.expandHome? (w.environment.lookup "HOME") = some q) (hmode : settings.readOnly = false)
    {h : Host} (hrun : (buildHost s cacheDir classPaths false).run w = (.ok h, w')) {d : Location}
    (hroot : w'.volume.IsRoot q d) (hhere : AreProper w.volume.here) (hnow : w.now.IsDate) :
    h.MayVisit q d w' := by
  obtain ⟨n, w₁, types, journal, hprepares, -, hbuild⟩ := of_buildHost hloads hexpand hmode hrun
  have hkept := hprepares.kept
  simp only [Prod.mk.injEq] at hkept
  obtain ⟨hvolume, henvironment, hdate⟩ := hkept
  have hplain' : q.expandHome? (({ w₁ with journal := journal } : World σ).environment.lookup "HOME") = some q := by
    rw [henvironment]
    exact hplain
  obtain ⟨hbuilt, hopens, hsetting, -⟩ := Host.build_ok hbuild hplain'
  obtain ⟨given, hload⟩ := load_of_loadSettings hprepares.loads
  simp only [Host.setting, Prod.mk.injEq] at hsetting
  obtain ⟨f, hf, -, hkeys⟩ := hprepares.desk
  exact {
    mode := by
      rw [hbuilt.readOnly]
      exact hmode
    limit := by
      rw [hbuilt.settings]
      change 0 < settings.scanLimit
      exact Settings.scanLimit_of_load hload
    tidy := hbuilt.isTidy
    stands := Host.stands_of_build hbuild hplain' hroot
    distinct := by
      unfold Work.Distinct
      rw [hbuilt.desk, hsetting.2.1]
      exact ⟨f, hf, hkeys⟩
    here := by
      rw [hopens.here]
      change AreProper w₁.volume.here
      rw [hvolume]
      exact hhere
    date := by
      rw [hsetting.2.2.1]
      rw [hdate]
      exact hnow }

end Full
end CommandLine
end AssetCompiler
