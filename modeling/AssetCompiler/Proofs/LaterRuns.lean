import AssetCompiler.Proofs.ReadOnlyHosts
import AssetCompiler.Proofs.SavedRuns

/-!
Later runs for one file. A run that finds what an earlier one has left builds a host that picks the slots of the
earlier host, from the same classes or from the saved registrations alone, and whose fingerprinter knows what
was known before. What is served for a file it prints, in both modes the same.
-/
namespace AssetCompiler

namespace Registry

variable {κ κ' : Type} {cacheOf : Transformer → κ} {cacheOf' : Transformer → κ'}
variable {types : List (String × Transformer)} {fallback : Option Transformer}
variable {r : Registry κ} {r' : Registry κ'}

/-- Two registries of the same transformers, each with its own caches. -/
def OfSame (cacheOf : Transformer → κ) (cacheOf' : Transformer → κ') (s : Slot κ) (s' : Slot κ') : Prop :=
  s'.transformer = s.transformer ∧ s.cache = cacheOf s.transformer ∧ s'.cache = cacheOf' s.transformer

theorem IsFor.slot?_rel (h : IsFor cacheOf types fallback r) (h' : IsFor cacheOf' types fallback r')
    (name : String) : Option.Rel (OfSame cacheOf cacheOf') (r.slot? name) (r'.slot? name) := by
  rw [h.slots name, h'.slots name]
  cases (registered types fallback).find? fun t => t.name == name with
  | none => exact .none
  | some t => exact .some ⟨rfl, rfl, rfl⟩

theorem IsFor.agrees_same (h : IsFor cacheOf types fallback r) (h' : IsFor cacheOf' types fallback r') :
    Agrees (OfSame cacheOf cacheOf') r r' where
  lookup mediaType := by
    cases mediaType with
    | none => exact .none
    | some m =>
      change Option.Rel _ ((Keyed.find? m r.nameOf).bind r.slot?) ((Keyed.find? m r'.nameOf).bind r'.slot?)
      rw [h.nameOf, h'.nameOf]
      cases Keyed.find? m (Keyed.ofList (types.map fun e => (e.1, e.2.name))) with
      | none => exact .none
      | some name => exact h.slot?_rel h' name
  fallback := by
    unfold fallback?
    rw [h.fallbackName, h'.fallbackName]
    cases fallback with
    | none => exact .none
    | some t => exact h.slot?_rel h' t.name

end Registry

namespace Host

variable {σ : Type} {h : Host} {w : World σ} {file : String} {s : Slot Cache} {i : Fingerprint}

/-- A host that only reads looks once under the key of what it sees. -/
theorem Picks.run_compileReadOnly (hpicks : h.Picks w file s i) (htidy : h.IsTidy) :
    ∃ w₁ answer journal, w₁.volume = w.volume ∧
      (s.cache.lookup i.cacheKey).run w₁ = (answer, { w₁ with journal := journal }) ∧
      (h.compileReadOnly file).run w = (answer.bind (served file), { w₁ with journal := journal }) := by
  obtain ⟨hprint, isFallback, hselect⟩ := hpicks
  have hvolume := Work.isApart_volume.fingerprint h.desk (Path.ofText file) w
  unfold print at hprint
  rcases htaken : (Work.fingerprint h.desk (Path.ofText file)).run w with ⟨r, w₁⟩
  rw [htaken] at hprint hvolume
  obtain rfl : r = .ok i := hprint
  obtain ⟨journal, hslot⟩ := select_ok hselect w₁
  have hagain : (Work.fingerprint h.desk (Path.ofText file)).run { w₁ with journal := journal } =
      (.ok i, { w₁ with journal := journal }) := Work.fingerprint_again htaken hvolume rfl
  rw [← htidy.desk s.id s (htidy.slot?_of_select? hselect)] at hagain
  have hresolve : (h.resolve file).run w = (.ok s, { w₁ with journal := journal }) :=
    (Action.run_bind_ok htaken).trans hslot
  obtain ⟨answer, journal', hlookup⟩ := s.cache.run_lookup i.cacheKey { w₁ with journal := journal }
  exact ⟨{ w₁ with journal := journal }, answer, journal', hvolume, hlookup,
    run_compileReadOnly_of_resolve hresolve hagain hlookup⟩

/-- What is served for a file is returned in both modes. -/
theorem Picks.run_compile_of_serves (hpicks : h.Picks w file s i) (htidy : h.IsTidy) {a : Artifact}
    (hserves : s.cache.store.Serves w.volume i.cacheKey a) (crew : Crew σ) :
    ∃ w', (h.compile crew file).run w = (.ok a, w') := by
  cases hmode : h.readOnly with
  | false =>
    obtain ⟨journal, tools, hrun⟩ := hpicks.run_compileFull crew htidy
    rw [Store.answer?_eq_ok.mpr hserves] at hrun
    rw [run_compile_of_full hmode]
    exact ⟨_, hrun⟩
  | true =>
    obtain ⟨w₁, answer, journal, hvolume, hlookup, hrun⟩ := hpicks.run_compileReadOnly htidy
    obtain ⟨entry, hfound, rfl⟩ := Cache.run_lookup_of_serves (hvolume.symm ▸ hserves)
    obtain rfl : answer = .ok (some entry) := congrArg Prod.fst (hlookup.symm.trans hfound)
    rw [run_compile_of_readOnly hmode]
    exact ⟨_, hrun⟩

end Host

namespace CommandLine

open Volume

variable {σ τ : Type} {a b : Host} {settings : Settings} {q : Path} {d : Location} {f : Fingerprinter}
variable {types : List (String × Transformer)} {n : Nat}

/-! What is found -/

/-- What a later run finds of an earlier one: the stores of its host, its registrations, and what its
fingerprinter remembered. -/
structure Finds (a : Host) (q : Path) (d : Location) (f : Fingerprinter) (v : Volume) : Prop where
  stands : a.Stands q d v
  host : a.IsSaved q d v
  memory : f.IsSaved (memoryFile q) v

theorem Leaves.finds {v v' : Volume} (h : Leaves a q d f v v') : Finds a q d f v' :=
  ⟨h.stores.stands, h.host, h.memory⟩

theorem Finds.spared {v v' : Volume} (h : Finds a q d f v) (hspares : Volume.Spares q d v v') :
    Finds a q d f v' := by
  refine ⟨(h.stands.leaves_of_spares hspares).stands, h.host.spared hspares, h.memory.zero, ?_⟩
  have hshort : ¬ nameLimit < ("fingerprints.json" : String).utf8ByteSize := by decide
  obtain ⟨l, mtime, hstat⟩ := h.memory.written
  obtain ⟨hlocate, hnode⟩ := stat_eq_ok_iff.mp hstat
  rw [memoryFile, h.stands.root.locate true isName_memory, if_neg hshort] at hlocate
  cases hlocate
  have hlocate' := hspares.root.locate true isName_memory
  rw [if_neg hshort] at hlocate'
  exact ⟨_, mtime, stat_eq_ok_iff.mpr ⟨hlocate', (hspares.node _).trans hnode⟩⟩

/-! Hosts that go on -/

/-- A host that goes on where another one has ended. -/
structure Continues (a : Host) (settings : Settings) (f : Fingerprinter) (b : Host) (w w' : World τ) : Prop where
  tidy : b.IsTidy
  volume : w'.volume = w.volume
  desk : w'.fingerprinter b.desk = { f with options := settings.classifyOptions }
  agrees : Registry.Agrees Host.Succeeds a.registry b.registry

section Continuing

variable {s : Surroundings τ} {cacheDir : Option Path} {classPaths : List String} {w : World τ}

theorem canOpen_of_stands (hbuilt : a.IsBuilt q q types n none none settings)
    (hconsistent : Registry.IsConsistent (Registry.registered types none)) {v : Volume}
    (hstands : a.Stands q d v) {t : Transformer} (ht : t ∈ Registry.registered types none) : ∃ store,
      Store.named settings.backend q t.space = some store ∧
      store.At v (Store.placeOf settings.backend d t.space) ∧
      Store.CanOpen settings.backend v q d t.space := by
  have hslot := hbuilt.registry.slot?_of_consistent hconsistent ht
  have hnamed := hstands.named _ _ hslot
  have hat := hstands.places _ _ hslot
  rw [hbuilt.settings] at hnamed hat
  exact ⟨_, hnamed, hat, Store.canOpen_of_at hstands.root (Store.isName_space t) hnamed hat⟩

/-- From the same classes a host is built again that goes on. -/
theorem continues_full (hbuilt : a.IsBuilt q q types n none none settings)
    (hconsistent : Registry.IsConsistent (Registry.registered types none))
    (hfinds : Finds a q d f w.volume) (hkeys : f.memory.keys.Nodup) (hmode : settings.readOnly = false)
    (hloads : (loadSettings cacheDir).run w = (.ok settings, w))
    (hexpand : settings.cacheRoot.expandHome? (w.environment.lookup "HOME") = some q)
    (hplain : q.expandHome? (w.environment.lookup "HOME") = some q)
    (hstaff : IsStaff s.catalogue settings classPaths types) : ∃ b w',
    (buildHost s cacheDir classPaths false).run w = (.ok b, w') ∧ Continues a settings f b w w' := by
  obtain ⟨n', w₁, hprepare, hprepares, hdesk⟩ := Prepares.of_saved hloads hexpand hplain hfinds.memory hkeys
  obtain ⟨journal, hrun⟩ := hstaff.run_buildHost hmode hprepare
  have hkept := hprepares.kept
  simp only [Prod.mk.injEq] at hkept
  obtain ⟨hvolume, henvironment, -⟩ := hkept
  have hplain' : q.expandHome? (({ w₁ with journal := journal } : World τ).environment.lookup "HOME") = some q := by
    rw [henvironment]
    exact hplain
  have hroot : ({ w₁ with journal := journal } : World τ).volume.IsRoot q d := by
    rw [hvolume]
    exact hfinds.stands.root
  have hopen : ∀ t ∈ Registry.registered types none, ∃ store,
      Store.named settings.backend q t.space = some store ∧
      store.At w₁.volume (Store.placeOf settings.backend d t.space) ∧
      Store.CanOpen settings.backend w₁.volume q d t.space := by
    intro t ht
    rw [hvolume]
    exact canOpen_of_stands hbuilt hconsistent hfinds.stands ht
  obtain ⟨b, w', hbuild⟩ : ∃ b w', (Host.build q types n' none none settings).run
      { w₁ with journal := journal } = (.ok b, w') :=
    Host.build_returns hplain' hfinds.host.zero hroot hconsistent fun t ht => (hopen t ht).choose_spec.2.2
  obtain ⟨hbuilt', hsame, hsetting⟩ := Host.build_of_at hbuild hplain' hfinds.host.zero hroot
    fun t ht => ⟨_, _, (hopen t ht).choose_spec.1, (hopen t ht).choose_spec.2.1⟩
  refine ⟨b, w', hrun.trans hbuild, hbuilt'.isTidy, hsame.trans hvolume, ?_, ?_⟩
  · have hdesks : w'.desks = w₁.desks := congrArg (·.2.1) hsetting
    unfold World.fingerprinter at hdesk ⊢
    rw [hbuilt'.desk, hdesks]
    exact hdesk
  · refine (hbuilt.registry.agrees_same hbuilt'.registry).imp ?_
    intro s s' _ hrel
    obtain ⟨htransformer, hcache, hcache'⟩ := hrel
    exact ⟨congrArg (·.name) htransformer, congrArg (·.space) htransformer, by rw [hcache, hcache']; rfl⟩

variable (classPaths) in
/-- From the saved registrations a host is built that goes on. -/
theorem continues_readOnly (hbuilt : a.IsBuilt q q types n none none settings)
    (hfinds : Finds a q d f w.volume) (hkeys : f.memory.keys.Nodup)
    (hloads : (loadSettings cacheDir).run w = (.ok settings, w))
    (hexpand : settings.cacheRoot.expandHome? (w.environment.lookup "HOME") = some q)
    (hplain : q.expandHome? (w.environment.lookup "HOME") = some q) : ∃ b w',
    (buildHost s cacheDir classPaths true).run w = (.ok b, w') ∧ Continues a settings f b w w' ∧
      b.readOnly = true := by
  obtain ⟨n', w₁, hprepare, hprepares, hdesk⟩ := Prepares.of_saved hloads hexpand hplain hfinds.memory hkeys
  have hkept := hprepares.kept
  simp only [Prod.mk.injEq] at hkept
  obtain ⟨hvolume, henvironment, -⟩ := hkept
  have hfinds₁ : Finds a q d f w₁.volume := hvolume ▸ hfinds
  have hplain₁ : q.expandHome? (w₁.environment.lookup "HOME") = some q := henvironment ▸ hplain
  obtain ⟨b, w', hbuild⟩ : ∃ b w', (Host.buildReadOnly q n' (pure settings)).run w₁ = (.ok b, w') :=
    Host.returns_of_isSaved hbuilt hfinds₁.stands hfinds₁.host hplain₁ rfl n'
  obtain ⟨hnumber, hmode⟩ : b.desk = n' ∧ b.readOnly = true := by
    rw [hfinds₁.host.run_buildReadOnly hbuilt.registry.nodup_items hplain₁ n' settings default] at hbuild
    exact ⟨(Host.of_run_build hbuild).2.1, (Host.of_run_build hbuild).2.2.1⟩
  have hrebuilt : a.IsRebuilt b q settings w₁ w' := .inl (hnumber.symm ▸ hbuild)
  obtain ⟨htidy, -, hsame, hsetting, hagrees⟩ := hrebuilt.agrees hbuilt hfinds₁.stands hfinds₁.host hplain₁
  have hrun : (buildHost s cacheDir classPaths true).run w = (Host.buildReadOnly q n' (pure settings)).run w₁ := by
    rw [buildHost_eq, Action.run_bind_ok hprepare]
    rfl
  refine ⟨b, w', hrun.trans hbuild, ⟨htidy, hsame.trans hvolume, ?_, hagrees⟩, hmode⟩
  have hdesks : w'.desks = w₁.desks := congrArg (·.2.1) hsetting
  unfold World.fingerprinter at hdesk ⊢
  rw [hnumber, hdesks]
  exact hdesk

end Continuing

section Compiling

variable {w w' : World τ} {file : String} {real : Path} {bytes : List UInt8} {mtime mtime' : Int}
variable {i : Fingerprint}

/-- With another time than the one that was known, a file is looked at again. -/
theorem Continues.print_anew (hcontinues : Continues a settings f b w w')
    (hsight : w.volume.inspect (Path.ofText file) = .ok (real, bytes, mtime'))
    (hknown : f.known? real.text bytes.length mtime = some i) (htime : mtime' ≠ mtime) :
    b.print w' file = .ok (.classify bytes real settings.classifyOptions) := by
  have hother : f.known? real.text bytes.length mtime' = none := by
    unfold Fingerprinter.known?
    rw [Work.known?_eq_some hknown]
    exact if_neg fun h => htime h.2.symm
  have hfst := Work.fingerprint_fst (n := b.desk) (hcontinues.volume.symm ▸ hsight)
  rw [hcontinues.desk] at hfst
  unfold Host.print
  rw [hfst]
  change Except.ok ((f.known? real.text bytes.length mtime').getD _) = _
  rw [hother]
  rfl

/-- A file that was known gets its fingerprint again if it has kept its time. With another time it is looked at
again. -/
theorem Continues.print (hcontinues : Continues a settings f b w w')
    (hsight : w.volume.inspect (Path.ofText file) = .ok (real, bytes, mtime'))
    (hknown : f.known? real.text bytes.length mtime = some i)
    (htime : mtime' = mtime ∨ i = Fingerprint.classify bytes real settings.classifyOptions) :
    b.print w' file = .ok i := by
  by_cases hsame : mtime' = mtime
  · subst hsame
    have hfst := Work.fingerprint_fst (n := b.desk) (hcontinues.volume.symm ▸ hsight)
    rw [hcontinues.desk] at hfst
    unfold Host.print
    rw [hfst]
    change Except.ok ((f.known? real.text bytes.length mtime').getD _) = _
    rw [hknown]
    rfl
  · rw [hcontinues.print_anew hsight hknown hsame, htime.resolve_left hsame]

/-- What is served for a file in the slot of the earlier host is returned by the one that goes on. -/
theorem Continues.compiles (hcontinues : Continues a settings f b w w') (hprint : b.print w' file = .ok i)
    {s : Slot Cache} {isFallback : Bool}
    (hselect : a.registry.select? (Path.ofText file) i = some (s, isFallback)) {r : Artifact}
    (hserves : s.cache.store.Serves w.volume i.cacheKey r) (crew : Crew τ) :
    ∃ w'', (b.compile crew file).run w' = (.ok r, w'') := by
  have hrel := hcontinues.agrees.select? (Path.ofText file) i
  rw [hselect] at hrel
  cases hselect' : b.registry.select? (Path.ofText file) i with
  | none =>
    rw [hselect'] at hrel
    cases hrel
  | some found =>
    obtain ⟨s', isFallback'⟩ := found
    rw [hselect'] at hrel
    cases hrel with
    | some hsucceeds =>
      have hstore : s'.cache.store = s.cache.store := hsucceeds.1.store
      have hpicks : b.Picks w' file s' i := ⟨hprint, isFallback', hselect'⟩
      refine hpicks.run_compile_of_serves hcontinues.tidy ?_ crew
      rw [hstore, hcontinues.volume]
      exact hserves

/-- A result as it is printed. -/
def printed (asJson : Bool) (a : Artifact) : String :=
  if asJson then Json.write .pages a.toJson ++ "\n" else codeOf a

/-- A run for a file that compiles prints the result. -/
theorem run_of_compile {s : Surroundings τ} {words : List String} {i : Invocation} {log : Log.Setup} {p : Path}
    {classPaths : List String} {readOnly asJson : Bool} {w₁ w₂ w₃ : World τ} {r : Artifact}
    (hwords : parse words = .ok i) (htask : i.task = .compile p classPaths readOnly asJson)
    (hlog : (openLog i.verbose).run w = (.ok log, w₁)) (hfile : w₁.volume.isFile p = .ok true)
    (hbuild : (buildHost s i.cacheDir classPaths readOnly).run w₁ = (.ok b, w₂))
    (hcompile : (b.compile s.crew p.text).run w₂ = (.ok r, w₃)) :
    ∃ errors w', (run s words).run w = (.ok ⟨0, printed asJson r, errors⟩, w') := by
  have hlooked : (Work.look fun v => v.isFile p).run w₁ = (.ok true, w₁) := by
    rw [Work.run_look, hfile]
  have hbegin : (begin s i).run w₁ = (.ok (.done 0 (printed asJson r)), w₃) := by
    unfold begin
    rw [htask]
    simp only
    rw [Action.run_bind_ok hlooked]
    simp only [if_true]
    rw [Action.run_bind_ok hbuild, Action.run_bind_ok hcompile]
    rfl
  obtain ⟨early, w₄, hdrain⟩ := run_drain s i.verbose log w₃
  have hfinish : (finish s (.done 0 (printed asJson r))).run w₄ = (.ok (0, printed asJson r), w₄) := rfl
  obtain ⟨late, w', -, hrun⟩ := run_of_finish hwords hlog hbegin hdrain hfinish
  exact ⟨early ++ late, w', hrun⟩

end Compiling

end CommandLine
end AssetCompiler
