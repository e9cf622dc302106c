import AssetCompiler.Proofs.Deployments
import AssetCompiler.Proofs.StoreFailures

/-!
Hosts that are built again. From what was saved of a host, one with stand-ins can always be built: it has
the same media types, names, stores and fallback, and what is saved of it are the same records. With live
transformers a host of the same names is built, if there is one for each saved name and its store can be
opened.
-/
namespace AssetCompiler

open Volume

/-! Stores that can be opened -/

namespace Store

/-- The folder of a space is in the directory of the caches, or can be made there. -/
structure HasRoom (v : Volume) (q : Path) (d : Location) (space : String) : Prop where
  zero : hasZero (q.child (safeName space)) = false
  short : ¬ nameLimit < (safeName space).utf8ByteSize
  free : v.nodeAt? (d ++ [safeName space]) = none ∨
    v.nodeAt? (d ++ [safeName space]) = some .directory

/-- The store of a space can be opened. -/
def CanOpen (backend : Backend) (v : Volume) (q : Path) (d : Location) (space : String) : Prop :=
  match backend with
  | .json => HasRoom v q d space
  | .sqlite => TableAt v (q.child databaseName) (d ++ [databaseName])
  | .unknown _ => False

section Opening

variable {backend : Backend} {v : Volume} {q : Path} {d : Location} {space : String}

theorem HasRoom.makeDirectories (h : HasRoom v q d space) (hroot : v.IsRoot q d)
    (hname : IsName (safeName space)) :
    ∃ v', v.makeDirectories (q.child (safeName space)) = .ok v' ∧ v'.IsRoot q d ∧
      ∀ space', HasRoom v q d space' → HasRoom v' q d space' := by
  have hlocate : ∀ follow, v.locate follow (q.child (safeName space)) =
      .ok (d ++ [safeName space]) := by
    intro follow
    rw [hroot.locate follow hname, if_neg h.short]
  rcases h.free with hnone | hthere
  · have hmade : v.makeDirectory (q.child (safeName space)) =
        .ok (v.put (d ++ [safeName space]) .directory) := by
      unfold makeDirectory
      rw [hlocate false]
      simp only [hnone, List.dropLast_concat, hroot.directory]
    obtain ⟨rest, hchain⟩ :=
      chain_eq_cons (q.child (safeName space)).parts.length (q.child (safeName space))
    have hopens := Opens.put (v := v) ne_root_of_append (.inl hnone) (.inl rfl)
    refine ⟨_, ?_, hroot.grows hopens.grows, ?_⟩
    · unfold Volume.makeDirectories
      rw [h.zero, hchain, makeChain, hmade]
      rfl
    · intro space' h'
      refine ⟨h'.zero, h'.short, ?_⟩
      rw [nodeAt?_put v _ _ _ ne_root_of_append]
      split
      · exact .inr rfl
      · exact h'.free
  · exact ⟨v, makeDirectories_of_isDirectory h.zero ⟨_, hlocate true, hthere⟩, hroot, fun _ h' => h'⟩

theorem openAs_of_canOpen {home : Option String} {cacheRoot : Path}
    (hexpand : cacheRoot.expandHome? home = some q) (hzero : hasZero q = false)
    (hroot : v.IsRoot q d) (hname : IsName (safeName space)) (h : CanOpen backend v q d space) :
    ∃ s v', (openAs home backend cacheRoot space).run v = (.ok s, v') ∧ v'.IsRoot q d ∧
      ∀ space', CanOpen backend v q d space' → CanOpen backend v' q d space' := by
  cases backend with
  | json =>
    obtain ⟨v', hmade, hroot', hkept⟩ := HasRoom.makeDirectories h hroot hname
    refine ⟨folder (q.child (safeName space)) space, v', ?_, hroot', hkept⟩
    have hexpanded : (expandHome home cacheRoot).run v = (.ok q, v) := by
      unfold expandHome
      rw [hexpand]
      rfl
    have hmakes : (Filing.makeDirectories (q.child (safeName space))).run v = (.ok (), v') := by
      rw [Filing.makeDirectories, Filing.run_change, hmade]
    unfold openAs openFolder
    simp only
    rw [Action.run_bind_ok hexpanded, Action.run_bind_ok hmakes]
    rfl
  | sqlite =>
    have hat : (table (q.child databaseName) space true).At v (.rows (d ++ [databaseName]) space) :=
      ⟨rfl, rfl, h⟩
    exact ⟨_, v, openAs_of_at hexpand hzero hroot rfl hat, hroot, fun _ h' => h'⟩
  | unknown name => exact h.elim

/-- A store that lies where it belongs can be opened. -/
theorem canOpen_of_at {s : Store} (hroot : v.IsRoot q d) (hname : IsName (safeName space))
    (hnamed : named backend q space = some s) (hat : s.At v (placeOf backend d space)) :
    CanOpen backend v q d space := by
  cases backend with
  | json =>
    cases hnamed
    refine ⟨FolderAt.zero hat, ?_, .inr (FolderAt.directory hat)⟩
    have hlocated := FolderAt.located hat
    rw [hroot.locate true hname] at hlocated
    intro hlong
    rw [if_pos hlong] at hlocated
    cases hlocated
  | sqlite =>
    cases hnamed
    exact hat.2.2
  | unknown name => cases hnamed

end Opening

end Store

/-! Registries of the same media types -/

namespace Registry

theorem sorted_sorted (names : List String) : sorted (sorted names) = sorted names := by
  refine List.mergeSort_of_pairwise (List.pairwise_mergeSort ?_ ?_ names)
  · intro a b c hab hbc
    exact decide_eq_true (String.le_trans (of_decide_eq_true hab) (of_decide_eq_true hbc))
  · intro a b
    rw [Bool.or_eq_true, decide_eq_true_eq, decide_eq_true_eq]
    exact String.le_total a b

variable {κ κ' : Type} {cacheOf : Transformer → κ} {cacheOf' : Transformer → κ'}
variable {types types' : List (String × Transformer)} {fallback fallback' : Option Transformer}
variable {r : Registry κ} {r' : Registry κ'}

theorem IsFor.mediaTypes_eq (h : IsFor cacheOf types fallback r)
    (h' : IsFor cacheOf' types' fallback' r') (hkeys : Keyed.keys types' = Keyed.keys r.items) :
    r'.mediaTypes = r.mediaTypes := by
  have hnames : Keyed.keys (types'.map fun e => (e.1, e.2.name)) = r.mediaTypes := by
    rw [← h.keys_items, ← hkeys]
    simp [Keyed.keys, Function.comp_def]
  have hnodup : (Keyed.keys (types'.map fun e => (e.1, e.2.name))).Nodup := by
    rw [hnames, ← h.keys_items]
    exact h.nodup_items
  rw [mediaTypes, h'.nameOf, Keyed.ofList_of_nodup hnodup, hnames, mediaTypes, sorted_sorted]

/-- What is alike about the slots of the media types is alike about the items. -/
theorem items_map_eq {α : Type} (f : Slot κ → α) (f' : Slot κ' → α)
    (htypes : r'.mediaTypes = r.mediaTypes)
    (hlookup : ∀ m, (r'.lookup? m).map f' = (r.lookup? m).map f) :
    (r'.items.map fun e => (e.1, f' e.2)) = r.items.map fun e => (e.1, f e.2) := by
  unfold items
  rw [List.map_filterMap, List.map_filterMap, htypes]
  refine List.filterMap_congr fun m _ => ?_
  have hm := hlookup (some m)
  generalize r'.lookup? (some m) = s'? at hm
  generalize r.lookup? (some m) = s? at hm
  cases s? with
  | none =>
    cases s'? with
    | none => rfl
    | some s' => cases hm
  | some s =>
    cases s'? with
    | none => cases hm
    | some s' => exact congrArg (fun a => some (m, a)) (Option.some.inj hm)

theorem map_eq_of_rel {α β γ : Type} {rel : α → β → Prop} {x : Option α} {y : Option β}
    (h : Option.Rel rel x y) {f : α → γ} {f' : β → γ} (hf : ∀ a b, rel a b → f' b = f a) :
    y.map f' = x.map f := by
  cases h with
  | none => rfl
  | some hrel => exact congrArg some (hf _ _ hrel)

end Registry

/-! Building hosts -/

namespace Cache

variable {σ : Type}

theorem run_ofTransformer (t : Transformer) (desk : Nat) (settings : Settings) (w : World σ) :
    (ofTransformer t desk settings).run w =
      (((Store.openAs (w.environment.lookup "HOME") settings.backend settings.cacheRoot
          t.space).run w.volume).1.map fun store => ⟨store, desk⟩,
        { w with volume := ((Store.openAs (w.environment.lookup "HOME") settings.backend
          settings.cacheRoot t.space).run w.volume).2 }) := by
  unfold ofTransformer
  rw [Action.run_bind_ok (show Work.environment.run w = (.ok w.environment, w) from rfl),
    Action.run_bind, Work.run_filing]
  cases ((Store.openAs (w.environment.lookup "HOME") settings.backend settings.cacheRoot
    t.space).run w.volume).1 <;> rfl

end Cache

namespace Host

variable {σ τ : Type} {q : Path} {d : Location} {root : Path} {number : Nat} {mode : Option Bool}
variable {types : List (String × Transformer)} {fallback : Option Transformer} {given : Settings}

theorem run_build (w : World σ) :
    (build root types number mode fallback given).run w =
      (((Registry.build (fun t => Cache.ofTransformer t number { given with cacheRoot := root }) types
          fallback).run w).1.map fun registry =>
            ⟨{ given with cacheRoot := root }, number, mode.getD given.readOnly, registry⟩,
        ((Registry.build (fun t => Cache.ofTransformer t number { given with cacheRoot := root }) types
          fallback).run w).2) := by
  unfold build
  simp only
  rw [Action.run_bind]
  rcases (Registry.build (fun t => Cache.ofTransformer t number { given with cacheRoot := root })
    types fallback).run w with ⟨r | r, w'⟩ <;> rfl

/-- Transformers of different names make a host, if their stores can be opened. -/
theorem build_returns {w : World σ} (hexpand : root.expandHome? (w.environment.lookup "HOME") = some q)
    (hzero : hasZero q = false) (hroot : w.volume.IsRoot q d)
    (hconsistent : Registry.IsConsistent (Registry.registered types fallback))
    (hopen : ∀ t ∈ Registry.registered types fallback,
      Store.CanOpen given.backend w.volume q d t.space) :
    ∃ h w', (build root types number mode fallback given).run w = (.ok h, w') := by
  have hends := Registry.ends_build
    (fun t => Cache.ofTransformer t number { given with cacheRoot := root })
    (fun w' : World σ => w'.environment = w.environment ∧ w'.volume.IsRoot q d ∧
      ∀ t ∈ Registry.registered types fallback, Store.CanOpen given.backend w'.volume q d t.space)
    hconsistent ?_ (fun _ _ h => h) ⟨rfl, hroot, hopen⟩
  · rw [run_build]
    rcases hrun : (Registry.build (fun t => Cache.ofTransformer t number
      { given with cacheRoot := root }) types fallback).run w with ⟨e | r, w'⟩
    · rw [hrun] at hends
      obtain ⟨t, ht, w₁, w₂, ⟨henvironment, hroot₁, hopen₁⟩, hfails⟩ := hends
      obtain ⟨s, v', hopened, -⟩ := Store.openAs_of_canOpen (henvironment ▸ hexpand) hzero hroot₁
        (Store.isName_space t) (hopen₁ t ht)
      rw [Cache.run_ofTransformer, hopened] at hfails
      cases hfails
    · exact ⟨_, _, rfl⟩
  · rintro t ht w₁ k w₂ ⟨henvironment, hroot₁, hopen₁⟩ hmade
    obtain ⟨s, v', hopened, hroot', hkept⟩ := Store.openAs_of_canOpen (henvironment ▸ hexpand) hzero
      hroot₁ (Store.isName_space t) (hopen₁ t ht)
    rw [Cache.run_ofTransformer, hopened] at hmade
    cases hmade
    exact ⟨henvironment, hroot', fun t' ht' => hkept _ (hopen₁ t' ht')⟩

/-- Transformers of different names fail to make a host for reasons of their stores only. -/
theorem isPlain_of_build {w w' : World σ} {e : Failure}
    (hconsistent : Registry.IsConsistent (Registry.registered types fallback))
    (hrun : (build root types number mode fallback given).run w = (.error e, w')) : e.IsPlain := by
  have hends := Registry.ends_build
    (fun t => Cache.ofTransformer t number { given with cacheRoot := root })
    (fun _ : World σ => True) hconsistent (fun _ _ _ _ _ _ _ => trivial)
    (fun _ _ _ => trivial) (w := w) trivial
  rw [run_build] at hrun
  rcases hbuild : (Registry.build (fun t => Cache.ofTransformer t number
    { given with cacheRoot := root }) types fallback).run w with ⟨e' | r, w₁⟩
  · rw [hbuild] at hends hrun
    cases hrun
    obtain ⟨t, -, w₂, w₃, -, hfails⟩ := hends
    rw [Cache.run_ofTransformer] at hfails
    have hplain := Store.isPlain_openAs (w₂.environment.lookup "HOME") given.backend root t.space
      w₂.volume
    exact hplain.map _ e (congrArg Prod.fst hfails)
  · rw [hbuild] at hrun
    cases hrun

/-- A host whose caches are directories has no transformer with too long a name for one. -/
theorem short_of_build {h : Host} {w w' : World σ}
    (hrun : (build root types number mode fallback given).run w = (.ok h, w'))
    (hexpand : root.expandHome? (w.environment.lookup "HOME") = some q) (hroot : w.volume.IsRoot q d)
    (hconsistent : Registry.IsConsistent (Registry.registered types fallback))
    (hbackend : given.backend = .json) {t : Transformer} (ht : t ∈ Registry.registered types fallback) :
    ¬ nameLimit < (safeName t.space).utf8ByteSize := by
  obtain ⟨hbuilt, hopens, -, hslots⟩ := build_ok hrun hexpand
  obtain ⟨hnamed, hopened⟩ := hslots _ _ (hbuilt.registry.slot?_of_consistent hconsistent ht)
  rw [hbackend] at hnamed hopened
  rw [← Option.some.inj hnamed] at hopened
  intro hlong
  obtain ⟨-, l, hlocate, -⟩ := hopened
  rw [(hroot.grows hopens.grows).locate true (Store.isName_space t), if_pos hlong] at hlocate
  cases hlocate

/-! Saving again -/

theorem write_over {v : Volume} (hroot : v.IsRoot q d) {name : String} (hname : IsName name)
    (hshort : ¬ nameLimit < name.utf8ByteSize) (hzero : hasZero (q.child name) = false)
    (hnode : v.nodeAt? (d ++ [name]) ≠ some .directory) (bytes : List UInt8) :
    ∃ v', v.write (q.child name) bytes = .ok v' := by
  have hlocate : v.locate true (q.child name) = .ok (d ++ [name]) := by
    rw [hroot.locate true hname, if_neg hshort]
  have htarget : v.target (q.child name) = .ok (d ++ [name]) := by
    refine target_eq_ok_iff.mpr ⟨hlocate, ?_, hnode⟩
    rw [List.dropLast_concat]
    exact hroot.directory
  exact ⟨_, write_eq_ok_iff.mpr ⟨hzero, _, htarget, rfl⟩⟩

theorem run_root {h : Host} {w : World σ}
    (hexpand : h.settings.cacheRoot.expandHome? (w.environment.lookup "HOME") = some q) :
    h.root.run w = (.ok q, w) := by
  unfold Host.root
  rw [Action.run_bind_ok (show Work.environment.run w = (.ok w.environment, w) from rfl),
    Work.run_lift, Settings.resolvedRoot, hexpand]

theorem run_makeRoot {w : World σ} {v : Volume} {name : String} (hname : IsName name)
    (hmade : w.volume.makeDirectories q = .ok v) :
    (Work.filing (Filing.makeDirectories (q.child name).parent)).run w =
      (.ok (), { w with volume := v }) := by
  have hparent : (q.child name).parent = q := by
    rw [hname.child]
    simp [Path.parent]
  rw [hparent, Work.run_filing, Filing.makeDirectories, Filing.run_change, hmade]

/-- Saving begins with the directory of the caches. -/
theorem run_save_made {h : Host} {w : World σ} {v : Volume}
    (hexpand : h.settings.cacheRoot.expandHome? (w.environment.lookup "HOME") = some q)
    (hmade : w.volume.makeDirectories q = .ok v) (hroot : v.IsRoot q d) :
    h.save.run w = h.save.run { w with volume := v } := by
  have hzero : hasZero q = false := by
    cases hzero : hasZero q with
    | false => rfl
    | true =>
      rw [Volume.makeDirectories, hzero] at hmade
      cases hmade
  have hexpand' : h.settings.cacheRoot.expandHome?
      (({ w with volume := v } : World σ).environment.lookup "HOME") = some q := hexpand
  unfold save
  rw [Action.run_bind_ok (run_root hexpand), Action.run_bind_ok (run_makeRoot isName_fileName hmade),
    Action.run_bind_ok (run_root hexpand'),
    Action.run_bind_ok (run_makeRoot isName_fileName (makeDirectories_of_isDirectory hzero hroot.isDirectory))]

/-- Over an earlier configuration another one can be saved. -/
theorem save_returns {h : Host} {w : World σ} (hroot : w.volume.IsRoot q d)
    (hexpand : h.settings.cacheRoot.expandHome? (w.environment.lookup "HOME") = some q)
    (hzero : hasZero q = false) (hfileZero : hasZero (q.child fileName) = false)
    (hnode : w.volume.nodeAt? (d ++ [fileName]) ≠ some .directory) :
    ∃ p w', h.save.run w = (.ok p, w') := by
  have hmakes := run_makeRoot isName_fileName (makeDirectories_of_isDirectory hzero hroot.isDirectory)
  obtain ⟨v', hwrites⟩ := write_over hroot isName_fileName (by decide) hfileZero hnode
    (Text.Utf8.ofString (Json.write .pages (h.configuration w.now).toJson))
  have hwritten : (Work.writeText (q.child fileName)
      (Json.write .pages (h.configuration w.now).toJson)).run w = (.ok (), { w with volume := v' }) := by
    rw [Work.writeText, Work.run_filing, Filing.write, Filing.run_change, hwrites]
  unfold save
  rw [Action.run_bind_ok (run_root hexpand), Action.run_bind_ok hmakes,
    Action.run_bind_ok (Action.run_get w), Action.run_bind_ok hwritten]
  exact ⟨_, _, rfl⟩

/-! Live transformers -/

/-- The last one of a name. -/
def lastNamed (ts : List Transformer) (name : String) : Option Transformer :=
  ts.reverse.find? fun t => t.name == name

theorem lastNamed_eq_none {ts : List Transformer} {name : String} :
    lastNamed ts name = none ↔ ∀ t ∈ ts, t.name ≠ name := by
  simp [lastNamed, List.find?_eq_none]

theorem name_of_lastNamed {ts : List Transformer} {name : String} {t : Transformer}
    (h : lastNamed ts name = some t) : t.name = name := by
  have hfound := List.find?_some (p := fun t : Transformer => t.name == name) h
  exact beq_iff_eq.mp hfound

/-- Of several transformers of one name the table has the last. -/
theorem find?_ofList_named (ts : List Transformer) (name : String) :
    Keyed.find? name (Keyed.ofList (ts.map fun t => (t.name, t))) = lastNamed ts name := by
  have hfold : ∀ table : Keyed String Transformer,
      Keyed.find? name ((ts.map fun t => (t.name, t)).foldl (fun table e => table.set e.1 e.2) table) =
        (lastNamed ts name).or (table.find? name) := by
    induction ts with
    | nil => exact fun table => rfl
    | cons t ts ih =>
      intro table
      rw [List.map_cons, List.foldl_cons, ih, Keyed.find?_set, lastNamed, lastNamed, List.reverse_cons,
        List.find?_append, Option.or_assoc]
      by_cases hname : name = t.name
      · simp [hname]
      · simp [hname, Ne.symm hname]
  rw [Keyed.ofList, hfold]
  exact Option.or_none

theorem run_liveFor (live : Keyed String Transformer) (c : Credentials) (w : World σ) :
    (∃ t journal, live.find? c.name = some t ∧
      (liveFor live c).run w = (.ok t, { w with journal := journal })) ∨
    (live.find? c.name = none ∧ ∃ available, (liveFor live c).run w =
      (.error (.configuration (.notAvailable c.name available)), w)) := by
  unfold liveFor
  cases live.find? c.name with
  | none => exact .inr ⟨rfl, _, rfl⟩
  | some t =>
    refine .inl ?_
    simp only
    split
    · exact ⟨t, _, rfl, rfl⟩
    · exact ⟨t, w.journal, rfl, rfl⟩

/-- Live transformers are found for all records, or the first one that is missing is named. -/
theorem run_liveForAll (live : Keyed String Transformer) (cs : List (String × Credentials))
    (w : World σ) :
    (∃ types journal, List.Forall₂ (fun e e' => e'.1 = e.1 ∧ live.find? e.2.name = some e'.2) cs types ∧
      (liveForAll live cs).run w = (.ok types, { w with journal := journal })) ∨
    (∃ e ∈ cs, live.find? e.2.name = none ∧ ∃ available w', (liveForAll live cs).run w =
      (.error (.configuration (.notAvailable e.2.name available)), w')) := by
  induction cs generalizing w with
  | nil => exact .inl ⟨[], w.journal, .nil, rfl⟩
  | cons e rest ih =>
    obtain ⟨mediaType, c⟩ := e
    rw [liveForAll]
    rcases run_liveFor live c w with ⟨t, journal, hfound, hrun⟩ | ⟨hnone, available, hrun⟩
    · rw [Action.run_bind_ok hrun]
      rcases ih { w with journal := journal } with ⟨types, journal', hall, hrest⟩ |
        ⟨e', he', hnone, available, w', hrest⟩
      · rw [Action.run_bind_ok hrest]
        exact .inl ⟨(mediaType, t) :: types, journal', .cons ⟨rfl, hfound⟩ hall, rfl⟩
      · rw [Action.run_bind_error hrest]
        exact .inr ⟨e', List.mem_cons_of_mem _ he', hnone, available, w', rfl⟩
    · rw [Action.run_bind_error hrun]
      exact .inr ⟨_, List.mem_cons_self .., hnone, available, w, rfl⟩

/-! Transformers in the places of slots -/

/-- The slots that are saved of a host. -/
def savedSlots (h : Host) : List (Slot Cache) :=
  h.registry.items.map (·.2) ++ h.registry.fallback?.toList

/-- Transformers in the places of the saved slots, under the same media types. -/
structure Recasts (a : Host) (rel : Slot Cache → Transformer → Prop)
    (types : List (String × Transformer)) (fallback : Option Transformer) : Prop where
  types : List.Forall₂ (fun e e' => e'.1 = e.1 ∧ rel e.2 e'.2) a.registry.items types
  fallback : Option.Rel rel a.registry.fallback? fallback

section Filling

variable {a b : Host} {rel : Slot Cache → Transformer → Prop}
variable {types' : List (String × Transformer)} {fallback' : Option Transformer}
variable {number' : Nat} {mode' : Option Bool} {given' : Settings}

theorem slot?_of_mem_savedSlots (hbuilt : a.IsBuilt root q types number mode fallback given)
    {s : Slot Cache} (hs : s ∈ a.savedSlots) : a.registry.slot? s.id = some s := by
  rcases List.mem_append.mp hs with hs | hs
  · obtain ⟨⟨mediaType, s⟩, hitem, rfl⟩ := List.mem_map.mp hs
    exact hbuilt.registry.lookup?_ok (Registry.mem_items.mp hitem)
  · rw [Option.mem_toList] at hs
    obtain ⟨name, -, hslot⟩ := Option.bind_eq_some_iff.mp hs
    rw [(hbuilt.registry.of_slot? hslot).1, hslot]

theorem mem_savedSlots {s : Slot Cache}
    (h : (∃ m, a.registry.lookup? m = some s) ∨ a.registry.fallback? = some s) : s ∈ a.savedSlots := by
  rcases h with ⟨m, hm⟩ | hlast
  · cases m with
    | none => cases hm
    | some m =>
      exact List.mem_append_left _ (List.mem_map_of_mem (Registry.mem_items.mpr hm))
  · exact List.mem_append_right _ (Option.mem_toList.mpr hlast)

theorem Recasts.place (h : a.Recasts rel types' fallback') {t : Transformer}
    (ht : t ∈ Registry.registered types' fallback') : ∃ s ∈ a.savedSlots, rel s t := by
  rcases List.mem_append.mp ht with ht | ht
  · obtain ⟨e', he', rfl⟩ := List.mem_map.mp ht
    obtain ⟨e, he, -, hrel⟩ := exists_mem_of_forall₂ h.types e' he'
    exact ⟨e.2, List.mem_append_left _ (List.mem_map_of_mem he), hrel⟩
  · obtain rfl : fallback' = some t := Option.mem_toList.mp ht
    have hfallback := h.fallback
    cases hs : a.registry.fallback? with
    | none =>
      rw [hs] at hfallback
      cases hfallback
    | some s =>
      rw [hs] at hfallback
      cases hfallback with
      | some hrel => exact ⟨s, List.mem_append_right _ (by simp [hs]), hrel⟩

theorem Recasts.filled (h : a.Recasts rel types' fallback') {s : Slot Cache} (hs : s ∈ a.savedSlots) :
    ∃ t ∈ Registry.registered types' fallback', rel s t := by
  rcases List.mem_append.mp hs with hs | hs
  · obtain ⟨e, he, rfl⟩ := List.mem_map.mp hs
    obtain ⟨e', he', -, hrel⟩ := exists_mem_of_forall₂ h.types.flip e he
    exact ⟨e'.2, List.mem_append_left _ (List.mem_map_of_mem he'), hrel⟩
  · have hfallback := h.fallback
    rw [Option.mem_toList.mp hs] at hfallback
    cases fallback' with
    | none => cases hfallback
    | some t =>
      cases hfallback with
      | some hrel => exact ⟨t, List.mem_append_right _ (List.mem_singleton_self t), hrel⟩

/-- A host of such transformers has the media types of the first one, and slots with these transformers
where it has the slots. -/
theorem Recasts.agrees (hbuilt : a.IsBuilt root q types number mode fallback given)
    (h : a.Recasts rel types' fallback')
    (hconsistent : Registry.IsConsistent (Registry.registered types' fallback'))
    (hbuilt' : b.IsBuilt root q types' number' mode' fallback' given') :
    b.registry.mediaTypes = a.registry.mediaTypes ∧
      Registry.Agrees (fun s s' => rel s s'.transformer ∧
        s'.cache = Cache.named given'.backend q number' s'.transformer) a.registry b.registry :=
  ⟨hbuilt.registry.mediaTypes_eq hbuilt'.registry (Keyed.keys_eq_of_forall₂ h.types),
    hbuilt.registry.agrees hbuilt'.registry h.types h.fallback hconsistent⟩

/-- A stand-in has the credentials that it stands for. -/
theorem standInFor_credentials {made : Keyed String Transformer}
    (hmade : ∀ name t, made.find? name = some t → t.name = name ∧ a.IsRecord t.credentials)
    {c : Credentials} (hrecord : a.IsRecord c) :
    (∀ name t, (standInFor made c).1.find? name = some t →
      t.name = name ∧ a.IsRecord t.credentials) ∧ (standInFor made c).2.credentials = c := by
  unfold standInFor
  cases hfound : made.find? c.name with
  | some t =>
    refine ⟨hmade, ?_⟩
    obtain ⟨hname, s', hs', hcredentials⟩ := hmade _ t hfound
    obtain ⟨s, hs, rfl⟩ := hrecord
    rw [show t.credentials.name = s.transformer.credentials.name from hname, hs] at hs'
    rw [← hcredentials, ← Option.some.inj hs']
  | none =>
    refine ⟨?_, rfl⟩
    intro name t ht
    rw [Keyed.find?_set] at ht
    split at ht
    · rename_i hname
      cases ht
      exact ⟨hname.symm, hrecord⟩
    · exact hmade name t ht

theorem standIns_credentials {made : Keyed String Transformer}
    (hmade : ∀ name t, made.find? name = some t → t.name = name ∧ a.IsRecord t.credentials)
    {cs : List (String × Credentials)} (hrecords : ∀ e ∈ cs, a.IsRecord e.2) :
    (∀ name t, (standIns made cs).1.find? name = some t →
      t.name = name ∧ a.IsRecord t.credentials) ∧
      List.Forall₂ (fun e e' => e'.1 = e.1 ∧ e'.2.credentials = e.2) cs (standIns made cs).2 := by
  induction cs generalizing made with
  | nil => exact ⟨hmade, .nil⟩
  | cons e rest ih =>
    obtain ⟨mediaType, c⟩ := e
    obtain ⟨hmade₁, hfirst⟩ := standInFor_credentials hmade (hrecords _ (List.mem_cons_self ..))
    obtain ⟨hmade₂, hlater⟩ := ih hmade₁ fun e he => hrecords e (List.mem_cons_of_mem _ he)
    exact ⟨hmade₂, .cons ⟨rfl, hfirst⟩ hlater⟩

/-- Stand-ins are in the places of the slots whose credentials they have. -/
theorem recasts_standIns (hbuilt : a.IsBuilt root q types number mode fallback given)
    (now : Instant) : a.Recasts (fun s t => t.credentials = s.transformer.credentials)
      (standIns [] (a.configuration now).transformers).2
      ((a.configuration now).fallback.map fun f =>
        (standInFor (standIns [] (a.configuration now).transformers).1 f).2) := by
  obtain ⟨htypes, hfallback⟩ := records_configuration hbuilt now
  have hempty : ∀ name t, Keyed.find? name ([] : Keyed String Transformer) = some t →
      t.name = name ∧ a.IsRecord t.credentials := nofun
  obtain ⟨hmade, hall⟩ := standIns_credentials hempty htypes
  refine ⟨List.forall₂_map_left_iff.mp hall, ?_⟩
  change ∀ c ∈ a.registry.fallback?.map fun s => s.transformer.credentials, _ at hfallback
  change Option.Rel _ _ ((a.registry.fallback?.map fun s => s.transformer.credentials).map _)
  generalize a.registry.fallback? = s? at hfallback
  cases s? with
  | none => exact .none
  | some s => exact .some (standInFor_credentials hmade (hfallback _ rfl)).2

/-- Live transformers are the last of the names of the slots. -/
def Staffs (a : Host) (ts : List Transformer) (types : List (String × Transformer))
    (fallback : Option Transformer) : Prop :=
  a.Recasts (fun s t => lastNamed ts s.id = some t) types fallback

variable {ts : List Transformer}

theorem Staffs.lastNamed_self (h : a.Staffs ts types' fallback') {t : Transformer}
    (ht : t ∈ Registry.registered types' fallback') : lastNamed ts t.name = some t := by
  obtain ⟨s, -, hlast⟩ := h.place ht
  rw [name_of_lastNamed hlast]
  exact hlast

theorem Staffs.isConsistent (h : a.Staffs ts types' fallback') :
    Registry.IsConsistent (Registry.registered types' fallback') := by
  intro t ht t' ht' hname
  have hlast := h.lastNamed_self ht
  rw [hname, h.lastNamed_self ht'] at hlast
  exact (Option.some.inj hlast).symm

/-- A host is built from the last transformers of the saved names, or a name is missing. -/
theorem run_buildLive {w : World σ} {now : Instant}
    (hload : (loadConfiguration root).run w = (.ok (a.configuration now), w)) (ts : List Transformer)
    (desk : Nat) (mode : Option Bool) (given : Settings) :
    (∃ types fallback journal, a.Staffs ts types fallback ∧
      (buildLive root ts desk mode (pure given)).run w =
        (build root types desk mode fallback given).run { w with journal := journal }) ∨
    ∃ s ∈ a.savedSlots, lastNamed ts s.id = none ∧ ∃ issue,
      ((buildLive root ts desk mode (pure given)).run w).1 = .error (.configuration issue) := by
  unfold buildLive
  rw [Action.run_bind_ok hload]
  rcases run_liveForAll (Keyed.ofList (ts.map fun t => (t.name, t))) (a.configuration now).transformers w
    with ⟨types, journal, hall, hrun⟩ | ⟨e, he, hnone, available, w', hrun⟩
  · rw [Action.run_bind_ok hrun]
    have htypes : List.Forall₂ (fun e e' => e'.1 = e.1 ∧ lastNamed ts e.2.id = some e'.2)
        a.registry.items types := by
      refine (List.forall₂_map_left_iff.mp hall).imp ?_
      rintro e e' ⟨hkey, hfound⟩
      rw [find?_ofList_named] at hfound
      exact ⟨hkey, hfound⟩
    have hrecord : (a.configuration now).fallback =
        a.registry.fallback?.map fun s => s.transformer.credentials := rfl
    rw [hrecord]
    cases hs : a.registry.fallback? with
    | none => exact .inl ⟨types, none, journal, ⟨htypes, hs ▸ .none⟩, rfl⟩
    | some s =>
      have hmem : s ∈ a.savedSlots := List.mem_append_right _ (by simp [hs])
      rcases run_liveFor (Keyed.ofList (ts.map fun t => (t.name, t))) s.transformer.credentials
        { w with journal := journal } with ⟨t, journal', hfound, hlive⟩ | ⟨hnone, available, hlive⟩
      · have hlast : (Option.mapM (liveFor (Keyed.ofList (ts.map fun t => (t.name, t))))
            (some s.transformer.credentials)).run { w with journal := journal } =
              (.ok (some t), { w with journal := journal' }) := by
          change ((liveFor _ s.transformer.credentials) >>= fun t => pure (some t)).run _ = _
          rw [Action.run_bind_ok hlive]
          rfl
        rw [find?_ofList_named] at hfound
        refine .inl ⟨types, some t, journal', ⟨htypes, hs ▸ .some hfound⟩, ?_⟩
        rw [Option.map_some, Action.run_bind_ok hlast]
        rfl
      · have hlast : (Option.mapM (liveFor (Keyed.ofList (ts.map fun t => (t.name, t))))
            (some s.transformer.credentials)).run { w with journal := journal } =
              (.error (.configuration (.notAvailable s.transformer.credentials.name available)),
                { w with journal := journal }) := by
          change ((liveFor _ s.transformer.credentials) >>= fun t => pure (some t)).run _ = _
          rw [Action.run_bind_error hlive]
        rw [find?_ofList_named] at hnone
        refine .inr ⟨s, hmem, hnone, .notAvailable s.transformer.credentials.name available, ?_⟩
        rw [Option.map_some, Action.run_bind_error hlast]
  · obtain ⟨item, hitem, rfl⟩ := List.mem_map.mp he
    rw [find?_ofList_named] at hnone
    refine .inr ⟨item.2, List.mem_append_left _ (List.mem_map_of_mem hitem), hnone,
      .notAvailable item.2.transformer.credentials.name available, ?_⟩
    rw [Action.run_bind_error hrun]

end Filling

/-! Rebuilding -/

/-- A host is built, and saved when its stores lie where they belong, which makes the directory of the
caches if there is none. Until a later world others spare it. -/
structure IsKept (a : Host) (root q : Path) (d : Location) (given : Settings) (w₀ w₁ w₂ w₃ : World σ)
    (w : World τ) : Prop where
  built : ∃ types mode fallback, (build root types a.desk mode fallback given).run w₀ = (.ok a, w₁)
  expands : root.expandHome? (w₀.environment.lookup "HOME") = some q
  stands : ∃ v, w₂.volume.makeDirectories q = .ok v ∧ a.Stands q d v
  expands₂ : root.expandHome? (w₂.environment.lookup "HOME") = some q
  now : w₂.now.IsDate
  saved : ∃ p, a.save.run w₂ = (.ok p, w₃)
  spared : Volume.Spares q d w₃.volume w.volume
  expands₃ : root.expandHome? (w.environment.lookup "HOME") = some q

/-- Another host has the media types, the names, the spaces and the fallback of a host, and picks alike,
and the same is saved of it. -/
structure Mirrors (a b : Host) (σ τ : Type) : Prop where
  mediaTypes : b.registry.mediaTypes = a.registry.mediaTypes
  slots : ∀ mediaType, (b.registry.lookup? mediaType).map (fun s => (s.id, s.cache.space)) =
    (a.registry.lookup? mediaType).map fun s => (s.id, s.cache.space)
  fallback : b.registry.fallback?.map Slot.id = a.registry.fallback?.map Slot.id
  select : ∀ file i (w : World σ) (w' : World τ),
    ((b.select file i).run w').1.map Slot.id = ((a.select file i).run w).1.map Slot.id
  configuration : ∀ now, b.configuration now = a.configuration now

/-- Another host has the media types, the names and the fallback of a host, and each name has the last
one of some transformers. -/
structure IsStaffed (a b : Host) (ts : List Transformer) : Prop where
  mediaTypes : b.registry.mediaTypes = a.registry.mediaTypes
  slots : ∀ mediaType,
    (b.registry.lookup? mediaType).map Slot.id = (a.registry.lookup? mediaType).map Slot.id
  fallback : b.registry.fallback?.map Slot.id = a.registry.fallback?.map Slot.id
  live : ∀ name s, b.registry.slot? name = some s → lastNamed ts name = some s.transformer

/-- There is room for the stores of transformers that are to take the places of the saved slots in another
version. -/
def HasRoomFor (a : Host) (ts : List Transformer) (q : Path) (d : Location) (v : Volume) : Prop :=
  a.settings.backend = .json → ∀ s ∈ a.savedSlots, ∀ t, lastNamed ts s.id = some t →
    t.version ≠ s.transformer.version → Store.HasRoom v q d t.space

section Rebuilding

variable {a b : Host} {w₀ w₁ w₂ w₃ : World σ} {w : World τ} {given' : Settings}

theorem space_of_credentials {t t' : Transformer} (h : t.credentials = t'.credentials) :
    t.space = t'.space := by
  obtain ⟨hname, hversion, -⟩ := Credentials.mk.inj h
  rw [Transformer.space, hname, hversion, Transformer.space]

/-- Hosts of which the same is saved. -/
theorem IsSaved.congr {v : Volume} (hsaved : b.IsSaved q d v)
    (hsame : ∀ now, b.configuration now = a.configuration now) : a.IsSaved q d v := by
  obtain ⟨now, mtime, hnow, hnode⟩ := hsaved.written
  exact ⟨hsaved.root, hsaved.zero, hsaved.fileZero, now, mtime, hnow, by rw [hnode, hsame]⟩

theorem run_select (h : Host) (file : String) (i : Fingerprint) (w : World σ) :
    ((h.select file i).run w).1.map Slot.id =
      match h.registry.select? (Path.ofText file) i with
      | some e => .ok e.1.id
      | none => .error (.noTransformer file) := by
  unfold select
  cases h.registry.select? (Path.ofText file) i with
  | none => rfl
  | some e =>
    obtain ⟨s, isFallback⟩ := e
    cases isFallback <;> rfl

/-- Slots of the same credentials and spaces make for hosts that mirror each other. -/
theorem mirrors_of_agrees (htypes : b.registry.mediaTypes = a.registry.mediaTypes)
    (hagrees : Registry.Agrees (fun s s' => s'.transformer.credentials = s.transformer.credentials ∧
      s'.cache.space = s.cache.space) a.registry b.registry) : a.Mirrors b σ τ := by
  have hid : ∀ s s' : Slot Cache, s'.transformer.credentials = s.transformer.credentials ∧
      s'.cache.space = s.cache.space → s'.id = s.id :=
    fun s s' h => congrArg Credentials.name h.1
  have hfallback : b.registry.fallback?.map (fun s => s.transformer.credentials) =
      a.registry.fallback?.map fun s => s.transformer.credentials :=
    Registry.map_eq_of_rel hagrees.fallback fun _ _ h => h.1
  refine ⟨htypes, ?_, ?_, ?_, ?_⟩
  · intro mediaType
    refine Registry.map_eq_of_rel (hagrees.lookup mediaType) fun s s' h => ?_
    rw [hid s s' h, h.2]
  · exact Registry.map_eq_of_rel hagrees.fallback hid
  · intro file i w w'
    rw [run_select, run_select]
    have hpicked := hagrees.select? (Path.ofText file) i
    generalize a.registry.select? (Path.ofText file) i = e at hpicked
    generalize b.registry.select? (Path.ofText file) i = e' at hpicked
    cases hpicked with
    | none => rfl
    | some hrel => exact congrArg Except.ok (hid _ _ hrel.1)
  · intro now
    have hitems := Registry.items_map_eq (fun s => s.transformer.credentials)
      (fun s => s.transformer.credentials) htypes fun m =>
        Registry.map_eq_of_rel (hagrees.lookup m) fun _ _ h => h.1
    unfold configuration
    rw [hitems, hfallback]

/-- The store of a slot that is saved lies where it belongs, and can be opened. -/
theorem store_of_savedSlots (hbuilt : a.IsBuilt root q types number mode fallback given) {v : Volume}
    (hstands : a.Stands q d v) {s : Slot Cache} (hs : s ∈ a.savedSlots) :
    Store.named given.backend q s.transformer.space = some s.cache.store ∧
      s.cache.store.At v (Store.placeOf given.backend d s.transformer.space) ∧
      Store.CanOpen given.backend v q d s.transformer.space := by
  have hslot := slot?_of_mem_savedSlots hbuilt hs
  have hnamed := hstands.named _ s hslot
  have hat := hstands.places _ s hslot
  rw [hbuilt.settings] at hnamed hat
  exact ⟨hnamed, hat,
    Store.canOpen_of_at hstands.root (Store.isName_space s.transformer) hnamed hat⟩

/-- Over the stores of a host that was saved, a host with stand-ins is built. -/
theorem returns_of_isSaved (hbuilt : a.IsBuilt root q types number mode fallback given)
    (hstands : a.Stands q d w.volume) (hsaved : a.IsSaved q d w.volume)
    (hexpand : root.expandHome? (w.environment.lookup "HOME") = some q)
    (hbackend : given'.backend = given.backend) (desk : Nat) :
    ∃ b w', (buildReadOnly root desk (pure given')).run w = (.ok b, w') := by
  obtain ⟨live, hrestores⟩ := restores_standIns hbuilt default
  have hconsistent := hrestores.isConsistent hbuilt
  have hrecasts := recasts_standIns hbuilt default
  rw [hsaved.run_buildReadOnly hbuilt.registry.nodup_items hexpand desk given' default]
  refine build_returns hexpand hsaved.zero hsaved.root hconsistent fun t ht => ?_
  obtain ⟨s, hs, hcredentials⟩ := hrecasts.place ht
  rw [hbackend, space_of_credentials hcredentials]
  exact (store_of_savedSlots hbuilt hstands hs).2.2

namespace IsKept

/-- What there is of a kept host later on. -/
theorem kept (h : a.IsKept root q d given w₀ w₁ w₂ w₃ w) :
    (∃ types mode fallback, a.IsBuilt root q types a.desk mode fallback given) ∧
      a.Stands q d w.volume ∧ a.IsSaved q d w.volume := by
  obtain ⟨types, mode, fallback, hrun⟩ := h.built
  obtain ⟨hbuilt, -, -, -⟩ := build_ok hrun h.expands
  obtain ⟨p, hsave⟩ := h.saved
  obtain ⟨v, hmade, hstands⟩ := h.stands
  have hexpand : a.settings.cacheRoot.expandHome? (w₂.environment.lookup "HOME") = some q := by
    rw [hbuilt.settings]
    exact h.expands₂
  rw [run_save_made hexpand hmade hstands.root] at hsave
  obtain ⟨hsaves, -⟩ := save_ok hsave hexpand hstands.root h.now
  have hleaves := hstands.leaves_of_saves hsaves
  exact ⟨⟨types, mode, fallback, hbuilt⟩, (hleaves.stands.leaves_of_spares h.spared).stands,
    hsaves.saved.spared h.spared⟩

/-- The store of a saved slot lies where it belongs, and can be opened. -/
theorem store (h : a.IsKept root q d given w₀ w₁ w₂ w₃ w) {s : Slot Cache} (hs : s ∈ a.savedSlots) :
    Store.named given.backend q s.transformer.space = some s.cache.store ∧
      s.cache.store.At w.volume (Store.placeOf given.backend d s.transformer.space) ∧
      Store.CanOpen given.backend w.volume q d s.transformer.space := by
  obtain ⟨⟨types, mode, fallback, hbuilt⟩, hstands, -⟩ := h.kept
  exact store_of_savedSlots hbuilt hstands hs

/-- A host with stand-ins is built, and mirrors the kept one. Saving it, then or later, writes the same
records again. -/
theorem returns_standIns (h : a.IsKept root q d given w₀ w₁ w₂ w₃ w)
    (hbackend : given'.backend = given.backend) (desk : Nat) :
    ∃ b w', (buildReadOnly root desk (pure given')).run w = (.ok b, w') ∧ b.readOnly = true ∧
      a.Mirrors b σ τ ∧ ∀ w₄ : World τ, Volume.Spares q d w'.volume w₄.volume →
        root.expandHome? (w₄.environment.lookup "HOME") = some q → w₄.now.IsDate →
        ∃ p w₅, b.save.run w₄ = (.ok p, w₅) ∧ a.IsSaved q d w₅.volume := by
  obtain ⟨⟨types, mode, fallback, hbuilt⟩, hstands, hsaved⟩ := h.kept
  have hkeys := hbuilt.registry.nodup_items
  obtain ⟨live, hrestores⟩ := restores_standIns hbuilt default
  have hconsistent := hrestores.isConsistent hbuilt
  have hrecasts := recasts_standIns hbuilt default
  obtain ⟨b, w', hrun⟩ := returns_of_isSaved hbuilt hstands hsaved h.expands₃ hbackend desk
  rw [hsaved.run_buildReadOnly hkeys h.expands₃ desk given' default] at hrun ⊢
  generalize (standIns [] (a.configuration default).transformers).2 = types' at *
  generalize ((a.configuration default).fallback.map fun f => (standInFor
    (standIns [] (a.configuration default).transformers).1 f).2) = fallback' at *
  have hat : ∀ t ∈ Registry.registered types' fallback', ∃ s place,
      Store.named given'.backend q t.space = some s ∧ s.At w.volume place := by
    intro t ht
    obtain ⟨s, hs, hcredentials⟩ := hrecasts.place ht
    rw [hbackend, space_of_credentials hcredentials]
    exact ⟨_, _, (h.store hs).1, (h.store hs).2.1⟩
  obtain ⟨hbuilt', hvolume, -⟩ := build_of_at hrun h.expands₃ hsaved.zero hsaved.root hat
  obtain ⟨htypes, hagrees⟩ := hrecasts.agrees hbuilt hconsistent hbuilt'
  have hmirrors : a.Mirrors b σ τ := by
    refine mirrors_of_agrees htypes (hagrees.imp ?_)
    rintro s ⟨t, k⟩ hfound ⟨hcredentials, hcache⟩
    obtain rfl : k = Cache.named given'.backend q desk t := hcache
    refine ⟨hcredentials, ?_⟩
    have hnamed := (h.store (mem_savedSlots hfound)).1
    rw [← space_of_credentials hcredentials, ← hbackend] at hnamed
    change ((Store.named given'.backend q t.space).getD default).space = s.cache.store.space
    rw [hnamed]
    rfl
  refine ⟨b, w', hrun, hbuilt'.readOnly, hmirrors, ?_⟩
  intro w₄ hspares hexpand hnow
  have hsaved₄ := hsaved.spared (hvolume ▸ hspares)
  have hexpand₄ : b.settings.cacheRoot.expandHome? (w₄.environment.lookup "HOME") = some q := by
    rw [hbuilt'.settings]
    exact hexpand
  have hnode : w₄.volume.nodeAt? (d ++ [fileName]) ≠ some .directory := by
    obtain ⟨now, mtime, -, hwritten⟩ := hsaved₄.written
    rw [hwritten]
    exact nofun
  obtain ⟨p, w₅, hsave⟩ := save_returns hsaved₄.root hexpand₄ hsaved₄.zero hsaved₄.fileZero hnode
  obtain ⟨hsaves, -⟩ := save_ok hsave hexpand₄ hsaved₄.root hnow
  exact ⟨p, w₅, hsave, hsaves.saved.congr hmirrors.configuration⟩

/-- With live transformers no host is built, for reasons of configuration, exactly if a saved name has
none. -/
theorem buildLive_refuses_iff (h : a.IsKept root q d given w₀ w₁ w₂ w₃ w) (ts : List Transformer)
    (desk : Nat) (mode : Option Bool) :
    (∃ issue, ((buildLive root ts desk mode (pure given')).run w).1 = .error (.configuration issue)) ↔
      ∃ s ∈ a.savedSlots, ∀ t ∈ ts, t.name ≠ s.id := by
  obtain ⟨⟨types, mode', fallback, hbuilt⟩, -, hsaved⟩ := h.kept
  obtain ⟨now, hload⟩ := hsaved.run_loadConfiguration hbuilt.registry.nodup_items rfl h.expands₃
  rcases run_buildLive hload ts desk mode given' with
    ⟨types', fallback', journal, hstaffs, hrun⟩ | ⟨s, hs, hnone, issue, hrun⟩
  · refine iff_of_false ?_ ?_
    · rintro ⟨issue, hfails⟩
      rw [hrun] at hfails
      have hplain := isPlain_of_build hstaffs.isConsistent (Prod.ext hfails rfl)
      exact hplain.configuration issue rfl
    · rintro ⟨s, hs, hmissing⟩
      obtain ⟨t, -, hlast⟩ := hstaffs.filled hs
      rw [lastNamed_eq_none.mpr hmissing] at hlast
      cases hlast
  · exact iff_of_true ⟨issue, hrun⟩ ⟨s, hs, lastNamed_eq_none.mp hnone⟩

/-- With live transformers for all saved names a host of these names is built, if there is room for the
stores of other versions than the saved ones. -/
theorem buildLive_returns (h : a.IsKept root q d given w₀ w₁ w₂ w₃ w)
    (hbackend : given'.backend = given.backend) {ts : List Transformer}
    (hlive : ∀ s ∈ a.savedSlots, ∃ t ∈ ts, t.name = s.id)
    (hroom : a.HasRoomFor ts q d w.volume) (desk : Nat) (mode : Option Bool) :
    ∃ b w', (buildLive root ts desk mode (pure given')).run w = (.ok b, w') ∧ a.IsStaffed b ts := by
  obtain ⟨⟨types, mode', fallback, hbuilt⟩, -, hsaved⟩ := h.kept
  obtain ⟨now, hload⟩ := hsaved.run_loadConfiguration hbuilt.registry.nodup_items rfl h.expands₃
  rcases run_buildLive hload ts desk mode given' with
    ⟨types', fallback', journal, hstaffs, hrun⟩ | ⟨s, hs, hnone, -⟩
  · have hopen : ∀ t ∈ Registry.registered types' fallback',
        Store.CanOpen given'.backend w.volume q d t.space := by
      intro t ht
      obtain ⟨s, hs, hlast⟩ := hstaffs.place ht
      have hthere := (h.store hs).2.2
      rw [hbackend]
      by_cases hversion : t.version = s.transformer.version
      · have hspace : t.space = s.transformer.space := by
          rw [Transformer.space, name_of_lastNamed hlast, hversion]
          rfl
        rw [hspace]
        exact hthere
      · cases hkind : given.backend with
        | json =>
          refine hroom ?_ s hs t hlast hversion
          rw [hbuilt.settings]
          exact hkind
        | sqlite =>
          rw [hkind] at hthere
          exact hthere
        | unknown name =>
          rw [hkind] at hthere
          exact hthere.elim
    obtain ⟨b, w', hbuild⟩ := build_returns (w := { w with journal := journal }) h.expands₃
      hsaved.zero hsaved.root hstaffs.isConsistent hopen
    obtain ⟨hbuilt', -, -, -⟩ := build_ok hbuild h.expands₃
    obtain ⟨htypes, hagrees⟩ := hstaffs.agrees hbuilt hstaffs.isConsistent hbuilt'
    have hid : ∀ s s' : Slot Cache, lastNamed ts s.id = some s'.transformer ∧
        s'.cache = Cache.named given'.backend q desk s'.transformer → s'.id = s.id :=
      fun s s' hrel => name_of_lastNamed hrel.1
    refine ⟨b, w', hrun.trans hbuild, htypes, ?_, ?_, ?_⟩
    · exact fun mediaType => Registry.map_eq_of_rel (hagrees.lookup mediaType) hid
    · exact Registry.map_eq_of_rel hagrees.fallback hid
    · intro name s hs
      obtain ⟨hname, ht, -⟩ := hbuilt'.registry.of_slot? hs
      rw [← hname]
      exact hstaffs.lastNamed_self ht
  · obtain ⟨t, ht, hname⟩ := hlive s hs
    exact absurd hname (lastNamed_eq_none.mp hnone t ht)

/-- No host is built, where caches are directories, if the name for one of them is too long. -/
theorem buildLive_refused (h : a.IsKept root q d given w₀ w₁ w₂ w₃ w) (hbackend : given'.backend = .json)
    {ts : List Transformer} {s : Slot Cache} (hs : s ∈ a.savedSlots) {t : Transformer}
    (hlast : lastNamed ts s.id = some t) (hlong : nameLimit < (safeName t.space).utf8ByteSize)
    (desk : Nat) (mode : Option Bool) (b : Host) :
    ((buildLive root ts desk mode (pure given')).run w).1 ≠ .ok b := by
  obtain ⟨⟨types, mode', fallback, hbuilt⟩, -, hsaved⟩ := h.kept
  obtain ⟨now, hload⟩ := hsaved.run_loadConfiguration hbuilt.registry.nodup_items rfl h.expands₃
  rcases run_buildLive hload ts desk mode given' with
    ⟨types', fallback', journal, hstaffs, hrun⟩ | ⟨s', -, -, issue, hrun⟩
  · obtain ⟨t', ht', hlast'⟩ := hstaffs.filled hs
    obtain rfl := Option.some.inj (hlast.symm.trans hlast')
    rw [hrun]
    intro hok
    exact short_of_build (Prod.ext hok rfl) h.expands₃ hsaved.root hstaffs.isConsistent hbackend ht'
      hlong
  · rw [hrun]
    exact nofun

/-- What is saved of a host is enough to build it again. With stand-ins a host is always built; it mirrors
the saved one, and the same records are saved of it. With live transformers none is built, for reasons of
configuration, exactly if a saved name has none; and if all have one, a host with the last ones of the
names is built, as long as there is room for the stores of other versions. -/
theorem rebuilds (h : a.IsKept root q d given w₀ w₁ w₂ w₃ w)
    (hbackend : given'.backend = given.backend) :
    (∀ desk, ∃ b w', (buildReadOnly root desk (pure given')).run w = (.ok b, w') ∧ b.readOnly = true ∧
      a.Mirrors b σ τ ∧ ∀ w₄ : World τ, Volume.Spares q d w'.volume w₄.volume →
        root.expandHome? (w₄.environment.lookup "HOME") = some q → w₄.now.IsDate →
        ∃ p w₅, b.save.run w₄ = (.ok p, w₅) ∧ a.IsSaved q d w₅.volume) ∧
    ∀ ts desk mode,
      ((∃ issue, ((buildLive root ts desk mode (pure given')).run w).1 =
        .error (.configuration issue)) ↔ ∃ s ∈ a.savedSlots, ∀ t ∈ ts, t.name ≠ s.id) ∧
      ((∀ s ∈ a.savedSlots, ∃ t ∈ ts, t.name = s.id) → a.HasRoomFor ts q d w.volume →
        ∃ b w', (buildLive root ts desk mode (pure given')).run w = (.ok b, w') ∧ a.IsStaffed b ts) := by
  refine ⟨fun desk => h.returns_standIns hbackend desk, fun ts desk mode => ⟨?_, ?_⟩⟩
  · exact h.buildLive_refuses_iff ts desk mode
  · exact fun hlive hroom => h.buildLive_returns hbackend hlive hroom desk mode

end IsKept

end Rebuilding

/-! A small host that is built again -/

section Small

open Deploys

def folderSettings : Settings := { smallSettings with backend := .json }

def folderBuild : Work Nat Host :=
  build smallRoot [(MediaType.plainText, smallTransformer)] 0 none none folderSettings

def folderHost : Host := (Work.left folderBuild smallWorld).1

def folderWorld : World Nat := (Work.left folderBuild smallWorld).2

def savedWorld : World Nat := (Work.left folderHost.save folderWorld).2

/-- A transformer of the saved name, in another version. -/
def versioned (version : String) : Transformer := { smallTransformer with handle := 1, version := version }

def longVersion : String := String.ofList (List.replicate 300 '1')

theorem folderBuild_run : folderBuild.run smallWorld = (.ok folderHost, folderWorld) :=
  Work.run_eq_left (by decide)

theorem folderHost_isBuilt : folderHost.IsBuilt smallRoot smallRoot
    [(MediaType.plainText, smallTransformer)] 0 none none folderSettings :=
  (build_ok folderBuild_run (expandHome?_smallRoot _)).1

theorem folderHost_isKept : folderHost.IsKept smallRoot smallRoot ["cache"] folderSettings smallWorld
    folderWorld folderWorld savedWorld savedWorld := by
  have hroot : folderWorld.volume.IsRoot smallRoot ["cache"] :=
    Volume.isRoot_of_locate (by decide) (by decide) (by decide)
  have hroot' : savedWorld.volume.IsRoot smallRoot ["cache"] :=
    Volume.isRoot_of_locate (by decide) (by decide) (by decide)
  have hmade := makeDirectories_of_isDirectory (by decide) hroot.isDirectory
  constructor
  · rw [folderHost_isBuilt.desk]
    exact ⟨_, _, _, folderBuild_run⟩
  · exact expandHome?_smallRoot _
  · exact ⟨_, hmade, stands_of_build folderBuild_run (expandHome?_smallRoot _) hroot⟩
  · exact expandHome?_smallRoot _
  · have hnow : folderWorld.now = smallWorld.now := by decide
    rw [hnow]
    exact smallWorld_isDate
  · obtain ⟨p, w, hrun⟩ := save_returns (h := folderHost) hroot (expandHome?_smallRoot _)
      (by decide) (by decide) (by decide)
    exact ⟨_, Work.run_eq_left (by rw [hrun]; rfl)⟩
  · have hhere : savedWorld.volume.here = [] := by decide
    exact ⟨hroot', fun _ => rfl, by rw [hhere]; exact nofun⟩
  · exact expandHome?_smallRoot _

theorem folderHost_ids : folderHost.savedSlots.map Slot.id = ["css"] := by decide +kernel

theorem exists_folderSlot : ∃ s ∈ folderHost.savedSlots, s.id = "css" := by
  have hmem : "css" ∈ folderHost.savedSlots.map Slot.id := by
    rw [folderHost_ids]
    exact List.mem_singleton_self _
  exact List.mem_map.mp hmem

theorem versioned_isLive (version : String) :
    ∀ s ∈ folderHost.savedSlots, ∃ t ∈ [versioned version], t.name = s.id := by
  intro s hs
  have hid : s.id ∈ folderHost.savedSlots.map Slot.id := List.mem_map_of_mem hs
  rw [folderHost_ids, List.mem_singleton] at hid
  exact ⟨versioned version, List.mem_singleton_self _, hid.symm⟩

/-- Stand-ins, no transformer at all, and a transformer of another version. -/
theorem rebuilds_small :
    (∃ b w', (buildReadOnly smallRoot 1 (pure folderSettings)).run savedWorld = (.ok b, w') ∧
      folderHost.Mirrors b Nat Nat) ∧
    (∃ issue, ((buildLive smallRoot [] 1 none (pure folderSettings)).run savedWorld).1 =
      .error (.configuration issue)) ∧
    ∃ b w', (buildLive smallRoot [versioned "2"] 1 none (pure folderSettings)).run savedWorld =
      (.ok b, w') ∧ folderHost.IsStaffed b [versioned "2"] := by
  have hbackend : folderSettings.backend = folderSettings.backend := rfl
  obtain ⟨hstandIns, hlive⟩ := folderHost_isKept.rebuilds hbackend
  obtain ⟨b, w', hrun, -, hmirrors, -⟩ := hstandIns 1
  refine ⟨⟨b, w', hrun, hmirrors⟩, (hlive [] 1 none).1.mpr ?_, (hlive [versioned "2"] 1 none).2 ?_ ?_⟩
  · obtain ⟨s, hs, -⟩ := exists_folderSlot
    exact ⟨s, hs, nofun⟩
  · exact versioned_isLive "2"
  · intro _ s hs t hlast _
    have ht : t ∈ [versioned "2"] := List.mem_reverse.mp (List.mem_of_find?_eq_some hlast)
    rw [List.mem_singleton.mp ht]
    exact ⟨by decide, by decide, .inl (by decide)⟩

/-- The characters are counted without making the text. -/
theorem nameLimit_lt_longVersion :
    nameLimit < (safeName (versioned longVersion).space).utf8ByteSize := by
  have hspace : (versioned longVersion).space.toList =
      ['c', 's', 's', '-'] ++ List.replicate 300 '1' := by
    change (("css" ++ "-") ++ String.ofList (List.replicate 300 '1')).toList = _
    rw [String.toList_append, String.toList_ofList,
      show ("css" ++ "-").toList = ['c', 's', 's', '-'] by decide]
  have hfront : ∀ c ∈ ['c', 's', 's', '-'], c.utf8Size = 1 := by
    intro c hc
    simp only [List.mem_cons, List.not_mem_nil, or_false] at hc
    rcases hc with rfl | rfl | rfl | rfl
    all_goals rfl
  rw [safeName, hspace, List.map_append, List.map_replicate, Fingerprint.utf8ByteSize_eq_length,
    List.length_append, List.length_replicate]
  · decide
  · intro c hc
    rcases List.mem_append.mp hc with hc | hc
    · exact hfront c hc
    · rw [List.eq_of_mem_replicate hc]
      rfl

/-- A live transformer with a version that makes too long a name for a directory: no host is built, though
each saved name has a transformer. -/
theorem long_version_refused :
    folderHost.IsKept smallRoot smallRoot ["cache"] folderSettings smallWorld folderWorld folderWorld
      savedWorld savedWorld ∧
    (∀ s ∈ folderHost.savedSlots, ∃ t ∈ [versioned longVersion], t.name = s.id) ∧
    ∀ b, ((buildLive smallRoot [versioned longVersion] 1 none (pure folderSettings)).run savedWorld).1 ≠
      .ok b := by
  obtain ⟨s, hs, hid⟩ := exists_folderSlot
  have hlast : lastNamed [versioned longVersion] s.id = some (versioned longVersion) := by
    rw [hid]
    rfl
  exact ⟨folderHost_isKept, versioned_isLive _,
    folderHost_isKept.buildLive_refused rfl hs hlast nameLimit_lt_longVersion 1 none⟩

end Small

end Host

end AssetCompiler
