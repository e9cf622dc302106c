import AssetCompiler.Proofs.SparedStores

/-!
Saved hosts. Saving a host writes its registrations beside its stores and leaves the stores alone, and
what was written is read again. A host that is rebuilt from it, with stand-ins or with live
transformers of the saved versions, picks for each file the slot whose store is the one of the first
host's slot.
-/
namespace AssetCompiler.Host

open Volume

variable {σ τ : Type} {h : Host} {q : Path} {d : Location} {v v' : Volume}

/-- The registrations of a host are written in the directory of the caches. -/
structure IsSaved (h : Host) (q : Path) (d : Location) (v : Volume) : Prop where
  root : v.IsRoot q d
  zero : hasZero q = false
  fileZero : hasZero (q.child fileName) = false
  written : ∃ now mtime, now.IsDate ∧ v.nodeAt? (d ++ [fileName]) =
    some (.file (Text.Utf8.ofString (Json.write .pages (h.configuration now).toJson)) mtime)

theorem isName_fileName : IsName fileName :=
  ⟨Path.ofText_of_not_mem (by decide) (by decide) (by decide), by decide⟩

/-! Saving -/

/-- What saving does to a volume. -/
structure Saves (h : Host) (q : Path) (d : Location) (v v' : Volume) : Prop where
  saved : h.IsSaved q d v'
  replaced : v.nodeAt? (d ++ [fileName]) ≠ some .directory
  here : v'.here = v.here
  node : ∀ l, l ≠ d ++ [fileName] → v'.nodeAt? l = v.nodeAt? l

theorem Saves.replaces (hsaves : h.Saves q d v v') (hroot : v.IsRoot q d) :
    Replaces (fun l => l = d ++ [fileName]) v v' := by
  refine ⟨hsaves.here, fun l => ?_⟩
  by_cases hl : l = d ++ [fileName]
  · obtain ⟨now, mtime, -, hwritten⟩ := hsaves.saved.written
    subst hl
    rw [hwritten]
    exact .inr ⟨rfl, ⟨hsaves.replaced, hroot.unlinked [fileName]⟩, isLeaf_file _ _⟩
  · exact .inl (hsaves.node l hl)

/-- A file is written in the directory of the caches. -/
theorem write_in_root (hroot : v.IsRoot q d) {name : String} (hname : IsName name)
    (hshort : ¬ nameLimit < name.utf8ByteSize) {bytes : List UInt8}
    (hwrite : v.write (q.child name) bytes = .ok v') :
    hasZero (q.child name) = false ∧ v.nodeAt? (d ++ [name]) ≠ some .directory ∧
      v' = (v.put (d ++ [name]) (.file bytes v.writeTime)).tick := by
  have hlocate : v.locate true (q.child name) = .ok (d ++ [name]) := by
    rw [hroot.locate true hname, if_neg hshort]
  obtain ⟨hzero, l, htarget, rfl⟩ := write_eq_ok_iff.mp hwrite
  obtain ⟨hl, -, hfree⟩ := target_eq_ok_iff.mp htarget
  obtain rfl := Except.ok.inj (hlocate.symm.trans hl)
  exact ⟨hzero, hfree, rfl⟩

/-- Saving writes one file. -/
theorem save_ok {w w' : World σ} {p : Path} (hrun : h.save.run w = (.ok p, w'))
    (hexpand : h.settings.cacheRoot.expandHome? (w.environment.lookup "HOME") = some q)
    (hroot : w.volume.IsRoot q d) (hnow : w.now.IsDate) :
    h.Saves q d w.volume w'.volume ∧ setting w' = setting w := by
  obtain ⟨root, w₁, hroots, hrest⟩ := Action.of_run_bind_ok hrun
  have hresolved : q = root ∧ w = w₁ := by
    obtain ⟨environment, w₂, henvironment, hlift⟩ := Action.of_run_bind_ok hroots
    cases henvironment
    rw [Work.run_lift, Settings.resolvedRoot, hexpand] at hlift
    cases hlift
    exact ⟨rfl, rfl⟩
  obtain ⟨rfl, rfl⟩ := hresolved
  obtain ⟨u, w₂, hmade, hrest⟩ := Action.of_run_bind_ok hrest
  have hparent : (q.child fileName).parent = q := by
    rw [isName_fileName.child]
    simp [Path.parent]
  rw [hparent, Work.run_filing, Filing.makeDirectories, Filing.run_change] at hmade
  cases hzero : hasZero q with
  | true =>
    rw [Volume.makeDirectories, hzero] at hmade
    cases hmade
  | false =>
    rw [makeDirectories_of_isDirectory hzero hroot.isDirectory] at hmade
    cases hmade
    rw [Action.run_bind_ok (Action.run_get _)] at hrest
    obtain ⟨u, w₂, hwrite, hrest⟩ := Action.of_run_bind_ok hrest
    cases hrest
    rw [Work.writeText, Work.run_filing, Filing.write, Filing.run_change] at hwrite
    split at hwrite
    · rename_i v' hdone
      cases hwrite
      obtain ⟨hfileZero, hreplaced, rfl⟩ := write_in_root hroot isName_fileName (by decide) hdone
      have hleaf : IsLeaf (w.volume.nodeAt? (d ++ [fileName])) :=
        ⟨hreplaced, hroot.unlinked [fileName]⟩
      have hadvances := Store.advances_file (v := w.volume)
        (Text.Utf8.ofString (Json.write .pages (h.configuration w.now).toJson)) hleaf
      refine ⟨⟨⟨hroot.grows hadvances.grows, hzero, hfileZero, w.now, w.volume.writeTime, hnow, ?_⟩,
        hreplaced, rfl, ?_⟩, rfl⟩
      · exact nodeAt?_put_self _ _ ne_root_of_append
      · exact fun l hl => nodeAt?_put_of_ne _ _ hl
    · cases hwrite

/-- What lies in the directory of the caches under another name than a table does not lie in a place, if it is
no directory. -/
theorem rests_apart {backend : Backend} {space name : String} (hname : name ≠ Store.databaseName)
    {l : Location} (hl : (Store.placeOf backend d space).Rests l)
    (hdirectory : ∀ l', Store.placeOf backend d space = .folder l' →
      v.nodeAt? l' = some .directory)
    (hreplaced : v.nodeAt? (d ++ [name]) ≠ some .directory) : l ≠ d ++ [name] := by
  rintro rfl
  cases hplace : Store.placeOf backend d space with
  | folder l' =>
    rw [hplace] at hl
    have hl' : ∃ name, l' = d ++ [name] := by
      cases backend <;> cases hplace <;> exact ⟨_, rfl⟩
    obtain ⟨name', rfl⟩ := hl'
    rcases hl with heq | ⟨file, heq⟩
    · rw [heq, hdirectory _ hplace] at hreplaced
      exact hreplaced rfl
    · have hlength := congrArg List.length heq
      simp at hlength
  | rows l' space' =>
    rw [hplace] at hl
    obtain rfl : d ++ [name] = l' := hl
    cases backend with
    | sqlite =>
      have heq := (Store.Place.rows.inj hplace).1
      exact hname (List.cons.inj (List.append_cancel_left heq)).1.symm
    | _ => cases hplace

/-- A file that is written beside the places leaves them alone. -/
theorem Stands.leaves_of_written (hstands : h.Stands q d v) {name : String}
    (hname : name ≠ Store.databaseName) (hroot : v'.IsRoot q d)
    (hreplaced : v.nodeAt? (d ++ [name]) ≠ some .directory)
    (hnode : ∀ l, l ≠ d ++ [name] → v'.nodeAt? l = v.nodeAt? l) : h.Leaves q d v v' := by
  refine hstands.leaves hroot ?_
  intro id s hs l hl
  refine hnode l (rests_apart hname hl ?_ hreplaced)
  intro l' hplace
  have hat := hstands.places id s hs
  rw [hplace] at hat
  cases hstore : s.cache.store with
  | folder root space =>
    rw [hstore] at hat
    exact Store.FolderAt.directory hat
  | table database space isOpen =>
    rw [hstore] at hat
    exact hat.elim

theorem Stands.leaves_of_saves (hstands : h.Stands q d v) (hsaves : h.Saves q d v v') :
    h.Leaves q d v v' :=
  hstands.leaves_of_written (by decide) hsaves.saved.root hsaves.replaced hsaves.node

/-- What was saved stays where others spare the directory of the caches. -/
theorem IsSaved.spared (hsaved : h.IsSaved q d v) (hspares : Volume.Spares q d v v') :
    h.IsSaved q d v' := by
  obtain ⟨now, mtime, hnow, hnode⟩ := hsaved.written
  exact ⟨hspares.root, hsaved.zero, hsaved.fileZero, now, mtime, hnow, by rw [hspares.node, hnode]⟩

/-! Loading -/

theorem keys_configuration (h : Host) (now : Instant) :
    Keyed.keys (h.configuration now).transformers = Keyed.keys h.registry.items := by
  simp [configuration, Keyed.keys, Function.comp_def]

theorem readConfiguration_written (now : Instant) {c : Configuration} (hdate : c.savedAt.IsDate)
    (hkeys : (Keyed.keys c.transformers).Nodup) :
    readConfiguration now (Json.write .pages c.toJson).toList = .ok c := by
  rw [readConfiguration, Json.read?_write .pages (Configuration.isPlain_toJson hkeys)]
  simp only
  rw [Configuration.read_toJson now hdate]
  rfl

/-- What was saved is loaded. -/
theorem IsSaved.run_loadConfiguration (hsaved : h.IsSaved q d v)
    (hkeys : (Keyed.keys h.registry.items).Nodup) {w : World τ} (hvolume : w.volume = v)
    {root : Path} (hexpand : root.expandHome? (w.environment.lookup "HOME") = some q) :
    ∃ now, (loadConfiguration root).run w = (.ok (h.configuration now), w) := by
  subst hvolume
  obtain ⟨now, mtime, hdate, hnode⟩ := hsaved.written
  refine ⟨now, ?_⟩
  have hlocate : w.volume.locate true (q.child fileName) = .ok (d ++ [fileName]) := by
    rw [hsaved.root.locate true isName_fileName, if_neg (by decide)]
  have hstat := stat_eq_ok_iff.mpr ⟨hlocate, hnode⟩
  have hplain := Configuration.isPlain_toJson (c := h.configuration now)
    (by rw [keys_configuration]; exact hkeys)
  have hthere : w.volume.isThere (q.child fileName) = .ok true := by
    unfold isThere probe
    rw [hsaved.fileZero, hstat]
    rfl
  have htext := Store.readText_written hsaved.fileZero hstat
    (Json.unifyLineEnds_write .pages hplain)
  have hexpanded : (Work.expandHome root).run w = (.ok q, w) := by
    unfold Work.expandHome
    rw [Action.run_bind_ok (show Work.environment.run w = (.ok w.environment, w) from rfl), hexpand]
    rfl
  have hlooked : (Work.look fun v => v.isThere (q.child fileName)).run w = (.ok true, w) := by
    rw [Work.run_look, hthere]
  have hread : (Work.look fun v => v.readText (q.child fileName)).run w =
      (.ok (Json.write .pages (h.configuration now).toJson).toList, w) := by
    rw [Work.run_look, htext]
  unfold loadConfiguration
  rw [Action.run_bind_ok hexpanded, Action.run_bind_ok hlooked]
  simp only [if_true]
  rw [Action.run_bind_ok hread,
    Action.run_bind_ok (Action.run_get w), Work.run_lift,
    readConfiguration_written w.now hdate (by rw [keys_configuration]; exact hkeys)]

/-- A host with stand-ins is built from the records of the saved one. -/
theorem IsSaved.run_buildReadOnly {w : World τ} (hsaved : h.IsSaved q d w.volume)
    (hkeys : (Keyed.keys h.registry.items).Nodup) {root : Path}
    (hexpand : root.expandHome? (w.environment.lookup "HOME") = some q) (desk : Nat)
    (given : Settings) (now : Instant) :
    (buildReadOnly root desk (pure given)).run w =
      (build root (standIns [] (h.configuration now).transformers).2 desk (some true)
        ((h.configuration now).fallback.map fun f =>
          (standInFor (standIns [] (h.configuration now).transformers).1 f).2) given).run w := by
  obtain ⟨now', hload⟩ := hsaved.run_loadConfiguration hkeys rfl hexpand
  unfold buildReadOnly
  rw [Action.run_bind_ok hload]
  rfl

/-! Rebuilding -/

/-- A transformer in place of a record. -/
structure Replaces (live : Keyed String Transformer) (c : Credentials) (t : Transformer) :
    Prop where
  found : live.find? c.name = some t
  name : t.name = c.name
  version : t.version = c.version

/-- Transformers in place of records, under the same media types. -/
def ReplacesAll (live : Keyed String Transformer) (cs : List (String × Credentials))
    (types : List (String × Transformer)) : Prop :=
  List.Forall₂ (fun e e' => e'.1 = e.1 ∧ Replaces live e.2 e'.2) cs types

theorem ReplacesAll.replaces {live : Keyed String Transformer} {cs : List (String × Credentials)}
    {types : List (String × Transformer)} (hall : ReplacesAll live cs types) :
    ∀ e' ∈ types, ∃ e ∈ cs, Replaces live e.2 e'.2 := by
  intro e' he'
  obtain ⟨e, he, -, hreplaces⟩ := exists_mem_of_forall₂ hall e' he'
  exact ⟨e, he, hreplaces⟩

/-- Transformers by name, of the versions that a host has. -/
def IsStock (h : Host) (live : Keyed String Transformer) : Prop :=
  ∀ name t, live.find? name = some t →
    t.name = name ∧ ∀ s, h.registry.slot? name = some s → t.version = s.transformer.version

/-- The record of a slot. -/
def IsRecord (h : Host) (c : Credentials) : Prop :=
  ∃ s, h.registry.slot? c.name = some s ∧ s.transformer.credentials = c

theorem IsStock.replaces {live : Keyed String Transformer} (hstock : h.IsStock live)
    {c : Credentials} (hrecord : h.IsRecord c) {t : Transformer}
    (hfound : live.find? c.name = some t) : Replaces live c t := by
  obtain ⟨s, hs, rfl⟩ := hrecord
  exact ⟨hfound, (hstock _ t hfound).1, (hstock _ t hfound).2 s hs⟩

theorem Replaces.mono {live live' : Keyed String Transformer} {c : Credentials} {t : Transformer}
    (hreplaces : Replaces live c t)
    (hmore : ∀ name t, live.find? name = some t → live'.find? name = some t) :
    Replaces live' c t :=
  ⟨hmore _ _ hreplaces.found, hreplaces.name, hreplaces.version⟩

/-- The stand-in for a record, and those that were made before. -/
theorem standInFor_ok {made : Keyed String Transformer} (hstock : h.IsStock made)
    {c : Credentials} (hrecord : h.IsRecord c) :
    h.IsStock (standInFor made c).1 ∧ Replaces (standInFor made c).1 c (standInFor made c).2 ∧
      ∀ name t, made.find? name = some t → (standInFor made c).1.find? name = some t := by
  unfold standInFor
  cases hfound : made.find? c.name with
  | some t => exact ⟨hstock, hstock.replaces hrecord hfound, fun _ _ ht => ht⟩
  | none =>
    have hstock' : h.IsStock (made.set c.name (Transformer.standIn (made.length + 1) c)) := by
      intro name t ht
      rw [Keyed.find?_set] at ht
      split at ht
      · rename_i hname
        subst hname
        cases ht
        refine ⟨rfl, fun s hs => ?_⟩
        obtain ⟨s', hs', rfl⟩ := hrecord
        cases hs.symm.trans hs'
        rfl
      · exact hstock name t ht
    refine ⟨hstock', hstock'.replaces hrecord (Keyed.find?_set_self _ _ _), ?_⟩
    intro name t ht
    have hname : name ≠ c.name := by
      rintro rfl
      rw [hfound] at ht
      cases ht
    rw [Keyed.find?_set_of_ne hname, ht]

theorem standIns_ok {made : Keyed String Transformer} (hstock : h.IsStock made)
    {cs : List (String × Credentials)} (hrecords : ∀ e ∈ cs, h.IsRecord e.2) :
    h.IsStock (standIns made cs).1 ∧ ReplacesAll (standIns made cs).1 cs (standIns made cs).2 ∧
      ∀ name t, made.find? name = some t → (standIns made cs).1.find? name = some t := by
  induction cs generalizing made with
  | nil => exact ⟨hstock, .nil, fun _ _ ht => ht⟩
  | cons e rest ih =>
    obtain ⟨mediaType, c⟩ := e
    obtain ⟨hstock₁, hfirst, hmore₁⟩ :=
      standInFor_ok hstock (hrecords _ (List.mem_cons_self ..))
    obtain ⟨hstock₂, hlater, hmore₂⟩ :=
      ih hstock₁ fun e he => hrecords e (List.mem_cons_of_mem _ he)
    exact ⟨hstock₂, .cons ⟨rfl, hfirst.mono hmore₂⟩ hlater,
      fun name t ht => hmore₂ name t (hmore₁ name t ht)⟩

theorem liveFor_ok {live : Keyed String Transformer} {c : Credentials} {t : Transformer}
    {w w' : World τ} (hrun : (liveFor live c).run w = (.ok t, w')) :
    live.find? c.name = some t ∧ ∃ journal, w' = { w with journal := journal } := by
  unfold liveFor at hrun
  cases hfound : live.find? c.name with
  | none =>
    rw [hfound] at hrun
    cases hrun
  | some t' =>
    rw [hfound] at hrun
    simp only at hrun
    split at hrun
    · cases hrun
      exact ⟨rfl, _, rfl⟩
    · cases hrun
      exact ⟨rfl, w.journal, rfl⟩

theorem liveForAll_ok {live : Keyed String Transformer} (hstock : h.IsStock live)
    {cs : List (String × Credentials)} (hrecords : ∀ e ∈ cs, h.IsRecord e.2)
    {types : List (String × Transformer)} {w w' : World τ}
    (hrun : (liveForAll live cs).run w = (.ok types, w')) :
    ReplacesAll live cs types ∧ ∃ journal, w' = { w with journal := journal } := by
  induction cs generalizing types w with
  | nil =>
    cases hrun
    exact ⟨.nil, _, rfl⟩
  | cons e rest ih =>
    obtain ⟨mediaType, c⟩ := e
    obtain ⟨t, w₁, hfirst, hrest⟩ := Action.of_run_bind_ok hrun
    obtain ⟨ts, w₂, hlater, hpure⟩ := Action.of_run_bind_ok hrest
    cases hpure
    obtain ⟨hfound, journal, rfl⟩ := liveFor_ok hfirst
    obtain ⟨hall, journal', rfl⟩ := ih (fun e he => hrecords e (List.mem_cons_of_mem _ he)) hlater
    exact ⟨.cons ⟨rfl, hstock.replaces (hrecords _ (List.mem_cons_self ..)) hfound⟩ hall,
      journal', rfl⟩

/-! Rebuilt hosts -/

/-- A slot takes the place of another: its transformer has the name and the version, and its cache
the store. -/
structure Succeeds (s s' : Slot Cache) : Prop where
  name : s'.transformer.name = s.transformer.name
  space : s'.transformer.space = s.transformer.space
  store : s'.cache.store = s.cache.store

/-- What a later host is built from: a transformer for each record of an earlier one. -/
structure Restores (h : Host) (now : Instant) (live : Keyed String Transformer)
    (types : List (String × Transformer)) (fallback : Option Transformer) : Prop where
  types : ReplacesAll live (h.configuration now).transformers types
  fallback : Option.Rel (Replaces live) (h.configuration now).fallback fallback

section Rebuilding

variable {live : Keyed String Transformer} {now : Instant} {a b : Host} {root : Path}
variable {types types' : List (String × Transformer)} {fallback fallback' : Option Transformer}
variable {number number' : Nat} {mode mode' : Option Bool} {given : Settings}

theorem records_configuration (hbuilt : a.IsBuilt root q types number mode fallback given)
    (now : Instant) : (∀ e ∈ (a.configuration now).transformers, a.IsRecord e.2) ∧
      ∀ c ∈ (a.configuration now).fallback, a.IsRecord c := by
  refine ⟨?_, ?_⟩
  · intro e he
    obtain ⟨item, hitem, rfl⟩ := List.mem_map.mp he
    obtain ⟨mediaType, s⟩ := item
    exact ⟨s, hbuilt.registry.lookup?_ok (Registry.mem_items.mp hitem), rfl⟩
  · intro c hc
    obtain ⟨s, hs, rfl⟩ := Option.map_eq_some_iff.mp hc
    obtain ⟨name, _, hslot⟩ := Option.bind_eq_some_iff.mp hs
    refine ⟨s, ?_, rfl⟩
    have hid : s.transformer.name = name := (hbuilt.registry.of_slot? hslot).1
    change a.registry.slot? s.transformer.name = some s
    rw [hid, hslot]

theorem Restores.replaces (hbuilt : a.IsBuilt root q types number mode fallback given)
    (hrestores : a.Restores now live types' fallback') {t : Transformer}
    (ht : t ∈ Registry.registered types' fallback') :
    ∃ c, a.IsRecord c ∧ Replaces live c t := by
  obtain ⟨htypes, hfallback⟩ := records_configuration hbuilt now
  rcases List.mem_append.mp ht with ht | ht
  · obtain ⟨e', he', rfl⟩ := List.mem_map.mp ht
    obtain ⟨e, he, hreplaces⟩ := hrestores.types.replaces e' he'
    exact ⟨e.2, htypes e he, hreplaces⟩
  · have hrel := hrestores.fallback
    obtain rfl : fallback' = some t := by simpa using ht
    cases hfound : (a.configuration now).fallback with
    | none =>
      rw [hfound] at hrel
      cases hrel
    | some c =>
      rw [hfound] at hrel
      cases hrel with
      | some hreplaces => exact ⟨c, hfallback c hfound, hreplaces⟩

theorem Restores.isConsistent (hbuilt : a.IsBuilt root q types number mode fallback given)
    (hrestores : a.Restores now live types' fallback') :
    Registry.IsConsistent (Registry.registered types' fallback') := by
  intro t ht t' ht' hname
  obtain ⟨c, _, hreplaces⟩ := hrestores.replaces hbuilt ht
  obtain ⟨c', _, hreplaces'⟩ := hrestores.replaces hbuilt ht'
  have hfound := hreplaces.found
  rw [← hreplaces.name, hname, hreplaces'.name, hreplaces'.found] at hfound
  exact (Option.some.inj hfound).symm

theorem Replaces.space {c : Credentials} {s : Slot Cache} {t : Transformer}
    (hs : s.transformer.credentials = c) (hreplaces : Replaces live c t) :
    t.space = s.transformer.space := by
  subst hs
  rw [Transformer.space, hreplaces.name, hreplaces.version]
  rfl

/-- Slots of the same name in hosts of the same settings belong together. -/
theorem succeeds_of_replaces (hbuilt : a.IsBuilt root q types number mode fallback given)
    (hstands : a.Stands q d v) {s : Slot Cache} {name : String}
    (hs : a.registry.slot? name = some s) {t : Transformer}
    (hreplaces : Replaces live s.transformer.credentials t) :
    Succeeds s ⟨t, Cache.named given.backend q number' t⟩ := by
  have hspace := hreplaces.space rfl
  have hnamed := hstands.named name s hs
  rw [hbuilt.settings] at hnamed
  refine ⟨hreplaces.name, hspace, ?_⟩
  change (Store.named given.backend q t.space).getD default = s.cache.store
  rw [hspace, hnamed]
  rfl

/-- The registry of a rebuilt host agrees with that of the saved one. -/
theorem agrees_of_restores (hbuilt : a.IsBuilt root q types number mode fallback given)
    (hstands : a.Stands q d v) (hrestores : a.Restores now live types' fallback')
    (hbuilt' : b.IsBuilt root q types' number' mode' fallback' given) :
    Registry.Agrees Succeeds a.registry b.registry := by
  have htypes : List.Forall₂ (fun e e' => e'.1 = e.1 ∧
      Replaces live e.2.transformer.credentials e'.2) a.registry.items types' :=
    List.forall₂_map_left_iff.mp hrestores.types
  have hfallback : Option.Rel (fun s t => Replaces live s.transformer.credentials t)
      a.registry.fallback? fallback' := by
    have hrel := hrestores.fallback
    change Option.Rel _ (a.registry.fallback?.map fun s => s.transformer.credentials) _ at hrel
    generalize a.registry.fallback? = s? at hrel
    cases s? with
    | none =>
      cases hrel
      exact .none
    | some s =>
      cases hrel with
      | some hreplaces => exact .some hreplaces
  refine (hbuilt.registry.agrees hbuilt'.registry htypes hfallback
    (hrestores.isConsistent hbuilt)).imp ?_
  rintro s ⟨t, k⟩ hfound ⟨hreplaces, hcache⟩
  obtain ⟨name, hs⟩ : ∃ name, a.registry.slot? name = some s := by
    rcases hfound with ⟨m, hm⟩ | hlast
    · exact ⟨_, hbuilt.registry.lookup?_ok hm⟩
    · obtain ⟨name, -, hslot⟩ := Option.bind_eq_some_iff.mp hlast
      exact ⟨name, hslot⟩
  obtain rfl : k = Cache.named given.backend q number' t := hcache
  exact succeeds_of_replaces hbuilt hstands hs hreplaces

/-- Stand-ins take the places of the records that they are made for. -/
theorem restores_standIns (hbuilt : a.IsBuilt root q types number mode fallback given)
    (now : Instant) : ∃ live, a.Restores now live (standIns [] (a.configuration now).transformers).2
      ((a.configuration now).fallback.map fun f =>
        (standInFor (standIns [] (a.configuration now).transformers).1 f).2) := by
  obtain ⟨htypes, hfallback⟩ := records_configuration hbuilt now
  obtain ⟨hstock, hall, -⟩ := standIns_ok (nofun : a.IsStock []) htypes
  generalize standIns [] (a.configuration now).transformers = made at hstock hall
  cases hrecord : (a.configuration now).fallback with
  | none =>
    refine ⟨_, hall, ?_⟩
    rw [hrecord]
    exact .none
  | some c =>
    obtain ⟨-, hreplaces, hmore⟩ := standInFor_ok hstock (hfallback c hrecord)
    refine ⟨_, hall.imp fun e e' he => ⟨he.1, he.2.mono hmore⟩, ?_⟩
    rw [hrecord]
    exact .some hreplaces

/-- A host is rebuilt from what was saved of another: with stand-ins, or with live transformers of
the saved versions. -/
def IsRebuilt (a b : Host) (root : Path) (given : Settings) (w w' : World τ) : Prop :=
  (buildReadOnly root b.desk (pure given)).run w = (.ok b, w') ∨
    ∃ ts mode, (∀ t ∈ ts, ∀ s, a.registry.slot? t.name = some s →
      t.version = s.transformer.version) ∧
      (buildLive root ts b.desk mode (pure given)).run w = (.ok b, w')

/-- A rebuilt host is built from transformers in the place of the saved ones. -/
theorem IsRebuilt.restores {w w' : World τ}
    (hbuilt : a.IsBuilt root q types number mode fallback given) (hsaved : a.IsSaved q d w.volume)
    (hexpand : root.expandHome? (w.environment.lookup "HOME") = some q)
    (hrebuilt : a.IsRebuilt b root given w w') :
    ∃ now live types' fallback' mode' journal, a.Restores now live types' fallback' ∧
      (build root types' b.desk mode' fallback' given).run { w with journal := journal } =
        (.ok b, w') := by
  have hkeys := hbuilt.registry.nodup_items
  obtain ⟨now, hload⟩ := hsaved.run_loadConfiguration hkeys rfl hexpand
  obtain ⟨htypes, hfallback⟩ := records_configuration hbuilt now
  rcases hrebuilt with hrun | ⟨ts, mode', hversions, hrun⟩
  · obtain ⟨live, hrestores⟩ := restores_standIns hbuilt now
    rw [hsaved.run_buildReadOnly hkeys hexpand b.desk given now] at hrun
    exact ⟨now, live, _, _, some true, w.journal, hrestores, hrun⟩
  · have hstock : a.IsStock (Keyed.ofList (ts.map fun t => (t.name, t))) := by
      intro name t hfound
      obtain ⟨t', ht', heq⟩ := List.mem_map.mp (Keyed.mem_of_mem_ofList (Keyed.mem_of_find? hfound))
      cases heq
      exact ⟨rfl, hversions t ht'⟩
    unfold buildLive at hrun
    rw [Action.run_bind_ok hload] at hrun
    obtain ⟨types', w₁, hall, hrest⟩ := Action.of_run_bind_ok hrun
    obtain ⟨hreplaced, journal, rfl⟩ := liveForAll_ok hstock htypes hall
    obtain ⟨fallback', w₂, hlast, hbuild⟩ := Action.of_run_bind_ok hrest
    cases hrecord : (a.configuration now).fallback with
    | none =>
      rw [hrecord] at hlast
      cases hlast
      exact ⟨now, _, types', none, mode', journal, ⟨hreplaced, hrecord ▸ .none⟩, hbuild⟩
    | some c =>
      rw [hrecord] at hlast
      obtain ⟨t, w₃, hlive, hpure⟩ := Action.of_run_bind_ok hlast
      cases hpure
      obtain ⟨hfound, journal', rfl⟩ := liveFor_ok hlive
      exact ⟨now, _, types', some t, mode', journal',
        ⟨hreplaced, hrecord ▸ .some (hstock.replaces (hfallback c hrecord) hfound)⟩, hbuild⟩

/-- A rebuilt host stands over the stores of the saved one, and its registry agrees. -/
theorem IsRebuilt.agrees {w w' : World τ}
    (hbuilt : a.IsBuilt root q types number mode fallback given)
    (hstands : a.Stands q d w.volume) (hsaved : a.IsSaved q d w.volume)
    (hexpand : root.expandHome? (w.environment.lookup "HOME") = some q)
    (hrebuilt : a.IsRebuilt b root given w w') :
    b.IsTidy ∧ b.Stands q d w'.volume ∧ w'.volume = w.volume ∧ setting w' = setting w ∧
      Registry.Agrees Succeeds a.registry b.registry := by
  obtain ⟨now, live, types', fallback', mode', journal, hrestores, hrun⟩ :=
    hrebuilt.restores hbuilt hsaved hexpand
  have hat : ∀ t ∈ Registry.registered types' fallback', ∃ s,
      Store.named given.backend q t.space = some s ∧
        s.At w.volume (Store.placeOf given.backend d t.space) := by
    intro t ht
    obtain ⟨c, ⟨s, hs, hc⟩, hreplaces⟩ := hrestores.replaces hbuilt ht
    have hnamed := hstands.named _ s hs
    have hplace := hstands.places _ s hs
    rw [hbuilt.settings] at hnamed hplace
    rw [hreplaces.space hc]
    exact ⟨s.cache.store, hnamed, hplace⟩
  obtain ⟨hbuilt', hvolume, hsetting⟩ := build_of_at (w := { w with journal := journal }) hrun
    hexpand hsaved.zero hsaved.root fun t ht => ⟨_, _, (hat t ht).choose_spec⟩
  refine ⟨hbuilt'.isTidy, ⟨hvolume ▸ hsaved.root, ?_, ?_⟩, hvolume, hsetting,
    agrees_of_restores hbuilt hstands hrestores hbuilt'⟩
  · intro name s hs
    obtain ⟨_, ht, hcache⟩ := hbuilt'.registry.of_slot? hs
    obtain ⟨store, hnamed, _⟩ := hat _ ht
    rw [hbuilt'.settings, hcache]
    change Store.named given.backend q s.transformer.space =
      some ((Store.named given.backend q s.transformer.space).getD default)
    rw [hnamed]
    rfl
  · intro name s hs
    obtain ⟨_, ht, hcache⟩ := hbuilt'.registry.of_slot? hs
    obtain ⟨store, hnamed, hstore⟩ := hat _ ht
    rw [hbuilt'.settings, hcache, hvolume]
    change ((Store.named given.backend q s.transformer.space).getD default).At w.volume
      (Store.placeOf given.backend d s.transformer.space)
    rw [hnamed]
    exact hstore

end Rebuilding

end AssetCompiler.Host
