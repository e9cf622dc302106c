import AssetCompiler.Proofs.Histories

/-!
Hosts with other transformers over the same caches. The store of a slot is named after the name and the
version of the slot's own transformer, and a result lies there however many transformers had a part in
it. So a later host serves what an earlier one has stored as long as the slot's own transformer keeps its
name and version, whatever became of the others.
-/
namespace AssetCompiler

open Volume

namespace Store

variable {v v' : Volume} {key : String} {a : Artifact}

/-- No empty file is an entry. -/
theorem readEntry_nil (now : Instant) : readEntry now [] = .ok (.unreadable .malformedJson) := by
  have hnone : Json.read? [] = none := by decide
  rw [readEntry, hnone]

/-- A text is read from a file, or from a table as if it were one. -/
theorem exists_stat_of_readText {p : Path} {text : List Char} (h : v.readText p = .ok text) :
    ∃ l, (∃ bytes mtime, v.stat p = .ok (l, .file bytes mtime) ∧ (bytes = [] → text = [])) ∨
      ∃ rows mtime, v.stat p = .ok (l, .table rows mtime) := by
  obtain ⟨bytes, hread⟩ : ∃ bytes, v.read p = .ok bytes := by
    unfold Volume.readText at h
    cases hread : v.read p with
    | ok bytes => exact ⟨bytes, rfl⟩
    | error f =>
      rw [hread] at h
      cases h
  obtain ⟨hzero, l, node, mtime, hstat, hcontent⟩ := read_eq_ok_iff.mp hread
  cases node with
  | directory => cases hcontent
  | link target => cases hcontent
  | table rows mtime => exact ⟨l, .inr ⟨rows, mtime, hstat⟩⟩
  | file bytes mtime =>
    refine ⟨l, .inl ⟨bytes, mtime, hstat, ?_⟩⟩
    rintro rfl
    have hnil := readText_written (s := "") hzero hstat rfl
    exact Except.ok.inj (h.symm.trans hnil)

/-- An entry is found in a file that is not empty, or in a table that is read as one. -/
theorem FolderAt.of_found {root : Path} {l : Location} (h : FolderAt v root l) {now : Instant} {e : Entry}
    (hfound : ((getFile now root key).run v).1 = .ok (.found e)) :
    (∃ bytes mtime, v.nodeAt? (l ++ [fileName key]) = some (.file bytes mtime) ∧ bytes ≠ []) ∨
      ∃ rows mtime, v.nodeAt? (l ++ [fileName key]) = some (.table rows mtime) := by
  obtain ⟨text, htext, hentry⟩ := readText_of_found hfound
  have hnode : ∀ {l' node}, v.stat (entryPath root key) = .ok (l', node) →
      v.nodeAt? (l ++ [fileName key]) = some node := by
    intro l' node hstat
    obtain ⟨hlocate, hnode⟩ := stat_eq_ok_iff.mp hstat
    rw [entryPath, ← fileName, h.locate true (isName_fileName key)] at hlocate
    split at hlocate
    · cases hlocate
    · rw [Except.ok.inj hlocate, hnode]
  obtain ⟨l', ⟨bytes, mtime, hstat, hempty⟩ | ⟨rows, mtime, hstat⟩⟩ := exists_stat_of_readText htext
  · refine .inl ⟨bytes, mtime, hnode hstat, fun hnil => ?_⟩
    rw [hempty hnil, readEntry_nil] at hentry
    cases hentry
  · exact .inr ⟨rows, mtime, hnode hstat⟩

/-- Nothing is served from a directory that is in the place of an entry. -/
theorem not_serves_directory {s : Store} {l : Location} (hat : s.At v (.folder l))
    (hdirectory : v.nodeAt? (l ++ [fileName key]) = some .directory) (a : Artifact) :
    ¬ s.Serves v key a := by
  intro hserves
  obtain ⟨e, hget, -⟩ := hserves default
  cases s with
  | table database space isOpen => exact hat.elim
  | folder root space =>
    have hfolder : FolderAt v root l := hat
    rcases hfolder.of_found (congrArg Prod.fst hget) with ⟨bytes, mtime, hfile, -⟩ | ⟨rows, mtime, hrows⟩
    · cases hdirectory.symm.trans hfile
    · cases hdirectory.symm.trans hrows

/-- Opening stores leaves what is served. -/
theorem Serves.opens {s : Store} {place : Place} (hat : s.At v place) (hopens : Opens v v')
    (h : s.Serves v key a) : s.Serves v' key a := by
  cases s with
  | folder root space =>
    cases place with
    | rows l space' => exact hat.elim
    | folder l =>
      have hfolder : FolderAt v root l := hat
      obtain ⟨e, hget, _⟩ := h default
      have hnode : v'.nodeAt? (l ++ [fileName key]) = v.nodeAt? (l ++ [fileName key]) := by
        refine (hopens.node _).resolve_right fun hwas => ?_
        rcases hfolder.of_found (congrArg Prod.fst hget) with
          ⟨bytes, mtime, hfile, hne⟩ | ⟨rows, mtime, hrows⟩
        · simp [hfile, hne] at hwas
        · simp [hrows] at hwas
      exact h.congr fun now =>
        hfolder.getFile_congr (hfolder.grows hopens.grows) now key hnode
  | table database space isOpen =>
    cases place with
    | folder l => exact hat.elim
    | rows l space' =>
      obtain ⟨rfl, rfl, hlocate, rows, mtime, htable⟩ := hat
      have htable' : v'.nodeAt? l = some (.table rows mtime) := by
        rcases hopens.node l with hsame | ⟨hwas, _⟩
        · rw [hsame, htable]
        · rw [htable] at hwas
          simp at hwas
      have hlocate' := hopens.grows.locate hlocate
      refine h.congr fun now => ?_
      rw [run_get_table, run_get_table, TableAt.rowsOf_eq hlocate' htable',
        TableAt.rowsOf_eq hlocate htable]

end Store

namespace Host

section Rebuilding

variable {σ τ : Type} {a b : Host} {crew : Crew σ} {q : Path} {d : Location}
variable {options : ClassifyOptions} {past : List Volume} {w₀ w : World σ}
variable {calls : List (World σ × String)}

/-- A host `a` has returned a result for a file. Then others spare its stores, and a host `b` is built
over them. If the slots that the two pick for the file have one space, then `b` returns the result too. -/
theorem served_of_space {root : Path} {given : Settings}
    {types types' : List (String × Transformer)} {mode mode' : Option Bool}
    {fallback fallback' : Option Transformer} {w₁ w₂ : World τ}
    (hbuilt : a.IsBuilt root q types a.desk mode fallback given) (hfull : a.readOnly = false)
    (hstart : a.Follows options q d past w₀ [] w₀) (history : a.History crew q d past w₀ calls w)
    (hspares : Volume.Spares q d w.volume w₁.volume)
    (hexpand : root.expandHome? (w₁.environment.lookup "HOME") = some q)
    (hrun : (build root types' b.desk mode' fallback' given).run w₁ = (.ok b, w₂))
    {past' : List Volume} (hrecalls : w₁.Recalls b.desk options past')
    (hhere : ∀ v ∈ past', AreProper v.here)
    {call : World σ × String} (hcall : call ∈ calls) {real : Path} {bytes : List UInt8}
    {mtime mtime' : Int} {r : Artifact}
    (hinspect : call.1.volume.inspect (Path.ofText call.2) = .ok (real, bytes, mtime))
    (hreturned : ((a.compile crew call.2).run call.1).1 = .ok r)
    (hinspect' : w₂.volume.inspect (Path.ofText call.2) = .ok (real, bytes, mtime'))
    (htold : w₂.IsTold past' call.2) {s s' : Slot Cache} {isFallback isFallback' : Bool}
    (hselect : a.registry.select? (Path.ofText call.2)
      (Fingerprint.classify bytes real options) = some (s, isFallback))
    (hselect' : b.registry.select? (Path.ofText call.2)
      (Fingerprint.classify bytes real options) = some (s', isFallback'))
    (hspace : s'.transformer.space = s.transformer.space) :
    ∃ w', w'.volume = w₂.volume ∧ w'.tools = w₂.tools ∧
      ∀ crew' : Crew τ, (b.compile crew' call.2).run w₂ = (.ok r, w') := by
  obtain ⟨hbuilt', hopens, hsetting, hslots⟩ := build_ok hrun hexpand
  simp only [setting, Prod.mk.injEq] at hsetting
  obtain ⟨_, hdesks, _, _⟩ := hsetting
  obtain ⟨s₁, hreturns, hserves⟩ :=
    history.serves hfull hbuilt.isTidy hstart hcall hinspect hreturned
  obtain ⟨isFallback₁, hselect₁⟩ := hreturns.selected
  obtain ⟨rfl, _⟩ := Prod.mk.inj (Option.some.inj (hselect.symm.trans hselect₁))
  have hs := hbuilt.isTidy.slot?_of_select? hselect
  have hs' := hbuilt'.isTidy.slot?_of_select? hselect'
  have hleaves := (history.follows hbuilt.isTidy hstart).keeps.stands.leaves_of_spares hspares
  have hsame : s'.cache.store = s.cache.store := by
    have hnamed := hleaves.stands.named _ s hs
    rw [hbuilt.settings] at hnamed
    have hnamed' := (hslots _ s' hs').1
    rw [hspace, hnamed] at hnamed'
    exact (Option.some.inj hnamed').symm
  have hserves' : s'.cache.store.Serves w₂.volume
      (Fingerprint.classify bytes real options).cacheKey r := by
    rw [hsame]
    exact (hleaves.keeps.serves _ s _ r hs hserves).opens (hleaves.stands.places _ s hs) hopens
  have hproper : ∀ v ∈ w₂.volume :: past', AreProper v.here := by
    intro v hv
    rcases List.mem_cons.mp hv with rfl | hv
    · rw [hopens.here]
      exact hspares.here
    · exact hhere v hv
  exact run_compile_of_serves hbuilt'.isTidy (hrecalls.mono hdesks fun _ hv => hv) hproper
    hinspect' htold hselect' hserves'

/-- A host `a` has returned a result for a file. Then others spare its stores, and a host `b` is built
over them, with any transformers. If the slots that the two pick for the file have transformers of one
name and version, then `b` returns the result too, and asks nobody: whether the other transformers that
took part in the result have other versions now makes no difference. -/
theorem served_after_rebuilding {root : Path} {given : Settings}
    {types types' : List (String × Transformer)} {mode mode' : Option Bool}
    {fallback fallback' : Option Transformer} {w₁ w₂ : World τ}
    (hbuilt : a.IsBuilt root q types a.desk mode fallback given) (hfull : a.readOnly = false)
    (hstart : a.Follows options q d past w₀ [] w₀) (history : a.History crew q d past w₀ calls w)
    (hspares : Volume.Spares q d w.volume w₁.volume)
    (hexpand : root.expandHome? (w₁.environment.lookup "HOME") = some q)
    (hrun : (build root types' b.desk mode' fallback' given).run w₁ = (.ok b, w₂))
    {past' : List Volume} (hrecalls : w₁.Recalls b.desk options past')
    (hhere : ∀ v ∈ past', AreProper v.here)
    {call : World σ × String} (hcall : call ∈ calls) {real : Path} {bytes : List UInt8}
    {mtime mtime' : Int} {r : Artifact}
    (hinspect : call.1.volume.inspect (Path.ofText call.2) = .ok (real, bytes, mtime))
    (hreturned : ((a.compile crew call.2).run call.1).1 = .ok r)
    (hinspect' : w₂.volume.inspect (Path.ofText call.2) = .ok (real, bytes, mtime'))
    (htold : w₂.IsTold past' call.2) {s s' : Slot Cache} {isFallback isFallback' : Bool}
    (hselect : a.registry.select? (Path.ofText call.2)
      (Fingerprint.classify bytes real options) = some (s, isFallback))
    (hselect' : b.registry.select? (Path.ofText call.2)
      (Fingerprint.classify bytes real options) = some (s', isFallback'))
    (hname : s'.transformer.name = s.transformer.name)
    (hversion : s'.transformer.version = s.transformer.version) :
    ∃ w', w'.volume = w₂.volume ∧ w'.tools = w₂.tools ∧
      ∀ crew' : Crew τ, (b.compile crew' call.2).run w₂ = (.ok r, w') := by
  have hspace : s'.transformer.space = s.transformer.space := by
    rw [Transformer.space, Transformer.space, hname, hversion]
  exact served_of_space hbuilt hfull hstart history hspares hexpand hrun hrecalls hhere hcall hinspect
    hreturned hinspect' htold hselect hselect' hspace

end Rebuilding

/-! Two passes: the second transformer of a chain has a new version -/

namespace Bump

def cacheRoot : Path := ⟨"/", ["cache"]⟩

def given : Settings :=
  ⟨cacheRoot, .sqlite, false, 20, 8, "", "node_modules", 80, "INFO", "text", none, "10 MB", 3⟩

def first : Transformer := ⟨0, .custom "Chain", "first", "1", [MediaType.plainText]⟩

def second (handle : Nat) (version : String) : Transformer :=
  ⟨handle, .custom "Chain", "second", version, ["text/jsx"]⟩

def typesWith (t : Transformer) : List (String × Transformer) :=
  [(MediaType.plainText, first), ("text/jsx", t)]

/-- The second transformer writes its version behind the code. -/
def crew : Crew Unit where
  respond c s :=
    match c.question with
    | .accepts => (⟨.ok (.bool true), []⟩, s)
    | .dependencies => (⟨.ok (.arr []), []⟩, s)
    | .transform =>
      if c.transformer.name = "first" then
        (⟨.ok (Output.toJson ⟨c.code ++ "!", some "text/jsx"⟩), []⟩, s)
      else (⟨.ok (Output.toJson ⟨c.code ++ c.transformer.version, some "text/css"⟩), []⟩, s)
  pauses _ := 0

def world : World Unit where
  volume := ⟨[(["p.txt"], .file [97] 5)], [], 0⟩
  environment := []
  desks := [(0, .fresh .standard)]
  journal := []
  now := ⟨2024, 2, 29, 12, 0, 0, 0, none⟩
  tools := ()

def buildWith (t : Transformer) : Work Unit Host :=
  build cacheRoot (typesWith t) 0 none none given

def earlier : Host := (Work.left (buildWith (second 1 "1")) world).1

def built : World Unit := (Work.left (buildWith (second 1 "1")) world).2

/-- The earlier host has compiled the file. -/
def compiled : World Unit := ((earlier.compile crew "/p.txt").run built).2

def later : Host := (Work.left (buildWith (second 2 "2")) compiled).1

def rebuilt : World Unit := (Work.left (buildWith (second 2 "2")) compiled).2

def result : Artifact := ⟨some ⟨"a!1", "text/css"⟩, []⟩

def files : List (String × Path × List UInt8 × Int) := [("/p.txt", ⟨"/", ["p.txt"]⟩, [97], 5)]

/-- The transformer of the slot for the file. -/
def slotFor (h : Host) : Option (String × String) :=
  (h.registry.select? (Path.ofText "/p.txt")
    (Fingerprint.classify [97] ⟨"/", ["p.txt"]⟩ .standard)).map
      fun x => (x.1.transformer.name, x.1.transformer.version)

/-- The hosts are built and see the file, and the earlier one compiles it. Without a cache the later one
would make another result. -/
theorem computed : ((buildWith (second 1 "1")).run world).1.isOk = true ∧
    ((buildWith (second 2 "2")).run compiled).1.isOk = true ∧
    sees cacheRoot ["cache"] files built.volume = true ∧
    sees cacheRoot ["cache"] files rebuilt.volume = true ∧
    ((earlier.compile crew "/p.txt").run built).1.toOption = some result ∧
    slotFor earlier = some ("first", "1") ∧ slotFor later = some ("first", "1") ∧
    ((later.compileUncached crew "/p.txt"
      (Fingerprint.classify [97] ⟨"/", ["p.txt"]⟩ .standard) first).run rebuilt).1.toOption =
        some ⟨some ⟨"a!2", "text/css"⟩, []⟩ := by
  decide +kernel

theorem earlier_run : (buildWith (second 1 "1")).run world = (.ok earlier, built) :=
  Work.run_eq_left computed.1

theorem later_run : (buildWith (second 2 "2")).run compiled = (.ok later, rebuilt) :=
  Work.run_eq_left computed.2.1

theorem isSeen_built : IsSeen cacheRoot ["cache"] files built.volume := .of_sees computed.2.2.1

theorem isSeen_rebuilt : IsSeen cacheRoot ["cache"] files rebuilt.volume :=
  .of_sees computed.2.2.2.1

theorem earlier_compiles : ((earlier.compile crew "/p.txt").run built).1 = .ok result :=
  eq_ok_of_toOption computed.2.2.2.2.1

theorem slotFor_earlier : slotFor earlier = some ("first", "1") := computed.2.2.2.2.2.1

theorem slotFor_later : slotFor later = some ("first", "1") := computed.2.2.2.2.2.2.1

theorem expandHome?_cacheRoot (home : Option String) :
    cacheRoot.expandHome? home = some cacheRoot := by
  unfold Path.expandHome?
  rw [show cacheRoot.isAbsolute = true from by decide]

theorem world_isDate : world.now.IsDate := by
  constructor <;> simp [world, Instant.daysIn, Instant.isLeap]

/-- A host that is built over the file alone follows from where it was built. -/
theorem follows_of_build {types : List (String × Transformer)} {h : Host} {w : World Unit}
    (hrun : (build cacheRoot types 0 none none given).run world = (.ok h, w))
    (hroot : w.volume.IsRoot cacheRoot ["cache"]) :
    h.IsBuilt cacheRoot cacheRoot types h.desk none none given ∧
      h.Follows .standard cacheRoot ["cache"] [] w [] w := by
  obtain ⟨hbuilt, hopens, hsetting, _⟩ := build_ok hrun (expandHome?_cacheRoot _)
  simp only [setting, Prod.mk.injEq] at hsetting
  obtain ⟨_, hdesks, hnow, _⟩ := hsetting
  have hstands := stands_of_build hrun (expandHome?_cacheRoot _) hroot
  have hfresh : world.Recalls 0 .standard [] := World.recalls_fresh rfl
  refine ⟨by rw [hbuilt.desk]; exact hbuilt, Follows.start hstands ?_ ?_ ?_⟩
  · intro v hv
    rw [List.mem_singleton.mp hv, hopens.here]
    exact nofun
  · rw [hnow]
    exact world_isDate
  · rw [hbuilt.desk]
    exact hfresh.mono hdesks fun _ hv => hv

/-- A host compiles the file, and another host is built after it. -/
structure Succession (types types' : List (String × Transformer)) (a b : Host)
    (w w₁ w₂ : World Unit) : Prop where
  built : (build cacheRoot types 0 none none given).run world = (.ok a, w)
  rooted : w.volume.IsRoot cacheRoot ["cache"]
  there : w.volume.inspect (Path.ofText "/p.txt") = .ok (⟨"/", ["p.txt"]⟩, [97], 5)
  compiled : ((a.compile crew "/p.txt").run w).2 = w₁
  rebuilt : (build cacheRoot types' 0 none none given).run w₁ = (.ok b, w₂)
  still : w₂.volume.inspect (Path.ofText "/p.txt") = .ok (⟨"/", ["p.txt"]⟩, [97], 5)

namespace Succession

variable {types types' : List (String × Transformer)} {a b : Host} {w w₁ w₂ : World Unit}

theorem history (hs : Succession types types' a b w w₁ w₂) :
    a.History crew cacheRoot ["cache"] [] w [(w, "/p.txt")] w₁ := by
  rw [← hs.compiled]
  exact .compile "/p.txt" .start fun _ _ _ _ => nofun

theorem rebuilt_desk (hs : Succession types types' a b w w₁ w₂) :
    (build cacheRoot types' b.desk none none given).run w₁ = (.ok b, w₂) := by
  rw [(of_run_build hs.rebuilt).2.1]
  exact hs.rebuilt

theorem follows (hs : Succession types types' a b w w₁ w₂) :
    a.Follows .standard cacheRoot ["cache"] [] w [(w, "/p.txt")] w₁ := by
  obtain ⟨hbuilt, hstart⟩ := follows_of_build hs.built hs.rooted
  exact hs.history.follows hbuilt.isTidy hstart

theorem spares (hs : Succession types types' a b w w₁ w₂) :
    Volume.Spares cacheRoot ["cache"] w₁.volume w₁.volume :=
  ⟨hs.follows.keeps.stands.root, fun _ => rfl, hs.follows.here _ (List.mem_cons_self ..)⟩

theorem recalls (hs : Succession types types' a b w w₁ w₂) :
    w₁.Recalls b.desk .standard [w.volume] := by
  have hsame : b.desk = a.desk :=
    (of_run_build hs.rebuilt).2.1.trans (of_run_build hs.built).2.1.symm
  rw [hsame]
  exact hs.follows.recalls.mono rfl fun v hv => hv

theorem here (hs : Succession types types' a b w w₁ w₂) : ∀ v ∈ [w.volume], AreProper v.here :=
  fun v hv => hs.follows.here v (List.mem_cons_of_mem _ hv)

theorem isTold (hs : Succession types types' a b w w₁ w₂) : w₂.IsTold [w.volume] "/p.txt" := by
  intro real bytes mtime hsight v hv file bytes' hearlier _
  rw [hs.still] at hsight
  cases hsight
  rw [List.mem_singleton.mp hv] at hearlier
  exact (Volume.inspect_unique hs.there hearlier).1

end Succession

theorem of_slotFor {h : Host} {name version : String} (hslot : slotFor h = some (name, version)) :
    ∃ s isFallback, h.registry.select? (Path.ofText "/p.txt")
        (Fingerprint.classify [97] ⟨"/", ["p.txt"]⟩ .standard) = some (s, isFallback) ∧
      s.transformer.name = name ∧ s.transformer.version = version := by
  obtain ⟨⟨s, isFallback⟩, hselect, hpair⟩ := Option.map_eq_some_iff.mp hslot
  obtain ⟨hname, hversion⟩ := Prod.mk.inj hpair
  exact ⟨s, isFallback, hselect, hname, hversion⟩

theorem succession :
    Succession (typesWith (second 1 "1")) (typesWith (second 2 "2")) earlier later built compiled
      rebuilt where
  built := earlier_run
  rooted := isSeen_built.isRoot
  there := isSeen_built.inspects ("/p.txt", _, _, _) List.mem_cons_self
  compiled := compiled.eq_1.symm
  rebuilt := later_run
  still := isSeen_rebuilt.inspects ("/p.txt", _, _, _) List.mem_cons_self

/-- A slot of the same space serves what the earlier host has compiled. -/
theorem Succession.served {types types' : List (String × Transformer)} {a b : Host}
    {w w₁ w₂ : World Unit} (hs : Succession types types' a b w w₁ w₂) {r : Artifact}
    (hreturned : ((a.compile crew "/p.txt").run w).1 = .ok r) {name version name' version' : String}
    (hslot : slotFor a = some (name, version)) (hslot' : slotFor b = some (name', version'))
    (hspace : name' ++ "-" ++ version' = name ++ "-" ++ version) :
    ∃ w', w'.volume = w₂.volume ∧ w'.tools = w₂.tools ∧
      ∀ crew' : Crew Unit, (b.compile crew' "/p.txt").run w₂ = (.ok r, w') := by
  obtain ⟨hbuilt, hstart⟩ := follows_of_build hs.built hs.rooted
  obtain ⟨s, isFallback, hselect, rfl, rfl⟩ := of_slotFor hslot
  obtain ⟨s', isFallback', hselect', rfl, rfl⟩ := of_slotFor hslot'
  exact served_of_space hbuilt hbuilt.readOnly hstart hs.history hs.spares (expandHome?_cacheRoot _)
    hs.rebuilt_desk hs.recalls hs.here (List.mem_singleton_self (w, "/p.txt")) hs.there hreturned
    hs.still hs.isTold hselect hselect' hspace

end Bump

open Bump in
/-- The later host returns what the first version has made, and asks nobody. -/
theorem served_after_rebuilding_small :
    ∃ w', w'.volume = rebuilt.volume ∧ w'.tools = rebuilt.tools ∧
      ∀ crew' : Crew Unit, (later.compile crew' "/p.txt").run rebuilt = (.ok result, w') := by
  have hs := succession
  have hreturned := earlier_compiles
  have hslot := slotFor_earlier
  have hslot' := slotFor_later
  -- What follows holds of any such worlds: nothing is to be computed in these.
  generalize earlier = a, later = b, built = w, compiled = w₁, rebuilt = w₂ at *
  obtain ⟨hbuilt, hstart⟩ := follows_of_build hs.built hs.rooted
  obtain ⟨s, isFallback, hselect, hname, hversion⟩ := of_slotFor hslot
  obtain ⟨s', isFallback', hselect', hname', hversion'⟩ := of_slotFor hslot'
  exact served_after_rebuilding hbuilt hbuilt.readOnly hstart hs.history hs.spares
    (expandHome?_cacheRoot _) hs.rebuilt_desk hs.recalls hs.here
    (List.mem_singleton_self (w, "/p.txt")) hs.there hreturned hs.still hs.isTold hselect hselect'
    (hname'.trans hname.symm) (hversion'.trans hversion.symm)

open Bump in
/-- The second transformer of the later host has another version, and would make another result. The
later host returns what the first version has made. -/
theorem bumped_result_served :
    (buildWith (second 1 "1")).run world = (.ok earlier, built) ∧
    (buildWith (second 2 "2")).run compiled = (.ok later, rebuilt) ∧
    ((earlier.compile crew "/p.txt").run built).1 = .ok result ∧
    ((later.compile crew "/p.txt").run rebuilt).1 = .ok result ∧
    ((later.compileUncached crew "/p.txt"
      (Fingerprint.classify [97] ⟨"/", ["p.txt"]⟩ .standard) first).run rebuilt).1 =
        .ok ⟨some ⟨"a!2", "text/css"⟩, []⟩ := by
  refine ⟨earlier_run, later_run, earlier_compiles, ?_,
    eq_ok_of_toOption computed.2.2.2.2.2.2.2⟩
  obtain ⟨_, -, -, hserved⟩ := succession.served earlier_compiles slotFor_earlier slotFor_later rfl
  rw [hserved crew]

end Host
end AssetCompiler
