import AssetCompiler.Proofs.LikeVolumes

/-!
Storing an entry in a folder is atomic. Whatever the folder holds, a put that succeeds changes the file of its
key and nothing else. A put that fails once its new file is there leaves everything as it was, at whatever
point the file failed to be filled or to be moved.
-/
namespace AssetCompiler

theorem Keyed.set_append_self {κ ν : Type} [BEq κ] [LawfulBEq κ] {k : κ} (v w : ν) {t : Keyed κ ν}
    (h : k ∉ t.keys) : Keyed.set k v (t ++ [(k, w)]) = t ++ [(k, v)] := by
  induction t with
  | nil => simp [set]
  | cons e rest ih =>
    obtain ⟨k₀, v₀⟩ := e
    rw [keys, List.map_cons, List.mem_cons, not_or] at h
    rw [List.cons_append, set, if_neg (by simpa using Ne.symm h.1), ih h.2, List.cons_append]

theorem Keyed.erase_append_self {κ ν : Type} [BEq κ] [LawfulBEq κ] {k : κ} (v : ν) {t : Keyed κ ν}
    (h : k ∉ t.keys) : Keyed.erase k (t ++ [(k, v)]) = t := by
  have hrest : Keyed.erase k t = t := erase_of_not_mem h
  unfold erase at hrest ⊢
  rw [List.filter_append, hrest]
  simp

namespace Volume

/-! Volumes with the same nodes -/

/-- Two volumes that differ at most in the number of writes. -/
structure SameNodes (v v' : Volume) : Prop where
  nodes : v'.nodes = v.nodes
  here : v'.here = v.here

namespace SameNodes

variable {v v' : Volume}

theorem nodeAt? (h : SameNodes v v') (l : Location) : v'.nodeAt? l = v.nodeAt? l := by
  unfold Volume.nodeAt?
  rw [h.nodes]

theorem walk (h : SameNodes v v') (follow : Bool) (links : Nat) (stand : Location)
    (names : List String) : v'.walk follow links stand names = v.walk follow links stand names := by
  induction links using Nat.strongRecOn generalizing stand names with
  | ind links ihlinks =>
    induction names generalizing stand with
    | nil => rw [walk_nil, walk_nil]
    | cons name rest ih =>
      by_cases hname : name = ".."
      · rw [hname, walk_up, walk_up, ih]
      · rw [walk_cons hname, walk_cons hname, h.nodeAt?, ih]
        cases links with
        | zero => rfl
        | succ links => simp only [ihlinks links (Nat.lt_succ_self _)]

theorem locate (h : SameNodes v v') (follow : Bool) (p : Path) :
    v'.locate follow p = v.locate follow p := by
  unfold Volume.locate start
  rw [h.here, h.walk]

theorem stat (h : SameNodes v v') (p : Path) : v'.stat p = v.stat p := by
  unfold Volume.stat
  simp only [h.locate, h.nodeAt?]

theorem leadsAlike (h : SameNodes v v') (p : Path) : LeadsAlike v v' p := by
  rw [LeadsAlike, h.stat]

end SameNodes
end Volume

/-! Actions that fail -/

namespace Filing

variable {α : Type} {v v' : Volume} {f : Failure}

theorem of_onFailure_error {action : Filing α} {cleanUp : Filing Unit}
    (h : (onFailure action cleanUp).run v = (.error f, v')) :
    ∃ v₁, action.run v = (.error f, v₁) ∧ v' = (cleanUp.run v₁).2 := by
  rw [run_onFailure] at h
  rcases hrun : action.run v with ⟨r, v₁⟩
  rw [hrun] at h
  cases r with
  | ok a => exact absurd (congrArg Prod.fst h) nofun
  | error e =>
    refine ⟨v₁, ?_, (congrArg Prod.snd h).symm⟩
    rw [Except.error.inj (congrArg Prod.fst h)]

/-- A change that fails changes nothing. -/
theorem of_bind_change_error {action : Filing α} {g : Volume → Except Failure Volume}
    (h : (do let _ ← action; change g : Filing Unit).run v = (.error f, v')) : v' = (action.run v).2 := by
  rw [Action.run_bind] at h
  rcases hrun : action.run v with ⟨r, v₁⟩
  rw [hrun] at h
  cases r with
  | error e => exact (congrArg Prod.snd h).symm
  | ok a =>
    simp only [run_change] at h
    split at h
    · exact absurd (congrArg Prod.fst h) nofun
    · exact (congrArg Prod.snd h).symm

end Filing

namespace Store

open Volume

section SameNodes

variable {v v' : Volume} (now : Instant)

theorem readAll_of_sameNodes (h : SameNodes v v') (ps : List Path) :
    readAll now v' ps = readAll now v ps := by
  rw [readAll_eq_collect, readAll_eq_collect]
  exact congrArg collect (List.map_congr_left fun p _ => readFile_congr (h.leadsAlike p) now)

theorem rowsOf_of_sameNodes (h : SameNodes v v') (database : Path) :
    rowsOf v' database = rowsOf v database := by
  unfold rowsOf
  rw [h.stat]

/-- Every store finds what it found. -/
theorem get_of_sameNodes (h : SameNodes v v') (s : Store) (key : String) :
    ((s.get now key).run v').1 = ((s.get now key).run v).1 := by
  cases s with
  | folder root space =>
    change ((getFile now root key).run v').1 = ((getFile now root key).run v).1
    unfold getFile
    rw [Filing.run_look, Filing.run_look, (h.leadsAlike _).isThere, readFile_congr (h.leadsAlike _)]
  | table database space isOpen =>
    cases isOpen with
    | false => rfl
    | true => rw [run_get_table, run_get_table, rowsOf_of_sameNodes h]

/-- Every store lists what it listed. -/
theorem entries_of_sameNodes (h : SameNodes v v') (s : Store) :
    ((s.entries now).run v').1 = ((s.entries now).run v).1 := by
  cases s with
  | folder root space =>
    have hdirectory : v'.isDirectory root = v.isDirectory root := by
      unfold isDirectory probe
      rw [h.stat]
    have hfiles : entryFiles v' root = entryFiles v root := by
      unfold entryFiles namesIn below
      rw [h.stat, h.nodes]
    change ((Filing.look fun v => do
      if ← v.isDirectory root then readAll now v (entryFiles v root) else return []).run v').1 =
        ((Filing.look fun v => do
      if ← v.isDirectory root then readAll now v (entryFiles v root) else return []).run v).1
    rw [Filing.run_look, Filing.run_look, hdirectory, hfiles, readAll_of_sameNodes now h]
  | table database space isOpen =>
    cases isOpen with
    | false => rfl
    | true =>
      change ((Filing.look fun v => readRows now (rowsIn space (rowsOf v database))).run v').1 =
        ((Filing.look fun v => readRows now (rowsIn space (rowsOf v database))).run v).1
      rw [Filing.run_look, Filing.run_look, rowsOf_of_sameNodes h]

end SameNodes

/-! The name of a new file -/

theorem temporaryName_inj {n m : Nat} (h : temporaryName n = temporaryName m) :
    n % 100000000 = m % 100000000 := by
  have hlists := congrArg String.toList h
  simp only [temporaryName, String.toList_append, Text.decimal, String.toList_ofList] at hlists
  have hdigits := List.append_cancel_left (List.append_cancel_right hlists)
  rw [← Text.valueOf_toDigits (n % 100000000), hdigits, Text.valueOf_toDigits]

section Names

variable {v : Volume} {root : Path} {d : Location}

/-- The name is free, or those before it in the row are all taken. -/
theorem DirectoryAt.freshName_cases (h : DirectoryAt v root d) (fuel n : Nat) :
    v.nodeAt? (d ++ [freshName v root fuel n]) = none ∨
      ∀ i < fuel, (v.nodeAt? (d ++ [temporaryName (n + i)])).isSome := by
  induction fuel generalizing n with
  | zero => exact Or.inr fun i hi => absurd hi (Nat.not_lt_zero i)
  | succ fuel ih =>
    rw [freshName, h.locate_short (IsTemporary.isShort ⟨n, rfl⟩)]
    simp only
    split
    · rename_i htaken
      refine (ih (n + 1)).imp_right fun hall i hi => ?_
      cases i with
      | zero => exact htaken
      | succ i =>
        rw [show n + (i + 1) = n + 1 + i by omega]
        exact hall i (by omega)
    · rename_i hfree
      exact Or.inl (Option.not_isSome_iff_eq_none.mp hfree)

/-- A free name is found where there is one: the row is longer than the number of nodes, and goes through
all names if it is long enough. -/
theorem DirectoryAt.freshName_free (h : DirectoryAt v root d) (n : Nat)
    (hfree : ∃ name, IsTemporary name ∧ v.nodeAt? (d ++ [name]) = none) :
    v.nodeAt? (d ++ [freshName v root (v.nodes.length + 1) n]) = none := by
  refine (h.freshName_cases (v.nodes.length + 1) n).resolve_right fun hall => ?_
  by_cases hmany : 100000000 ≤ v.nodes.length + 1
  · obtain ⟨_, ⟨m, rfl⟩, hnone⟩ := hfree
    have hsame : temporaryName (n + (m + 100000000 - n % 100000000) % 100000000) = temporaryName m := by
      have hmod : (n + (m + 100000000 - n % 100000000) % 100000000) % 100000000 = m % 100000000 := by
        omega
      unfold temporaryName
      rw [hmod]
    have htaken := hall ((m + 100000000 - n % 100000000) % 100000000) (by omega)
    rw [hsame, hnone] at htaken
    cases htaken
  · -- So many different locations are taken as there are no nodes.
    have hnodup : ((List.range (v.nodes.length + 1)).map fun i => d ++ [temporaryName (n + i)]).Nodup := by
      refine (List.nodup_map_iff_inj_on List.nodup_range).mpr fun i hi j hj heq => ?_
      rw [List.mem_range] at hi hj
      have hmod := temporaryName_inj (List.cons.inj (List.append_cancel_left heq)).1
      omega
    have hsubset : ((List.range (v.nodes.length + 1)).map fun i => d ++ [temporaryName (n + i)]) ⊆
        v.nodes.keys := by
      intro l hl
      obtain ⟨i, hi, rfl⟩ := List.mem_map.mp hl
      obtain ⟨node, hnode⟩ := Option.isSome_iff_exists.mp (hall i (List.mem_range.mp hi))
      exact List.mem_map_of_mem (mem_of_nodeAt? ne_root_of_append hnode)
    have hlength := (List.subperm_of_subset hnodup hsubset).length_le
    rw [List.length_map, List.length_range, Keyed.keys, List.length_map] at hlength
    omega

end Names

/-! One more file -/

/-- A volume with one more file. -/
structure Adds (v : Volume) (l : Location) (bytes : List UInt8) (v' : Volume) : Prop where
  absent : v.nodeAt? l = none
  here : v'.here = v.here
  nodes : ∃ mtime, v'.nodes = v.nodes ++ [(l, .file bytes mtime)]

namespace Adds

variable {v v' : Volume} {root : Path} {d l : Location} {bytes : List UInt8}

theorem ne_root (h : Adds v l bytes v') : l ≠ [] :=
  ne_root_of_nodeAt? (by rw [h.absent]; exact nofun)

theorem not_mem (h : Adds v l bytes v') : l ∉ v.nodes.keys := by
  have habsent := h.absent
  rw [nodeAt?, if_neg (by simpa using h.ne_root)] at habsent
  exact Keyed.find?_eq_none_iff.mp habsent

theorem begin_file (hl : l ≠ []) (habsent : v.nodeAt? l = none) (mtime : Int) :
    Adds v l bytes (v.put l (.file bytes mtime)).tick := by
  have hnot : l ∉ v.nodes.keys := by
    rw [nodeAt?, if_neg (by simpa using hl)] at habsent
    exact Keyed.find?_eq_none_iff.mp habsent
  exact ⟨habsent, rfl, mtime, Keyed.set_of_not_mem _ hnot⟩

theorem sameNodes (h : Adds v l bytes v') :
    ∃ mtime, SameNodes (v.put l (.file bytes mtime)) v' := by
  obtain ⟨mtime, hnodes⟩ := h.nodes
  exact ⟨mtime, hnodes.trans (Keyed.set_of_not_mem _ h.not_mem).symm, h.here⟩

theorem file (h : Adds v l bytes v') : ∃ mtime, v'.nodeAt? l = some (.file bytes mtime) := by
  obtain ⟨mtime, hsame⟩ := h.sameNodes
  exact ⟨mtime, by rw [hsame.nodeAt?, nodeAt?_put_self v _ h.ne_root]⟩

theorem nodeAt?_of_ne (h : Adds v l bytes v') {l' : Location} (hne : l' ≠ l) :
    v'.nodeAt? l' = v.nodeAt? l' := by
  obtain ⟨mtime, hsame⟩ := h.sameNodes
  rw [hsame.nodeAt?, nodeAt?_put_of_ne v _ hne]

theorem grows (h : Adds v l bytes v') : Grows v v' := by
  refine ⟨h.here, fun l' hl' => ?_, fun l' target => ?_⟩
  · rw [h.nodeAt?_of_ne, hl']
    rintro rfl
    rw [h.absent] at hl'
    cases hl'
  · by_cases hne : l' = l
    · obtain ⟨mtime, hfile⟩ := h.file
      rw [hne, hfile, h.absent]
      exact iff_of_false nofun nofun
    · rw [h.nodeAt?_of_ne hne]

/-- The file gets other content. -/
theorem refill (h : Adds v l bytes v') {v'' : Volume} {bytes' : List UInt8} {mtime : Int}
    (hsame : SameNodes (v'.put l (.file bytes' mtime)) v'') : Adds v l bytes' v'' := by
  obtain ⟨_, hnodes⟩ := h.nodes
  refine ⟨h.absent, hsame.here.trans h.here, mtime, ?_⟩
  rw [hsame.nodes, Volume.put, hnodes]
  exact Keyed.set_append_self _ _ h.not_mem

/-- Without the file, everything is as it was. -/
theorem nodes_drop (h : Adds v l bytes v') : (v'.drop l).nodes = v.nodes := by
  obtain ⟨_, hnodes⟩ := h.nodes
  rw [drop, hnodes]
  exact Keyed.erase_append_self _ h.not_mem

end Adds

/-! Filling the new file -/

/-- What fills a new file may fail, and may leave any content in it, but it touches nothing else. -/
def FillsOnly (root : Path) (fill : Path → Filing Unit) : Prop :=
  ∀ {v v' : Volume} {d : Location} {name : String} {bytes : List UInt8}, DirectoryAt v root d →
    IsTemporary name → Adds v (d ++ [name]) bytes v' →
    ∃ bytes', Adds v (d ++ [name]) bytes' ((fill (root.child name)).run v').2

/-- Moves the new file to the place of a key. -/
def moveEntry (root : Path) (key : String) (p : Path) (v : Volume) : Except Failure Volume :=
  if hasZero (entryPath root key) then .error (.badValue .zeroInPath) else v.rename p (entryPath root key)

/-- Storing an entry in a folder, with any way to fill the new file and any way to move it. -/
def putThrough (fill : Path → Filing Unit) (move : Path → Volume → Except Failure Volume)
    (root : Path) : Filing Unit := do
  Filing.makeDirectories root
  let v ← MonadState.get
  let temporary := root.child (freshName v root (v.nodes.length + 1) v.clock)
  Filing.write temporary []
  Filing.onFailure
    (do
      fill temporary
      Filing.change (move temporary))
    (Filing.change fun v => v.unlink temporary)

/-- Writes an entry into the new file. -/
def writeEntry (e : Entry) (p : Path) : Filing Unit :=
  Filing.write p (Text.Utf8.ofString (Json.write .pages e.toJson))

theorem put_eq_putThrough (root : Path) (space key : String) (e : Entry) :
    (folder root space).put key e = putThrough (writeEntry e) (moveEntry root key) root := rfl

/-- The parts of a put after its new file is there. -/
def finish (fill : Path → Filing Unit) (move : Path → Volume → Except Failure Volume)
    (temporary : Path) : Filing Unit :=
  Filing.onFailure
    (do
      fill temporary
      Filing.change (move temporary))
    (Filing.change fun v => v.unlink temporary)

section Puts

/-- A directory that has been made is there. -/
theorem directoryAt_of_makeDirectories {v v₁ : Volume} {root : Path} {d : Location}
    (hmade : v.makeDirectories root = .ok v₁) (hlocated : v₁.locate true root = .ok d) :
    DirectoryAt v₁ root d := by
  obtain ⟨hzero, _, d', hlocated', hdirectory⟩ := makeDirectories_ok hmade
  rw [hlocated] at hlocated'
  cases hlocated'
  exact ⟨hzero, hlocated, hdirectory⟩

variable {v v₁ v' : Volume} {root : Path} {d : Location} {key name : String}
variable {bytes : List UInt8} {fill : Path → Filing Unit}
variable {move : Path → Volume → Except Failure Volume}

theorem run_writeEntry (h : DirectoryAt v root d) (hname : IsTemporary name)
    (hadds : Adds v (d ++ [name]) bytes v') (e : Entry) :
    ∃ v'', (writeEntry e (root.child name)).run v' = (.ok (), v'') ∧
      Adds v (d ++ [name]) (Text.Utf8.ofString (Json.write .pages e.toJson)) v'' := by
  obtain ⟨mtime, hfile⟩ := hadds.file
  have hwrite := (h.grows hadds.grows).write_ok hname.isShort
    (show IsLeaf (v'.nodeAt? (d ++ [name])) by rw [hfile]; exact isLeaf_file _ _)
    (Text.Utf8.ofString (Json.write .pages e.toJson))
  refine ⟨(v'.put (d ++ [name])
    (.file (Text.Utf8.ofString (Json.write .pages e.toJson)) v'.writeTime)).tick, ?_,
    hadds.refill ⟨rfl, rfl⟩⟩
  rw [writeEntry, Filing.write, Filing.run_change, hwrite]

theorem fillsOnly_writeEntry (root : Path) (e : Entry) : FillsOnly root (writeEntry e) := by
  intro v v' d name bytes h hname hadds
  obtain ⟨v'', hrun, hadds'⟩ := run_writeEntry h hname hadds e
  rw [hrun]
  exact ⟨_, hadds'⟩

/-- How a put goes on when its new file is there. -/
theorem DirectoryAt.run_putThrough (h : DirectoryAt v₁ root d)
    (hmade : v.makeDirectories root = .ok v₁)
    (hfree : ∃ name, IsTemporary name ∧ v₁.nodeAt? (d ++ [name]) = none)
    (fill : Path → Filing Unit) (move : Path → Volume → Except Failure Volume) :
    ∃ name v₂, IsTemporary name ∧ Adds v₁ (d ++ [name]) [] v₂ ∧
      (putThrough fill move root).run v = (finish fill move (root.child name)).run v₂ := by
  have hmade' : (Filing.makeDirectories root).run v = (.ok (), v₁) := by
    rw [Filing.makeDirectories, Filing.run_change, hmade]
  have hname := isTemporary_freshName v₁ root (v₁.nodes.length + 1) v₁.clock
  have habsent := h.freshName_free v₁.clock hfree
  unfold putThrough
  rw [Action.run_bind_ok hmade', Action.run_bind_ok (Action.run_get v₁)]
  generalize freshName v₁ root (v₁.nodes.length + 1) v₁.clock = name at hname habsent
  have hbegun : (Filing.write (root.child name) []).run v₁ =
      (.ok (), (v₁.put (d ++ [name]) (.file [] v₁.writeTime)).tick) := by
    rw [Filing.write, Filing.run_change,
      h.write_ok hname.isShort (by rw [habsent]; exact isLeaf_none)]
  refine ⟨name, _, hname, Adds.begin_file ne_root_of_append habsent v₁.writeTime, ?_⟩
  rw [Action.run_bind_ok hbegun]
  rfl

theorem DirectoryAt.unlink_added (h : DirectoryAt v root d) (hname : IsTemporary name)
    (hadds : Adds v (d ++ [name]) bytes v') :
    SameNodes v ((Filing.change fun v => v.unlink (root.child name)).run v').2 := by
  obtain ⟨mtime, hfile⟩ := hadds.file
  rw [Filing.run_change, (h.grows hadds.grows).unlink_ok hname.isShort hfile nofun]
  exact ⟨hadds.nodes_drop, hadds.here⟩

/-- A put that fails leaves everything as it was, however its file was to be filled and to be moved. -/
theorem DirectoryAt.putThrough_error (h : DirectoryAt v₁ root d)
    (hmade : v.makeDirectories root = .ok v₁)
    (hfree : ∃ name, IsTemporary name ∧ v₁.nodeAt? (d ++ [name]) = none) (hfill : FillsOnly root fill)
    {f : Failure} (hrun : (putThrough fill move root).run v = (.error f, v')) : SameNodes v₁ v' := by
  obtain ⟨name, v₂, hname, hadds, hput⟩ := h.run_putThrough hmade hfree fill move
  obtain ⟨bytes, hfilled⟩ := hfill h hname hadds
  rw [hput] at hrun
  obtain ⟨v₃, hfailed, hv'⟩ := Filing.of_onFailure_error hrun
  rw [← Filing.of_bind_change_error hfailed] at hfilled
  rw [hv']
  exact h.unlink_added hname hfilled

/-- How moving the new file to its place ends. -/
theorem DirectoryAt.moveEntry_added (h : DirectoryAt v root d) (hname : IsTemporary name)
    (hadds : Adds v (d ++ [name]) bytes v') (key : String) :
    (∃ v'' mtime, moveEntry root key (root.child name) v' = .ok v'' ∧
      putOutcome root key (v.nodeAt? (d ++ [fileName key])) = .ok () ∧
      SameNodes (v.put (d ++ [fileName key]) (.file bytes mtime)) v'') ∨
    ∃ f, moveEntry root key (root.child name) v' = .error f ∧
      putOutcome root key (v.nodeAt? (d ++ [fileName key])) = .error f.withoutSource := by
  have h' := h.grows hadds.grows
  obtain ⟨mtime, hfile⟩ := hadds.file
  have hsource := h'.locate_short hname.isShort
  have hgoal := h'.locate_unfollowed (isName_fileName key)
  have hentry : v'.nodeAt? (d ++ [fileName key]) = v.nodeAt? (d ++ [fileName key]) :=
    hadds.nodeAt?_of_ne (fileName_apart hname d key)
  unfold putOutcome moveEntry
  by_cases hzero : hasZero (entryPath root key) = true
  · rw [if_pos hzero, if_pos hzero]
    exact Or.inr ⟨_, rfl, rfl⟩
  rw [if_neg hzero, if_neg hzero, Volume.rename, hsource]
  unfold entryPath
  rw [← fileName, hgoal]
  by_cases hlong : nameLimit < (fileName key).utf8ByteSize
  · simp only [hlong, if_true]
    exact Or.inr ⟨_, rfl, rfl⟩
  by_cases hdirectory : v.nodeAt? (d ++ [fileName key]) = some .directory
  · simp only [hlong, if_false, hfile, hentry, hdirectory, List.dropLast_concat, h'.directory]
    exact Or.inr ⟨_, rfl, rfl⟩
  · refine Or.inl ⟨(v'.drop (d ++ [name])).put (d ++ [fileName key]) (.file bytes mtime), mtime, ?_, ?_, ?_,
      hadds.here⟩
    · simp only [hlong, if_false, hfile, hentry, List.dropLast_concat, h'.directory]
    · simp only [hlong, if_false, hdirectory]
    · rw [Volume.put, hadds.nodes_drop]
      rfl

/-- How a put ends. -/
theorem DirectoryAt.run_put (h : DirectoryAt v₁ root d) (hmade : v.makeDirectories root = .ok v₁)
    (hfree : ∃ name, IsTemporary name ∧ v₁.nodeAt? (d ++ [name]) = none) (space key : String)
    (e : Entry) :
    (∃ v' mtime, ((folder root space).put key e).run v = (.ok (), v') ∧
      putOutcome root key (v₁.nodeAt? (d ++ [fileName key])) = .ok () ∧
      SameNodes (v₁.put (d ++ [fileName key])
        (.file (Text.Utf8.ofString (Json.write .pages e.toJson)) mtime)) v') ∨
    ∃ f v', ((folder root space).put key e).run v = (.error f, v') ∧
      putOutcome root key (v₁.nodeAt? (d ++ [fileName key])) = .error f.withoutSource := by
  rw [put_eq_putThrough]
  obtain ⟨name, v₂, hname, hadds, hput⟩ := h.run_putThrough hmade hfree (writeEntry e) (moveEntry root key)
  obtain ⟨v₃, hwritten, hfilled⟩ := run_writeEntry h hname hadds e
  rw [hput, finish, Filing.run_onFailure, Action.run_bind_ok hwritten, Filing.run_change]
  rcases h.moveEntry_added hname hfilled key with ⟨v', mtime, hmove, hends, hsame⟩ | ⟨f, hmove, hends⟩
  · rw [hmove]
    exact Or.inl ⟨v', mtime, rfl, hends, hsame⟩
  · rw [hmove]
    exact Or.inr ⟨f, _, rfl, hends⟩

theorem DirectoryAt.put_outcome (h : DirectoryAt v₁ root d) (hmade : v.makeDirectories root = .ok v₁)
    (hfree : ∃ name, IsTemporary name ∧ v₁.nodeAt? (d ++ [name]) = none) (space key : String)
    (e : Entry) :
    (((folder root space).put key e).run v).1.mapError Failure.withoutSource =
      putOutcome root key (v₁.nodeAt? (d ++ [fileName key])) := by
  rcases h.run_put hmade hfree space key e with ⟨v', _, hput, hends, _⟩ | ⟨f, v', hput, hends⟩
  · rw [hput, hends]
    rfl
  · rw [hput, hends]
    rfl

theorem DirectoryAt.put_ok (h : DirectoryAt v₁ root d) (hmade : v.makeDirectories root = .ok v₁)
    (hfree : ∃ name, IsTemporary name ∧ v₁.nodeAt? (d ++ [name]) = none) {space : String} {e : Entry}
    (hrun : ((folder root space).put key e).run v = (.ok (), v')) :
    putOutcome root key (v₁.nodeAt? (d ++ [fileName key])) = .ok () ∧
      ∃ mtime, SameNodes (v₁.put (d ++ [fileName key])
        (.file (Text.Utf8.ofString (Json.write .pages e.toJson)) mtime)) v' := by
  rcases h.run_put hmade hfree space key e with ⟨v₂, mtime, hput, hends, hsame⟩ | ⟨f, v₂, hput, _⟩
  · rw [hrun] at hput
    obtain rfl : v' = v₂ := congrArg Prod.snd hput
    exact ⟨hends, mtime, hsame⟩
  · rw [hrun] at hput
    exact absurd (congrArg Prod.fst hput) nofun

/-- A put changes the file of its key at most. -/
theorem DirectoryAt.nodeAt?_put (h : DirectoryAt v root d)
    (hfree : ∃ name, IsTemporary name ∧ v.nodeAt? (d ++ [name]) = none) (space : String) (e : Entry)
    {l : Location} (hl : l ≠ d ++ [fileName key]) :
    (((folder root space).put key e).run v).2.nodeAt? l = v.nodeAt? l := by
  have hmade := makeDirectories_of_isDirectory h.zero ⟨d, h.located, h.directory⟩
  rcases hrun : ((folder root space).put key e).run v with ⟨r, v'⟩
  cases r with
  | ok u =>
    obtain ⟨-, mtime, hsame⟩ := h.put_ok hmade hfree hrun
    exact (hsame.nodeAt? l).trans (nodeAt?_put_of_ne v _ hl)
  | error f =>
    rw [put_eq_putThrough] at hrun
    exact (h.putThrough_error hmade hfree (fillsOnly_writeEntry root e) hrun).nodeAt? l

/-- Where an entry takes the place of no link, the folder stays where it is: only a link could have been on
the way to it. -/
theorem DirectoryAt.located_put (h : DirectoryAt v root d)
    (hlink : ∀ target, v.nodeAt? (d ++ [fileName key]) ≠ some (.link target)) {mtime : Int}
    (hdirectory : v.nodeAt? (d ++ [fileName key]) ≠ some .directory)
    (hsame : SameNodes (v.put (d ++ [fileName key]) (.file bytes mtime)) v') :
    v'.locate true root = .ok d := by
  have hgrows : Grows v v' := by
    refine ⟨hsame.here, fun l hl => ?_, fun l target => ?_⟩
    · rw [hsame.nodeAt?, nodeAt?_put_of_ne v _ (by rintro rfl; exact hdirectory hl), hl]
    · by_cases hl : l = d ++ [fileName key]
      · rw [hl, hsame.nodeAt?, nodeAt?_put_self v _ ne_root_of_append]
        exact iff_of_false nofun (hlink target)
      · rw [hsame.nodeAt?, nodeAt?_put_of_ne v _ hl]
  exact hgrows.locate h.located

theorem putOutcome_ok {standing : Option Node} (h : putOutcome root key standing = .ok ()) :
    hasZero (entryPath root key) = false ∧ ¬ nameLimit < (fileName key).utf8ByteSize ∧
      standing ≠ some .directory := by
  unfold putOutcome at h
  split at h
  · cases h
  rename_i hzero
  split at h
  · cases h
  rename_i hshort
  split at h
  · cases h
  rename_i hdirectory
  exact ⟨Bool.eq_false_iff.mpr hzero, hshort, hdirectory⟩

/-- An entry that was put is found. -/
theorem DirectoryAt.get_put (h : DirectoryAt v root d) {e : Entry} (hdate : e.createdAt.IsDate)
    {mtime : Int} (hends : putOutcome root key (v.nodeAt? (d ++ [fileName key])) = .ok ())
    (hsame : SameNodes (v.put (d ++ [fileName key])
      (.file (Text.Utf8.ofString (Json.write .pages e.toJson)) mtime)) v')
    (hlocated : v'.locate true root = .ok d) (now : Instant) :
    (getFile now root key).run v' = (.ok (.found e), v') := by
  obtain ⟨hzero, hshort, hdirectory⟩ := putOutcome_ok hends
  have hnode : v'.nodeAt? (d ++ [fileName key]) =
      some (.file (Text.Utf8.ofString (Json.write .pages e.toJson)) mtime) := by
    rw [hsame.nodeAt?, nodeAt?_put_self v _ ne_root_of_append]
  have hstays : v'.nodeAt? d = some .directory := by
    rw [hsame.nodeAt?, nodeAt?_put_of_ne v _ (by simp), h.directory]
  have hlocate := locate_child true hlocated hstays (isName_fileName key) (by rw [hnode]; exact nofun)
  rw [if_neg hshort] at hlocate
  exact getFile_of_stat now hdate hzero (stat_eq_ok_iff.mpr ⟨hlocate, hnode⟩)

end Puts

/-- Storing an entry in a folder is atomic, whatever is in the folder, a directory in the entry's place
included. How it ends is told by what stands in that place. If it ends well, the file of the key holds the
entry and nothing else has changed; and the entry is found where the folder was, unless the file has taken
the place of a link that led there. If it fails once the new file is there, while the
entry is written, in whatever way that is done and however far it came, or while the file is moved, in
whatever way, then everything is as it was, and so are all answers of all stores. Before all that the folder
is made if it is not there. -/
theorem put_atomic {v v₁ : Volume} {root : Path} {d : Location}
    (hmade : v.makeDirectories root = .ok v₁) (hlocated : v₁.locate true root = .ok d)
    (hfree : ∃ name, IsTemporary name ∧ v₁.nodeAt? (d ++ [name]) = none) (space key : String)
    (e : Entry) :
    (IsDirectory v root → v₁ = v) ∧
    (((folder root space).put key e).run v).1.mapError Failure.withoutSource =
      putOutcome root key (v₁.nodeAt? (d ++ [fileName key])) ∧
    (∀ v', ((folder root space).put key e).run v = (.ok (), v') →
      (∃ mtime, SameNodes (v₁.put (d ++ [fileName key])
        (.file (Text.Utf8.ofString (Json.write .pages e.toJson)) mtime)) v') ∧
      ((∀ target, v₁.nodeAt? (d ++ [fileName key]) ≠ some (.link target)) → v'.locate true root = .ok d) ∧
      (v'.locate true root = .ok d → e.createdAt.IsDate → ∀ now,
        ((folder root space).get now key).run v' = (.ok (.found e), v'))) ∧
    (folder root space).put key e = putThrough (writeEntry e) (moveEntry root key) root ∧
    FillsOnly root (writeEntry e) ∧
    ∀ fill move f v', FillsOnly root fill → (putThrough fill move root).run v = (.error f, v') →
      SameNodes v₁ v' ∧
      (∀ (s : Store) now key', ((s.get now key').run v').1 = ((s.get now key').run v₁).1) ∧
      ∀ (s : Store) now, ((s.entries now).run v').1 = ((s.entries now).run v₁).1 := by
  have h := directoryAt_of_makeDirectories hmade hlocated
  refine ⟨fun hthere => ?_, h.put_outcome hmade hfree space key e, fun v' hrun => ?_,
    put_eq_putThrough root space key e, fillsOnly_writeEntry root e, fun fill move f v' hfill hrun => ?_⟩
  · rw [makeDirectories_of_isDirectory h.zero hthere] at hmade
    exact (Except.ok.inj hmade).symm
  · obtain ⟨hends, mtime, hsame⟩ := h.put_ok hmade hfree hrun
    exact ⟨⟨mtime, hsame⟩, fun hlink => h.located_put hlink (putOutcome_ok hends).2.2 hsame,
      fun hlocated' hdate now => h.get_put hdate hends hsame hlocated' now⟩
  · have hsame := h.putThrough_error hmade hfree hfill hrun
    exact ⟨hsame, fun s now key' => get_of_sameNodes now hsame s key',
      fun s now => entries_of_sameNodes now hsame s⟩

/-! An entry that is put into an empty folder, and into one where its place is occupied -/

/-- A folder with a directory in the place of an entry. -/
def occupiedFolder : Volume :=
  ⟨[(["cache"], .directory), (["cache", "shrink-1"], .directory),
    (["cache", "shrink-1", fileName someKey], .directory)], [], 0⟩

theorem makeDirectories_emptyFolder :
    emptyFolder.makeDirectories ⟨"/", ["cache", "shrink-1"]⟩ = .ok emptyFolder :=
  makeDirectories_of_isDirectory (by decide) ⟨["cache", "shrink-1"], by decide, by decide⟩

theorem makeDirectories_occupiedFolder :
    occupiedFolder.makeDirectories ⟨"/", ["cache", "shrink-1"]⟩ = .ok occupiedFolder :=
  makeDirectories_of_isDirectory (by decide) ⟨["cache", "shrink-1"], by decide, by decide⟩

theorem isLeaf_emptyFolder :
    IsLeaf (emptyFolder.nodeAt? (["cache", "shrink-1"] ++ [fileName someKey])) := by
  have hvacant : emptyFolder.nodeAt? (["cache", "shrink-1"] ++ [fileName someKey]) = none := by decide
  rw [hvacant]
  exact isLeaf_none

theorem putOutcome_someKey (standing : Option Node) :
    putOutcome ⟨"/", ["cache", "shrink-1"]⟩ someKey standing =
      if standing = some .directory then
        .error (.move .isDirectory "" (entryPath ⟨"/", ["cache", "shrink-1"]⟩ someKey).text)
      else .ok () := by
  have hshort := isKey_someKey.isShort
  have hzero : ¬ hasZero (entryPath ⟨"/", ["cache", "shrink-1"]⟩ someKey) = true :=
    Bool.eq_false_iff.mp (hasZero_child (by decide) hshort.isName hshort.zero)
  rw [putOutcome, if_neg hzero, if_neg hshort.short]

theorem put_atomic_occupied :
    (∃ v', ((folder ⟨"/", ["cache", "shrink-1"]⟩ "shrink-1").put someKey someEntry).run emptyFolder =
        (.ok (), v') ∧
      ∀ now, ((folder ⟨"/", ["cache", "shrink-1"]⟩ "shrink-1").get now someKey).run v' =
        (.ok (.found someEntry), v')) ∧
    ∃ f v', ((folder ⟨"/", ["cache", "shrink-1"]⟩ "shrink-1").put someKey someEntry).run occupiedFolder =
        (.error f, v') ∧
      f.withoutSource = .move .isDirectory "" (entryPath ⟨"/", ["cache", "shrink-1"]⟩ someKey).text ∧
      SameNodes occupiedFolder v' := by
  obtain ⟨-, hends, hstored, -⟩ := put_atomic makeDirectories_emptyFolder (d := ["cache", "shrink-1"])
    (by decide) ⟨temporaryName 0, ⟨0, rfl⟩, by decide⟩ "shrink-1" someKey someEntry
  obtain ⟨-, hends', -, hthrough, hfills, hfailed⟩ := put_atomic makeDirectories_occupiedFolder
    (d := ["cache", "shrink-1"]) (by decide) ⟨temporaryName 0, ⟨0, rfl⟩, by decide⟩ "shrink-1" someKey
    someEntry
  have hoccupied : occupiedFolder.nodeAt? (["cache", "shrink-1"] ++ [fileName someKey]) =
      some .directory := by decide
  rw [putOutcome_someKey, if_neg isLeaf_emptyFolder.1] at hends
  rw [hoccupied, putOutcome_someKey, if_pos rfl] at hends'
  constructor
  · rcases hrun : ((folder ⟨"/", ["cache", "shrink-1"]⟩ "shrink-1").put someKey someEntry).run
      emptyFolder with ⟨r, v'⟩
    rw [hrun] at hends
    cases r with
    | error f => cases hends
    | ok _ =>
      obtain ⟨-, hlocated, hfound⟩ := hstored v' hrun
      exact ⟨v', rfl, hfound (hlocated isLeaf_emptyFolder.2) isDate_someEntry⟩
  · rcases hrun : ((folder ⟨"/", ["cache", "shrink-1"]⟩ "shrink-1").put someKey someEntry).run
      occupiedFolder with ⟨r, v'⟩
    rw [hrun] at hends'
    cases r with
    | ok _ => cases hends'
    | error f =>
      rw [hthrough] at hrun
      exact ⟨f, v', rfl, Except.error.inj hends', (hfailed _ _ f v' hfills hrun).1⟩

end Store
end AssetCompiler
