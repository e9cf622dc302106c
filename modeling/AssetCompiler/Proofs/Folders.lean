import AssetCompiler.Proofs.CacheKeys

/-!
Folders without directories in them. A store that keeps its entries there can always write one: the
name that it gets first is short enough and free, and so is the name of the key. What writing and
removing an entry do to the nodes is said exactly.
-/
namespace AssetCompiler

theorem Text.length_decimal_le {n k : Nat} (hk : 0 < k) (h : n < 10 ^ k) :
    (decimal n).toList.length ≤ k := by
  rw [decimal, String.toList_ofList]
  exact (Nat.length_toDigits_le_iff (b := 10) (by decide) hk).mpr h

namespace Path

theorem mem_intercalate {c : Char} {parts : List String}
    (h : c ∈ ("/".intercalate parts).toList) : c = '/' ∨ ∃ part ∈ parts, c ∈ part.toList := by
  induction parts with
  | nil => simp at h
  | cons a rest ih =>
    cases rest with
    | nil =>
      rw [String.intercalate_singleton] at h
      exact Or.inr ⟨a, List.mem_cons_self, h⟩
    | cons b rest =>
      rw [String.intercalate_cons_cons, String.toList_append, String.toList_append,
        List.mem_append, List.mem_append] at h
      rcases h with (h | h) | h
      · exact Or.inr ⟨a, List.mem_cons_self, h⟩
      · exact Or.inl (by simpa using h)
      · rcases ih h with h | ⟨part, hpart, h⟩
        · exact Or.inl h
        · exact Or.inr ⟨part, List.mem_cons_of_mem _ hpart, h⟩

theorem mem_intercalate_of_mem {c : Char} {part : String} {parts : List String}
    (hpart : part ∈ parts) (h : c ∈ part.toList) : c ∈ ("/".intercalate parts).toList := by
  induction parts with
  | nil => cases hpart
  | cons a rest ih =>
    cases rest with
    | nil =>
      rw [List.mem_singleton] at hpart
      rw [String.intercalate_singleton, ← hpart]
      exact h
    | cons b rest =>
      rw [String.intercalate_cons_cons, String.toList_append, String.toList_append]
      rcases List.mem_cons.mp hpart with rfl | hrest
      · exact List.mem_append_left _ (List.mem_append_left _ h)
      · exact List.mem_append_right _ (ih hrest)

end Path

namespace Volume

theorem hasZero_eq_false_iff {p : Path} :
    hasZero p = false ↔ Char.ofNat 0 ∉ p.text.toList := by
  rw [hasZero, Bool.eq_false_iff, ne_eq, List.contains_iff_mem]

/-- A path stays without a zero in it when a name without one is added. -/
theorem hasZero_child {p : Path} {name : String} (hp : hasZero p = false) (hname : IsName name)
    (hzero : Char.ofNat 0 ∉ name.toList) : hasZero (p.child name) = false := by
  rw [hasZero_eq_false_iff] at hp ⊢
  obtain ⟨root, parts⟩ := p
  rw [hname.child]
  have htext : (⟨root, parts ++ [name]⟩ : Path).text = root ++ "/".intercalate (parts ++ [name]) := by
    simp [Path.text]
  rw [htext, String.toList_append, List.mem_append]
  rintro (h | h)
  · refine hp ?_
    unfold Path.text
    split
    · rename_i hempty
      simp only [Bool.and_eq_true, String.isEmpty_iff] at hempty
      simp [hempty.1] at h
    · rw [String.toList_append]
      exact List.mem_append_left _ h
  · rcases Path.mem_intercalate h with h | ⟨part, hpart, h⟩
    · exact absurd h (by decide)
    · rcases List.mem_append.mp hpart with hpart | hpart
      · refine hp ?_
        unfold Path.text
        rw [if_neg (by simp [List.ne_nil_of_mem hpart]), String.toList_append]
        exact List.mem_append_right _ (Path.mem_intercalate_of_mem hpart h)
      · rw [List.mem_singleton.mp hpart] at h
        exact hzero h

end Volume

namespace Store

open Volume

/-! Names -/

/-- A name that a file of a folder can always get. -/
structure IsShort (name : String) : Prop where
  isName : IsName name
  short : ¬ nameLimit < name.utf8ByteSize
  zero : Char.ofNat 0 ∉ name.toList

theorem isDigit_or_of_mem_temporaryName {n : Nat} {c : Char} (h : c ∈ (temporaryName n).toList) :
    c.isDigit = true ∨ c ∈ "tmp.".toList := by
  rw [temporaryName, String.toList_append, String.toList_append, List.mem_append,
    List.mem_append] at h
  rcases h with (h | h) | h
  · exact Or.inr ((by decide : "tmp".toList ⊆ "tmp.".toList) h)
  · exact Or.inl (Text.isDigit_of_mem_decimal h)
  · exact Or.inr ((by decide : ".tmp".toList ⊆ "tmp.".toList) h)

theorem IsTemporary.isShort {name : String} (h : IsTemporary name) : IsShort name := by
  refine ⟨h.isName, ?_, ?_⟩
  · obtain ⟨n, rfl⟩ := h
    have hdigits := Text.length_decimal_le (n := n % 100000000) (k := 8) (by decide) (by omega)
    have hsize : (temporaryName n).utf8ByteSize = (temporaryName n).toList.length := by
      rw [← Fingerprint.utf8ByteSize_eq_length, String.ofList_toList]
      intro c hc
      rw [Char.utf8Size_eq_one_iff]
      rcases isDigit_or_of_mem_temporaryName hc with hdigit | hmem
      · unfold Char.isDigit at hdigit
        simp only [Bool.and_eq_true, decide_eq_true_eq] at hdigit
        exact UInt32.le_trans hdigit.2 (by decide)
      · have hchars : ("tmp.".toList.all fun c => c.val ≤ 0x7f) = true := by decide
        exact of_decide_eq_true (List.all_eq_true.mp hchars c hmem)
    rw [hsize, temporaryName]
    simp only [String.toList_append, List.length_append, nameLimit]
    have htmp : "tmp".toList.length = 3 := rfl
    have hend : ".tmp".toList.length = 4 := rfl
    omega
  · obtain ⟨n, rfl⟩ := h
    intro hc
    rcases isDigit_or_of_mem_temporaryName hc with hdigit | hmem
    · exact absurd hdigit (by decide)
    · exact absurd hmem (by decide)

/-! Files -/

/-- A path leads to a directory, in which there may be anything. -/
structure DirectoryAt (v : Volume) (root : Path) (d : Location) : Prop where
  zero : hasZero root = false
  located : v.locate true root = .ok d
  directory : v.nodeAt? d = some .directory

section Files

variable {v v' : Volume} {root : Path} {d : Location} {name : String}

namespace DirectoryAt

theorem grows (h : DirectoryAt v root d) (grows : Grows v v') : DirectoryAt v' root d :=
  ⟨h.zero, grows.locate h.located, grows.directory d h.directory⟩

theorem hasZero_short (h : DirectoryAt v root d) (hname : IsShort name) :
    hasZero (root.child name) = false :=
  hasZero_child h.zero hname.isName hname.zero

/-- Where a name in the directory is found, a link by that name not being followed. -/
theorem locate_unfollowed (h : DirectoryAt v root d) (hname : IsName name) :
    v.locate false (root.child name) =
      if nameLimit < name.utf8ByteSize then .error .nameTooLong else .ok (d ++ [name]) := by
  obtain ⟨links, hwalk⟩ := (walk_eq_ok_iff.mp h.located).append h.directory false
    (List.cons_ne_nil name [])
  have hlocate : v.locate false (root.child name) = v.walk false links d [name] := by
    rw [hname.child]
    exact hwalk
  rw [hlocate, walk_cons hname.proper]
  split
  · rfl
  · cases v.nodeAt? (d ++ [name]) with
    | none => rfl
    | some node =>
      cases node with
      | directory => exact walk_nil v false links _
      | link target => rfl
      | file bytes mtime => rfl
      | table rows mtime => rfl

theorem locate_short (h : DirectoryAt v root d) (hname : IsShort name) :
    v.locate false (root.child name) = .ok (d ++ [name]) := by
  rw [h.locate_unfollowed hname.isName, if_neg hname.short]

theorem locate_leaf (h : DirectoryAt v root d) (hname : IsShort name)
    (hleaf : IsLeaf (v.nodeAt? (d ++ [name]))) :
    v.locate true (root.child name) = .ok (d ++ [name]) := by
  rw [locate_child true h.located h.directory hname.isName hleaf.2, if_neg hname.short]

/-- A file is written where no directory is and no link. -/
theorem write_ok (h : DirectoryAt v root d) (hname : IsShort name)
    (hleaf : IsLeaf (v.nodeAt? (d ++ [name]))) (bytes : List UInt8) :
    v.write (root.child name) bytes =
      .ok (v.put (d ++ [name]) (.file bytes v.writeTime)).tick := by
  have htarget : v.target (root.child name) = .ok (d ++ [name]) := by
    refine target_eq_ok_iff.mpr ⟨h.locate_leaf hname hleaf, ?_, hleaf.1⟩
    rw [List.dropLast_concat, h.directory]
  exact write_eq_ok_iff.mpr ⟨h.hasZero_short hname, _, htarget, rfl⟩

/-- A file is moved to where no directory is. -/
theorem rename_ok (h : DirectoryAt v root d) {source goal : String} (hsource : IsShort source)
    (hgoal : IsShort goal) {node : Node} (hnode : v.nodeAt? (d ++ [source]) = some node)
    (hfree : v.nodeAt? (d ++ [goal]) ≠ some .directory) :
    v.rename (root.child source) (root.child goal) =
      .ok ((v.drop (d ++ [source])).put (d ++ [goal]) node) := by
  refine rename_eq_ok_iff.mpr ⟨_, _, node, h.locate_short hsource, h.locate_short hgoal, hnode, hfree,
    ?_, rfl⟩
  rw [List.dropLast_concat, h.directory]

theorem unlink_ok (h : DirectoryAt v root d) (hname : IsShort name) {node : Node}
    (hnode : v.nodeAt? (d ++ [name]) = some node) (hleaf : node ≠ .directory) :
    v.unlink (root.child name) = .ok (v.drop (d ++ [name])) := by
  exact unlink_eq_ok_iff.mpr ⟨h.hasZero_short hname, _, node, h.locate_short hname, hnode, hleaf, rfl⟩

end DirectoryAt

theorem FolderAt.directoryAt (h : FolderAt v root d) : DirectoryAt v root d :=
  ⟨h.zero, h.located, h.directory⟩

theorem FolderAt.locate_short (h : FolderAt v root d) (follow : Bool) (hname : IsShort name) :
    v.locate follow (root.child name) = .ok (d ++ [name]) := by
  rw [h.locate follow hname.isName, if_neg hname.short]

theorem FolderAt.hasZero_short (h : FolderAt v root d) (hname : IsShort name) :
    hasZero (root.child name) = false := h.directoryAt.hasZero_short hname

/-- Whether a file is there can be told. -/
theorem FolderAt.isThere_short (h : FolderAt v root d) (hname : IsShort name) :
    v.isThere (root.child name) = .ok (v.nodeAt? (d ++ [name])).isSome := by
  unfold isThere probe stat
  rw [h.hasZero_short hname, h.locate_short true hname]
  cases hnode : v.nodeAt? (d ++ [name]) <;> simp [hnode, Except.map]

end Files

/-! Entries -/

/-- An entry's file has been written: nothing else has changed, but that a file whose writing had
begun is gone. -/
structure Files (v : Volume) (d : Location) (key : String) (bytes : List UInt8) (v' : Volume) :
    Prop where
  here : v'.here = v.here
  keys : v.nodes.keys.Nodup → v'.nodes.keys.Nodup
  node : ∃ temporary mtime, IsTemporary temporary ∧ ∀ l, v'.nodeAt? l =
    if l = d ++ [fileName key] then some (.file bytes mtime)
    else if l = d ++ [temporary] then none else v.nodeAt? l

section Entries

variable {v : Volume} {root : Path} {d : Location} {key : String}

/-- A new file is in a folder, filled and not yet moved to its place. -/
structure Filled (v : Volume) (root : Path) (d : Location) (temporary : String)
    (bytes : List UInt8) (v' : Volume) : Prop where
  folder : FolderAt v' root d
  here : v'.here = v.here
  keys : v.nodes.keys.Nodup → v'.nodes.keys.Nodup
  file : ∃ mtime, v'.nodeAt? (d ++ [temporary]) = some (.file bytes mtime)
  other : ∀ l, l ≠ d ++ [temporary] → v'.nodeAt? l = v.nodeAt? l

theorem FolderAt.fills (h : FolderAt v root d) {temporary : String} (ht : IsTemporary temporary)
    (hleaf : IsLeaf (v.nodeAt? (d ++ [temporary]))) (bytes : List UInt8) :
    ∃ v₁ v₂, (Filing.write (root.child temporary) []).run v = (.ok (), v₁) ∧
      (Filing.write (root.child temporary) bytes).run v₁ = (.ok (), v₂) ∧
      Filled v root d temporary bytes v₂ := by
  have hroot : d ++ [temporary] ≠ [] := ne_root_of_append
  generalize hv₁ : (v.put (d ++ [temporary]) (.file [] v.writeTime)).tick = v₁
  have hbegun : (Filing.write (root.child temporary) []).run v = (.ok (), v₁) := by
    rw [Filing.write, Filing.run_change, h.directoryAt.write_ok ht.isShort hleaf, hv₁]
  have h₁ : FolderAt v₁ root d := hv₁ ▸ h.grows (advances_file [] hleaf).grows
  have hleaf₁ : IsLeaf (v₁.nodeAt? (d ++ [temporary])) := by
    rw [← hv₁, nodeAt?_tick, nodeAt?_put_self v _ hroot]
    exact isLeaf_file _ _
  generalize hv₂ : (v₁.put (d ++ [temporary]) (.file bytes v₁.writeTime)).tick = v₂
  have hfilled : (Filing.write (root.child temporary) bytes).run v₁ = (.ok (), v₂) := by
    rw [Filing.write, Filing.run_change, h₁.directoryAt.write_ok ht.isShort hleaf₁, hv₂]
  refine ⟨v₁, v₂, hbegun, hfilled, ?_, ?_, ?_, ⟨v₁.writeTime, ?_⟩, ?_⟩
  · exact hv₂ ▸ h₁.grows (advances_file bytes hleaf₁).grows
  · rw [← hv₂, ← hv₁]
    rfl
  · intro hkeys
    rw [← hv₂, ← hv₁]
    exact Keyed.nodup_keys_set _ (Keyed.nodup_keys_set _ hkeys)
  · rw [← hv₂, nodeAt?_tick, nodeAt?_put_self v₁ _ hroot]
  · intro l hl
    rw [← hv₂, nodeAt?_tick, nodeAt?_put_of_ne v₁ _ hl, ← hv₁, nodeAt?_tick,
      nodeAt?_put_of_ne v _ hl]

/-- Where no directory has the name of a new file, storing an entry fails only at its last step, and
then the new file is removed. -/
theorem FolderAt.run_putFile_filled (h : FolderAt v root d)
    (hfree : ∀ name, IsTemporary name → IsLeaf (v.nodeAt? (d ++ [name]))) (key : String) (e : Entry) :
    ∃ temporary v₂, IsTemporary temporary ∧
      Filled v root d temporary (Text.Utf8.ofString (Json.write .pages e.toJson)) v₂ ∧
      (putFile root key e).run v =
        match (if hasZero (entryPath root key) then .error (.badValue .zeroInPath)
          else v₂.rename (root.child temporary) (entryPath root key)) with
        | .ok v' => (.ok (), v')
        | .error f => (.error f, v₂.drop (d ++ [temporary])) := by
  obtain ⟨temporary, ht, hput⟩ := h.run_putFile_temporary key e
  rw [hput]
  generalize Text.Utf8.ofString (Json.write .pages e.toJson) = bytes
  obtain ⟨v₁, v₂, hbegun, hfilled, hv₂⟩ := h.fills ht (hfree temporary ht) bytes
  refine ⟨temporary, v₂, ht, hv₂, ?_⟩
  rw [Action.run_bind_ok hbegun, Filing.run_onFailure, settleFile, Action.run_bind_ok hfilled,
    Filing.run_change]
  obtain ⟨mtime, hnode⟩ := hv₂.file
  have hremoved : v₂.unlink (root.child temporary) = .ok (v₂.drop (d ++ [temporary])) :=
    hv₂.folder.directoryAt.unlink_ok ht.isShort hnode (fun heq => by cases heq)
  cases (if hasZero (entryPath root key) then .error (.badValue .zeroInPath)
    else v₂.rename (root.child temporary) (entryPath root key) : Except Failure Volume) with
  | ok v' => rfl
  | error f =>
    simp only
    rw [Filing.run_change, hremoved]

/-- Where no directories are, an entry is stored. -/
theorem FolderAt.putFile_ok (h : FolderAt v root d) (hkey : IsShort (fileName key))
    (hleaf : ∀ name, IsLeaf (v.nodeAt? (d ++ [name]))) (e : Entry) :
    ∃ v', (putFile root key e).run v = (.ok (), v') ∧
      Files v d key (Text.Utf8.ofString (Json.write .pages e.toJson)) v' := by
  obtain ⟨temporary, v₂, ht, hv₂, hrun⟩ := h.run_putFile_filled (fun name _ => hleaf name) key e
  generalize Text.Utf8.ofString (Json.write .pages e.toJson) = bytes at hv₂ ⊢
  obtain ⟨mtime, hnode₂⟩ := hv₂.file
  have hapart := fileName_apart ht d key
  have hroot : d ++ [temporary] ≠ [] := ne_root_of_append
  have hmoved : v₂.rename (root.child temporary) (entryPath root key) =
      .ok ((v₂.drop (d ++ [temporary])).put (d ++ [fileName key]) (.file bytes mtime)) := by
    refine hv₂.folder.directoryAt.rename_ok ht.isShort hkey hnode₂ ?_
    rw [hv₂.other _ hapart]
    exact (hleaf _).1
  have hzero : ¬ hasZero (entryPath root key) = true :=
    Bool.eq_false_iff.mp (h.hasZero_short hkey)
  rw [if_neg hzero, hmoved] at hrun
  refine ⟨(v₂.drop (d ++ [temporary])).put (d ++ [fileName key]) (.file bytes mtime), hrun,
    hv₂.here, ?_, temporary, mtime, ht, ?_⟩
  · exact fun hkeys => Keyed.nodup_keys_set _ (Keyed.nodup_keys_erase _ (hv₂.keys hkeys))
  · intro l
    rw [nodeAt?_put _ _ _ _ ne_root_of_append, nodeAt?_drop v₂ _ _ hroot]
    split
    · rfl
    · split
      · rfl
      · rename_i hne
        rw [hv₂.other l hne]

/-- An entry is removed, or was not there. -/
theorem FolderAt.deleteFile_ok (h : FolderAt v root d) (hkey : IsShort (fileName key))
    (hleaf : IsLeaf (v.nodeAt? (d ++ [fileName key]))) :
    ∃ v', (deleteFile root key).run v = (.ok (), v') ∧ v'.here = v.here ∧
      (v.nodes.keys.Nodup → v'.nodes.keys.Nodup) ∧ ∀ l, v'.nodeAt? l =
        if l = d ++ [fileName key] then none else v.nodeAt? l := by
  have hthere : (Filing.look fun v => v.isThere (entryPath root key)).run v =
      (.ok (v.nodeAt? (d ++ [fileName key])).isSome, v) := by
    rw [Filing.run_look, entryPath, ← fileName, h.isThere_short hkey]
  unfold deleteFile
  rw [Action.run_bind_ok hthere]
  cases hnode : v.nodeAt? (d ++ [fileName key]) with
  | none =>
    refine ⟨v, rfl, rfl, id, fun l => ?_⟩
    split
    · rename_i heq
      rw [heq, hnode]
    · rfl
  | some node =>
    have hremoved : v.unlink (entryPath root key) = .ok (v.drop (d ++ [fileName key])) :=
      h.directoryAt.unlink_ok hkey hnode fun heq => hleaf.1 (heq ▸ hnode)
    refine ⟨v.drop (d ++ [fileName key]), ?_, rfl, Keyed.nodup_keys_erase _, ?_⟩
    · simp only [Option.isSome_some, if_true]
      rw [Filing.run_change, hremoved]
    · exact fun l => nodeAt?_drop v _ l ne_root_of_append

end Entries

end Store
end AssetCompiler
