import AssetCompiler.Proofs.StoreMaps
import Mathlib.Data.List.Sort
import Mathlib.Data.String.Basic

/-!
Volumes that look alike to a store. What a store answers depends on nothing but the content of its own
files, or of the rows of its space: not on the times at which these were written, nor on what else is on
the volume.
-/
namespace AssetCompiler

/-- A node without the time of its writing. -/
def Node.timeless : Node → Node
  | .file bytes _ => .file bytes 0
  | .table rows _ => .table rows 0
  | n => n

namespace Volume

variable {v v' : Volume}

/-- A path leads to the same content in two volumes, whenever it was written. -/
def LeadsAlike (v v' : Volume) (p : Path) : Prop :=
  (v'.stat p).map (fun found => found.2.timeless) = (v.stat p).map fun found => found.2.timeless

theorem LeadsAlike.read {p : Path} (h : LeadsAlike v v' p) : v'.read p = v.read p := by
  unfold LeadsAlike at h
  unfold Volume.read
  congr 1
  cases hstat : v.stat p with
  | error e =>
    cases hstat' : v'.stat p with
    | error e' => simp_all [Except.map]
    | ok found' => simp_all [Except.map]
  | ok found =>
    cases hstat' : v'.stat p with
    | error e' => simp_all [Except.map]
    | ok found' =>
      obtain ⟨l, node⟩ := found
      obtain ⟨l', node'⟩ := found'
      simp only [hstat, hstat', Except.map, Except.ok.injEq] at h
      cases node <;> cases node' <;> simp_all [Node.timeless]

theorem LeadsAlike.isThere {p : Path} (h : LeadsAlike v v' p) : v'.isThere p = v.isThere p := by
  unfold LeadsAlike at h
  unfold Volume.isThere probe
  cases hstat : v.stat p with
  | error e =>
    cases hstat' : v'.stat p with
    | error e' => simp_all [Except.map]
    | ok found' => simp_all [Except.map]
  | ok found =>
    cases hstat' : v'.stat p with
    | error e' => simp_all [Except.map]
    | ok found' => cases hasZero p <;> rfl

theorem before_total (a b : List String) : (before a b || before b a) = true := by
  induction a generalizing b with
  | nil => rfl
  | cons x xs ih =>
    cases b with
    | nil => rfl
    | cons y ys =>
      by_cases h : x = y
      · subst h
        simpa [before] using ih ys
      · rcases lt_trichotomy x y with hlt | heq | hlt
        · simp [before, h, hlt]
        · exact absurd heq h
        · simp [before, h, Ne.symm h, hlt]

theorem before_trans {a b c : List String} (h : before a b = true) (h' : before b c = true) :
    before a c = true := by
  induction a generalizing b c with
  | nil => rfl
  | cons x xs ih =>
    cases b with
    | nil => cases h
    | cons y ys =>
      cases c with
      | nil => cases h'
      | cons z zs =>
        unfold before at h h' ⊢
        by_cases hxy : x = y
        · subst hxy
          by_cases hxz : x = z
          · subst hxz
            simp only [if_true] at h h' ⊢
            exact ih h h'
          · simpa [hxz] using h'
        · simp only [hxy, if_false, decide_eq_true_eq] at h
          by_cases hyz : y = z
          · subst hyz
            simpa [hxy] using h
          · simp only [hyz, if_false, decide_eq_true_eq] at h'
            have hlt := lt_trans h h'
            simp [hlt.ne, hlt]

theorem pairwise_below (v : Volume) (l : Location) : (v.below l).Pairwise fun a b => before a b = true :=
  @List.pairwise_mergeSort _ before (fun _ _ _ => before_trans) before_total _

theorem pairwise_namesIn (v : Volume) (l : Location) : (v.namesIn l).Pairwise (· ≤ ·) := by
  unfold namesIn
  refine List.Pairwise.filterMap _ ?_ (pairwise_below v l)
  intro a b hab name hname name' hname'
  split at hname
  · split at hname'
    · cases hname
      cases hname'
      unfold before at hab
      split at hab
      · rename_i heq
        exact heq.le
      · exact (of_decide_eq_true hab).le
    · cases hname'
  · cases hname

/-- Two volumes list the same of those names in a directory that pass a test. -/
theorem filter_namesIn (h : v.nodes.keys.Nodup) (h' : v'.nodes.keys.Nodup) {d : Location}
    {p : String → Bool} (hthere : ∀ name, p name = true →
      ((v'.nodeAt? (d ++ [name])).isSome ↔ (v.nodeAt? (d ++ [name])).isSome)) :
    (v'.namesIn d).filter p = (v.namesIn d).filter p := by
  have hmem : ∀ (u : Volume), u.nodes.keys.Nodup → ∀ name,
      name ∈ u.namesIn d ↔ (u.nodeAt? (d ++ [name])).isSome := by
    intro u hu name
    rw [mem_namesIn, Option.isSome_iff_exists]
    exact exists_congr fun node => ⟨nodeAt?_of_mem hu ne_root_of_append,
      mem_of_nodeAt? ne_root_of_append⟩
  have hperm : ((v'.namesIn d).filter p).Perm ((v.namesIn d).filter p) := by
    refine (List.perm_ext_iff_of_nodup ((nodup_namesIn h' d).filter _)
      ((nodup_namesIn h d).filter _)).mpr fun name => ?_
    rw [List.mem_filter, List.mem_filter, hmem v' h', hmem v h]
    exact ⟨fun hname => ⟨(hthere name hname.2).mp hname.1, hname.2⟩,
      fun hname => ⟨(hthere name hname.2).mpr hname.1, hname.2⟩⟩
  exact hperm.eq_of_pairwise' ((pairwise_namesIn v' d).filter p) ((pairwise_namesIn v d).filter p)

end Volume

/-- A failure to move a file, whatever the file was called before: files that are being written have
names that are new each time. -/
def Failure.withoutSource : Failure → Failure
  | .move issue _ target => .move issue "" target
  | f => f

namespace Store

open Volume

/-! Folders -/

/-- A folder in which no directory has the name of a file that is being written. -/
structure IsTidyFolder (v : Volume) (root : Path) (d : Location) : Prop where
  folder : FolderAt v root d
  nodup : v.nodes.keys.Nodup
  free : ∀ name, IsTemporary name → v.nodeAt? (d ++ [name]) ≠ some .directory

/-- The files of entries in a folder are the same in two volumes. -/
def SameFiles (d : Location) (v v' : Volume) : Prop :=
  ∀ name, suffix.isSuffixOf name.toList = true →
    (v'.nodeAt? (d ++ [name])).map Node.timeless = (v.nodeAt? (d ++ [name])).map Node.timeless

section Folders

variable {v v' : Volume} {root : Path} {d : Location} {key : String}

theorem isSuffixOf_fileName (key : String) : suffix.isSuffixOf (fileName key).toList = true := by
  rw [List.isSuffixOf_iff_suffix, fileName, String.toList_append]
  exact List.suffix_append _ _

theorem FolderAt.leadsAlike (h : FolderAt v root d) (h' : FolderAt v' root d) {name : String}
    (hname : name ≠ "..")
    (hsame : (v'.nodeAt? (d ++ [name])).map Node.timeless =
      (v.nodeAt? (d ++ [name])).map Node.timeless) :
    LeadsAlike v v' ⟨root.root, root.parts ++ [name]⟩ := by
  unfold LeadsAlike stat
  rw [locate_concat true h.located h.directory hname (h.unlinked name),
    locate_concat true h'.located h'.directory hname (h'.unlinked name)]
  by_cases hlong : nameLimit < name.utf8ByteSize
  · simp only [hlong, if_true]
  · simp only [hlong, if_false]
    cases hnode : v.nodeAt? (d ++ [name]) <;> cases hnode' : v'.nodeAt? (d ++ [name]) <;>
      simp_all [Except.map]

theorem ne_dots_of_suffix {name : String} (h : suffix.isSuffixOf name.toList = true) :
    name ≠ ".." := by
  rintro rfl
  exact absurd h (by decide)

theorem readFile_congr {p : Path} (h : LeadsAlike v v' p) (now : Instant) :
    readFile now v' p = readFile now v p := by
  unfold readFile readText
  rw [h.read]

/-- Look-ups in folders with the same files find the same. -/
theorem getFile_same (h : FolderAt v root d) (h' : FolderAt v' root d) (hsame : SameFiles d v v')
    (now : Instant) (key : String) :
    ((getFile now root key).run v').1 = ((getFile now root key).run v).1 := by
  have halike : LeadsAlike v v' (entryPath root key) := by
    rw [entryPath, ← fileName, (isName_fileName key).child]
    exact h.leadsAlike h' (isName_fileName key).proper (hsame _ (isSuffixOf_fileName key))
  unfold getFile
  rw [Filing.run_look, Filing.run_look, halike.isThere, readFile_congr halike]

/-- So are the lists of all entries. -/
theorem entries_same (h : IsTidyFolder v root d) (h' : IsTidyFolder v' root d)
    (hsame : SameFiles d v v') (now : Instant) (space : String) :
    (((Store.folder root space).entries now).run v').1 =
      (((Store.folder root space).entries now).run v).1 := by
  have hthere : ∀ {u : Volume}, FolderAt u root d → u.isDirectory root = .ok true := fun hu =>
    isDirectory_of_isDirectory hu.zero ⟨d, hu.located, hu.directory⟩
  have hfiles : entryFiles v' root = entryFiles v root := by
    unfold entryFiles
    rw [stat_eq_ok_iff.mpr ⟨h.folder.located, h.folder.directory⟩,
      stat_eq_ok_iff.mpr ⟨h'.folder.located, h'.folder.directory⟩]
    simp only
    rw [filter_namesIn h.nodup h'.nodup]
    intro name hname
    rw [← Option.isSome_map (f := Node.timeless), hsame name hname, Option.isSome_map]
  have hread : readAll now v' (entryFiles v root) = readAll now v (entryFiles v root) := by
    rw [readAll_eq_collect, readAll_eq_collect]
    congr 1
    refine List.map_congr_left fun p hp => ?_
    unfold entryFiles at hp
    rw [stat_eq_ok_iff.mpr ⟨h.folder.located, h.folder.directory⟩] at hp
    obtain ⟨name, hname, rfl⟩ := List.mem_map.mp hp
    have hsuffix := (List.mem_filter.mp hname).2
    exact readFile_congr (h.folder.leadsAlike h'.folder (ne_dots_of_suffix hsuffix)
      (hsame name hsuffix)) now
  change ((Filing.look fun v => do
    if ← v.isDirectory root then readAll now v (entryFiles v root) else return []).run v').1 =
      ((Filing.look fun v => do
    if ← v.isDirectory root then readAll now v (entryFiles v root) else return []).run v).1
  rw [Filing.run_look, Filing.run_look, hthere h.folder, hthere h'.folder, hfiles, hread]

/-- How storing an entry in a folder ends, but for the name of the file that was being written.
`standing` is what stands in the entry's place. -/
def putOutcome (root : Path) (key : String) (standing : Option Node) : Except Failure Unit :=
  if hasZero (entryPath root key) then .error (.badValue .zeroInPath)
  else if nameLimit < (fileName key).utf8ByteSize then
    .error (.move .nameTooLong "" (entryPath root key).text)
  else if standing = some .directory then
    .error (.move .isDirectory "" (entryPath root key).text)
  else .ok ()

theorem timeless_eq_directory {n : Option Node} :
    n.map Node.timeless = some .directory ↔ n = some .directory := by
  cases n with
  | none => simp
  | some node => cases node <;> simp [Node.timeless]

theorem IsTemporary.ne_of_suffix {temporary name : String} (h : IsTemporary temporary)
    (hname : suffix.isSuffixOf name.toList = true) : name ≠ temporary := by
  rintro rfl
  obtain ⟨n, rfl⟩ := h
  obtain ⟨front, hfront⟩ := List.isSuffixOf_iff_suffix.mp hname
  have hlast := congrArg (fun s : List Char => s.reverse.head?) hfront
  simp [temporaryName, suffix, String.toList_append] at hlast

/-- How storing an entry in a folder ends. -/
theorem FolderAt.putFile_outcome (h : FolderAt v root d)
    (hfree : ∀ name, IsTemporary name → v.nodeAt? (d ++ [name]) ≠ some .directory) (key : String)
    (e : Entry) :
    ((putFile root key e).run v).1.mapError Failure.withoutSource =
      putOutcome root key (v.nodeAt? (d ++ [fileName key])) ∧
    (v.nodes.keys.Nodup → ((putFile root key e).run v).2.nodes.keys.Nodup) := by
  obtain ⟨temporary, v₂, ht, hv₂, hrun⟩ := h.run_putFile_filled
    (fun name hname => ⟨hfree name hname, h.unlinked name⟩) key e
  obtain ⟨mtime, hnode₂⟩ := hv₂.file
  have hgoal : v₂.nodeAt? (d ++ [fileName key]) = v.nodeAt? (d ++ [fileName key]) :=
    hv₂.other _ (fileName_apart ht d key)
  have hremoved : v.nodes.keys.Nodup → (v₂.drop (d ++ [temporary])).nodes.keys.Nodup :=
    fun hnodup => Keyed.nodup_keys_erase _ (hv₂.keys hnodup)
  rw [hrun, putOutcome]
  by_cases hzero : hasZero (entryPath root key) = true
  · rw [if_pos hzero, if_pos hzero]
    exact ⟨rfl, hremoved⟩
  · rw [if_neg hzero, if_neg hzero]
    have hsource := hv₂.folder.locate_short false ht.isShort
    have hlocate := hv₂.folder.locate false (isName_fileName key)
    rw [Volume.rename, hsource]
    unfold entryPath at *
    rw [← fileName]
    by_cases hlong : nameLimit < (fileName key).utf8ByteSize
    · rw [if_pos hlong] at hlocate ⊢
      rw [hlocate]
      exact ⟨rfl, hremoved⟩
    · rw [if_neg hlong] at hlocate ⊢
      rw [hlocate]
      simp only [hnode₂, hgoal, List.dropLast_concat, hv₂.folder.directory]
      cases v.nodeAt? (d ++ [fileName key]) with
      | none => exact ⟨rfl, fun hnodup => Keyed.nodup_keys_set _ (hremoved hnodup)⟩
      | some node =>
        cases node with
        | directory => exact ⟨rfl, hremoved⟩
        | file bytes mtime => exact ⟨rfl, fun hnodup => Keyed.nodup_keys_set _ (hremoved hnodup)⟩
        | link target => exact ⟨rfl, fun hnodup => Keyed.nodup_keys_set _ (hremoved hnodup)⟩
        | table rows mtime => exact ⟨rfl, fun hnodup => Keyed.nodup_keys_set _ (hremoved hnodup)⟩

theorem IsTidyFolder.putFile_outcome (h : IsTidyFolder v root d) (key : String) (e : Entry) :
    ((putFile root key e).run v).1.mapError Failure.withoutSource =
      putOutcome root key (v.nodeAt? (d ++ [fileName key])) ∧
    ((putFile root key e).run v).2.nodes.keys.Nodup :=
  (h.folder.putFile_outcome h.free key e).imp id fun hkeys => hkeys h.nodup

/-- How removing an entry from a folder ends. -/
def deleteOutcome (root : Path) (key : String) (standing : Option Node) : Except Failure Unit :=
  if hasZero (entryPath root key) then .ok ()
  else if nameLimit < (fileName key).utf8ByteSize then
    .error (.file .nameTooLong (entryPath root key).text)
  else if standing = some .directory then .error (.file .isDirectory (entryPath root key).text)
  else .ok ()

theorem FolderAt.locate_entry (h : FolderAt v root d) (follow : Bool) (key : String) :
    v.locate follow (entryPath root key) =
      if nameLimit < (fileName key).utf8ByteSize then .error .nameTooLong
      else .ok (d ++ [fileName key]) :=
  h.locate follow (isName_fileName key)

theorem FolderAt.isThere_entry (h : FolderAt v root d) (key : String) :
    v.isThere (entryPath root key) =
      if hasZero (entryPath root key) then .ok false
      else if nameLimit < (fileName key).utf8ByteSize then
        .error (.file .nameTooLong (entryPath root key).text)
      else .ok (v.nodeAt? (d ++ [fileName key])).isSome := by
  unfold Volume.isThere probe stat
  rw [h.locate_entry true key]
  by_cases hzero : hasZero (entryPath root key) = true
  · rw [if_pos hzero, if_pos hzero]
    rfl
  · rw [if_neg hzero, if_neg hzero]
    by_cases hlong : nameLimit < (fileName key).utf8ByteSize
    · simp only [if_pos hlong]
      rfl
    · simp only [if_neg hlong]
      cases v.nodeAt? (d ++ [fileName key]) <;> rfl

/-- Removing an entry leaves nothing in its place, or changes nothing. -/
theorem FolderAt.run_deleteFile (h : FolderAt v root d) (key : String) :
    ((deleteFile root key).run v).1 = deleteOutcome root key (v.nodeAt? (d ++ [fileName key])) ∧
      (((deleteFile root key).run v).2 = v ∨
        ((deleteFile root key).run v).2 = v.drop (d ++ [fileName key]) ∧
          IsLeaf (v.nodeAt? (d ++ [fileName key]))) ∧
      ((deleteFile root key).run v).2.nodeAt? (d ++ [fileName key]) =
        if hasZero (entryPath root key) = true ∨ nameLimit < (fileName key).utf8ByteSize ∨
          v.nodeAt? (d ++ [fileName key]) = some .directory then v.nodeAt? (d ++ [fileName key])
        else none := by
  have hlocate := h.locate_entry false key
  have hthere := h.isThere_entry key
  unfold deleteFile deleteOutcome
  have hlook : (Filing.look fun v => v.isThere (entryPath root key)).run v =
      (v.isThere (entryPath root key), v) := Filing.run_look _ v
  rw [hthere] at hlook
  by_cases hzero : hasZero (entryPath root key) = true
  · rw [if_pos hzero] at hlook
    rw [Action.run_bind_ok hlook]
    simp [hzero]
  · rw [if_neg hzero] at hlook
    by_cases hlong : nameLimit < (fileName key).utf8ByteSize
    · rw [if_pos hlong] at hlook
      rw [Action.run_bind_error hlook]
      simp [hzero, hlong]
    · rw [if_neg hlong] at hlook hlocate
      rw [Action.run_bind_ok hlook]
      cases hnode : v.nodeAt? (d ++ [fileName key]) with
      | none => simp [hzero, hlong, hnode]
      | some node =>
        simp only [Option.isSome_some, if_true, Filing.run_change, Volume.unlink, about, hzero,
          hlocate, hnode, hlong]
        cases node with
        | directory => simp [hnode]
        | link target => exact absurd hnode (h.unlinked _ target)
        | file bytes mtime =>
          exact ⟨by simp, Or.inr ⟨rfl, isLeaf_file _ _⟩, by simp [nodeAt?_drop v _ _ ne_root_of_append]⟩
        | table rows mtime =>
          exact ⟨by simp, Or.inr ⟨rfl, isLeaf_table _ _⟩, by simp [nodeAt?_drop v _ _ ne_root_of_append]⟩

end Folders
/-! Tables -/

def IsTable (v : Volume) (l : Location) : Prop := ∃ rows mtime, v.nodeAt? l = some (.table rows mtime)

/-- The rows of the table at a location. -/
def rowsAt (v : Volume) (l : Location) : List Row :=
  match v.nodeAt? l with
  | some (.table rows _) => rows
  | _ => []

section Tables

variable {v v' : Volume} {database : Path} {l : Location} {space key : String}

theorem TableAt.rowsOf_eq_rowsAt (h : TableAt v database l) : rowsOf v database = rowsAt v l := by
  obtain ⟨hlocate, rows, mtime, hnode⟩ := h
  rw [TableAt.rowsOf_eq hlocate hnode, rowsAt, hnode]

theorem find?_isRow_eq (rows : List Row) :
    rows.find? (isRow space key) =
      (rows.filter (·.space == space)).find? fun r => r.key == key := by
  rw [List.find?_filter]
  congr 1
  funext r
  by_cases hspace : r.space = space <;> by_cases hkey : r.key = key <;> simp [isRow, hspace, hkey]

theorem rowsIn_eq (rows : List Row) :
    rowsIn space rows = (rows.filter (·.space == space)).mergeSort fun a b => a.key ≤ b.key := rfl

theorem filter_putRow (r : Row) (rows : List Row) :
    (putRow r rows).filter (·.space == r.space) =
      (rows.filter (·.space == r.space)).filter (fun r' => !(r'.key == r.key)) ++ [r] := by
  have hdelete := @filter_deleteRow r.space r.key rows
  unfold deleteRow at hdelete
  unfold putRow
  rw [List.filter_append, hdelete]
  congr 1
  simp

/-- Rows of other spaces are not touched. -/
theorem filter_deleteRow_of_ne {space' : String} (h : space' ≠ space) (rows : List Row) :
    (deleteRow space key rows).filter (·.space == space') = rows.filter (·.space == space') := by
  unfold deleteRow
  rw [List.filter_filter]
  refine List.filter_congr fun r _ => ?_
  by_cases hspace : r.space = space'
  · have hne : isRow space key r = false := by
      rw [isRow, hspace, Bool.and_eq_false_iff, beq_eq_false_iff_ne]
      exact Or.inl h
    simp [hne]
  · simp [hspace]

theorem filter_putRow_of_ne {space' : String} {r : Row} (h : space' ≠ r.space) (rows : List Row) :
    (putRow r rows).filter (·.space == space') = rows.filter (·.space == space') := by
  have hdelete := @filter_deleteRow_of_ne r.space r.key space' h rows
  unfold deleteRow at hdelete
  unfold putRow
  rw [List.filter_append, hdelete]
  simp [Ne.symm h]

end Tables

end Store
end AssetCompiler
