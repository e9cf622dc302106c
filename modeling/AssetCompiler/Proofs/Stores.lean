import AssetCompiler.Proofs.VolumeChanges
import AssetCompiler.Proofs.WrittenRecords
import AssetCompiler.Store.Basic

/-!
Stores. A store has its place on a volume, a folder without links or the rows of one space in a table,
and keeps it whatever is stored. What is stored under a key is found there, and nothing else that was
to be found is lost.
-/
namespace AssetCompiler

namespace Path

theorem pieces_of_not_mem {s : List Char} (h : '/' ∉ s) : pieces s = [s] := by
  unfold pieces
  induction s with
  | nil => rfl
  | cons c rest ih =>
    rw [List.mem_cons, not_or] at h
    rw [List.foldr_cons, ih h.2, if_neg (fun heq => h.1 heq.symm)]

/-- A text without slashes is one component. -/
theorem ofText_of_not_mem {s : String} (hslash : '/' ∉ s.toList) (hempty : s ≠ "")
    (hdot : s ≠ ".") : ofText s = ⟨"", [s]⟩ := by
  have hroot : rootOf s.toList = "" := by
    unfold rootOf
    split
    · simp_all
    · simp_all
    · simp_all
    · rfl
  unfold ofText
  rw [hroot, pieces_of_not_mem hslash]
  simp [hempty, hdot]

end Path

theorem slash_not_mem_safeName (name : String) : '/' ∉ (safeName name).toList := by
  unfold safeName
  rw [String.toList_ofList, List.mem_map]
  rintro ⟨c, _, hc⟩
  split at hc
  · cases hc
  · rename_i hne
    exact hne (by simp [hc])

namespace Store

open Volume

/-- The name of the file for a key. -/
def fileName (key : String) : String := safeName key ++ ".json"

theorem isName_of_suffix {name : String} {suffix : List Char} (hslash : '/' ∉ name.toList)
    (hlong : 2 < suffix.length) (h : suffix <:+ name.toList) : IsName name := by
  have hlength := h.length_le
  have hne : ∀ s : String, s.toList.length ≤ 2 → name ≠ s := by
    rintro s hs rfl
    omega
  exact ⟨Path.ofText_of_not_mem hslash (hne "" (by decide)) (hne "." (by decide)),
    hne ".." (by decide)⟩

theorem isName_fileName (key : String) : IsName (fileName key) := by
  refine isName_of_suffix ?_ (show 2 < ".json".toList.length by decide) ?_
  · rw [fileName, String.toList_append, List.mem_append, not_or]
    exact ⟨slash_not_mem_safeName key, by decide⟩
  · rw [fileName, String.toList_append]
    exact List.suffix_append _ _

/-- The names of files that are being written. -/
def IsTemporary (name : String) : Prop := ∃ n, name = temporaryName n

theorem IsTemporary.isName {name : String} (h : IsTemporary name) : IsName name := by
  obtain ⟨n, rfl⟩ := h
  unfold temporaryName
  refine isName_of_suffix ?_ (show 2 < ".tmp".toList.length by decide) ?_
  · simp only [String.toList_append, List.mem_append, not_or]
    exact ⟨⟨by decide, fun hn => absurd (Text.isDigit_of_mem_decimal hn) (by decide)⟩, by decide⟩
  · rw [String.toList_append]
    exact List.suffix_append _ _

theorem IsTemporary.ne_fileName {name : String} (h : IsTemporary name) (key : String) :
    name ≠ fileName key := by
  obtain ⟨n, rfl⟩ := h
  intro heq
  have hlast := congrArg (fun s : String => s.toList.reverse.head?) heq
  simp [fileName, temporaryName, String.toList_append] at hlast

theorem isTemporary_freshName (v : Volume) (root : Path) (fuel n : Nat) :
    IsTemporary (freshName v root fuel n) := by
  induction fuel generalizing n with
  | zero => exact ⟨n, rfl⟩
  | succ fuel ih =>
    rw [freshName]
    split
    · split
      · exact ih (n + 1)
      · exact ⟨n, rfl⟩
    · exact ⟨n, rfl⟩

/-! Folders -/

/-- A path leads to a folder that can hold entries: a directory without links in it. -/
structure FolderAt (v : Volume) (root : Path) (d : Location) : Prop where
  zero : hasZero root = false
  located : v.locate true root = .ok d
  directory : v.nodeAt? d = some .directory
  unlinked : ∀ name target, v.nodeAt? (d ++ [name]) ≠ some (.link target)

section Folders

variable {v v' : Volume} {root : Path} {d : Location}

theorem FolderAt.grows (h : FolderAt v root d) (grows : Grows v v') : FolderAt v' root d where
  zero := h.zero
  located := grows.locate h.located
  directory := grows.directory d h.directory
  unlinked := fun name target hlink => h.unlinked name target ((grows.link _ target).mp hlink)

theorem FolderAt.locate (h : FolderAt v root d) (follow : Bool) {name : String}
    (hname : IsName name) :
    v.locate follow (root.child name) =
      if nameLimit < name.utf8ByteSize then .error .nameTooLong else .ok (d ++ [name]) :=
  locate_child follow h.located h.directory hname (h.unlinked name)

theorem FolderAt.of_locate (h : FolderAt v root d) {follow : Bool} {name : String} {l : Location}
    (hname : IsName name) (hlocate : v.locate follow (root.child name) = .ok l) :
    ¬ nameLimit < name.utf8ByteSize ∧ d ++ [name] = l := by
  rw [h.locate follow hname] at hlocate
  split at hlocate
  · cases hlocate
  · rename_i hshort
    exact ⟨hshort, Except.ok.inj hlocate⟩

theorem FolderAt.makeDirectories (h : FolderAt v root d) : v.makeDirectories root = .ok v :=
  makeDirectories_of_isDirectory h.zero ⟨d, h.located, h.directory⟩

/-- What is answered about an entry depends on the node of its file only. -/
theorem FolderAt.stat_congr (h : FolderAt v root d) (h' : FolderAt v' root d) (key : String)
    (hnode : v'.nodeAt? (d ++ [fileName key]) = v.nodeAt? (d ++ [fileName key])) :
    v'.stat (entryPath root key) = v.stat (entryPath root key) := by
  unfold stat entryPath
  rw [← fileName, h.locate true (isName_fileName key), h'.locate true (isName_fileName key)]
  by_cases hlong : nameLimit < (fileName key).utf8ByteSize
  · simp only [hlong, if_true]
  · simp only [hlong, if_false, hnode]

theorem FolderAt.getFile_congr (h : FolderAt v root d) (h' : FolderAt v' root d) (now : Instant)
    (key : String) (hnode : v'.nodeAt? (d ++ [fileName key]) = v.nodeAt? (d ++ [fileName key])) :
    ((getFile now root key).run v').1 = ((getFile now root key).run v).1 := by
  have hstat := h.stat_congr h' key hnode
  simp only [getFile, Filing.run_look, isThere, probe, readFile, readText, Volume.read, hstat]

/-- The text of a file that was written from a text. -/
theorem readText_written {p : Path} {l : Location} {s : String} {mtime : Int}
    (hzero : hasZero p = false)
    (hstat : v.stat p = .ok (l, .file (Text.Utf8.ofString s) mtime))
    (hlines : Text.unifyLineEnds s.toList = s.toList) : v.readText p = .ok s.toList := by
  have hread : v.read p = .ok (Text.Utf8.ofString s) := by
    rw [Volume.read, hstat, about, hzero]
    rfl
  have hdecode : Text.Utf8.decode (Text.Utf8.ofString s) = .ok s.toList :=
    Text.Utf8.decode_encode s.toList
  rw [readText, hread]
  simp only [bind, Except.bind, hdecode, hlines]
  rfl

theorem readEntry_written (now : Instant) (style : Json.Style) {e : Entry}
    (hdate : e.createdAt.IsDate) :
    readEntry now (Json.write style e.toJson).toList = .ok (.found e) := by
  have hread : Entry.readFields now _ = .ok e := e.read_toJson now hdate
  rw [readEntry, Json.read?_write style e.isPlain_toJson]
  simp only [Entry.toJson]
  rw [hread]
  rfl

/-- A written entry is found where its path leads to it. -/
theorem getFile_of_stat (now : Instant) {key : String} {e : Entry} {l : Location} {mtime : Int}
    (hdate : e.createdAt.IsDate) (hzero : hasZero (entryPath root key) = false)
    (hstat : v.stat (entryPath root key) =
      .ok (l, .file (Text.Utf8.ofString (Json.write .pages e.toJson)) mtime)) :
    (getFile now root key).run v = (.ok (.found e), v) := by
  have htext : v.readText (entryPath root key) = _ :=
    readText_written hzero hstat (Json.unifyLineEnds_write .pages e.isPlain_toJson)
  have hthere : v.isThere (entryPath root key) = .ok true := by
    unfold isThere probe
    rw [hzero, hstat]
    rfl
  rw [getFile, Filing.run_look, hthere]
  simp only [bind, Except.bind, if_true, readFile, htext, readEntry_written now .pages hdate]

/-- A written entry is found. -/
theorem FolderAt.getFile_found (h : FolderAt v root d) (now : Instant) {key : String} {e : Entry}
    {mtime : Int} (hdate : e.createdAt.IsDate) (hzero : hasZero (entryPath root key) = false)
    (hshort : ¬ nameLimit < (fileName key).utf8ByteSize)
    (hnode : v.nodeAt? (d ++ [fileName key]) =
      some (.file (Text.Utf8.ofString (Json.write .pages e.toJson)) mtime)) :
    (getFile now root key).run v = (.ok (.found e), v) := by
  have hlocate := h.locate true (isName_fileName key)
  rw [if_neg hshort] at hlocate
  exact getFile_of_stat now hdate hzero (stat_eq_ok_iff.mpr ⟨hlocate, hnode⟩)

theorem advances_file {l : Location} (bytes : List UInt8) (hleaf : IsLeaf (v.nodeAt? l)) :
    Advances (fun l' => l' = l) v (v.put l (.file bytes v.writeTime)).tick := by
  refine Advances.put rfl hleaf (isLeaf_file _ _) ?_
  intro bytes' time hcontent
  cases hcontent
  rfl

/-- A file is written in a folder, or nothing happens. -/
theorem FolderAt.write (h : FolderAt v root d) {name : String} (hname : IsName name)
    (bytes : List UInt8) :
    (∃ f, v.write (root.child name) bytes = .error f) ∨
      ∃ v₁, v.write (root.child name) bytes = .ok v₁ ∧
        Advances (fun l => l = d ++ [name]) v v₁ ∧
        v₁.nodeAt? (d ++ [name]) = some (.file bytes v.writeTime) ∧ v.writeTime < v₁.writeTime := by
  cases hwrite : v.write (root.child name) bytes with
  | error f => exact .inl ⟨f, rfl⟩
  | ok v₁ =>
    obtain ⟨-, l, htarget, rfl⟩ := write_eq_ok_iff.mp hwrite
    obtain ⟨hlocate, -, hfree⟩ := target_eq_ok_iff.mp htarget
    obtain ⟨-, rfl⟩ := h.of_locate hname hlocate
    refine .inr ⟨_, rfl, advances_file bytes ⟨hfree, h.unlinked name⟩,
      nodeAt?_put_self v _ ne_root_of_append, ?_⟩
    change v.writeTime < 1000000000000000000 + ((v.clock + 1 : Nat) : Int)
    unfold writeTime
    omega

/-- A file of a folder is moved to another name in it, or nothing happens. -/
theorem FolderAt.rename (h : FolderAt v root d) {source goal : String} (hsource : IsName source)
    (hgoal : IsName goal) {node : Node} (hnode : v.nodeAt? (d ++ [source]) = some node) :
    (∃ f, v.rename (root.child source) (root.child goal) = .error f) ∨
      (v.rename (root.child source) (root.child goal) =
        .ok ((v.drop (d ++ [source])).put (d ++ [goal]) node) ∧
        ¬ nameLimit < goal.utf8ByteSize ∧ IsLeaf (v.nodeAt? (d ++ [goal]))) := by
  cases hrename : v.rename (root.child source) (root.child goal) with
  | error f => exact .inl ⟨f, rfl⟩
  | ok v₁ =>
    obtain ⟨s, g, node', hs, hg, hnode', hfree, -, rfl⟩ := rename_eq_ok_iff.mp hrename
    obtain ⟨-, rfl⟩ := h.of_locate hsource hs
    obtain ⟨hshort, rfl⟩ := h.of_locate hgoal hg
    obtain rfl := Option.some.inj (hnode.symm.trans hnode')
    exact .inr ⟨rfl, hshort, hfree, h.unlinked goal⟩

/-- A file of a folder is removed, or nothing happens. -/
theorem FolderAt.unlink (h : FolderAt v root d) {name : String} (hname : IsName name) :
    (∃ f, v.unlink (root.child name) = .error f) ∨
      (v.unlink (root.child name) = .ok (v.drop (d ++ [name])) ∧
        IsLeaf (v.nodeAt? (d ++ [name]))) := by
  cases hunlink : v.unlink (root.child name) with
  | error f => exact .inl ⟨f, rfl⟩
  | ok v₁ =>
    obtain ⟨-, l, node, hlocate, hnode, hfree, rfl⟩ := unlink_eq_ok_iff.mp hunlink
    obtain ⟨-, rfl⟩ := h.of_locate hname hlocate
    refine .inr ⟨rfl, fun hdirectory => hfree ?_, h.unlinked name⟩
    exact Option.some.inj (hnode.symm.trans hdirectory)

theorem FolderAt.removed (h : FolderAt v root d) {name : String} (hname : IsName name) :
    Advances (fun l => l = d ++ [name]) v
      ((Filing.change fun v => v.unlink (root.child name)).run v).2 := by
  rw [Filing.run_change]
  rcases h.unlink hname with ⟨f, hfailed⟩ | ⟨hdone, hleaf⟩
  · rw [hfailed]
    exact Advances.refl _ v
  · rw [hdone]
    exact Advances.drop rfl hleaf

/-- The last part of storing an entry: the new file gets its content and its name. -/
def settleFile (temporary root : Path) (key : String) (bytes : List UInt8) : Filing Unit := do
  Filing.write temporary bytes
  Filing.change fun v =>
    if hasZero (entryPath root key) then .error (.badValue .zeroInPath)
    else v.rename temporary (entryPath root key)

/-- What storing an entry in a folder comes to: the file of the entry is the new one, or it is as it
was and there is a failure. -/
structure Puts (v : Volume) (root : Path) (d : Location) (temporary key : String)
    (bytes : List UInt8) (r : Except Failure Unit) (v' : Volume) : Prop where
  advances : Advances (fun l => l = d ++ [temporary] ∨ l = d ++ [fileName key]) v v'
  stored : r = .ok () → hasZero (entryPath root key) = false ∧
    ¬ nameLimit < (fileName key).utf8ByteSize ∧
    ∃ mtime, v'.nodeAt? (d ++ [fileName key]) = some (.file bytes mtime)
  failed : ∀ f, r = .error f →
    v'.nodeAt? (d ++ [fileName key]) = v.nodeAt? (d ++ [fileName key])

theorem fileName_apart {temporary : String} (ht : IsTemporary temporary) (d : Location)
    (key : String) : d ++ [fileName key] ≠ d ++ [temporary] := by
  intro heq
  exact ht.ne_fileName key (List.cons.inj (List.append_cancel_left heq)).1.symm

theorem FolderAt.run_settleFile (h : FolderAt v root d) {temporary : String}
    (ht : IsTemporary temporary) (key : String) (bytes : List UInt8) :
    ∃ r v', (settleFile (root.child temporary) root key bytes).run v = (r, v') ∧
      Puts v root d temporary key bytes r v' := by
  unfold settleFile Filing.write
  rcases h.write ht.isName bytes with ⟨f, hfailed⟩ | ⟨v₁, hdone, hadvances, hnode, htime⟩
  · refine ⟨.error f, v, ?_, Advances.refl _ v, nofun, fun _ _ => rfl⟩
    rw [Action.run_bind_error]
    rw [Filing.run_change, hfailed]
  · have hrun : (Filing.change fun v => v.write (root.child temporary) bytes).run v =
        (.ok (), v₁) := by
      rw [Filing.run_change, hdone]
    have hkept := hadvances.node_of_not (fileName_apart ht d key)
    have hwritten : Advances (fun l => l = d ++ [temporary] ∨ l = d ++ [fileName key]) v v₁ :=
      hadvances.mono fun l hl => Or.inl hl
    rw [Action.run_bind_ok hrun, Filing.run_change]
    by_cases hzero : hasZero (entryPath root key) = true
    · rw [if_pos hzero]
      exact ⟨_, _, rfl, hwritten, nofun, fun _ _ => hkept⟩
    · rw [if_neg hzero, entryPath, ← fileName]
      rcases (h.grows hwritten.grows).rename ht.isName (isName_fileName key) hnode with
        ⟨f, hfailed⟩ | ⟨hmoved, hshort, hgleaf⟩
      · rw [hfailed]
        exact ⟨_, _, rfl, hwritten, nofun, fun _ _ => hkept⟩
      · rw [hmoved]
        have hrecent : IsRecent v v₁ (some (.file bytes v.writeTime)) := by
          intro node bytes' mtime hfile hcontent
          cases hfile
          cases hcontent
          exact ⟨Int.le_refl _, htime⟩
        refine ⟨_, _, rfl, hwritten.move (Or.inl rfl) (Or.inr rfl) hnode ?_ hgleaf hrecent, ?_, nofun⟩
        · rw [hnode]
          exact isLeaf_file _ _
        · intro _
          exact ⟨Bool.eq_false_iff.mpr hzero, hshort, _, nodeAt?_put_self _ _ ne_root_of_append⟩

/-- In its folder, an entry is written to a new file, which is removed again if the rest fails. -/
theorem FolderAt.run_putFile_temporary (h : FolderAt v root d) (key : String) (e : Entry) :
    ∃ temporary, IsTemporary temporary ∧ (putFile root key e).run v = (do
      Filing.write (root.child temporary) []
      Filing.onFailure
        (settleFile (root.child temporary) root key (Text.Utf8.ofString (Json.write .pages e.toJson)))
        (Filing.change fun v => v.unlink (root.child temporary)) : Filing Unit).run v := by
  have hmade : (Filing.makeDirectories root).run v = (.ok (), v) := by
    rw [Filing.makeDirectories, Filing.run_change, h.makeDirectories]
  refine ⟨_, isTemporary_freshName v root (v.nodes.length + 1) v.clock, ?_⟩
  unfold putFile
  rw [Action.run_bind_ok hmade, Action.run_bind_ok (Action.run_get v)]
  rfl

theorem FolderAt.run_putFile (h : FolderAt v root d) (key : String) (e : Entry) :
    ∃ temporary r v', IsTemporary temporary ∧ (putFile root key e).run v = (r, v') ∧
      Puts v root d temporary key (Text.Utf8.ofString (Json.write .pages e.toJson)) r v' := by
  obtain ⟨temporary, ht, hput⟩ := h.run_putFile_temporary key e
  rw [hput]
  generalize Text.Utf8.ofString (Json.write .pages e.toJson) = bytes
  refine ⟨temporary, ?_⟩
  rcases h.write ht.isName [] with ⟨f, hfailed⟩ | ⟨v₁, hdone, hadvances, -, -⟩
  · refine ⟨.error f, v, ht, ?_, Advances.refl _ v, nofun, fun _ _ => rfl⟩
    rw [Action.run_bind_error]
    rw [Filing.write, Filing.run_change, hfailed]
  · have hrun : (Filing.write (root.child temporary) []).run v = (.ok (), v₁) := by
      rw [Filing.write, Filing.run_change, hdone]
    have hkept := hadvances.node_of_not (fileName_apart ht d key)
    have hmono : ∀ l, l = d ++ [temporary] → l = d ++ [temporary] ∨ l = d ++ [fileName key] :=
      fun l hl => Or.inl hl
    have h₁ := h.grows hadvances.grows
    obtain ⟨r, v₂, hsettled, hputs⟩ := h₁.run_settleFile ht key bytes
    rw [Action.run_bind_ok hrun, Filing.run_onFailure, hsettled]
    cases r with
    | ok u =>
      exact ⟨.ok u, v₂, ht, rfl, (hadvances.mono hmono).trans hputs.advances, hputs.stored, nofun⟩
    | error f =>
      have hremoved := (h₁.grows hputs.advances.grows).removed ht.isName
      refine ⟨.error f, _, ht, rfl, ((hadvances.mono hmono).trans hputs.advances).trans
        (hremoved.mono hmono), nofun, ?_⟩
      intro _ _
      rw [hremoved.node_of_not (fileName_apart ht d key), hputs.failed f rfl, hkept]

end Folders

/-! Tables -/

/-- A path leads to a table. -/
def TableAt (v : Volume) (database : Path) (l : Location) : Prop :=
  v.locate true database = .ok l ∧ ∃ rows mtime, v.nodeAt? l = some (.table rows mtime)

section Tables

variable {v v' : Volume} {database : Path} {l : Location}

theorem TableAt.stat (h : TableAt v database l) :
    ∃ mtime, v.stat database = .ok (l, .table (rowsOf v database) mtime) := by
  obtain ⟨hlocate, rows, mtime, hnode⟩ := h
  have hstat := stat_eq_ok_iff.mpr ⟨hlocate, hnode⟩
  refine ⟨mtime, ?_⟩
  rw [rowsOf, hstat]

theorem TableAt.rowsOf_eq {rows : List Row} {mtime : Int} (hlocate : v.locate true database = .ok l)
    (hnode : v.nodeAt? l = some (.table rows mtime)) : rowsOf v database = rows := by
  rw [rowsOf, stat_eq_ok_iff.mpr ⟨hlocate, hnode⟩]

/-- The rows of a table are changed, and it is still one. -/
theorem TableAt.run_withRows (h : TableAt v database l) (f : List Row → List Row) :
    ∃ v', (withRows database f).run v = (.ok (), v') ∧ Advances (fun l' => l' = l) v v' ∧
      TableAt v' database l ∧ rowsOf v' database = f (rowsOf v database) := by
  obtain ⟨mtime, hstat⟩ := h.stat
  obtain ⟨hlocate, hnode⟩ := stat_eq_ok_iff.mp hstat
  have hleaf : IsLeaf (v.nodeAt? l) := by
    rw [hnode]
    exact isLeaf_table _ _
  have hadvances : Advances (fun l' => l' = l) v
      (v.put l (.table (f (rowsOf v database)) v.writeTime)).tick := by
    refine Advances.put rfl hleaf (isLeaf_table _ _) ?_
    intro bytes time hcontent
    cases hcontent
    rfl
  have hnode' := nodeAt?_put_self v (.table (f (rowsOf v database)) v.writeTime)
    (Advances.ne_root hleaf)
  have hlocate' := hadvances.grows.locate hlocate
  refine ⟨_, ?_, hadvances, ⟨hlocate', _, _, hnode'⟩, TableAt.rowsOf_eq hlocate' hnode'⟩
  unfold withRows
  rw [Action.run_bind_ok (Action.run_get v), hstat]
  rfl

theorem find?_putRow_self (r : Row) (rows : List Row) :
    (putRow r rows).find? (isRow r.space r.key) = some r := by
  unfold putRow
  rw [List.find?_append, List.find?_eq_none.mpr]
  · simp [isRow]
  · intro r' hr'
    rw [List.mem_filter] at hr'
    simpa using hr'.2

theorem isRow_apart {space key space' key' : String} {r : Row} (h : space ≠ space' ∨ key ≠ key')
    (hr : isRow space key r = true) : isRow space' key' r = false := by
  simp only [isRow, Bool.and_eq_true, beq_iff_eq] at hr
  rw [isRow, Bool.and_eq_false_iff, hr.1, hr.2]
  exact h.imp (fun hne => beq_eq_false_iff_ne.mpr hne) fun hne => beq_eq_false_iff_ne.mpr hne

theorem find?_putRow_of_ne (r : Row) (rows : List Row) {space key : String}
    (h : space ≠ r.space ∨ key ≠ r.key) :
    (putRow r rows).find? (isRow space key) = rows.find? (isRow space key) := by
  have hr : isRow space key r = false := by
    exact isRow_apart (h.imp Ne.symm Ne.symm) (show isRow r.space r.key r = true by simp [isRow])
  have hsame : (rows.filter fun r' => !isRow r.space r.key r').find? (isRow space key) =
      rows.find? (isRow space key) := by
    rw [List.find?_filter]
    congr 1
    funext r'
    cases hkey : isRow space key r' with
    | false => simp
    | true => simp [isRow_apart h hkey]
  unfold putRow
  rw [List.find?_append, hsame]
  cases rows.find? (isRow space key) with
  | some r' => rfl
  | none => simp [List.find?, hr]

theorem run_get_table (now : Instant) (key space : String) (v : Volume) :
    ((table database space true).get now key).run v =
      (match (rowsOf v database).find? (isRow space key) with
        | none => .ok .absent
        | some r => readEntry now r.data.toList, v) := by
  change (Filing.look fun v => match (rowsOf v database).find? (isRow space key) with
    | none => .ok .absent
    | some r => readEntry now r.data.toList).run v = _
  rw [Filing.run_look]

end Tables

/-! Both -/

/-- Where a store keeps its entries. -/
inductive Place
  | folder (directory : Location)
  | rows (l : Location) (space : String)

namespace Place

/-- The locations that storing in a place can change. -/
def Owns : Place → Location → Prop
  | folder d, l => ∃ name, l = d ++ [name]
  | rows l' _, l => l = l'

/-- Both are folders, or both are rows. -/
def IsLike : Place → Place → Prop
  | folder _, folder _ | rows _ _, rows _ _ => True
  | _, _ => False

end Place

/-- A store has its place on a volume. -/
def At (v : Volume) : Store → Place → Prop
  | folder root _, .folder d => FolderAt v root d
  | table database space isOpen, .rows l space' =>
    isOpen = true ∧ space' = space ∧ TableAt v database l
  | _, _ => False

/-- What tells the entry of a key from those of other keys. -/
def slotOf (key : String) : Store → String
  | folder _ _ => fileName key
  | table _ _ _ => key

theorem get_eq_of_slotOf (now : Instant) {key key' : String} {s : Store}
    (h : s.slotOf key' = s.slotOf key) : s.get now key' = s.get now key := by
  cases s with
  | folder root space =>
    change getFile now root key' = getFile now root key
    unfold getFile entryPath
    rw [← fileName, ← fileName]
    rw [show fileName key' = fileName key from h]
  | table database space isOpen => rw [show key' = key from h]

/-- What storing an entry comes to. -/
structure Stores (s : Store) (place : Place) (key : String) (e : Entry) (v : Volume)
    (r : Except Failure Unit) (v' : Volume) : Prop where
  advances : Advances place.Owns v v'
  kept : s.At v' place
  found : r = .ok () → ∀ now, (s.get now key).run v' = (.ok (.found e), v')
  other : ∀ now key', (∃ f, r = .error f) ∨ s.slotOf key' ≠ s.slotOf key →
    ((s.get now key').run v').1 = ((s.get now key').run v).1
  others : ∀ (s' : Store) place', s'.At v place' → place.IsLike place' → s'.At v' place' ∧
    (place' ≠ place → ∀ now key', ((s'.get now key').run v').1 = ((s'.get now key').run v).1)

/-- Other folders are as they were. -/
theorem others_of_folder {v v' : Volume} {d : Location}
    (advances : Advances (Place.folder d).Owns v v') (s' : Store) (place' : Place)
    (h : s'.At v place') (hlike : (Place.folder d).IsLike place') : s'.At v' place' ∧
      (place' ≠ .folder d → ∀ now key',
        ((s'.get now key').run v').1 = ((s'.get now key').run v).1) := by
  cases place' with
  | rows l space => exact hlike.elim
  | folder d' =>
    cases s' with
    | table database space isOpen => exact h.elim
    | folder root space =>
      change FolderAt v root d' at h
      have h' := h.grows advances.grows
      refine ⟨h', ?_⟩
      intro hne now key'
      refine h.getFile_congr h' now key' (advances.node_of_not ?_)
      rintro ⟨name, heq⟩
      exact hne (congrArg Place.folder (List.append_inj_left' heq rfl))

/-- The rows of other spaces and the rows of other tables are as they were. -/
theorem others_of_rows {v v' : Volume} {database : Path} {l : Location} {r : Row}
    (advances : Advances (fun l' => l' = l) v v') (table : TableAt v database l)
    (table' : TableAt v' database l)
    (rows : rowsOf v' database = putRow r (rowsOf v database)) (s' : Store) (place' : Place)
    (h : s'.At v place') (hlike : (Place.rows l r.space).IsLike place') : s'.At v' place' ∧
      (place' ≠ .rows l r.space → ∀ now key',
        ((s'.get now key').run v').1 = ((s'.get now key').run v).1) := by
  cases place' with
  | folder d => exact hlike.elim
  | rows l' space' =>
    cases s' with
    | folder root space => exact h.elim
    | table database' space isOpen =>
      obtain ⟨rfl, rfl, htable⟩ := h
      obtain ⟨hlocate, rows₀, mtime, hnode⟩ := htable
      have hlocate' := advances.grows.locate hlocate
      by_cases hl : l' = l
      · subst hl
        have hsame : ∀ v, TableAt v database l' → v.locate true database' = .ok l' →
            rowsOf v database' = rowsOf v database := by
          rintro v ⟨hat, rows, mtime, hnode⟩ hat'
          rw [TableAt.rowsOf_eq hat hnode, TableAt.rowsOf_eq hat' hnode]
        refine ⟨⟨rfl, rfl, hlocate', table'.2⟩, ?_⟩
        intro hne now key'
        have hspace : space' ≠ r.space := by
          rintro rfl
          exact hne rfl
        rw [run_get_table, run_get_table, hsame v' table' hlocate', hsame v table hlocate, rows,
          find?_putRow_of_ne r _ (Or.inl hspace)]
      · have hnode' := (advances.node_of_not hl).trans hnode
        refine ⟨⟨rfl, rfl, hlocate', rows₀, mtime, hnode'⟩, ?_⟩
        intro _ now key'
        rw [run_get_table, run_get_table, TableAt.rowsOf_eq hlocate' hnode',
          TableAt.rowsOf_eq hlocate hnode]

theorem run_put {v : Volume} {s : Store} {place : Place} (h : s.At v place) (key : String)
    {e : Entry} (hdate : e.createdAt.IsDate) :
    ∃ r v', (s.put key e).run v = (r, v') ∧ Stores s place key e v r v' := by
  cases s with
  | folder root space =>
    cases place with
    | rows l space' => exact h.elim
    | folder d =>
      change FolderAt v root d at h
      obtain ⟨temporary, r, v', ht, hrun, hputs⟩ := h.run_putFile key e
      have h' := h.grows hputs.advances.grows
      have hadvances : Advances (Place.folder d).Owns v v' := by
        refine hputs.advances.mono ?_
        rintro l (rfl | rfl)
        · exact ⟨_, rfl⟩
        · exact ⟨_, rfl⟩
      refine ⟨r, v', hrun, hadvances, h', ?_, ?_, others_of_folder hadvances⟩
      · intro hr now
        obtain ⟨hzero, hshort, mtime, hnode⟩ := hputs.stored hr
        exact h'.getFile_found now hdate hzero hshort hnode
      · intro now key' hcase
        refine h.getFile_congr h' now key' ?_
        by_cases hslot : fileName key' = fileName key
        · obtain ⟨f, hr⟩ := hcase.resolve_right fun hne => hne hslot
          rw [hslot]
          exact hputs.failed f hr
        · refine hputs.advances.node_of_not ?_
          rintro (heq | heq)
          · exact fileName_apart ht d key' heq
          · exact hslot (List.cons.inj (List.append_cancel_left heq)).1
  | table database space isOpen =>
    cases place with
    | folder d => exact h.elim
    | rows l space' =>
      obtain ⟨rfl, rfl, htable⟩ := h
      obtain ⟨v', hrun, hadvances, htable', hrows⟩ :=
        htable.run_withRows (putRow ⟨space', key, Json.write .compact e.toJson⟩)
      refine ⟨.ok (), v', hrun, hadvances.mono fun l hl => hl, ⟨rfl, rfl, htable'⟩, ?_, ?_,
        others_of_rows hadvances htable htable' hrows⟩
      · intro _ now
        rw [run_get_table, hrows, find?_putRow_self ⟨space', key, _⟩]
        simp only [readEntry_written now .compact hdate]
      · intro now key' hcase
        rw [run_get_table, run_get_table, hrows, find?_putRow_of_ne]
        rcases hcase with ⟨f, hr⟩ | hne
        · cases hr
        · exact Or.inr hne

end Store
end AssetCompiler
