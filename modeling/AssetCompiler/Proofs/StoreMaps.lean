import AssetCompiler.Proofs.Folders
import Mathlib.Data.List.Perm.Basic

/-!
Stores as finite maps. A store that begins empty answers every sequence of operations as a finite map
from keys to entries does, whether it keeps files in a folder or rows in a table; only the order in
which it lists its entries is its own.
-/
namespace AssetCompiler

namespace Keyed

variable {κ ν : Type} [BEq κ] [LawfulBEq κ]

theorem erase_of_not_mem {k : κ} {t : Keyed κ ν} (h : k ∉ t.keys) : erase k t = t := by
  refine List.filter_eq_self.mpr fun e he => ?_
  simp only [Bool.not_eq_true', beq_eq_false_iff_ne]
  rintro rfl
  exact h (List.mem_map_of_mem he)

/-- Setting a key puts one pair in the place of what there was under it. -/
theorem set_perm (k : κ) (v : ν) {t : Keyed κ ν} (h : t.keys.Nodup) :
    (set k v t).Perm (erase k t ++ [(k, v)]) := by
  induction t with
  | nil => exact List.Perm.refl _
  | cons e rest ih =>
    obtain ⟨k₀, v₀⟩ := e
    have hparts := List.nodup_cons.mp h
    by_cases h₀ : k₀ = k
    · subst h₀
      have hrest : erase k₀ ((k₀, v₀) :: rest) = rest := by
        rw [erase, List.filter_cons_of_neg (by simp)]
        exact erase_of_not_mem hparts.1
      rw [set, if_pos (by simp), hrest]
      exact (List.perm_append_singleton _ _).symm
    · have hrest : erase k ((k₀, v₀) :: rest) = (k₀, v₀) :: erase k rest :=
        List.filter_cons_of_pos (by simpa using h₀)
      rw [set, if_neg (by simpa using h₀), hrest]
      exact (ih hparts.2).cons _

end Keyed

/-- A list that is like a list of images is the images of a like list. -/
theorem exists_of_perm_map {α β : Type} {f : α → β} {l : List β} {t : List α}
    (h : l.Perm (t.map f)) : ∃ t' : List α, l = t'.map f ∧ t'.Perm t := by
  have hcomp := (congrFun (congrFun (List.eq_map_comp_perm f) l) t).mpr h
  obtain ⟨t', rfl, hperm⟩ := hcomp
  exact ⟨t', rfl, hperm⟩

namespace Volume

theorem mem_namesIn {v : Volume} {l : Location} {name : String} :
    name ∈ v.namesIn l ↔ ∃ node, (l ++ [name], node) ∈ v.nodes := by
  unfold namesIn below
  simp only [List.mem_filterMap, List.mem_mergeSort]
  constructor
  · rintro ⟨rest, ⟨⟨l', node⟩, hmem, hrest⟩, hname⟩
    split at hname
    · cases hname
      split at hrest
      · rename_i hbegins
        simp only [Bool.and_eq_true, List.isPrefixOf_iff_prefix] at hbegins
        obtain ⟨rest, rfl⟩ := hbegins.1
        rw [List.drop_left] at hrest
        cases hrest
        exact ⟨node, hmem⟩
      · cases hrest
    · cases hname
  · rintro ⟨node, hmem⟩
    refine ⟨[name], ⟨(l ++ [name], node), hmem, ?_⟩, rfl⟩
    simp

theorem nodup_below {v : Volume} (h : v.nodes.keys.Nodup) (l : Location) : (v.below l).Nodup := by
  unfold below
  simp only [(List.mergeSort_perm _ _).nodup_iff]
  have hkeys : v.nodes.filterMap (fun e =>
      if (l.isPrefixOf e.1 && decide (l.length < e.1.length)) = true then some (e.1.drop l.length)
      else none) =
      v.nodes.keys.filterMap fun l' =>
        if (l.isPrefixOf l' && decide (l.length < l'.length)) = true then some (l'.drop l.length)
        else none := by
    rw [Keyed.keys, List.filterMap_map]
    rfl
  rw [hkeys]
  refine h.filterMap ?_
  intro a a' rest ha ha'
  simp only [Option.mem_def, Option.ite_none_right_eq_some, Bool.and_eq_true,
    List.isPrefixOf_iff_prefix, Option.some.injEq] at ha ha'
  obtain ⟨⟨⟨b, rfl⟩, -⟩, hb⟩ := ha
  obtain ⟨⟨⟨b', rfl⟩, -⟩, hb'⟩ := ha'
  rw [List.drop_left] at hb hb'
  rw [hb, hb']

theorem nodup_namesIn {v : Volume} (h : v.nodes.keys.Nodup) (l : Location) :
    (v.namesIn l).Nodup := by
  refine (nodup_below h l).filterMap ?_
  intro rest rest' name hrest hrest'
  simp only [Option.mem_def] at hrest hrest'
  split at hrest
  · split at hrest'
    · cases hrest
      cases hrest'
      rfl
    · cases hrest'
  · cases hrest

theorem nodeAt?_of_mem {v : Volume} (h : v.nodes.keys.Nodup) {l : Location} {node : Node}
    (hl : l ≠ []) (hmem : (l, node) ∈ v.nodes) : v.nodeAt? l = some node := by
  rw [nodeAt?, if_neg (by simpa using hl), Keyed.find?_of_mem h hmem]

theorem mem_of_nodeAt? {v : Volume} {l : Location} {node : Node} (hl : l ≠ [])
    (h : v.nodeAt? l = some node) : (l, node) ∈ v.nodes := by
  rw [nodeAt?, if_neg (by simpa using hl)] at h
  exact Keyed.mem_of_find? h

end Volume

namespace Store

open Volume

/-! Operations -/

inductive Operation
  | put (key : String) (e : Entry)
  | get (key : String)
  | delete (key : String)
  | list

inductive Answer
  | done
  | looked (l : Lookup)
  | listed (entries : List Entry)

def perform (now : Instant) (s : Store) : Operation → Filing Answer
  | .put key e => do
    s.put key e
    return .done
  | .get key => return .looked (← s.get now key)
  | .delete key => do
    s.delete key
    return .done
  | .list => return .listed (← s.entries now)

/-- Performs operations in turn, each at its time. -/
def performAll (s : Store) : List (Instant × Operation) → Filing (List Answer)
  | [] => return []
  | (now, op) :: rest => do
    let answer ← s.perform now op
    return answer :: (← s.performAll rest)

namespace Operation

/-- The map after an operation. -/
def after (t : Keyed String Entry) : Operation → Keyed String Entry
  | .put key e => t.set key e
  | .delete key => t.erase key
  | .get _ | .list => t

/-- What the map answers to an operation. -/
def answer (t : Keyed String Entry) : Operation → Answer
  | .put _ _ | .delete _ => .done
  | .get key => .looked ((t.find? key).elim .absent .found)
  | .list => .listed (t.map (·.2))

/-- What the map answers to operations in turn. -/
def answers (t : Keyed String Entry) : List Operation → List Answer
  | [] => []
  | op :: rest => op.answer t :: answers (op.after t) rest

end Operation

namespace Operation

/-- What a key has after an operation, if it had this before. -/
def last (key : String) (before : Option Entry) : Operation → Option Entry
  | .put key' e => if key' = key then some e else before
  | .delete key' => if key' = key then none else before
  | .get _ | .list => before

/-- The entry that was put last under a key and has not been deleted since. -/
def standing (key : String) (ops : List Operation) : Option Entry := ops.foldl (last key) none

theorem find?_after (key : String) (t : Keyed String Entry) (op : Operation) :
    (op.after t).find? key = op.last key (t.find? key) := by
  cases op with
  | put key' e =>
    rw [after, Keyed.find?_set]
    exact if_congr eq_comm rfl rfl
  | delete key' =>
    rw [after, Keyed.find?_erase]
    exact if_congr eq_comm rfl rfl
  | get key' => rfl
  | list => rfl

theorem find?_foldl_after (key : String) (t : Keyed String Entry) (ops : List Operation) :
    (ops.foldl after t).find? key = ops.foldl (last key) (t.find? key) := by
  induction ops generalizing t with
  | nil => rfl
  | cons op rest ih =>
    rw [List.foldl_cons, List.foldl_cons, ih, find?_after]

end Operation

/-- The same answer, up to the order of what is listed. -/
inductive Answer.Matches : Answer → Answer → Prop
  | done : Matches .done .done
  | looked (l : Lookup) : Matches (.looked l) (.looked l)
  | listed {es es' : List Entry} (like : es.Perm es') : Matches (.listed es) (.listed es')

theorem Answer.Matches.trans {a a' a'' : Answer} (h : a.Matches a') (h' : a'.Matches a'') :
    a.Matches a'' := by
  cases h with
  | done => exact h'
  | looked l => exact h'
  | listed like =>
    cases h' with
    | listed like' => exact .listed (like.trans like')

theorem Answer.Matches.symm {a a' : Answer} (h : a.Matches a') : a'.Matches a := by
  cases h with
  | done => exact .done
  | looked l => exact .looked l
  | listed like => exact .listed like.symm

/-- Answers that both match those of a map match each other. -/
theorem Answer.Matches.all {answers answers' given : List Answer}
    (h : List.Forall₂ Matches answers given) (h' : List.Forall₂ Matches answers' given) :
    List.Forall₂ Matches answers answers' := by
  induction h generalizing answers' with
  | nil =>
    cases h'
    exact .nil
  | cons hfirst _ ih =>
    cases h' with
    | cons hfirst' hrest' => exact .cons (hfirst.trans hfirst'.symm) (ih hrest')

/-- A key that a hash and a media type make, short enough for the name of a file. -/
structure IsKey (key : String) : Prop where
  made : ∃ i : Fingerprint, i.IsHashed ∧ i.cacheKey = key
  short : ¬ nameLimit < (fileName key).utf8ByteSize

/-- Keys are made of hashes and media types, and entries have a date that there is. -/
def Operation.IsValid : Operation → Prop
  | .put key e => IsKey key ∧ e.createdAt.IsDate
  | .get key | .delete key => IsKey key
  | .list => True

theorem IsKey.fileName_eq {key : String} (h : IsKey key) : fileName key = key ++ ".json" := by
  obtain ⟨i, hi, rfl⟩ := h.made
  rw [fileName, hi.safeName_cacheKey]

theorem IsKey.isShort {key : String} (h : IsKey key) : IsShort (fileName key) := by
  refine ⟨isName_fileName key, h.short, ?_⟩
  rw [h.fileName_eq, String.toList_append, List.mem_append, not_or]
  refine ⟨?_, by decide⟩
  obtain ⟨i, hi, rfl⟩ := h.made
  exact fun hmem => absurd (hi.of_mem_cacheKey hmem) (by decide)

theorem IsKey.fileName_injective {key key' : String} (h : IsKey key) (h' : IsKey key')
    (heq : fileName key = fileName key') : key = key' := by
  rw [h.fileName_eq, h'.fileName_eq] at heq
  have hlists := congrArg String.toList heq
  rw [String.toList_append, String.toList_append] at hlists
  exact String.toList_inj.mp (List.append_cancel_right hlists)

/-- A map from such keys to such entries. -/
structure IsMap (t : Keyed String Entry) : Prop where
  nodup : t.keys.Nodup
  keys : ∀ key ∈ t.keys, IsKey key
  dates : ∀ e ∈ t, e.2.createdAt.IsDate

theorem isMap_nil : IsMap [] := ⟨List.nodup_nil, nofun, nofun⟩

theorem IsMap.after {t : Keyed String Entry} (h : IsMap t) {op : Operation} (hop : op.IsValid) :
    IsMap (op.after t) := by
  cases op with
  | put key e =>
    refine ⟨Keyed.nodup_keys_set e h.nodup, ?_, ?_⟩
    · intro key' hkey'
      rcases Keyed.mem_keys_set.mp hkey' with rfl | hmem
      · exact hop.1
      · exact h.keys key' hmem
    · intro entry hentry
      rcases Keyed.mem_of_mem_set hentry with rfl | hmem
      · exact hop.2
      · exact h.dates entry hmem
  | delete key =>
    refine ⟨Keyed.nodup_keys_erase key h.nodup, ?_, ?_⟩
    · intro key' hkey'
      exact h.keys key' ((List.filter_sublist.map _).subset hkey')
    · exact fun entry hentry => h.dates entry (List.filter_sublist.subset hentry)
  | get key => exact h
  | list => exact h

/-! What a list of look-ups finds -/

/-- The entries among the answers to look-ups. -/
def collect : List (Except Failure Lookup) → Except Failure (List Entry)
  | [] => .ok []
  | r :: rest => do
    match ← r with
    | .found e => return e :: (← collect rest)
    | _ => collect rest

theorem readAll_eq_collect (now : Instant) (v : Volume) (ps : List Path) :
    readAll now v ps = collect (ps.map (readFile now v)) := by
  induction ps with
  | nil => rfl
  | cons p rest ih =>
    rewrite [readAll, List.map_cons, collect, ih]
    cases readFile now v p with
    | error f => rfl
    | ok l => cases l <;> rfl

theorem readRows_eq_collect (now : Instant) (rows : List Row) :
    readRows now rows = collect (rows.map fun r => readEntry now r.data.toList) := by
  induction rows with
  | nil => rfl
  | cons r rest ih =>
    rewrite [readRows, List.map_cons, collect, ih]
    cases readEntry now r.data.toList with
    | error f => rfl
    | ok l => cases l <;> rfl

theorem collect_found (es : List Entry) :
    collect (es.map fun e => .ok (.found e)) = .ok es := by
  induction es with
  | nil => rfl
  | cons e rest ih =>
    rw [List.map_cons, collect, ih]
    rfl

/-- Whatever the order in which the pairs of a map are looked up, its entries are found. -/
theorem collect_of_perm {α : Type} {look : α → Except Failure Lookup} {place : String × Entry → α}
    {t : Keyed String Entry} {places : List α} (hplaces : places.Perm (t.map place))
    (hlook : ∀ e ∈ t, look (place e) = .ok (.found e.2)) :
    ∃ es, collect (places.map look) = .ok es ∧ es.Perm (t.map (·.2)) := by
  obtain ⟨t', rfl, hperm⟩ := exists_of_perm_map hplaces
  refine ⟨t'.map (·.2), ?_, hperm.map _⟩
  have hfound : (t'.map place).map look = (t'.map (·.2)).map fun e => .ok (.found e) := by
    rw [List.map_map, List.map_map]
    exact List.map_congr_left fun e he => hlook e (hperm.mem_iff.mp he)
  rw [hfound, collect_found]

/-! Folders -/

/-- A folder has exactly the entries of a map, each in its file. -/
structure FolderMap (v : Volume) (root : Path) (d : Location) (t : Keyed String Entry) : Prop where
  folder : FolderAt v root d
  nodes : v.nodes.keys.Nodup
  file : ∀ key e, t.find? key = some e → ∃ mtime, v.nodeAt? (d ++ [fileName key]) =
    some (.file (Text.Utf8.ofString (Json.write .pages e.toJson)) mtime)
  only : ∀ name node, v.nodeAt? (d ++ [name]) = some node →
    ∃ key e mtime, name = fileName key ∧ t.find? key = some e ∧
      node = .file (Text.Utf8.ofString (Json.write .pages e.toJson)) mtime

section FolderMaps

variable {v : Volume} {root : Path} {d : Location} {t : Keyed String Entry} {key : String}

theorem FolderMap.isLeaf (h : FolderMap v root d t) (name : String) :
    IsLeaf (v.nodeAt? (d ++ [name])) := by
  cases hnode : v.nodeAt? (d ++ [name]) with
  | none => exact isLeaf_none
  | some node =>
    obtain ⟨key, e, mtime, -, -, rfl⟩ := h.only name node hnode
    exact isLeaf_file _ _

theorem append_fileName_inj {key key' : String} (h : IsKey key) (h' : IsKey key') :
    d ++ [fileName key'] = d ++ [fileName key] ↔ key' = key := by
  constructor
  · intro heq
    exact h'.fileName_injective h (List.cons.inj (List.append_cancel_left heq)).1
  · rintro rfl
    rfl

theorem FolderMap.put (h : FolderMap v root d t) (ht : IsMap t) (hkey : IsKey key) (e : Entry) :
    ∃ v', (putFile root key e).run v = (.ok (), v') ∧ FolderMap v' root d (t.set key e) := by
  obtain ⟨v', hrun, hfiles⟩ := h.folder.putFile_ok hkey.isShort h.isLeaf e
  obtain ⟨temporary, mtime, htemporary, hnode⟩ := hfiles.node
  refine ⟨v', hrun, ?_, hfiles.keys h.nodes, ?_, ?_⟩
  · obtain ⟨_, _, _, _, hrun', hputs⟩ := h.folder.run_putFile key e
    rw [hrun] at hrun'
    cases hrun'
    exact h.folder.grows hputs.advances.grows
  · intro key' e' hfind
    rw [hnode, if_neg (fileName_apart htemporary d key')]
    rw [Keyed.find?_set] at hfind
    split at hfind
    · rename_i heq
      cases hfind
      exact ⟨mtime, if_pos (by rw [heq])⟩
    · rename_i hne
      have hkey' := ht.keys key' (List.mem_map_of_mem (Keyed.mem_of_find? hfind))
      rw [if_neg (fun heq => hne ((append_fileName_inj hkey hkey').mp heq))]
      exact h.file key' e' hfind
  · intro name node hname
    rw [hnode] at hname
    split at hname
    · rename_i heq
      cases hname
      exact ⟨key, e, mtime, (List.cons.inj (List.append_cancel_left heq)).1,
        Keyed.find?_set_self key e t, rfl⟩
    · rename_i hne
      split at hname
      · cases hname
      · obtain ⟨key', e', mtime', rfl, hfind, hfile⟩ := h.only name node hname
        refine ⟨key', e', mtime', rfl, ?_, hfile⟩
        rw [Keyed.find?_set_of_ne _ e t, hfind]
        rintro rfl
        exact hne rfl

theorem FolderMap.delete (h : FolderMap v root d t) (ht : IsMap t) (hkey : IsKey key) :
    ∃ v', (deleteFile root key).run v = (.ok (), v') ∧ FolderMap v' root d (t.erase key) := by
  obtain ⟨v', hrun, hhere, hnodes, hnode⟩ := h.folder.deleteFile_ok hkey.isShort (h.isLeaf _)
  have hgrows : Grows v v' := by
    refine ⟨hhere, fun l hl => ?_, fun l target => ?_⟩
    · rw [hnode, if_neg, hl]
      rintro rfl
      exact (h.isLeaf _).1 hl
    · rw [hnode]
      split
      · rename_i heq
        rw [heq]
        exact ⟨nofun, fun hl => absurd hl ((h.isLeaf _).2 target)⟩
      · rfl
  refine ⟨v', hrun, h.folder.grows hgrows, hnodes h.nodes, ?_, ?_⟩
  · intro key' e hfind
    rw [Keyed.find?_erase] at hfind
    split at hfind
    · cases hfind
    · rename_i hne
      have hkey' := ht.keys key' (List.mem_map_of_mem (Keyed.mem_of_find? hfind))
      rw [hnode, if_neg (fun heq => hne ((append_fileName_inj hkey hkey').mp heq))]
      exact h.file key' e hfind
  · intro name node hname
    rw [hnode] at hname
    split at hname
    · cases hname
    · rename_i hne
      obtain ⟨key', e, mtime, rfl, hfind, hfile⟩ := h.only name node hname
      refine ⟨key', e, mtime, rfl, ?_, hfile⟩
      rw [Keyed.find?_erase_of_ne, hfind]
      rintro rfl
      exact hne rfl

theorem FolderMap.get (h : FolderMap v root d t) (ht : IsMap t) (hkey : IsKey key)
    (now : Instant) :
    (getFile now root key).run v = (.ok ((t.find? key).elim .absent .found), v) := by
  cases hfind : t.find? key with
  | some e =>
    obtain ⟨mtime, hnode⟩ := h.file key e hfind
    exact h.folder.getFile_found now (ht.dates _ (Keyed.mem_of_find? hfind))
      (h.folder.hasZero_short hkey.isShort) hkey.short hnode
  | none =>
    have hnone : v.nodeAt? (d ++ [fileName key]) = none := by
      cases hnode : v.nodeAt? (d ++ [fileName key]) with
      | none => rfl
      | some node =>
        obtain ⟨key', e, mtime, hname, hfind', -⟩ := h.only _ node hnode
        have hkey' := ht.keys key' (List.mem_map_of_mem (Keyed.mem_of_find? hfind'))
        rw [hkey.fileName_injective hkey' hname, hfind'] at hfind
        cases hfind
    have hthere : v.isThere (entryPath root key) = .ok false := by
      rw [entryPath, ← fileName, h.folder.isThere_short hkey.isShort, hnone]
      rfl
    rw [getFile, Filing.run_look, hthere]
    rfl

theorem FolderMap.readFile (h : FolderMap v root d t) (ht : IsMap t) (now : Instant) {e : Entry}
    (hfind : t.find? key = some e) : readFile now v (entryPath root key) = .ok (.found e) := by
  have hkey := (ht.keys key (List.mem_map_of_mem (Keyed.mem_of_find? hfind))).isShort
  obtain ⟨mtime, hnode⟩ := h.file key e hfind
  have hstat := stat_eq_ok_iff.mpr ⟨h.folder.locate_short true hkey, hnode⟩
  have htext : v.readText (entryPath root key) = _ :=
    readText_written (h.folder.hasZero_short hkey) hstat
      (Json.unifyLineEnds_write .pages e.isPlain_toJson)
  simp only [Store.readFile, htext,
    readEntry_written now .pages (ht.dates _ (Keyed.mem_of_find? hfind))]

/-- The names of files in the folder are those of the keys. -/
theorem FolderMap.names_perm (h : FolderMap v root d t) (ht : IsMap t) :
    ((v.namesIn d).filter fun n => suffix.isSuffixOf n.toList).Perm (t.map fun e => fileName e.1) := by
  refine (List.perm_ext_iff_of_nodup ((nodup_namesIn h.nodes d).filter _) ?_).mpr fun name => ?_
  · have hkeys : (t.map fun e => fileName e.1) = t.keys.map fileName := by
      rw [Keyed.keys, List.map_map]
      rfl
    rw [hkeys]
    refine (List.nodup_map_iff_inj_on ht.nodup).mpr fun key hkey key' hkey' heq => ?_
    exact (ht.keys key hkey).fileName_injective (ht.keys key' hkey') heq
  · rw [List.mem_filter, mem_namesIn, List.mem_map]
    constructor
    · rintro ⟨⟨node, hmem⟩, -⟩
      obtain ⟨key, e, mtime, rfl, hfind, -⟩ :=
        h.only name node (nodeAt?_of_mem h.nodes ne_root_of_append hmem)
      exact ⟨(key, e), Keyed.mem_of_find? hfind, rfl⟩
    · rintro ⟨⟨key, e⟩, hmem, rfl⟩
      obtain ⟨mtime, hnode⟩ := h.file key e (Keyed.find?_of_mem ht.nodup hmem)
      refine ⟨⟨_, mem_of_nodeAt? ne_root_of_append hnode⟩, ?_⟩
      rw [List.isSuffixOf_iff_suffix, fileName, String.toList_append]
      exact List.suffix_append _ _

/-- The files in the folder are those of its names. -/
theorem FolderMap.entryFiles_eq_map (h : FolderMap v root d t) : entryFiles v root =
    ((v.namesIn d).filter fun n => suffix.isSuffixOf n.toList).map fun n =>
      ⟨root.root, root.parts ++ [n]⟩ := by
  unfold entryFiles
  rw [stat_eq_ok_iff.mpr ⟨h.folder.located, h.folder.directory⟩]

theorem entryPath_eq (root : Path) (key : String) :
    entryPath root key = ⟨root.root, root.parts ++ [fileName key]⟩ := by
  rw [entryPath, ← fileName, (isName_fileName key).child]

/-- The files in the folder are those of the keys. -/
theorem FolderMap.entryFiles_perm (h : FolderMap v root d t) (ht : IsMap t) :
    (entryFiles v root).Perm (t.map fun e => entryPath root e.1) := by
  rw [h.entryFiles_eq_map]
  refine ((h.names_perm ht).map _).trans (List.Perm.of_eq ?_)
  rw [List.map_map]
  exact List.map_congr_left fun e _ => (entryPath_eq root e.1).symm

theorem FolderMap.entries (h : FolderMap v root d t) (ht : IsMap t) (now : Instant)
    (space : String) :
    ∃ es, ((Store.folder root space).entries now).run v = (.ok es, v) ∧ es.Perm (t.map (·.2)) := by
  obtain ⟨es, hes, hperm⟩ := collect_of_perm (h.entryFiles_perm ht) fun e he =>
    h.readFile ht now (Keyed.find?_of_mem ht.nodup he)
  have hthere := isDirectory_of_isDirectory h.folder.zero
    ⟨d, h.folder.located, h.folder.directory⟩
  refine ⟨es, ?_, hperm⟩
  change (Filing.look fun v => do
    if ← v.isDirectory root then readAll now v (entryFiles v root) else return []).run v = _
  rw [Filing.run_look, hthere, readAll_eq_collect, hes]
  rfl

end FolderMaps

/-! Tables -/

/-- The row of a key in a space. -/
def rowOf (space : String) (e : String × Entry) : Row :=
  ⟨space, e.1, Json.write .compact e.2.toJson⟩

/-- A table has exactly the entries of a map in the rows of a space. -/
structure TableMap (v : Volume) (database : Path) (l : Location) (space : String)
    (t : Keyed String Entry) : Prop where
  table : TableAt v database l
  rows : ((rowsOf v database).filter (·.space == space)).Perm (t.map (rowOf space))

section TableMaps

variable {v : Volume} {database : Path} {l : Location} {space : String} {t : Keyed String Entry}
variable {key : String}

theorem filter_deleteRow (rows : List Row) :
    (deleteRow space key rows).filter (·.space == space) =
      (rows.filter (·.space == space)).filter fun r => !(r.key == key) := by
  unfold deleteRow
  rw [List.filter_filter, List.filter_filter]
  refine List.filter_congr fun r _ => ?_
  unfold isRow
  cases r.space == space <;> simp

theorem filter_map_rowOf (t : Keyed String Entry) :
    (t.map (rowOf space)).filter (fun r => !(r.key == key)) = (t.erase key).map (rowOf space) := by
  rw [List.filter_map]
  rfl

theorem TableMap.delete_perm (h : TableMap v database l space t) (key : String) :
    ((deleteRow space key (rowsOf v database)).filter (·.space == space)).Perm
      ((t.erase key).map (rowOf space)) := by
  rw [filter_deleteRow, ← filter_map_rowOf]
  exact h.rows.filter _

theorem TableMap.put (h : TableMap v database l space t) (ht : IsMap t) (key : String) (e : Entry) :
    ∃ v', ((Store.table database space true).put key e).run v = (.ok (), v') ∧
      TableMap v' database l space (t.set key e) := by
  obtain ⟨v', hrun, -, htable, hrows⟩ :=
    h.table.run_withRows (putRow ⟨space, key, Json.write .compact e.toJson⟩)
  refine ⟨v', hrun, htable, ?_⟩
  have hsplit : (putRow (rowOf space (key, e)) (rowsOf v database)).filter (·.space == space) =
      (deleteRow space key (rowsOf v database)).filter (·.space == space) ++
        [rowOf space (key, e)] := by
    unfold putRow
    rw [List.filter_append]
    congr 1
    simp [rowOf]
  rw [hrows]
  change ((putRow (rowOf space (key, e)) (rowsOf v database)).filter (·.space == space)).Perm _
  rw [hsplit]
  refine ((h.delete_perm key).append_right _).trans ?_
  have hset := ((Keyed.set_perm key e ht.nodup).map (rowOf space)).symm
  rwa [List.map_append] at hset

theorem TableMap.delete (h : TableMap v database l space t) (key : String) :
    ∃ v', ((Store.table database space true).delete key).run v = (.ok (), v') ∧
      TableMap v' database l space (t.erase key) := by
  obtain ⟨v', hrun, -, htable, hrows⟩ := h.table.run_withRows (deleteRow space key)
  exact ⟨v', hrun, htable, hrows ▸ h.delete_perm key⟩

theorem TableMap.mem_rows_iff (h : TableMap v database l space t) {r : Row} :
    r ∈ rowsOf v database ∧ isRow space key r = true ↔
      ∃ e, (key, e) ∈ t ∧ rowOf space (key, e) = r := by
  have hmem := h.rows.mem_iff (a := r)
  rw [List.mem_filter, List.mem_map, beq_iff_eq] at hmem
  unfold isRow
  rw [Bool.and_eq_true, beq_iff_eq, beq_iff_eq, ← and_assoc, hmem]
  constructor
  · rintro ⟨⟨⟨key', e⟩, he, rfl⟩, rfl⟩
    exact ⟨e, he, rfl⟩
  · rintro ⟨e, he, rfl⟩
    exact ⟨⟨(key, e), he, rfl⟩, rfl⟩

theorem TableMap.find? (h : TableMap v database l space t) (ht : IsMap t) (key : String) :
    (rowsOf v database).find? (isRow space key) =
      (t.find? key).map fun e => rowOf space (key, e) := by
  cases hfound : (rowsOf v database).find? (isRow space key) with
  | some r =>
    obtain ⟨e, he, rfl⟩ :=
      h.mem_rows_iff.mp ⟨List.mem_of_find?_eq_some hfound, List.find?_some hfound⟩
    rw [Keyed.find?_of_mem ht.nodup he]
    rfl
  | none =>
    cases hfind : t.find? key with
    | none => rfl
    | some e =>
      obtain ⟨hmem, hrow⟩ := h.mem_rows_iff.mpr ⟨e, Keyed.mem_of_find? hfind, rfl⟩
      exact absurd hrow (List.find?_eq_none.mp hfound _ hmem)

theorem TableMap.get (h : TableMap v database l space t) (ht : IsMap t) (key : String)
    (now : Instant) :
    ((Store.table database space true).get now key).run v =
      (.ok ((t.find? key).elim .absent .found), v) := by
  rw [run_get_table, h.find? ht]
  cases hfind : t.find? key with
  | none => rfl
  | some e =>
    simp only [Option.map_some, Option.elim_some, rowOf,
      readEntry_written now .compact (ht.dates _ (Keyed.mem_of_find? hfind))]

theorem TableMap.entries (h : TableMap v database l space t) (ht : IsMap t) (now : Instant) :
    ∃ es, ((Store.table database space true).entries now).run v = (.ok es, v) ∧
      es.Perm (t.map (·.2)) := by
  have hrows : (rowsIn space (rowsOf v database)).Perm (t.map (rowOf space)) :=
    (List.mergeSort_perm _ _).trans h.rows
  have hfound : ∀ e ∈ t, readEntry now (rowOf space e).data.toList = .ok (.found e.2) :=
    fun e he => readEntry_written now .compact (ht.dates e he)
  obtain ⟨es, hes, hperm⟩ :=
    @collect_of_perm Row (fun r => readEntry now r.data.toList) (rowOf space) t _ hrows hfound
  refine ⟨es, ?_, hperm⟩
  change (Filing.look fun v => readRows now (rowsIn space (rowsOf v database))).run v = _
  rw [Filing.run_look, readRows_eq_collect, hes]

end TableMaps

/-! Both -/

/-- A store has exactly the entries of a map. -/
def Has (v : Volume) (t : Keyed String Entry) : Store → Prop
  | folder root _ => ∃ d, FolderMap v root d t
  | table database space isOpen => isOpen = true ∧ ∃ l, TableMap v database l space t

/-- An operation on a store is an operation on its map. -/
theorem Has.perform {v : Volume} {s : Store} {t : Keyed String Entry} (h : s.Has v t)
    (ht : IsMap t) {op : Operation} (hop : op.IsValid) (now : Instant) :
    ∃ answer v', (s.perform now op).run v = (.ok answer, v') ∧ answer.Matches (op.answer t) ∧
      s.Has v' (op.after t) := by
  cases s with
  | folder root space =>
    obtain ⟨d, hmap⟩ := h
    cases op with
    | put key e =>
      obtain ⟨v', hrun, hmap'⟩ := hmap.put ht hop.1 e
      exact ⟨.done, v', Action.run_bind_ok hrun, .done, d, hmap'⟩
    | get key =>
      exact ⟨_, v, Action.run_bind_ok (hmap.get ht hop now), .looked _, d, hmap⟩
    | delete key =>
      obtain ⟨v', hrun, hmap'⟩ := hmap.delete ht hop
      exact ⟨.done, v', Action.run_bind_ok hrun, .done, d, hmap'⟩
    | list =>
      obtain ⟨es, hrun, hperm⟩ := hmap.entries ht now space
      exact ⟨.listed es, v, Action.run_bind_ok hrun, .listed hperm, d, hmap⟩
  | table database space isOpen =>
    obtain ⟨rfl, l, hmap⟩ := h
    cases op with
    | put key e =>
      obtain ⟨v', hrun, hmap'⟩ := hmap.put ht key e
      exact ⟨.done, v', Action.run_bind_ok hrun, .done, rfl, l, hmap'⟩
    | get key =>
      exact ⟨_, v, Action.run_bind_ok (hmap.get ht key now), .looked _, rfl, l, hmap⟩
    | delete key =>
      obtain ⟨v', hrun, hmap'⟩ := hmap.delete key
      exact ⟨.done, v', Action.run_bind_ok hrun, .done, rfl, l, hmap'⟩
    | list =>
      obtain ⟨es, hrun, hperm⟩ := hmap.entries ht now
      exact ⟨.listed es, v, Action.run_bind_ok hrun, .listed hperm, rfl, l, hmap⟩

/-- A run of operations on a store is a run of operations on its map. -/
theorem Has.performAll {v : Volume} {s : Store} {t : Keyed String Entry} (h : s.Has v t)
    (ht : IsMap t) {ops : List (Instant × Operation)} (hops : ∀ op ∈ ops, op.2.IsValid) :
    ∃ answers v', (s.performAll ops).run v = (.ok answers, v') ∧
      List.Forall₂ Answer.Matches answers (Operation.answers t (ops.map (·.2))) ∧
      s.Has v' ((ops.map (·.2)).foldl Operation.after t) := by
  induction ops generalizing v t with
  | nil => exact ⟨[], v, rfl, .nil, h⟩
  | cons op rest ih =>
    obtain ⟨now, op⟩ := op
    have hop := hops _ List.mem_cons_self
    obtain ⟨answer, v₁, hrun, hmatches, h₁⟩ := h.perform ht hop now
    obtain ⟨answers, v', hruns, hall, h'⟩ :=
      ih h₁ (ht.after hop) fun op' hop' => hops op' (List.mem_cons_of_mem _ hop')
    refine ⟨answer :: answers, v', ?_, .cons hmatches hall, h'⟩
    unfold Store.performAll
    rw [Action.run_bind_ok hrun, Action.run_bind_ok hruns]
    rfl

/-- A store that has been opened and has no entries: its folder is empty, or no row of the table
belongs to its space. -/
def IsBlank (v : Volume) : Store → Prop
  | folder root _ => hasZero root = false ∧ ∃ d, v.locate true root = .ok d ∧
    v.nodeAt? d = some .directory ∧ ∀ name, v.nodeAt? (d ++ [name]) = none
  | table database space isOpen => isOpen = true ∧ ∃ l rows mtime,
    v.locate true database = .ok l ∧ v.nodeAt? l = some (.table rows mtime) ∧
      ∀ r ∈ rows, r.space ≠ space

theorem IsBlank.has {v : Volume} {s : Store} (h : s.IsBlank v) (hnodes : v.nodes.keys.Nodup) :
    s.Has v [] := by
  cases s with
  | folder root space =>
    obtain ⟨hzero, d, hlocate, hdirectory, hempty⟩ := h
    refine ⟨d, ⟨hzero, hlocate, hdirectory, fun name target => ?_⟩, hnodes, nofun, ?_⟩
    · rw [hempty name]
      exact nofun
    · intro name node hnode
      rw [hempty name] at hnode
      cases hnode
  | table database space isOpen =>
    obtain ⟨hopen, l, rows, mtime, hlocate, hnode, hrows⟩ := h
    refine ⟨hopen, l, ⟨hlocate, rows, mtime, hnode⟩, ?_⟩
    rw [TableAt.rowsOf_eq hlocate hnode, List.filter_eq_nil_iff.mpr]
    · exact List.Perm.refl _
    · intro r hr
      simpa using hrows r hr

theorem IsMap.foldl_after {t : Keyed String Entry} (h : IsMap t) {ops : List Operation}
    (hops : ∀ op ∈ ops, op.IsValid) : IsMap (ops.foldl Operation.after t) := by
  induction ops generalizing t with
  | nil => exact h
  | cons op rest ih =>
    exact ih (h.after (hops op List.mem_cons_self)) fun op' hop' =>
      hops op' (List.mem_cons_of_mem _ hop')

theorem Has.get {v : Volume} {s : Store} {t : Keyed String Entry} (h : s.Has v t) (ht : IsMap t)
    {key : String} (hkey : IsKey key) (now : Instant) :
    (s.get now key).run v = (.ok ((t.find? key).elim .absent .found), v) := by
  cases s with
  | folder root space =>
    obtain ⟨d, hmap⟩ := h
    exact hmap.get ht hkey now
  | table database space isOpen =>
    obtain ⟨rfl, l, hmap⟩ := h
    exact hmap.get ht key now

/-- Every sequence of operations on stores that begin empty succeeds. The answers are those of the
finite map, so stores in folders and stores in tables answer alike, and in the end each key has the
entry that was put last under it and not deleted since. -/
theorem performAll_of_isBlank {v v' : Volume} {s s' : Store} (hnodes : v.nodes.keys.Nodup)
    (hnodes' : v'.nodes.keys.Nodup) (hs : s.IsBlank v) (hs' : s'.IsBlank v')
    {ops : List (Instant × Operation)} (hops : ∀ op ∈ ops, op.2.IsValid) :
    ∃ answers w answers' w', (s.performAll ops).run v = (.ok answers, w) ∧
      (s'.performAll ops).run v' = (.ok answers', w') ∧
      List.Forall₂ Answer.Matches answers (Operation.answers [] (ops.map (·.2))) ∧
      List.Forall₂ Answer.Matches answers answers' ∧
      ∀ now key, IsKey key → (s.get now key).run w =
        (.ok ((Operation.standing key (ops.map (·.2))).elim .absent .found), w) := by
  obtain ⟨answers, w, hrun, hall, hend⟩ := (hs.has hnodes).performAll isMap_nil hops
  obtain ⟨answers', w', hrun', hall', -⟩ := (hs'.has hnodes').performAll isMap_nil hops
  refine ⟨answers, w, answers', w', hrun, hrun', hall, ?_, ?_⟩
  · exact Answer.Matches.all hall hall'
  · intro now key hkey
    have hmap : IsMap ((ops.map (·.2)).foldl Operation.after []) :=
      isMap_nil.foldl_after fun op hop => by
        obtain ⟨op', hop', rfl⟩ := List.mem_map.mp hop
        exact hops op' hop'
    rw [hend.get hmap hkey now, Operation.find?_foldl_after]
    rfl

/-! Two stores that begin empty -/

def emptyFolder : Volume :=
  ⟨[(["cache"], .directory), (["cache", "shrink-1"], .directory)], [], 0⟩

def emptyTable : Volume :=
  ⟨[(["cache"], .directory), (["cache", databaseName], .table [] 1000000000000000000)], [], 1⟩

/-- These are the volumes on which the stores have just been opened. -/
example :
    ((openAs none .json ⟨"/", ["cache"]⟩ "shrink-1").run ⟨[], [], 0⟩).2.nodes = emptyFolder.nodes ∧
    ((openAs none .sqlite ⟨"/", ["cache"]⟩ "shrink-1").run ⟨[], [], 0⟩).2.nodes =
      emptyTable.nodes := by
  decide

/-- The key of an empty file with an unusual media type. -/
def someKey : String :=
  Fingerprint.cacheKey ⟨"e3b0c44298fc1c149afbf4c8996fb92427ae41e4649b934ca495991b7852b855", none,
    some "text/css; charset=*", false, false, false, false⟩

def someEntry : Entry :=
  ⟨someKey, "shrink-1", "a { }", "text/css", ["base.css"], ⟨2024, 2, 29, 12, 0, 0, 0, none⟩⟩

theorem isKey_someKey : IsKey someKey :=
  ⟨⟨_, ⟨by decide, List.all_eq_true.mp (by decide)⟩, rfl⟩, by decide⟩

theorem isDate_someEntry : someEntry.createdAt.IsDate := by
  constructor <;> simp [someEntry, Instant.daysIn, Instant.isLeap]

def someOperations : List (Instant × Operation) :=
  [(default, .put someKey someEntry), (default, .list), (default, .delete someKey),
    (default, .get someKey)]

theorem performAll_someOperations : ∃ answers w answers' w',
    ((folder ⟨"/", ["cache", "shrink-1"]⟩ "shrink-1").performAll someOperations).run emptyFolder =
      (.ok answers, w) ∧
    ((table ⟨"/", ["cache", databaseName]⟩ "shrink-1" true).performAll someOperations).run
      emptyTable = (.ok answers', w') ∧
    List.Forall₂ Answer.Matches answers
      [.done, .listed [someEntry], .done, .looked .absent] ∧
    List.Forall₂ Answer.Matches answers answers' ∧
    ∀ now key, IsKey key →
      ((folder ⟨"/", ["cache", "shrink-1"]⟩ "shrink-1").get now key).run w =
        (.ok ((Operation.standing key (someOperations.map (·.2))).elim .absent .found), w) := by
  refine performAll_of_isBlank (by decide) (by decide) ?_ ?_ ?_
  · refine ⟨by decide, ["cache", "shrink-1"], by decide, by decide, ?_⟩
    intro name
    simp [nodeAt?, emptyFolder, Keyed.find?, List.lookup_cons]
  · exact ⟨rfl, ["cache", databaseName], [], 1000000000000000000, by decide,
      by decide, fun _ hrow => absurd hrow List.not_mem_nil⟩
  · intro op hop
    simp only [someOperations, List.mem_cons, List.not_mem_nil, or_false] at hop
    rcases hop with rfl | rfl | rfl | rfl
    · exact ⟨isKey_someKey, isDate_someEntry⟩
    · trivial
    · exact isKey_someKey
    · exact isKey_someKey

end Store
end AssetCompiler
