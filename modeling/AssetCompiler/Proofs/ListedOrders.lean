import AssetCompiler.Proofs.LikeVolumes
import Mathlib.Data.List.Pairwise

/-!
The orders in which stores list their entries. A folder lists them by the names of their files, a table by their
keys. A file's name is its key with a suffix, and the suffix counts when one key is the beginning of another, so
the two orders part exactly where a key goes on with something that comes before the suffix.
-/
namespace AssetCompiler.Store

open Volume

/-! Texts with a suffix -/

theorem append_lt_append_left_iff {a b : List Char} (front : List Char) :
    front ++ a < front ++ b ↔ a < b := by
  induction front with
  | nil => rfl
  | cons c rest ih =>
    rw [List.cons_append, List.cons_append, List.cons_lt_cons_iff]
    simp [ih]

/-- A suffix turns the order of two texts around only if the smaller one is the beginning of the greater one, and
what comes behind it lies before the suffix. -/
theorem append_suffix_lt_iff {a b : List Char} (h : a < b) (suffix : List Char) :
    b ++ suffix < a ++ suffix ↔ ∃ rest, b = a ++ rest ∧ rest ++ suffix < suffix := by
  induction a generalizing b with
  | nil => simp
  | cons x xs ih =>
    cases b with
    | nil => exact absurd h (List.not_lt_nil _)
    | cons y ys =>
      rw [List.cons_append, List.cons_append, List.cons_lt_cons_iff]
      rcases List.cons_lt_cons_iff.mp h with hlt | ⟨rfl, hrest⟩
      · refine iff_of_false ?_ ?_
        · rintro (hgt | ⟨rfl, -⟩)
          · exact absurd hgt (not_lt_of_gt hlt)
          · exact lt_irrefl _ hlt
        · rintro ⟨rest, heq, -⟩
          exact hlt.ne (List.cons.inj heq).1.symm
      · simp [ih hrest]

/-- A key that begins with another one, and whose file nevertheless comes before the file of that one. -/
def Overtakes (key longer : String) : Prop :=
  ∃ rest, longer = key ++ rest ∧ rest ++ ".json" < ".json"

/-- The file of a greater key comes first only if the key overtakes the other one. -/
theorem fileName_lt_iff {key key' : String} (h : IsKey key) (h' : IsKey key') (hlt : key < key') :
    fileName key' < fileName key ↔ Overtakes key key' := by
  rw [h.fileName_eq, h'.fileName_eq, String.lt_iff_toList_lt, String.toList_append,
    String.toList_append, append_suffix_lt_iff (String.lt_iff_toList_lt.mp hlt)]
  constructor
  · rintro ⟨rest, heq, hrest⟩
    refine ⟨String.ofList rest, String.toList_inj.mp ?_, String.lt_iff_toList_lt.mpr ?_⟩
    · rw [String.toList_append, String.toList_ofList, heq]
    · rwa [String.toList_append, String.toList_ofList]
  · rintro ⟨rest, rfl, hrest⟩
    refine ⟨rest.toList, String.toList_append, ?_⟩
    rwa [String.lt_iff_toList_lt, String.toList_append] at hrest

theorem Overtakes.lt {key key' : String} (h : Overtakes key key') : key < key' := by
  obtain ⟨rest, rfl, hrest⟩ := h
  have hne : rest.toList ≠ [] := by
    intro hempty
    rw [String.lt_iff_toList_lt, String.toList_append, hempty, List.nil_append] at hrest
    exact lt_irrefl _ hrest
  rw [String.lt_iff_toList_lt, String.toList_append]
  have hlonger := (append_lt_append_left_iff (a := []) (b := rest.toList) key.toList).mpr
    (by cases hlist : rest.toList with
      | nil => exact absurd hlist hne
      | cons c cs => exact List.nil_lt_cons c cs)
  rwa [List.append_nil] at hlonger

/-! Maps in order -/

theorem pairwise_mergeSort_text {α : Type} (f : α → String) (l : List α) :
    (l.mergeSort fun a b => f a ≤ f b).Pairwise fun a b => f a ≤ f b := by
  have hsorted := @List.pairwise_mergeSort α (fun a b => decide (f a ≤ f b))
    (fun a b c hab hbc => by
      simp only [decide_eq_true_eq] at hab hbc ⊢
      exact le_trans hab hbc)
    (fun a b => by
      simp only [Bool.or_eq_true, decide_eq_true_eq]
      exact le_total _ _) l
  exact hsorted.imp of_decide_eq_true

/-- The pairs of a map in the order of a text made from each key. -/
def sortedBy (f : String → String) (t : Keyed String Entry) : Keyed String Entry :=
  t.mergeSort fun a b => f a.1 ≤ f b.1

theorem sortedBy_perm (f : String → String) (t : Keyed String Entry) : (sortedBy f t).Perm t :=
  List.mergeSort_perm _ _

theorem pairwise_sortedBy (f : String → String) (t : Keyed String Entry) :
    (sortedBy f t).Pairwise fun a b => f a.1 ≤ f b.1 :=
  pairwise_mergeSort_text (fun a : String × Entry => f a.1) t

/-- Texts that tell the keys of a map apart. -/
def TellsApart (f : String → String) (t : Keyed String Entry) : Prop :=
  ∀ a ∈ t, ∀ b ∈ t, f a.1 = f b.1 → a.1 = b.1

theorem IsMap.eq_of_key_eq {t : Keyed String Entry} (h : IsMap t) {a b : String × Entry}
    (ha : a ∈ t) (hb : b ∈ t) (heq : a.1 = b.1) : a = b := by
  have hfirst := Keyed.find?_of_mem h.nodup ha
  have hsecond := Keyed.find?_of_mem h.nodup hb
  rw [heq, hsecond] at hfirst
  exact Prod.ext heq (Option.some.inj hfirst).symm

/-- There is one way only to put the pairs in order. -/
theorem IsMap.eq_sortedBy {t t' : Keyed String Entry} (h : IsMap t) {f : String → String}
    (hf : TellsApart f t) (hperm : t'.Perm t) (hsorted : t'.Pairwise fun a b => f a.1 ≤ f b.1) :
    t' = sortedBy f t := by
  refine List.Perm.eq_of_pairwise ?_ hsorted (pairwise_sortedBy f t)
    (hperm.trans (sortedBy_perm f t).symm)
  intro a b ha hb hab hba
  have ha' := hperm.mem_iff.mp ha
  have hb' := (sortedBy_perm f t).mem_iff.mp hb
  exact h.eq_of_key_eq ha' hb' (hf a ha' b hb' (le_antisymm hab hba))

theorem IsMap.tellsApart_fileName {t : Keyed String Entry} (h : IsMap t) : TellsApart fileName t :=
  fun a ha b hb => (h.keys a.1 (List.mem_map_of_mem ha)).fileName_injective
    (h.keys b.1 (List.mem_map_of_mem hb))

theorem tellsApart_id (t : Keyed String Entry) : TellsApart id t := fun _ _ _ _ heq => heq

/-- The order of files is the order of keys exactly if no key overtakes another. -/
theorem IsMap.sortedBy_fileName_eq_iff {t : Keyed String Entry} (h : IsMap t) :
    sortedBy fileName t = sortedBy id t ↔
      ∀ key ∈ t.keys, ∀ key' ∈ t.keys, ¬ Overtakes key key' := by
  constructor
  · intro heq key hkey key' hkey' hover
    have hname := (fileName_lt_iff (h.keys key hkey) (h.keys key' hkey') hover.lt).mpr hover
    obtain ⟨a, ha, rfl⟩ := List.mem_map.mp hkey
    obtain ⟨b, hb, rfl⟩ := List.mem_map.mp hkey'
    -- One of the two pairs comes first, and then it comes first in both orders.
    let Agree (a b : String × Entry) : Prop := a.1 ≤ b.1 ∧ fileName a.1 ≤ fileName b.1
    have hsymm : Std.Symm fun a b => Agree a b ∨ Agree b a := ⟨fun _ _ => Or.symm⟩
    have hboth : (sortedBy id t).Pairwise fun a b => Agree a b ∨ Agree b a :=
      ((pairwise_sortedBy id t).and (heq ▸ pairwise_sortedBy fileName t)).imp Or.inl
    have hmem := fun {c : String × Entry} (hc : c ∈ t) => (sortedBy_perm id t).mem_iff.mpr hc
    have hall := List.Pairwise.forall_of_forall (R := fun a b => Agree a b ∨ Agree b a)
      (fun _ _ => Or.inl ⟨le_refl _, le_refl _⟩) hboth
    rcases hall (hmem ha) (hmem hb) with hfirst | hfirst
    · exact absurd hfirst.2 (not_le_of_gt hname)
    · exact absurd hfirst.1 (not_le_of_gt hover.lt)
  · intro hnone
    refine (h.eq_sortedBy h.tellsApart_fileName (sortedBy_perm id t) ?_).symm
    refine (pairwise_sortedBy id t).imp_of_mem fun {a b} ha hb hab => ?_
    have hkey := fun {c : String × Entry} (hc : c ∈ sortedBy id t) =>
      List.mem_map_of_mem (f := Prod.fst) ((sortedBy_perm id t).mem_iff.mp hc)
    rcases hab.eq_or_lt with heq | hlt
    · exact (congrArg fileName heq).le
    · refine le_of_not_gt fun hname => hnone a.1 (hkey ha) b.1 (hkey hb) ?_
      exact (fileName_lt_iff (h.keys _ (hkey ha)) (h.keys _ (hkey hb)) hlt).mp hname

/-! Listings -/

theorem collect_map_found {α : Type} {look : α → Except Failure Lookup} {place : String × Entry → α}
    {t : Keyed String Entry} (hlook : ∀ e ∈ t, look (place e) = .ok (.found e.2)) :
    collect ((t.map place).map look) = .ok (t.map (·.2)) := by
  have hfound : (t.map place).map look = (t.map (·.2)).map fun e => .ok (.found e) := by
    rw [List.map_map, List.map_map]
    exact List.map_congr_left hlook
  rw [hfound, collect_found]

section Listings

variable {v : Volume} {t : Keyed String Entry}

/-- A folder lists its files by their names. -/
theorem FolderMap.entryFiles_eq {root : Path} {d : Location} (h : FolderMap v root d t) (ht : IsMap t) :
    entryFiles v root = (sortedBy fileName t).map fun e => entryPath root e.1 := by
  have hsorted : ((sortedBy fileName t).map fun e => fileName e.1).Pairwise (· ≤ ·) :=
    List.pairwise_map.mpr (pairwise_sortedBy fileName t)
  have hnames : ((v.namesIn d).filter fun n => suffix.isSuffixOf n.toList) =
      (sortedBy fileName t).map fun e => fileName e.1 :=
    ((h.names_perm ht).trans ((sortedBy_perm fileName t).symm.map _)).eq_of_pairwise'
      ((pairwise_namesIn v d).filter _) hsorted
  rw [h.entryFiles_eq_map, hnames, List.map_map]
  exact List.map_congr_left fun e _ => (entryPath_eq root e.1).symm

theorem FolderMap.run_entries {root : Path} {d : Location} (h : FolderMap v root d t) (ht : IsMap t)
    (now : Instant) (space : String) : ((Store.folder root space).entries now).run v =
      (.ok ((sortedBy fileName t).map (·.2)), v) := by
  have hthere := isDirectory_of_isDirectory h.folder.zero
    ⟨d, h.folder.located, h.folder.directory⟩
  have hfound : collect ((entryFiles v root).map (Store.readFile now v)) =
      .ok ((sortedBy fileName t).map (·.2)) := by
    rw [h.entryFiles_eq ht]
    exact collect_map_found fun e he => h.readFile ht now
      (Keyed.find?_of_mem ht.nodup ((sortedBy_perm fileName t).mem_iff.mp he))
  change (Filing.look fun v => do
    if ← v.isDirectory root then readAll now v (entryFiles v root) else return []).run v = _
  rw [Filing.run_look, hthere, readAll_eq_collect, hfound]
  rfl

/-- A table lists its rows by their keys. -/
theorem TableMap.rowsIn_eq {database : Path} {l : Location} {space : String}
    (h : TableMap v database l space t) (ht : IsMap t) :
    rowsIn space (rowsOf v database) = (sortedBy id t).map (rowOf space) := by
  have hperm : (rowsIn space (rowsOf v database)).Perm ((sortedBy id t).map (rowOf space)) :=
    ((List.mergeSort_perm _ _).trans h.rows).trans ((sortedBy_perm id t).symm.map _)
  have hrows : (rowsIn space (rowsOf v database)).Pairwise fun a b => a.key ≤ b.key :=
    pairwise_mergeSort_text Row.key ((rowsOf v database).filter (·.space == space))
  refine hperm.eq_of_pairwise ?_ hrows (List.pairwise_map.mpr (pairwise_sortedBy id t))
  intro a b ha hb hab hba
  obtain ⟨e, he, rfl⟩ := List.mem_map.mp (hperm.mem_iff.mp ha)
  obtain ⟨e', he', rfl⟩ := List.mem_map.mp hb
  have hmem := fun {c : String × Entry} (hc : c ∈ sortedBy id t) => (sortedBy_perm id t).mem_iff.mp hc
  exact congrArg (rowOf space) (ht.eq_of_key_eq (hmem he) (hmem he') (le_antisymm hab hba))

theorem TableMap.run_entries {database : Path} {l : Location} {space : String}
    (h : TableMap v database l space t) (ht : IsMap t) (now : Instant) :
    ((Store.table database space true).entries now).run v = (.ok ((sortedBy id t).map (·.2)), v) := by
  have hfound : collect ((rowsIn space (rowsOf v database)).map fun r =>
      readEntry now r.data.toList) = .ok ((sortedBy id t).map (·.2)) := by
    rw [h.rowsIn_eq ht]
    exact collect_map_found fun e he => readEntry_written now .compact
      (ht.dates e ((sortedBy_perm id t).mem_iff.mp he))
  change (Filing.look fun v => readRows now (rowsIn space (rowsOf v database))).run v = _
  rw [Filing.run_look, readRows_eq_collect, hfound]

end Listings

/-- The text by which a store orders its keys. -/
def order : Store → String → String
  | folder _ _ => fileName
  | table _ _ _ => id

/-- A store lists the entries of its map in the order of its keys' texts. -/
theorem Has.run_entries {v : Volume} {s : Store} {t : Keyed String Entry} (h : s.Has v t)
    (ht : IsMap t) (now : Instant) :
    (s.entries now).run v = (.ok ((sortedBy s.order t).map (·.2)), v) := by
  cases s with
  | folder root space =>
    obtain ⟨d, hmap⟩ := h
    exact hmap.run_entries ht now space
  | table database space isOpen =>
    obtain ⟨rfl, l, hmap⟩ := h
    exact hmap.run_entries ht now

/-- The map that operations on an empty one leave. -/
def Operation.held (ops : List (Instant × Operation)) : Keyed String Entry :=
  (ops.map (·.2)).foldl after []

theorem Operation.isMap_held {ops : List (Instant × Operation)} (hops : ∀ op ∈ ops, op.2.IsValid) :
    IsMap (held ops) := by
  refine isMap_nil.foldl_after fun op hop => ?_
  obtain ⟨op', hop', rfl⟩ := List.mem_map.mp hop
  exact hops op' hop'

/-- Whatever is done to a store that begins empty, it then lists what it has in its order. -/
theorem IsBlank.run_entries {v : Volume} {s : Store} (hs : s.IsBlank v) (hnodes : v.nodes.keys.Nodup)
    {ops : List (Instant × Operation)} (hops : ∀ op ∈ ops, op.2.IsValid) :
    ∃ answers w, (s.performAll ops).run v = (.ok answers, w) ∧ ∀ now, (s.entries now).run w =
      (.ok ((sortedBy s.order (Operation.held ops)).map (·.2)), w) := by
  obtain ⟨answers, w, hrun, -, hend⟩ := (hs.has hnodes).performAll isMap_nil hops
  exact ⟨answers, w, hrun, fun now => hend.run_entries (Operation.isMap_held hops) now⟩

/-- The same operations on a folder and on a table that begin empty. The folder then lists the entries by the names
of their files, the table by their keys, and these are one order exactly if no key overtakes another. -/
theorem listed_in_order {v v' : Volume} {root database : Path} {space space' : String}
    (hnodes : v.nodes.keys.Nodup) (hnodes' : v'.nodes.keys.Nodup)
    (hs : (folder root space).IsBlank v) (hs' : (table database space' true).IsBlank v')
    {ops : List (Instant × Operation)} (hops : ∀ op ∈ ops, op.2.IsValid) :
    ∃ answers w answers' w', ((folder root space).performAll ops).run v = (.ok answers, w) ∧
      ((table database space' true).performAll ops).run v' = (.ok answers', w') ∧
      (∀ now, ((folder root space).entries now).run w =
        (.ok ((sortedBy fileName (Operation.held ops)).map (·.2)), w) ∧
        ((table database space' true).entries now).run w' =
          (.ok ((sortedBy id (Operation.held ops)).map (·.2)), w')) ∧
      (sortedBy fileName (Operation.held ops) = sortedBy id (Operation.held ops) ↔
        ∀ key ∈ (Operation.held ops).keys, ∀ key' ∈ (Operation.held ops).keys,
          ¬ Overtakes key key') := by
  obtain ⟨answers, w, hrun, hlist⟩ := hs.run_entries hnodes hops
  obtain ⟨answers', w', hrun', hlist'⟩ := hs'.run_entries hnodes' hops
  exact ⟨answers, w, answers', w', hrun, hrun', fun now => ⟨hlist now, hlist' now⟩,
    (Operation.isMap_held hops).sortedBy_fileName_eq_iff⟩

/-! An empty file without a media type, and one with it -/

namespace Untyped

def fingerprint : Fingerprint :=
  ⟨"e3b0c44298fc1c149afbf4c8996fb92427ae41e4649b934ca495991b7852b855", none, none, false, false,
    false, false⟩

def untyped : Entry :=
  ⟨fingerprint.cacheKey, "shrink-1", "", "text/plain", [], ⟨2024, 2, 29, 12, 0, 0, 0, none⟩⟩

def typed : Entry :=
  ⟨Fingerprint.cacheKey { fingerprint with mediaType := some "text/css" }, "shrink-1", "", "text/css", [],
    ⟨2024, 2, 29, 12, 0, 0, 0, none⟩⟩

def operations : List (Instant × Operation) :=
  [(default, .put untyped.key untyped), (default, .put typed.key typed)]

theorem operations_isValid : ∀ op ∈ operations, op.2.IsValid := by
  have hhash : ∀ c ∈ fingerprint.hash.toList, c.isAlphanum = true :=
    List.all_eq_true.mp (by decide)
  have hdate : untyped.createdAt.IsDate := by
    constructor <;> simp [untyped, Instant.daysIn, Instant.isLeap]
  intro op hop
  rcases List.mem_cons.mp hop with rfl | hop
  · exact ⟨⟨⟨fingerprint, ⟨by decide, hhash⟩, rfl⟩, by decide⟩, hdate⟩
  · rw [List.mem_singleton.mp hop]
    exact ⟨⟨⟨{ fingerprint with mediaType := some "text/css" }, ⟨by decide, hhash⟩, rfl⟩, by decide⟩, hdate⟩

theorem isBlank_folder : (folder ⟨"/", ["cache", "shrink-1"]⟩ "shrink-1").IsBlank emptyFolder := by
  refine ⟨by decide, ["cache", "shrink-1"], by decide, by decide, ?_⟩
  intro name
  simp [nodeAt?, emptyFolder, Keyed.find?, List.lookup_cons]

theorem isBlank_table :
    (table ⟨"/", ["cache", databaseName]⟩ "shrink-1" true).IsBlank emptyTable :=
  ⟨rfl, ["cache", databaseName], [], 1000000000000000000, by decide, by decide,
    fun _ hrow => absurd hrow List.not_mem_nil⟩

theorem sorted_operations :
    sortedBy fileName (Operation.held operations) = [(typed.key, typed), (untyped.key, untyped)] ∧
    sortedBy id (Operation.held operations) = [(untyped.key, untyped), (typed.key, typed)] := by
  have hheld : Operation.held operations = [(untyped.key, untyped), (typed.key, typed)] := rfl
  have hmap := Operation.isMap_held operations_isValid
  refine ⟨(hmap.eq_sortedBy hmap.tellsApart_fileName ?_ ?_).symm,
    (hmap.eq_sortedBy (tellsApart_id _) ?_ ?_).symm⟩
  · rw [hheld]
    exact List.Perm.swap _ _ _
  · exact List.pairwise_pair.mpr (by decide)
  · rw [hheld]
  · exact List.pairwise_pair.mpr (by decide)

theorem listed_in_order_operations : ∃ answers w answers' w',
    ((folder ⟨"/", ["cache", "shrink-1"]⟩ "shrink-1").performAll operations).run emptyFolder =
      (.ok answers, w) ∧
    ((table ⟨"/", ["cache", databaseName]⟩ "shrink-1" true).performAll operations).run emptyTable =
      (.ok answers', w') ∧
    (∀ now, ((folder ⟨"/", ["cache", "shrink-1"]⟩ "shrink-1").entries now).run w =
      (.ok [typed, untyped], w) ∧
      ((table ⟨"/", ["cache", databaseName]⟩ "shrink-1" true).entries now).run w' =
        (.ok [untyped, typed], w')) := by
  obtain ⟨answers, w, answers', w', hrun, hrun', hlist, -⟩ := listed_in_order (by decide) (by decide)
    isBlank_folder isBlank_table operations_isValid
  rw [sorted_operations.1, sorted_operations.2] at hlist
  exact ⟨answers, w, answers', w', hrun, hrun', hlist⟩

/-- The folder lists the entry with the greater key first. -/
theorem greater_key_listed_first : ∃ answers w, untyped.key < typed.key ∧
    ((folder ⟨"/", ["cache", "shrink-1"]⟩ "shrink-1").performAll operations).run emptyFolder =
      (.ok answers, w) ∧
    ∀ now, ((folder ⟨"/", ["cache", "shrink-1"]⟩ "shrink-1").entries now).run w =
      (.ok [typed, untyped], w) := by
  obtain ⟨answers, w, hrun, hlist⟩ :=
    isBlank_folder.run_entries (by decide) operations_isValid
  refine ⟨answers, w, by decide, hrun, fun now => ?_⟩
  rw [hlist now, order, sorted_operations.1]
  rfl

end Untyped

end AssetCompiler.Store
