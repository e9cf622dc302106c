import AssetCompiler.Keyed
import Mathlib.Tactic.Common
import Mathlib.Data.List.Nodup

/-!
Tables as finite maps: what is found after a setting or a removal, and tables whose keys are all
different, which a rebuilding from left to right leaves as they are.
-/
namespace AssetCompiler.Keyed

variable {κ ν : Type} [BEq κ] [LawfulBEq κ]

theorem find?_set [DecidableEq κ] (k k' : κ) (v : ν) (t : Keyed κ ν) :
    find? k' (set k v t) = if k' = k then some v else find? k' t := by
  unfold find?
  induction t with
  | nil =>
    by_cases hk : k' = k
    · simp [set, hk]
    · simp [set, List.lookup_cons, hk, beq_eq_false_iff_ne.mpr hk]
  | cons e rest ih =>
    obtain ⟨k₀, v₀⟩ := e
    by_cases h₀ : k₀ = k
    · subst h₀
      by_cases hk : k' = k₀
      · simp [set, hk]
      · simp [set, List.lookup_cons, hk, beq_eq_false_iff_ne.mpr hk]
    · rw [set, if_neg (by simpa using h₀), List.lookup_cons, List.lookup_cons, ih]
      by_cases hk : k' = k₀
      · subst hk
        simp [h₀]
      · simp [beq_eq_false_iff_ne.mpr hk]

@[simp] theorem find?_set_self (k : κ) (v : ν) (t : Keyed κ ν) : find? k (set k v t) = some v := by
  classical
  rw [find?_set, if_pos rfl]

theorem find?_set_of_ne {k k' : κ} (h : k' ≠ k) (v : ν) (t : Keyed κ ν) :
    find? k' (set k v t) = find? k' t := by
  classical
  rw [find?_set, if_neg h]

@[simp] theorem find?_erase_self (k : κ) (t : Keyed κ ν) : find? k (erase k t) = none := by
  unfold find? erase
  rw [List.lookup_eq_none_iff]
  intro e he
  rw [List.mem_filter] at he
  have h := he.2
  simp only [Bool.not_eq_true', beq_eq_false_iff_ne, ne_eq] at h
  rw [bne_iff_ne]
  exact fun heq => h heq.symm

theorem find?_erase_of_ne {k k' : κ} (h : k' ≠ k) (t : Keyed κ ν) :
    find? k' (erase k t) = find? k' t := by
  unfold find? erase
  induction t with
  | nil => rfl
  | cons e rest ih =>
    obtain ⟨k₀, v₀⟩ := e
    by_cases h₀ : k₀ = k
    · subst h₀
      rw [List.filter_cons_of_neg (by simp), ih, List.lookup_cons, beq_eq_false_iff_ne.mpr h]
    · rw [List.filter_cons_of_pos (by simpa using h₀), List.lookup_cons, List.lookup_cons, ih]

theorem find?_erase [DecidableEq κ] (k k' : κ) (t : Keyed κ ν) :
    find? k' (erase k t) = if k' = k then none else find? k' t := by
  by_cases h : k' = k
  · rw [if_pos h, h, find?_erase_self]
  · rw [if_neg h, find?_erase_of_ne h]

theorem find?_eq_none_iff {k : κ} {t : Keyed κ ν} : find? k t = none ↔ k ∉ t.keys := by
  unfold find? keys
  rw [List.lookup_eq_none_iff]
  simp only [List.mem_map, bne_iff_ne, ne_eq]
  constructor
  · rintro h ⟨e, he, rfl⟩
    exact h e he rfl
  · intro h e he heq
    exact h ⟨e, he, heq.symm⟩

theorem mem_of_find? {k : κ} {v : ν} {t : Keyed κ ν} (h : find? k t = some v) : (k, v) ∈ t := by
  unfold find? at h
  rw [List.lookup_eq_some_iff] at h
  obtain ⟨before, after, rfl, _⟩ := h
  simp

theorem find?_of_mem {k : κ} {v : ν} {t : Keyed κ ν} (hkeys : t.keys.Nodup) (h : (k, v) ∈ t) :
    find? k t = some v := by
  unfold find?
  induction t with
  | nil => cases h
  | cons e rest ih =>
    obtain ⟨k₀, v₀⟩ := e
    rw [keys, List.map_cons, List.nodup_cons] at hkeys
    rw [List.lookup_cons]
    rcases List.mem_cons.mp h with heq | hmem
    · cases heq
      simp
    · have hne : k ≠ k₀ := by
        rintro rfl
        exact hkeys.1 (List.mem_map.mpr ⟨(k, v), hmem, rfl⟩)
      rw [beq_eq_false_iff_ne.mpr hne]
      exact ih hkeys.2 hmem

theorem set_of_not_mem {k : κ} (v : ν) {t : Keyed κ ν} (h : k ∉ t.keys) :
    set k v t = t ++ [(k, v)] := by
  induction t with
  | nil => rfl
  | cons e rest ih =>
    obtain ⟨k₀, v₀⟩ := e
    rw [keys, List.map_cons, List.mem_cons, not_or] at h
    rw [set, if_neg (by simpa using fun heq => h.1 heq.symm), ih h.2]
    rfl

theorem keys_set_of_mem {k : κ} (v : ν) {t : Keyed κ ν} (h : k ∈ t.keys) :
    (set k v t).keys = t.keys := by
  induction t with
  | nil => cases h
  | cons e rest ih =>
    obtain ⟨k₀, v₀⟩ := e
    by_cases h₀ : k₀ = k
    · subst h₀
      simp [set, keys]
    · rw [set, if_neg (by simpa using h₀)]
      rw [keys, List.map_cons, List.mem_cons] at h
      have hrest := ih (h.resolve_left (fun heq => h₀ heq.symm))
      rw [keys, List.map_cons, ← keys, hrest]
      rfl

theorem mem_keys_set {k k' : κ} {v : ν} {t : Keyed κ ν} :
    k' ∈ (set k v t).keys ↔ k' = k ∨ k' ∈ t.keys := by
  classical
  have h := find?_set k k' v t
  by_cases hk : k' = k
  · subst hk
    rw [if_pos rfl] at h
    refine ⟨fun _ => Or.inl rfl, fun _ => ?_⟩
    by_contra hnot
    rw [find?_eq_none_iff.mpr hnot] at h
    cases h
  · rw [if_neg hk] at h
    rw [← not_iff_not, ← find?_eq_none_iff, h, find?_eq_none_iff, not_or]
    exact ⟨fun hnot => ⟨hk, hnot⟩, fun hnot => hnot.2⟩

theorem nodup_keys_set {k : κ} (v : ν) {t : Keyed κ ν} (h : t.keys.Nodup) :
    (set k v t).keys.Nodup := by
  by_cases hk : k ∈ t.keys
  · rw [keys_set_of_mem v hk]
    exact h
  · rw [set_of_not_mem v hk, keys, List.map_append]
    refine List.nodup_append.mpr ⟨h, by simp, ?_⟩
    rintro a ha b hb rfl
    rw [List.map_singleton, List.mem_singleton] at hb
    exact hk ((show a = k from hb) ▸ ha)

omit [LawfulBEq κ] in
theorem nodup_keys_erase (k : κ) {t : Keyed κ ν} (h : t.keys.Nodup) : (erase k t).keys.Nodup :=
  h.sublist (List.filter_sublist.map _)

/-- Settings from left to right on a table of other keys add them at its end. -/
theorem foldl_set_of_nodup (t pairs : Keyed κ ν) (h : (t ++ pairs).keys.Nodup) :
    pairs.foldl (fun t e => set e.1 e.2 t) t = t ++ pairs := by
  induction pairs generalizing t with
  | nil => simp
  | cons e rest ih =>
    have hnot : e.1 ∉ t.keys := by
      intro hmem
      rw [keys, List.map_append, List.map_cons, List.nodup_append] at h
      exact h.2.2 _ hmem _ List.mem_cons_self rfl
    rw [List.foldl_cons, set_of_not_mem e.2 hnot, ih]
    · simp
    · simpa using h

/-- A table of different keys is the table of its pairs. -/
theorem ofList_of_nodup {pairs : Keyed κ ν} (h : pairs.keys.Nodup) : ofList pairs = pairs :=
  foldl_set_of_nodup [] pairs h

/-- Settings from left to right go before what was in the table. -/
theorem find?_foldl_set (k : κ) (pairs t : Keyed κ ν) (h : pairs.keys.Nodup) :
    find? k (pairs.foldl (fun t e => set e.1 e.2 t) t) = (find? k pairs).or (find? k t) := by
  classical
  induction pairs generalizing t with
  | nil => rfl
  | cons e rest ih =>
    obtain ⟨k₀, v₀⟩ := e
    have hparts := List.nodup_cons.mp h
    rw [List.foldl_cons, ih _ hparts.2, find?_set]
    by_cases hk : k = k₀
    · have hrest : find? k rest = none := find?_eq_none_iff.mpr (hk ▸ hparts.1)
      have hfirst : find? k ((k₀, v₀) :: rest) = some v₀ := by
        simp [find?, hk]
      rw [hrest, if_pos hk, hfirst]
      rfl
    · have hfirst : find? k ((k₀, v₀) :: rest) = find? k rest := by
        simp [find?, List.lookup_cons, beq_eq_false_iff_ne.mpr hk]
      rw [if_neg hk, hfirst]

theorem nodup_keys_foldl_set (pairs t : Keyed κ ν) (h : t.keys.Nodup) :
    (pairs.foldl (fun t e => set e.1 e.2 t) t).keys.Nodup := by
  induction pairs generalizing t with
  | nil => exact h
  | cons e rest ih => exact ih _ (nodup_keys_set e.2 h)

omit [LawfulBEq κ] in
theorem mem_of_mem_set {k : κ} {v : ν} {e : κ × ν} {t : Keyed κ ν} (h : e ∈ set k v t) :
    e = (k, v) ∨ e ∈ t := by
  induction t with
  | nil => exact Or.inl (List.mem_singleton.mp h)
  | cons e' rest ih =>
    unfold set at h
    split at h
    · exact (List.mem_cons.mp h).imp_right (List.mem_cons_of_mem _)
    · rcases List.mem_cons.mp h with rfl | hrest
      · exact Or.inr (List.mem_cons_self ..)
      · exact (ih hrest).imp_right (List.mem_cons_of_mem _)

omit [LawfulBEq κ] in
theorem mem_of_mem_foldl_set {e : κ × ν} (pairs t : Keyed κ ν)
    (h : e ∈ pairs.foldl (fun t e => set e.1 e.2 t) t) : e ∈ pairs ∨ e ∈ t := by
  induction pairs generalizing t with
  | nil => exact Or.inr h
  | cons e' rest ih =>
    rcases ih _ h with hrest | hset
    · exact Or.inl (List.mem_cons_of_mem _ hrest)
    · rcases mem_of_mem_set hset with rfl | ht
      · exact Or.inl (List.mem_cons_self ..)
      · exact Or.inr ht

omit [LawfulBEq κ] in
/-- Whatever a table made of a list has was in the list. -/
theorem mem_of_mem_ofList {e : κ × ν} {pairs : List (κ × ν)} (h : e ∈ ofList pairs) :
    e ∈ pairs :=
  (mem_of_mem_foldl_set pairs [] h).resolve_right List.not_mem_nil

omit [LawfulBEq κ] in
theorem find?_map {ν' : Type} (f : ν → ν') (k : κ) (t : Keyed κ ν) :
    find? k (t.map fun e => (e.1, f e.2)) = (find? k t).map f := by
  unfold find?
  induction t with
  | nil => rfl
  | cons e rest ih =>
    rw [List.map_cons, List.lookup_cons, List.lookup_cons, ih]
    cases k == e.1 <;> rfl

omit [LawfulBEq κ] in
/-- Tables whose entries belong together find values that belong together. -/
theorem find?_rel {ν' : Type} {R : ν → ν' → Prop} {t : Keyed κ ν} {t' : Keyed κ ν'}
    (h : List.Forall₂ (fun e e' => e'.1 = e.1 ∧ R e.2 e'.2) t t') (k : κ) :
    Option.Rel R (find? k t) (find? k t') := by
  induction h with
  | nil => exact .none
  | @cons e e' rest rest' hfirst _ ih =>
    obtain ⟨key, value⟩ := e
    obtain ⟨key', value'⟩ := e'
    obtain ⟨rfl, hvalue⟩ := hfirst
    simp only [find?, List.lookup_cons]
    split
    · exact .some hvalue
    · exact ih

omit [BEq κ] [LawfulBEq κ] in
theorem keys_eq_of_forall₂ {ν' : Type} {R : ν → ν' → Prop} {t : Keyed κ ν} {t' : Keyed κ ν'}
    (h : List.Forall₂ (fun e e' => e'.1 = e.1 ∧ R e.2 e'.2) t t') : t'.keys = t.keys := by
  induction h with
  | nil => rfl
  | cons hfirst _ ih => exact congrArg₂ List.cons hfirst.1 ih

theorem nodup_keys_ofList (pairs : List (κ × ν)) : (ofList pairs).keys.Nodup :=
  nodup_keys_foldl_set pairs [] List.nodup_nil

end AssetCompiler.Keyed

namespace AssetCompiler

theorem exists_mem_of_forall₂ {α β : Type} {R : α → β → Prop} {l : List α} {l' : List β}
    (h : List.Forall₂ R l l') : ∀ b ∈ l', ∃ a ∈ l, R a b := by
  induction h with
  | nil => exact nofun
  | @cons a b _ _ hfirst _ ih =>
    intro b' hb'
    rcases List.mem_cons.mp hb' with rfl | hb'
    · exact ⟨a, List.mem_cons_self .., hfirst⟩
    · obtain ⟨a', ha', hrel⟩ := ih b' hb'
      exact ⟨a', List.mem_cons_of_mem _ ha', hrel⟩

variable {α : Type} [BEq α] [LawfulBEq α]

theorem nodup_firstOccurrences (items : List α) : (firstOccurrences items).Nodup :=
  Keyed.nodup_keys_ofList _

theorem firstOccurrences_of_nodup {items : List α} (h : items.Nodup) :
    firstOccurrences items = items := by
  have hkeys : Keyed.keys (items.map fun x => (x, ())) = items := by
    simp [Keyed.keys, Function.comp_def]
  unfold firstOccurrences
  rw [Keyed.ofList_of_nodup (hkeys.symm ▸ h), hkeys]

/-- Repetitions are removed once and for all. -/
@[simp] theorem firstOccurrences_firstOccurrences (items : List α) :
    firstOccurrences (firstOccurrences items) = firstOccurrences items :=
  firstOccurrences_of_nodup (nodup_firstOccurrences items)

end AssetCompiler
