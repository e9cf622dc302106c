import AssetCompiler.Host.Saved
import AssetCompiler.Proofs.Action
import AssetCompiler.Proofs.Tables

/-!
What a registry holds. The names of the media types and the slots of the names follow from the
transformers that it is built from: a name's slot is that of the first transformer of this name. Two
registries with the same transformers differ in their caches only.
-/
namespace AssetCompiler.Registry

variable {κ σ : Type}

/-- The transformers that a registry is built from, in the order in which they are registered. -/
def registered (types : List (String × Transformer)) (fallback : Option Transformer) :
    List Transformer :=
  types.map (·.2) ++ fallback.toList

/-- The slots are those of the first transformers of their names. -/
def HasSlots (cacheOf : Transformer → κ) (ts : List Transformer) (r : Registry κ) : Prop :=
  ∀ name, r.slot? name =
    (ts.find? fun t => t.name == name).map fun t => ⟨t, cacheOf t⟩

/-- A registry is the one for some types and a fallback. -/
structure IsFor (cacheOf : Transformer → κ) (types : List (String × Transformer))
    (fallback : Option Transformer) (r : Registry κ) : Prop where
  nameOf : r.nameOf = Keyed.ofList (types.map fun e => (e.1, e.2.name))
  slots : HasSlots cacheOf (registered types fallback) r
  fallbackName : r.fallbackName = fallback.map (·.name)

/-! Building -/

section Building

/-- Caches that come to be as `R` says, one after the other, and of which `Q` holds from then on. -/
structure Makes (make : Transformer → Work σ κ) (cacheOf : Transformer → κ)
    (R : World σ → World σ → Prop) (Q : World σ → κ → Prop) (ts : List Transformer)
    (w₀ : World σ) : Prop where
  refl : ∀ w, R w w
  trans : ∀ w w' w'', R w w' → R w' w'' → R w w''
  report : ∀ w entry, R w { w with journal := entry :: w.journal }
  stays : ∀ w w' k, R w w' → Q w k → Q w' k
  make : ∀ t ∈ ts, ∀ w k w', R w₀ w → (make t).run w = (.ok k, w') →
    R w w' ∧ k = cacheOf t ∧ Q w' k

variable {make : Transformer → Work σ κ} {cacheOf : Transformer → κ}
variable {R : World σ → World σ → Prop} {Q : World σ → κ → Prop} {all ts : List Transformer}
variable {w₀ w w' : World σ} {r r' : Registry κ}

theorem HasSlots.append_of_some {t : Transformer} (h : HasSlots cacheOf ts r)
    (hthere : r.slot? t.name ≠ none) : HasSlots cacheOf (ts ++ [t]) r := by
  intro name
  rw [List.find?_append, h name]
  cases hfound : ts.find? fun t => t.name == name with
  | some t' => rfl
  | none =>
    have hname : ¬ (t.name == name) = true := by
      intro heq
      rw [beq_iff_eq] at heq
      rw [h t.name, heq, hfound] at hthere
      exact hthere rfl
    simp [hname]

theorem HasSlots.append_of_none {t : Transformer} (h : HasSlots cacheOf ts r)
    (hnone : r.slot? t.name = none) :
    HasSlots cacheOf (ts ++ [t]) { r with slots := r.slots.set t.name ⟨t, cacheOf t⟩ } := by
  intro name
  change Keyed.find? name (r.slots.set t.name ⟨t, cacheOf t⟩) = _
  rw [Keyed.find?_set, List.find?_append]
  by_cases hname : name = t.name
  · subst hname
    have hfound : (ts.find? fun t' => t'.name == t.name) = none := by
      rw [h t.name, Option.map_eq_none_iff] at hnone
      exact hnone
    rw [if_pos rfl, hfound, Option.none_or, List.find?_cons_of_pos (by simp)]
    rfl
  · have hslot : Keyed.find? name r.slots = r.slot? name := rfl
    rw [if_neg hname, hslot, h name]
    cases hfound : ts.find? fun t => t.name == name with
    | some t' => rfl
    | none =>
      simp [Ne.symm hname]

/-- What registering some more transformers comes to. -/
structure Registers (cacheOf : Transformer → κ) (R : World σ → World σ → Prop)
    (Q : World σ → κ → Prop) (ts : List Transformer) (r : Registry κ) (w w' : World σ)
    (r' : Registry κ) : Prop where
  world : R w w'
  slots : HasSlots cacheOf ts r'
  caches : ∀ name s, r'.slot? name = some s → Q w' s.cache
  fallbackName : r'.fallbackName = r.fallbackName

/-- Making sure of a slot. -/
theorem addSlot_ok (hmakes : Makes make cacheOf R Q all w₀) {t : Transformer} (ht : t ∈ all)
    (hreached : R w₀ w) (hslots : HasSlots cacheOf ts r)
    (hcaches : ∀ name s, r.slot? name = some s → Q w s.cache)
    (h : (r.addSlot make t).run w = (.ok r', w')) :
    Registers cacheOf R Q (ts ++ [t]) r w w' r' ∧ r'.nameOf = r.nameOf := by
  unfold addSlot at h
  cases hslot : r.slot? t.name with
  | none =>
    rw [hslot] at h
    obtain ⟨k, w'', hmake, hpure⟩ := Action.of_run_bind_ok h
    obtain ⟨hR, rfl, hQ⟩ := hmakes.make t ht w k w'' hreached hmake
    cases hpure
    refine ⟨⟨hR, hslots.append_of_none hslot, ?_, rfl⟩, rfl⟩
    intro name s hs
    change Keyed.find? name (r.slots.set t.name ⟨t, cacheOf t⟩) = some s at hs
    rw [Keyed.find?_set] at hs
    split at hs
    · cases hs
      exact hQ
    · exact hmakes.stays w _ _ hR (hcaches name s hs)
  | some s =>
    rw [hslot] at h
    simp only at h
    split at h
    · cases h
      exact ⟨⟨hmakes.refl w, hslots.append_of_some (by simp [hslot]), hcaches, rfl⟩, rfl⟩
    · cases h

theorem addTypes_ok (hmakes : Makes make cacheOf R Q all w₀) {types : List (String × Transformer)}
    (htypes : ∀ e ∈ types, e.2 ∈ all) (hreached : R w₀ w) (hslots : HasSlots cacheOf ts r)
    (hcaches : ∀ name s, r.slot? name = some s → Q w s.cache)
    (h : (addTypes make r types).run w = (.ok r', w')) :
    Registers cacheOf R Q (ts ++ types.map (·.2)) r w w' r' ∧
      r'.nameOf =
        (types.map fun e => (e.1, e.2.name)).foldl (fun t e => t.set e.1 e.2) r.nameOf := by
  induction types generalizing ts w r with
  | nil =>
    cases h
    exact ⟨⟨hmakes.refl _, by simpa using hslots, hcaches, rfl⟩, rfl⟩
  | cons e rest ih =>
    obtain ⟨mediaType, t⟩ := e
    obtain ⟨r₁, w₁, hadd, hrest⟩ := Action.of_run_bind_ok h
    obtain ⟨hfirst, hnames⟩ :=
      addSlot_ok hmakes (htypes _ (List.mem_cons_self ..)) hreached hslots hcaches hadd
    have hslots₁ : HasSlots cacheOf (ts ++ [t])
        { r₁ with nameOf := r₁.nameOf.set mediaType t.name } := hfirst.slots
    obtain ⟨hlater, hnames'⟩ := ih (fun e he => htypes e (List.mem_cons_of_mem _ he))
      (hmakes.trans _ _ _ hreached hfirst.world) hslots₁ hfirst.caches hrest
    refine ⟨⟨hmakes.trans _ _ _ hfirst.world hlater.world, ?_, hlater.caches, ?_⟩, ?_⟩
    · rw [List.map_cons, List.append_cons]
      exact hlater.slots
    · exact hlater.fallbackName.trans hfirst.fallbackName
    · rw [hnames', hnames]
      rfl

/-- What is built is the registry for its types and its fallback. -/
theorem build_ok {types : List (String × Transformer)} {fallback : Option Transformer}
    (hmakes : Makes make cacheOf R Q (registered types fallback) w)
    (h : (build make types fallback).run w = (.ok r, w')) :
    R w w' ∧ IsFor cacheOf types fallback r ∧ ∀ name s, r.slot? name = some s → Q w' s.cache := by
  obtain ⟨r₁, w₁, htypes, hfallback⟩ := Action.of_run_bind_ok h
  have hall : ∀ e ∈ types, e.2 ∈ registered types fallback := by
    intro e he
    exact List.mem_append_left _ (List.mem_map_of_mem he)
  have hempty : HasSlots cacheOf [] (empty : Registry κ) := fun _ => rfl
  obtain ⟨hfirst, hnames⟩ := addTypes_ok hmakes hall (hmakes.refl w) hempty nofun htypes
  cases fallback with
  | none =>
    cases hfallback
    have hreport := hmakes.report w₁
      ⟨.none, .registryBuilt r.nameOf.length r.slots.length r.fallbackName⟩
    refine ⟨hmakes.trans _ _ _ hfirst.world hreport, ⟨hnames, ?_, hfirst.fallbackName⟩, ?_⟩
    · simpa [registered] using hfirst.slots
    · intro name s hs
      exact hmakes.stays _ _ _ hreport (hfirst.caches name s hs)
  | some t =>
    obtain ⟨r₂, w₂, hadd, hpure⟩ := Action.of_run_bind_ok hfallback
    cases hpure
    obtain ⟨hlater, hnames'⟩ := addSlot_ok hmakes (List.mem_append_right _ (by simp))
      hfirst.world hfirst.slots hfirst.caches hadd
    have hreport := hmakes.report w₂
      ⟨.none, .registryBuilt r₂.nameOf.length r₂.slots.length (some t.name)⟩
    refine ⟨hmakes.trans _ _ _ (hmakes.trans _ _ _ hfirst.world hlater.world) hreport,
      ⟨hnames'.trans hnames, ?_, rfl⟩, ?_⟩
    · exact hlater.slots
    · intro name s hs
      exact hmakes.stays _ _ _ hreport (hlater.caches name s hs)

end Building

/-! Building that cannot clash -/

/-- No two transformers of one name. -/
def IsConsistent (ts : List Transformer) : Prop :=
  ∀ t ∈ ts, ∀ t' ∈ ts, t.name = t'.name → t = t'

/-- The slots hold some transformers under their names. -/
def HasMembers (ts : List Transformer) (r : Registry κ) : Prop :=
  ∀ name s, r.slot? name = some s → s.transformer.name = name ∧ s.transformer ∈ ts

/-- How building ends: with slots of the transformers, or with the failure of a cache. `P` is what holds of
the worlds on the way. -/
def Ends (make : Transformer → Work σ κ) (P : World σ → Prop) (ts : List Transformer) :
    Except Failure (Registry κ) × World σ → Prop
  | (.ok r, w) => P w ∧ HasMembers ts r
  | (.error e, _) => ∃ t ∈ ts, ∃ w w', P w ∧ (make t).run w = (.error e, w')

section Ending

variable {make : Transformer → Work σ κ} {P : World σ → Prop} {ts : List Transformer}
variable {w : World σ} {r : Registry κ}

theorem Ends.bind {x : Work σ (Registry κ)} {f : Registry κ → Work σ (Registry κ)}
    (hx : Ends make P ts (x.run w))
    (hf : ∀ r w', P w' → HasMembers ts r → Ends make P ts ((f r).run w')) :
    Ends make P ts ((x >>= f).run w) := by
  rw [Action.run_bind]
  rcases hrun : x.run w with ⟨r | r, w'⟩
  · rw [hrun] at hx
    exact hx
  · rw [hrun] at hx
    exact hf r w' hx.1 hx.2

theorem ends_addSlot (hconsistent : IsConsistent ts)
    (hmake : ∀ t ∈ ts, ∀ w k w', P w → (make t).run w = (.ok k, w') → P w') {t : Transformer}
    (ht : t ∈ ts) (hw : P w) (hr : HasMembers ts r) : Ends make P ts ((r.addSlot make t).run w) := by
  unfold addSlot
  cases hslot : r.slot? t.name with
  | some s =>
    obtain ⟨hname, hs⟩ := hr _ s hslot
    simp only [hconsistent _ hs t ht hname, if_true]
    exact ⟨hw, hr⟩
  | none =>
    simp only
    rw [Action.run_bind]
    rcases hrun : (make t).run w with ⟨e | k, w'⟩
    · exact ⟨t, ht, w, w', hw, hrun⟩
    · refine ⟨hmake t ht w k w' hw hrun, ?_⟩
      intro name s hs
      change Keyed.find? name (r.slots.set t.name ⟨t, k⟩) = some s at hs
      rw [Keyed.find?_set] at hs
      split at hs
      · rename_i hname
        cases hs
        exact ⟨hname.symm, ht⟩
      · exact hr name s hs

theorem ends_addTypes (hconsistent : IsConsistent ts)
    (hmake : ∀ t ∈ ts, ∀ w k w', P w → (make t).run w = (.ok k, w') → P w')
    {types : List (String × Transformer)} (htypes : ∀ e ∈ types, e.2 ∈ ts) (hw : P w)
    (hr : HasMembers ts r) : Ends make P ts ((r.addTypes make types).run w) := by
  induction types generalizing w r with
  | nil => exact ⟨hw, hr⟩
  | cons e rest ih =>
    refine (ends_addSlot hconsistent hmake (htypes e (List.mem_cons_self ..)) hw hr).bind ?_
    exact fun r' w' hw' hr' => ih (fun e he => htypes e (List.mem_cons_of_mem _ he)) hw' hr'

/-- Transformers of different names do not clash: the only reason to fail is a cache. -/
theorem ends_build (make : Transformer → Work σ κ) (P : World σ → Prop)
    {types : List (String × Transformer)} {fallback : Option Transformer}
    (hconsistent : IsConsistent (registered types fallback))
    (hmake : ∀ t ∈ registered types fallback, ∀ w k w', P w → (make t).run w = (.ok k, w') → P w')
    (hreport : ∀ w entry, P w → P { w with journal := entry :: w.journal }) (hw : P w) :
    Ends make P (registered types fallback) ((build make types fallback).run w) := by
  have hempty : HasMembers (registered types fallback) (empty : Registry κ) := nofun
  refine (ends_addTypes hconsistent hmake ?_ hw hempty).bind fun r₁ w₁ hw₁ hr₁ => ?_
  · exact fun e he => List.mem_append_left _ (List.mem_map_of_mem he)
  · cases fallback with
    | none => exact ⟨hreport _ _ hw₁, hr₁⟩
    | some t =>
      have ht : t ∈ registered types (some t) := List.mem_append_right _ (List.mem_singleton_self t)
      refine (ends_addSlot hconsistent hmake ht hw₁ hr₁).bind fun r₂ w₂ hw₂ hr₂ => ?_
      exact ⟨hreport _ _ hw₂, hr₂⟩

end Ending

/-! What all slots have in common -/

/-- The slots stand under the names of their transformers, and `P` holds of them. -/
def Holds (P : Slot κ → Prop) (r : Registry κ) : Prop :=
  ∀ name s, r.slot? name = some s → s.id = name ∧ P s

section Holding

variable {make : Transformer → Work σ κ} {P : Slot κ → Prop} {ts : List Transformer}
variable {w w' : World σ} {r r' : Registry κ}

theorem Holds.addSlot (h : Holds P r) {t : Transformer}
    (hmake : ∀ w k w', (make t).run w = (.ok k, w') → P ⟨t, k⟩)
    (hrun : (r.addSlot make t).run w = (.ok r', w')) : Holds P r' := by
  unfold Registry.addSlot at hrun
  cases hslot : r.slot? t.name with
  | some s =>
    rw [hslot] at hrun
    simp only at hrun
    split at hrun
    · cases hrun
      exact h
    · cases hrun
  | none =>
    rw [hslot] at hrun
    obtain ⟨k, w₁, hk, hpure⟩ := Action.of_run_bind_ok hrun
    obtain ⟨hr, -⟩ := Prod.mk.inj hpure
    cases hr
    intro name s hs
    change Keyed.find? name (r.slots.set t.name ⟨t, k⟩) = some s at hs
    rw [Keyed.find?_set] at hs
    split at hs
    · rename_i hname
      cases hs
      exact ⟨hname.symm, hmake w k w₁ hk⟩
    · exact h name s hs

theorem Holds.addTypes (h : Holds P r) {types : List (String × Transformer)}
    (hmake : ∀ e ∈ types, ∀ w k w', (make e.2).run w = (.ok k, w') → P ⟨e.2, k⟩)
    (hrun : (r.addTypes make types).run w = (.ok r', w')) : Holds P r' := by
  induction types generalizing w r with
  | nil =>
    cases hrun
    exact h
  | cons e rest ih =>
    obtain ⟨r₁, w₁, hadd, hrest⟩ := Action.of_run_bind_ok hrun
    have hfirst := h.addSlot (hmake e (List.mem_cons_self ..)) hadd
    have hnamed : Holds P { r₁ with nameOf := r₁.nameOf.set e.1 e.2.name } := hfirst
    exact ih hnamed (fun e he => hmake e (List.mem_cons_of_mem _ he)) hrest

/-- What holds of every transformer with the cache that is made for it holds of the slots. -/
theorem holds_of_build {types : List (String × Transformer)} {fallback : Option Transformer}
    (hmake : ∀ t ∈ registered types fallback, ∀ w k w', (make t).run w = (.ok k, w') → P ⟨t, k⟩)
    (hrun : (build make types fallback).run w = (.ok r, w')) : Holds P r := by
  obtain ⟨r₁, w₁, htypes, hfallback⟩ := Action.of_run_bind_ok hrun
  have hempty : Holds P (empty : Registry κ) := nofun
  have hfirst : Holds P r₁ := hempty.addTypes
    (fun e he => hmake e.2 (List.mem_append_left _ (List.mem_map_of_mem he))) htypes
  cases fallback with
  | none =>
    cases hfallback
    exact hfirst
  | some t =>
    obtain ⟨r₂, w₂, hadd, hpure⟩ := Action.of_run_bind_ok hfallback
    cases hpure
    have hlast :=
      hfirst.addSlot (hmake t (List.mem_append_right _ (List.mem_singleton_self t))) hadd
    exact hlast

end Holding

/-! Looking up -/

section Lookups

variable {κ' : Type} {cacheOf : Transformer → κ} {types : List (String × Transformer)}
variable {fallback : Option Transformer} {r : Registry κ}

theorem IsFor.of_slot? (h : IsFor cacheOf types fallback r) {name : String} {s : Slot κ}
    (hs : r.slot? name = some s) :
    s.id = name ∧ s.transformer ∈ registered types fallback ∧ s.cache = cacheOf s.transformer := by
  rw [h.slots name, Option.map_eq_some_iff] at hs
  obtain ⟨t, hfound, rfl⟩ := hs
  have hname := List.find?_some hfound
  exact ⟨beq_iff_eq.mp hname, List.mem_of_find?_eq_some hfound, rfl⟩

theorem IsFor.slot?_of_mem (h : IsFor cacheOf types fallback r) {t : Transformer}
    (ht : t ∈ registered types fallback) : ∃ s, r.slot? t.name = some s := by
  cases hslot : r.slot? t.name with
  | some s => exact ⟨s, rfl⟩
  | none =>
    rw [h.slots t.name, Option.map_eq_none_iff, List.find?_eq_none] at hslot
    exact absurd (beq_self_eq_true t.name) (hslot t ht)

theorem IsFor.nodup_nameOf (h : IsFor cacheOf types fallback r) : r.nameOf.keys.Nodup := by
  rw [h.nameOf]
  exact Keyed.nodup_keys_ofList _

/-- Every media type of a registry has a slot. -/
theorem IsFor.lookup?_of_mem (h : IsFor cacheOf types fallback r) {mediaType : String}
    (hmem : mediaType ∈ r.nameOf.keys) : ∃ s, r.lookup? (some mediaType) = some s := by
  cases hname : r.nameOf.find? mediaType with
  | none => exact absurd hmem (Keyed.find?_eq_none_iff.mp hname)
  | some name =>
    have hin : (mediaType, name) ∈ types.map fun e => (e.1, e.2.name) := by
      have hfound := Keyed.mem_of_find? hname
      rw [h.nameOf] at hfound
      exact Keyed.mem_of_mem_ofList hfound
    obtain ⟨e, he, heq⟩ := List.mem_map.mp hin
    obtain ⟨s, hs⟩ := h.slot?_of_mem (List.mem_append_left _ (List.mem_map_of_mem he))
    refine ⟨s, ?_⟩
    rw [lookup?, hname, Option.bind_some, ← hs]
    cases heq
    rfl

theorem IsFor.lookup?_ok (h : IsFor cacheOf types fallback r) {mediaType : Option String}
    {s : Slot κ} (hs : r.lookup? mediaType = some s) : r.slot? s.id = some s := by
  cases mediaType with
  | none => cases hs
  | some m =>
    obtain ⟨name, _, hslot⟩ := Option.bind_eq_some_iff.mp hs
    rw [(h.of_slot? hslot).1]
    exact hslot

/-! The items -/

theorem mem_sorted {name : String} {names : List String} : name ∈ sorted names ↔ name ∈ names :=
  (List.mergeSort_perm names _).mem_iff

theorem mem_items {mediaType : String} {s : Slot κ} :
    (mediaType, s) ∈ r.items ↔ r.lookup? (some mediaType) = some s := by
  unfold items
  rw [List.mem_filterMap]
  constructor
  · rintro ⟨t, _, ht⟩
    obtain ⟨s', hs', heq⟩ := Option.map_eq_some_iff.mp ht
    cases heq
    exact hs'
  · intro hs
    refine ⟨mediaType, ?_, by rw [hs]; rfl⟩
    rw [mediaTypes, mem_sorted]
    by_contra hnot
    rw [lookup?, Keyed.find?_eq_none_iff.mpr hnot] at hs
    cases hs

theorem IsFor.keys_items (h : IsFor cacheOf types fallback r) :
    Keyed.keys r.items = r.mediaTypes := by
  have hall : ∀ m ∈ r.mediaTypes, ∃ s, r.lookup? (some m) = some s := by
    intro m hm
    exact h.lookup?_of_mem (mem_sorted.mp hm)
  unfold items Keyed.keys
  generalize r.mediaTypes = ms at hall
  induction ms with
  | nil => rfl
  | cons m ms ih =>
    obtain ⟨s, hs⟩ := hall m (List.mem_cons_self ..)
    rw [List.filterMap_cons, hs]
    exact congrArg (m :: ·) (ih fun m' hm' => hall m' (List.mem_cons_of_mem _ hm'))

theorem IsFor.nodup_items (h : IsFor cacheOf types fallback r) : (Keyed.keys r.items).Nodup := by
  rw [h.keys_items]
  exact (List.mergeSort_perm _ _).nodup_iff.mpr h.nodup_nameOf

theorem IsFor.find?_items (h : IsFor cacheOf types fallback r) (mediaType : String) :
    Keyed.find? mediaType r.items = r.lookup? (some mediaType) := by
  cases hs : r.lookup? (some mediaType) with
  | some s => exact Keyed.find?_of_mem h.nodup_items (mem_items.mpr hs)
  | none =>
    cases hfound : Keyed.find? mediaType r.items with
    | none => rfl
    | some s =>
      have hmem := mem_items.mp (Keyed.mem_of_find? hfound)
      rw [hs] at hmem
      cases hmem

/-! Registries with one transformer for each name -/

theorem IsFor.slot?_of_consistent (h : IsFor cacheOf types fallback r)
    (hconsistent : IsConsistent (registered types fallback)) {t : Transformer}
    (ht : t ∈ registered types fallback) : r.slot? t.name = some ⟨t, cacheOf t⟩ := by
  obtain ⟨s, hs⟩ := h.slot?_of_mem ht
  obtain ⟨hname, hmem, hcache⟩ := h.of_slot? hs
  have heq := hconsistent _ hmem t ht hname
  rw [hs, ← heq, ← hcache]

theorem IsFor.lookup?_of_consistent (h : IsFor cacheOf types fallback r)
    (hconsistent : IsConsistent (registered types fallback)) (hnodup : (Keyed.keys types).Nodup)
    (mediaType : String) : r.lookup? (some mediaType) =
      (Keyed.find? mediaType types).map fun t => ⟨t, cacheOf t⟩ := by
  have hkeys : Keyed.keys (types.map fun e => (e.1, e.2.name)) = Keyed.keys types := by
    simp [Keyed.keys, Function.comp_def]
  have hname : Keyed.find? mediaType r.nameOf =
      (Keyed.find? mediaType types).map (·.name) := by
    rw [h.nameOf, Keyed.ofList_of_nodup (hkeys ▸ hnodup), Keyed.find?_map]
  rw [lookup?, hname]
  cases hfound : Keyed.find? mediaType types with
  | none => rfl
  | some t =>
    have ht : t ∈ registered types fallback := by
      have hmem := List.mem_map_of_mem (f := (·.2)) (Keyed.mem_of_find? hfound)
      exact List.mem_append_left _ hmem
    exact h.slot?_of_consistent hconsistent ht

theorem IsFor.fallback?_of_consistent (h : IsFor cacheOf types fallback r)
    (hconsistent : IsConsistent (registered types fallback)) :
    r.fallback? = fallback.map fun t => ⟨t, cacheOf t⟩ := by
  rw [Registry.fallback?, h.fallbackName]
  cases fallback with
  | none => rfl
  | some t => exact h.slot?_of_consistent hconsistent (List.mem_append_right _ (by simp))

end Lookups

/-! Registries that agree -/

section Agreement

variable {κ' : Type}

/-- Two registries find slots that belong together. -/
structure Agrees (rel : Slot κ → Slot κ' → Prop) (r : Registry κ) (r' : Registry κ') : Prop where
  lookup : ∀ mediaType, Option.Rel rel (r.lookup? mediaType) (r'.lookup? mediaType)
  fallback : Option.Rel rel r.fallback? r'.fallback?

/-- Slots that belong together are picked for a file. -/
theorem Agrees.select? {rel : Slot κ → Slot κ' → Prop} {r : Registry κ} {r' : Registry κ'}
    (h : Agrees rel r r') (path : Path) (i : Fingerprint) :
    Option.Rel (fun e e' => rel e.1 e'.1 ∧ e.2 = e'.2) (r.select? path i) (r'.select? path i) := by
  unfold Registry.select?
  have hpicked : Option.Rel rel
      (if i.isBypassed then r.passthrough? else r.lookup? (i.typeOr path))
      (if i.isBypassed then r'.passthrough? else r'.lookup? (i.typeOr path)) := by
    split
    · exact h.lookup _
    · exact h.lookup _
  generalize (if i.isBypassed then r.passthrough? else r.lookup? (i.typeOr path)) = found at hpicked
  generalize (if i.isBypassed then r'.passthrough? else r'.lookup? (i.typeOr path)) = found'
    at hpicked
  cases hpicked with
  | some hrel => exact .some ⟨hrel, rfl⟩
  | none =>
    have hfallback := h.fallback
    generalize r.fallback? = s at hfallback
    generalize r'.fallback? = s' at hfallback
    cases hfallback with
    | some hrel => exact .some ⟨hrel, rfl⟩
    | none => exact .none

theorem Agrees.imp {rel rel' : Slot κ → Slot κ' → Prop} {r : Registry κ} {r' : Registry κ'}
    (h : Agrees rel r r')
    (himp : ∀ s s', ((∃ m, r.lookup? m = some s) ∨ r.fallback? = some s) → rel s s' → rel' s s') :
    Agrees rel' r r' := by
  have hmaps : ∀ {s? : Option (Slot κ)} {s?' : Option (Slot κ')}, Option.Rel rel s? s?' →
      (∀ s, s? = some s → (∃ m, r.lookup? m = some s) ∨ r.fallback? = some s) →
      Option.Rel rel' s? s?' := by
    intro s? s?' hrel hfound
    cases hrel with
    | none => exact .none
    | some hrel => exact .some (himp _ _ (hfound _ rfl) hrel)
  exact ⟨fun m => hmaps (h.lookup m) fun s hs => .inl ⟨m, hs⟩, hmaps h.fallback fun s hs => .inr hs⟩

/-- A registry of transformers in the place of those of another one agrees with it. -/
theorem IsFor.agrees {cacheOf : Transformer → κ} {cacheOf' : Transformer → κ'}
    {types types' : List (String × Transformer)} {fallback fallback' : Option Transformer}
    {r : Registry κ} {r' : Registry κ'} (h : IsFor cacheOf types fallback r)
    (h' : IsFor cacheOf' types' fallback' r') {rel : Slot κ → Transformer → Prop}
    (htypes : List.Forall₂ (fun e e' => e'.1 = e.1 ∧ rel e.2 e'.2) r.items types')
    (hfallback : Option.Rel rel r.fallback? fallback')
    (hconsistent : IsConsistent (registered types' fallback')) :
    Agrees (fun s s' => rel s s'.transformer ∧ s'.cache = cacheOf' s'.transformer) r r' := by
  have hkeys := Keyed.keys_eq_of_forall₂ htypes
  constructor
  · intro mediaType
    cases mediaType with
    | none => exact .none
    | some m =>
      have hfound := Keyed.find?_rel htypes m
      rw [h.find?_items] at hfound
      rw [h'.lookup?_of_consistent hconsistent (hkeys ▸ h.nodup_items)]
      generalize r.lookup? (some m) = s? at hfound
      generalize Keyed.find? m types' = t? at hfound
      cases hfound with
      | none => exact .none
      | some hrel => exact .some ⟨hrel, rfl⟩
  · rw [h'.fallback?_of_consistent hconsistent]
    generalize r.fallback? = s? at hfallback
    cases hfallback with
    | none => exact .none
    | some hrel => exact .some ⟨hrel, rfl⟩

end Agreement

end AssetCompiler.Registry
