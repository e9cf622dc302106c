import AssetCompiler.Proofs.Registries
import Mathlib.Data.List.Induction

/-!
One cache for each instance. Instances are told apart by their handles, and two of one name clash. Where
none clash, each instance gets one cache, in the order in which the instances first appear, and slots, media
types and items follow from the instances.
-/
namespace AssetCompiler

/-! First occurrences -/

section FirstOccurrences

variable {α : Type} [BEq α] [LawfulBEq α] {x : α} {items : List α}

omit [LawfulBEq α] in
theorem firstOccurrences_concat (x : α) (items : List α) :
    firstOccurrences (items ++ [x]) =
      Keyed.keys ((Keyed.ofList (items.map fun y => (y, ()))).set x ()) := by
  simp [firstOccurrences, Keyed.ofList]

@[simp] theorem mem_firstOccurrences : x ∈ firstOccurrences items ↔ x ∈ items := by
  induction items using List.reverseRecOn with
  | nil => simp [firstOccurrences, Keyed.ofList, Keyed.keys]
  | append_singleton items y ih =>
    rw [firstOccurrences_concat, Keyed.mem_keys_set, List.mem_append, List.mem_singleton, or_comm,
      ← ih]
    rfl

theorem firstOccurrences_concat_of_mem (h : x ∈ items) :
    firstOccurrences (items ++ [x]) = firstOccurrences items := by
  rw [firstOccurrences_concat]
  exact Keyed.keys_set_of_mem () (mem_firstOccurrences.mpr h)

theorem firstOccurrences_concat_of_not_mem (h : x ∉ items) :
    firstOccurrences (items ++ [x]) = firstOccurrences items ++ [x] := by
  have hkeys : x ∉ (Keyed.ofList (items.map fun y => (y, ()))).keys := mem_firstOccurrences.not.mpr h
  rw [firstOccurrences_concat, Keyed.set_of_not_mem () hkeys]
  simp [firstOccurrences, Keyed.keys]

end FirstOccurrences

namespace Registry

/-- A handle belongs to one transformer. -/
def AreInstances (ts : List Transformer) : Prop :=
  ∀ t ∈ ts, ∀ u ∈ ts, t.handle = u.handle → t = u

/-- Two instances have one name. -/
def Clash (ts : List Transformer) : Prop :=
  ∃ t ∈ ts, ∃ u ∈ ts, t.handle ≠ u.handle ∧ t.name = u.name

variable {κ σ : Type} {make : Transformer → Work σ κ}
variable {calls : World σ → List (Transformer × κ)}

/-- Caches are made anew: a call never fails and never gives a cache that an earlier one gave. `calls` are
the calls so far with what they gave; the journal is not where they are kept. -/
structure MakesAnew (make : Transformer → Work σ κ) (calls : World σ → List (Transformer × κ)) :
    Prop where
  make : ∀ t w, ∃ k w', (make t).run w = (.ok k, w') ∧ k ∉ (calls w).map (·.2) ∧
    calls w' = calls w ++ [(t, k)]
  note : ∀ w entry, calls { w with journal := entry :: w.journal } = calls w

/-- The slots are those of some transformers: each instance has one, with its cache in `made`, and no two
have one name. -/
structure IsSlotted (ts : List Transformer) (made : List (Transformer × κ)) (r : Registry κ) :
    Prop where
  slots : r.slots = made.map fun e => (e.1.name, ⟨e.1, e.2⟩)
  instances : made.map (·.1) = firstOccurrences ts
  names : (made.map (·.1.name)).Nodup
  caches : (made.map (·.2)).Nodup

namespace IsSlotted

variable {ts : List Transformer} {made : List (Transformer × κ)} {r : Registry κ}

theorem keys_slots (h : IsSlotted ts made r) : r.slots.keys = made.map (·.1.name) := by
  simp [h.slots, Keyed.keys, Function.comp_def]

theorem mem_of_slot? (h : IsSlotted ts made r) {name : String} {s : Slot κ}
    (hs : r.slot? name = some s) : s.transformer.name = name ∧ (s.transformer, s.cache) ∈ made := by
  have hmem := Keyed.mem_of_find? hs
  rw [h.slots, List.mem_map] at hmem
  obtain ⟨e, he, heq⟩ := hmem
  cases heq
  exact ⟨rfl, he⟩

theorem slot?_of_mem (h : IsSlotted ts made r) {e : Transformer × κ} (he : e ∈ made) :
    r.slot? e.1.name = some ⟨e.1, e.2⟩ := by
  refine Keyed.find?_of_mem (h.keys_slots ▸ h.names) ?_
  rw [h.slots]
  exact List.mem_map_of_mem (f := fun e : Transformer × κ => (e.1.name, Slot.mk e.1 e.2)) he

theorem mem_made (h : IsSlotted ts made r) {t : Transformer} :
    (∃ k, (t, k) ∈ made) ↔ t ∈ ts := by
  rw [← mem_firstOccurrences, ← h.instances, List.mem_map]
  constructor
  · rintro ⟨k, hk⟩
    exact ⟨_, hk, rfl⟩
  · rintro ⟨⟨t, k⟩, hk, rfl⟩
    exact ⟨k, hk⟩

theorem mem_of_made (h : IsSlotted ts made r) {e : Transformer × κ} (he : e ∈ made) : e.1 ∈ ts :=
  h.mem_made.mp ⟨e.2, he⟩

theorem not_clash (h : IsSlotted ts made r) : ¬ Clash ts := by
  rintro ⟨t, ht, u, hu, hne, hname⟩
  obtain ⟨k, hk⟩ := h.mem_made.mpr ht
  obtain ⟨k', hk'⟩ := h.mem_made.mpr hu
  have hsame := List.inj_on_of_nodup_map h.names hk hk' hname
  exact hne (congrArg (·.1.handle) hsame)

theorem cache_eq_iff (h : IsSlotted ts made r) (hinstances : AreInstances ts) {e e' : Transformer × κ}
    (he : e ∈ made) (he' : e' ∈ made) : e.2 = e'.2 ↔ e.1.handle = e'.1.handle := by
  constructor
  · intro hcache
    rw [List.inj_on_of_nodup_map h.caches he he' hcache]
  · intro hhandle
    have hsame := hinstances _ (h.mem_of_made he) _ (h.mem_of_made he') hhandle
    have hname : e.1.name = e'.1.name := congrArg (·.name) hsame
    rw [List.inj_on_of_nodup_map h.names he he' hname]

end IsSlotted

/-! Building -/

/-- How registering transformers ends: with their slots, or with a clash. `before` are the calls for caches
before the first one. -/
def EndsSlotted (calls : World σ → List (Transformer × κ)) (before : List (Transformer × κ))
    (ts : List Transformer) (P : Registry κ → Prop) :
    Except Failure (Registry κ) × World σ → Prop
  | (.ok r, w) => ∃ made, IsSlotted ts made r ∧ calls w = before ++ made ∧ P r
  | (.error e, _) => ∃ t ∈ ts, ∃ u ∈ ts, t.handle ≠ u.handle ∧ t.name = u.name ∧
    e = .configuration (.nameClash t.name t.display u.display)

section Building

variable {before made : List (Transformer × κ)} {ts : List Transformer} {r : Registry κ}
variable {w : World σ}

theorem EndsSlotted.bind {ts' : List Transformer} {P Q : Registry κ → Prop}
    {x : Work σ (Registry κ)} {f : Registry κ → Work σ (Registry κ)}
    (hx : EndsSlotted calls before ts P (x.run w)) (hsub : ts ⊆ ts')
    (hf : ∀ r w' made, IsSlotted ts made r → calls w' = before ++ made → P r →
      EndsSlotted calls before ts' Q ((f r).run w')) :
    EndsSlotted calls before ts' Q ((x >>= f).run w) := by
  rw [Action.run_bind]
  rcases hrun : x.run w with ⟨e | r, w'⟩
  · rw [hrun] at hx
    obtain ⟨t, ht, u, hu, hclash⟩ := hx
    exact ⟨t, hsub ht, u, hsub hu, hclash⟩
  · rw [hrun] at hx
    obtain ⟨made, hslotted, hcalls, hr⟩ := hx
    exact hf r w' made hslotted hcalls hr

/-- Making sure of one more slot. -/
theorem IsSlotted.addSlot (h : IsSlotted ts made r) (hmakes : MakesAnew make calls) (t : Transformer)
    (hinstances : AreInstances (ts ++ [t])) (hcalls : calls w = before ++ made) :
    EndsSlotted calls before (ts ++ [t])
      (fun r' => r'.nameOf = r.nameOf ∧ r'.fallbackName = r.fallbackName)
      ((r.addSlot make t).run w) := by
  have hmem : ∀ u ∈ ts, u ∈ ts ++ [t] := fun u hu => List.mem_append_left _ hu
  have hlast : t ∈ ts ++ [t] := List.mem_append_right _ (List.mem_singleton_self t)
  unfold Registry.addSlot
  cases hslot : r.slot? t.name with
  | some s =>
    obtain ⟨hname, hmade⟩ := h.mem_of_slot? hslot
    have hs := h.mem_of_made hmade
    simp only
    split
    · rename_i hhandle
      have hsame := hinstances _ (hmem _ hs) _ hlast hhandle
      refine ⟨made, ⟨h.slots, ?_, h.names, h.caches⟩, hcalls, rfl, rfl⟩
      rw [firstOccurrences_concat_of_mem (hsame ▸ hs), h.instances]
    · rename_i hhandle
      refine ⟨s.transformer, hmem _ hs, t, hlast, hhandle, hname, ?_⟩
      rw [hname]
  | none =>
    have hnew : t.name ∉ made.map (·.1.name) :=
      h.keys_slots ▸ Keyed.find?_eq_none_iff.mp hslot
    have hnot : t ∉ ts := by
      intro ht
      obtain ⟨k, hk⟩ := h.mem_made.mpr ht
      exact hnew (List.mem_map_of_mem (f := (·.1.name)) hk)
    obtain ⟨k, w', hrun, hk, hcalls'⟩ := hmakes.make t w
    simp only
    rw [Action.run_bind_ok hrun]
    rw [hcalls, List.map_append, List.mem_append, not_or] at hk
    refine ⟨made ++ [(t, k)], ⟨?_, ?_, ?_, ?_⟩, ?_, rfl, rfl⟩
    · change r.slots.set t.name ⟨t, k⟩ = _
      rw [Keyed.set_of_not_mem _ (h.keys_slots ▸ hnew), h.slots, List.map_append]
      rfl
    · rw [firstOccurrences_concat_of_not_mem hnot, List.map_append, h.instances]
      rfl
    · rw [List.map_append, List.map_singleton, ← List.concat_eq_append]
      exact h.names.concat hnew
    · rw [List.map_append, List.map_singleton, ← List.concat_eq_append]
      exact h.caches.concat hk.2
    · rw [hcalls', hcalls, List.append_assoc]

/-- Registering transformers under media types, one after the other. -/
theorem IsSlotted.addTypes (h : IsSlotted ts made r) (hmakes : MakesAnew make calls)
    (types : List (String × Transformer)) (hinstances : AreInstances (ts ++ types.map (·.2)))
    (hcalls : calls w = before ++ made) :
    EndsSlotted calls before (ts ++ types.map (·.2))
      (fun r' => r'.nameOf =
          (types.map fun e => (e.1, e.2.name)).foldl (fun t e => t.set e.1 e.2) r.nameOf ∧
        r'.fallbackName = r.fallbackName)
      ((r.addTypes make types).run w) := by
  induction types generalizing ts made r w with
  | nil =>
    refine ⟨made, ?_, hcalls, rfl, rfl⟩
    simpa using h
  | cons e rest ih =>
    obtain ⟨mediaType, t⟩ := e
    rw [List.map_cons, List.append_cons] at hinstances ⊢
    have hfirst := h.addSlot hmakes t
      (fun a ha b hb => hinstances a (List.mem_append_left _ ha) b (List.mem_append_left _ hb)) hcalls
    refine hfirst.bind (List.subset_append_left _ _) ?_
    rintro r₁ w₁ made₁ hslotted hcalls₁ ⟨hnames, hfallback⟩
    have hnext : IsSlotted (ts ++ [t]) made₁ { r₁ with nameOf := r₁.nameOf.set mediaType t.name } :=
      ⟨hslotted.slots, hslotted.instances, hslotted.names, hslotted.caches⟩
    rw [← hnames, ← hfallback]
    exact ih hnext hinstances hcalls₁

/-- Building a registry ends with the slots of its transformers, or with a clash. -/
theorem build_slotted (hmakes : MakesAnew make calls) (types : List (String × Transformer))
    (fallback : Option Transformer) (hinstances : AreInstances (registered types fallback)) :
    EndsSlotted calls (calls w) (registered types fallback)
      (fun r => r.nameOf = Keyed.ofList (types.map fun e => (e.1, e.2.name)) ∧
        r.fallbackName = fallback.map (·.name))
      ((build make types fallback).run w) := by
  have hempty : IsSlotted [] [] (empty : Registry κ) := ⟨rfl, rfl, List.nodup_nil, List.nodup_nil⟩
  have hfirst := hempty.addTypes (w := w) hmakes types
    (fun a ha b hb => hinstances a (List.mem_append_left _ ha) b (List.mem_append_left _ hb))
    (List.append_nil _).symm
  refine hfirst.bind (List.subset_append_left _ _) ?_
  rintro r₁ w₁ made₁ hslotted hcalls₁ ⟨hnames, hnone⟩
  cases fallback with
  | none =>
    refine ⟨made₁, ?_, (hmakes.note _ _).trans hcalls₁, hnames, hnone⟩
    simpa [registered] using hslotted
  | some t =>
    refine (hslotted.addSlot hmakes t hinstances hcalls₁).bind (List.Subset.refl _) ?_
    rintro r₂ w₂ made₂ hslotted₂ hcalls₂ ⟨hnames₂, -⟩
    exact ⟨made₂, ⟨hslotted₂.slots, hslotted₂.instances, hslotted₂.names, hslotted₂.caches⟩,
      (hmakes.note _ _).trans hcalls₂, hnames₂.trans hnames, rfl⟩

end Building

/-! Answers -/

theorem pairwise_sorted (names : List String) : (sorted names).Pairwise (· ≤ ·) := by
  have hsorted := @List.pairwise_mergeSort _ (fun a b : String => decide (a ≤ b)) ?_ ?_ names
  · exact hsorted.imp fun hle => of_decide_eq_true hle
  · intro a b c hab hbc
    exact decide_eq_true (String.le_trans (of_decide_eq_true hab) (of_decide_eq_true hbc))
  · intro a b
    rw [Bool.or_eq_true, decide_eq_true_eq, decide_eq_true_eq]
    exact String.le_total a b

/-- A slot is found under a media type or as the fallback. -/
def Finds (r : Registry κ) (s : Slot κ) : Prop :=
  (∃ mediaType, r.lookup? mediaType = some s) ∨ r.fallback? = some s

/-- A registry answers for a map of media types and a fallback. Slots hold the transformers of the map, stand
under their names and share a cache only if they share the instance; the items are sorted by media type. -/
structure AnswersFor (types : List (String × Transformer)) (fallback : Option Transformer)
    (r : Registry κ) : Prop where
  lookup : ∀ m, (r.lookup? (some m)).map (·.transformer) = Keyed.find? m types
  unknown : r.lookup? none = none
  fallback : r.fallback?.map (·.transformer) = fallback
  id : ∀ name s, r.slot? name = some s → s.id = name ∧ s.id = s.transformer.name
  caches : ∀ s s', r.Finds s → r.Finds s' →
    (s.cache = s'.cache ↔ s.transformer.handle = s'.transformer.handle)
  sorted : (Keyed.keys r.items).Pairwise (· < ·)
  types : ∀ m, m ∈ Keyed.keys r.items ↔ m ∈ Keyed.keys types
  items : ∀ m s, (m, s) ∈ r.items ↔ r.lookup? (some m) = some s

section Answering

variable {made : List (Transformer × κ)} {types : List (String × Transformer)}
variable {fallback : Option Transformer} {ts : List Transformer} {r : Registry κ}

/-- Each instance has a cache of its own choice. -/
theorem IsSlotted.hasSlots [Nonempty κ] (h : IsSlotted ts made r) :
    ∃ cacheOf : Transformer → κ, HasSlots cacheOf ts r := by
  have hchoice : ∀ t, ∃ k, t ∈ ts → (t, k) ∈ made := by
    intro t
    by_cases ht : t ∈ ts
    · obtain ⟨k, hk⟩ := h.mem_made.mpr ht
      exact ⟨k, fun _ => hk⟩
    · exact ⟨Classical.choice inferInstance, fun hmem => absurd hmem ht⟩
  obtain ⟨cacheOf, hcacheOf⟩ := Classical.skolem.mp hchoice
  refine ⟨cacheOf, fun name => ?_⟩
  cases hfound : ts.find? fun t => t.name == name with
  | some t =>
    have hname := List.find?_some hfound
    rw [beq_iff_eq] at hname
    have hmade := hcacheOf t (List.mem_of_find?_eq_some hfound)
    rw [← hname]
    exact h.slot?_of_mem hmade
  | none =>
    cases hslot : r.slot? name with
    | none => rfl
    | some s =>
      obtain ⟨hname, hmade⟩ := h.mem_of_slot? hslot
      have hnone := List.find?_eq_none.mp hfound _ (h.mem_of_made hmade)
      exact absurd (beq_iff_eq.mpr hname) hnone

theorem IsSlotted.isConsistent (h : IsSlotted ts made r) (hinstances : AreInstances ts) :
    IsConsistent ts := by
  intro t ht u hu hname
  by_contra hne
  have hhandle : t.handle ≠ u.handle := fun heq => hne (hinstances t ht u hu heq)
  exact h.not_clash ⟨t, ht, u, hu, hhandle, hname⟩

theorem IsSlotted.made_of_finds (h : IsSlotted ts made r) {s : Slot κ} (hs : r.Finds s) :
    (s.transformer, s.cache) ∈ made := by
  rcases hs with ⟨mediaType, hs⟩ | hs
  · cases mediaType with
    | none => cases hs
    | some m =>
      obtain ⟨name, -, hslot⟩ := Option.bind_eq_some_iff.mp hs
      exact (h.mem_of_slot? hslot).2
  · obtain ⟨name, -, hslot⟩ := Option.bind_eq_some_iff.mp hs
    exact (h.mem_of_slot? hslot).2

theorem IsSlotted.answersFor [Nonempty κ] (h : IsSlotted (registered types fallback) made r)
    (hinstances : AreInstances (registered types fallback)) (hkeys : (Keyed.keys types).Nodup)
    (hnameOf : r.nameOf = Keyed.ofList (types.map fun e => (e.1, e.2.name)))
    (hfallback : r.fallbackName = fallback.map (·.name)) : AnswersFor types fallback r := by
  obtain ⟨cacheOf, hslots⟩ := h.hasSlots
  have hfor : IsFor cacheOf types fallback r := ⟨hnameOf, hslots, hfallback⟩
  have hconsistent := h.isConsistent hinstances
  have hlookup := hfor.lookup?_of_consistent hconsistent hkeys
  refine ⟨?_, rfl, ?_, ?_, ?_, ?_, ?_, fun m s => mem_items⟩
  · intro m
    rw [hlookup m]
    cases Keyed.find? m types <;> rfl
  · rw [hfor.fallback?_of_consistent hconsistent]
    cases fallback <;> rfl
  · intro name s hs
    exact ⟨(hfor.of_slot? hs).1, rfl⟩
  · intro s s' hs hs'
    exact h.cache_eq_iff hinstances (h.made_of_finds hs) (h.made_of_finds hs')
  · have hdiffer := hfor.nodup_items
    rw [hfor.keys_items] at hdiffer ⊢
    refine ((pairwise_sorted r.nameOf.keys).and hdiffer).imp ?_
    rintro a b ⟨hle, hne⟩
    by_contra hnot
    exact hne (String.le_antisymm hle (String.not_lt.mp hnot))
  · intro m
    rw [hfor.keys_items, mediaTypes, mem_sorted, hnameOf]
    have hnames : Keyed.keys (types.map fun e => (e.1, e.2.name)) = Keyed.keys types := by
      simp [Keyed.keys, Function.comp_def]
    rw [Keyed.ofList_of_nodup (hnames ▸ hkeys), hnames]

end Answering

/-- Building refuses two instances of one name and nothing else. Otherwise each instance was given one cache, in
the order of first appearance, and the registry answers for its map and its fallback. -/
theorem build_instances {types : List (String × Transformer)} {fallback : Option Transformer}
    (hmakes : MakesAnew make calls) (hkeys : (Keyed.keys types).Nodup)
    (hinstances : AreInstances (registered types fallback)) (w : World σ) :
    ((∃ issue w', (build make types fallback).run w = (.error (.configuration issue), w')) ↔
      Clash (registered types fallback)) ∧
    (¬ Clash (registered types fallback) →
      ∃ r w' made, (build make types fallback).run w = (.ok r, w') ∧
        calls w' = calls w ++ made ∧
        made.map (·.1) = firstOccurrences (registered types fallback) ∧
        AnswersFor types fallback r) := by
  have hends := build_slotted (w := w) hmakes types fallback hinstances
  rcases hrun : (build make types fallback).run w with ⟨e | r, w'⟩
  · rw [hrun] at hends
    obtain ⟨t, ht, u, hu, hhandle, hname, rfl⟩ := hends
    have hclash : Clash (registered types fallback) := ⟨t, ht, u, hu, hhandle, hname⟩
    exact ⟨⟨fun _ => hclash, fun _ => ⟨_, w', rfl⟩⟩, fun hnot => absurd hclash hnot⟩
  · rw [hrun] at hends
    obtain ⟨made, hslotted, hcalls, hnameOf, hfallback⟩ := hends
    obtain ⟨k, -⟩ := hmakes.make default w
    have hnonempty : Nonempty κ := ⟨k⟩
    refine ⟨⟨nofun, fun hclash => absurd hclash hslotted.not_clash⟩, fun _ => ?_⟩
    exact ⟨r, w', made, rfl, hcalls, hslotted.instances,
      hslotted.answersFor hinstances hkeys hnameOf hfallback⟩

/-! Caches that are numbers, given out one after the other -/

def numbered (t : Transformer) : Work (List Transformer) Nat := fun w =>
  (.ok w.tools.length, { w with tools := w.tools ++ [t] })

def givenOut (w : World (List Transformer)) : List (Transformer × Nat) := w.tools.zipIdx

theorem numbered_makesAnew : MakesAnew numbered givenOut where
  make t w := by
    refine ⟨w.tools.length, { w with tools := w.tools ++ [t] }, rfl, ?_, ?_⟩
    · simp [givenOut]
    · simp [givenOut, List.zipIdx_append]
  note _ _ := rfl

def styles : Transformer := ⟨1, .custom "Styles", "css", "1", ["text/less", "text/scss"]⟩

def styleTypes : List (String × Transformer) :=
  [("text/scss", styles), ("text/plain", .passthrough 2), ("text/less", styles)]

def idleWorld : World (List Transformer) where
  volume := ⟨[], [], 0⟩
  environment := []
  desks := []
  journal := []
  now := ⟨2024, 2, 29, 12, 0, 0, 0, none⟩
  tools := []

/-- Three media types and a fallback with two instances, and the same with a third one whose name is taken. -/
theorem build_instances_styles :
    (∃ r w' made, (build numbered styleTypes (some (.passthrough 2))).run idleWorld = (.ok r, w') ∧
      givenOut w' = made ∧ made.map (·.1) = [styles, .passthrough 2] ∧
      AnswersFor styleTypes (some (.passthrough 2)) r) ∧
    ∃ issue w', (build numbered styleTypes (some (.passthrough 3))).run idleWorld =
      (.error (.configuration issue), w') := by
  have hkeys : (Keyed.keys styleTypes).Nodup := by decide
  constructor
  · have hinstances : AreInstances (registered styleTypes (some (.passthrough 2))) := by
      unfold AreInstances
      decide
    have hnone : ¬ Clash (registered styleTypes (some (.passthrough 2))) := by
      unfold Clash
      decide
    obtain ⟨r, w', made, hrun, hcalls, hmade, hanswers⟩ :=
      (build_instances numbered_makesAnew hkeys hinstances idleWorld).2 hnone
    exact ⟨r, w', made, hrun, hcalls, hmade.trans (by decide), hanswers⟩
  · have hinstances : AreInstances (registered styleTypes (some (.passthrough 3))) := by
      unfold AreInstances
      decide
    have hclash : Clash (registered styleTypes (some (.passthrough 3))) := by
      unfold Clash
      decide
    exact (build_instances numbered_makesAnew hkeys hinstances idleWorld).1.mpr hclash

end Registry
end AssetCompiler
