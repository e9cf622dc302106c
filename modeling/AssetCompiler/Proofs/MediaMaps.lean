import AssetCompiler.MediaMap
import AssetCompiler.Proofs.RebuiltHosts
import AssetCompiler.Proofs.RegisteredInstances

/-!
Maps of media types. The last transformer that serves a media type has it, whatever earlier ones ask for, and
plain text that nobody serves is left to the passthrough. Transformers of one name that serve the same media
types push each other out everywhere, so the registry of such a map has no clash.
-/
namespace AssetCompiler

theorem Keyed.find?_foldl_set_last {κ ν : Type} [BEq κ] [LawfulBEq κ] (k : κ) (pairs t : Keyed κ ν) :
    find? k (pairs.foldl (fun t e => set e.1 e.2 t) t) =
      ((pairs.reverse.find? fun e => e.1 == k).map (·.2)).or (find? k t) := by
  classical
  induction pairs generalizing t with
  | nil => rfl
  | cons e rest ih =>
    rw [List.foldl_cons, ih, find?_set, List.reverse_cons, List.find?_append]
    cases hrest : rest.reverse.find? fun e => e.1 == k with
    | some e' => rfl
    | none =>
      by_cases hk : k = e.1
      · simp [hk]
      · simp [hk, Ne.symm hk]

namespace MediaMap

variable {σ : Type} {ts : List Transformer}

/-- Two searches whose finds satisfy each other's tests found the same. -/
theorem eq_of_find?_eq_some {α : Type} {p q : α → Bool} {a b : α} {l : List α}
    (ha : l.find? p = some a) (hb : l.find? q = some b) (hq : q a = true) (hp : p b = true) :
    a = b := by
  induction l with
  | nil => cases ha
  | cons x l ih =>
    by_cases hpx : p x = true
    · rw [List.find?_cons_of_pos hpx] at ha
      cases ha
      rw [List.find?_cons_of_pos hq] at hb
      exact Option.some.inj hb
    · by_cases hqx : q x = true
      · rw [List.find?_cons_of_pos hqx] at hb
        cases hb
        exact absurd hp hpx
      · rw [List.find?_cons_of_neg hpx] at ha
        rw [List.find?_cons_of_neg hqx] at hb
        exact ih ha hb

/-- The last transformer that serves a media type. -/
def lastServing (ts : List Transformer) (mediaType : String) : Option Transformer :=
  ts.reverse.find? fun t => t.inputs.contains mediaType

theorem lastServing_eq_some {m : String} {t : Transformer} : lastServing ts m = some t ↔
    m ∈ t.inputs ∧ ∃ before after, ts = before ++ t :: after ∧ ∀ u ∈ after, m ∉ u.inputs := by
  unfold lastServing
  rw [List.find?_eq_some_iff_append, List.contains_iff_mem]
  refine and_congr_right fun _ => ?_
  constructor
  · rintro ⟨after, before, hsplit, hafter⟩
    refine ⟨before.reverse, after.reverse, ?_, ?_⟩
    · rw [← List.reverse_reverse ts, hsplit]
      simp
    · intro u hu
      simpa using hafter u (List.mem_reverse.mp hu)
  · rintro ⟨before, after, rfl, hafter⟩
    refine ⟨after.reverse, before.reverse, by simp, ?_⟩
    intro u hu
    simpa using hafter u (List.mem_reverse.mp hu)

theorem lastServing_eq_none {m : String} : lastServing ts m = none ↔ ∀ t ∈ ts, m ∉ t.inputs := by
  simp [lastServing]

/-- Of two transformers that are last for a media type each, and serve each other's, none comes later. -/
theorem lastServing_unique {m m' : String} {t u : Transformer} (ht : lastServing ts m = some t)
    (hu : lastServing ts m' = some u) (hm' : m' ∈ t.inputs) (hm : m ∈ u.inputs) : t = u :=
  eq_of_find?_eq_some ht hu (List.contains_iff_mem.mpr hm') (List.contains_iff_mem.mpr hm)

/-! Building -/

theorem run_assign (t : Transformer) (map : Keyed String Transformer) (m : String) (w : World σ) :
    ∃ journal, (assign t map m).run w = (.ok (map.set m t), { w with journal := journal }) := by
  unfold assign
  cases map.find? m with
  | none => exact ⟨w.journal, rfl⟩
  | some older =>
    by_cases hsame : older.handle = t.handle
    · exact ⟨w.journal, by simp [hsame]⟩
    · refine ⟨⟨Log.Context.none, .replaces m t.name older.name⟩ :: w.journal, ?_⟩
      simp only [ne_eq, hsame, not_false_eq_true, if_true]
      rfl

theorem run_assignAll (map pairs : Keyed String Transformer) (w : World σ) :
    ∃ journal, (assignAll map pairs).run w =
      (.ok (pairs.foldl (fun t e => t.set e.1 e.2) map), { w with journal := journal }) := by
  induction pairs generalizing map w with
  | nil => exact ⟨w.journal, rfl⟩
  | cons e rest ih =>
    obtain ⟨journal, hfirst⟩ := run_assign e.2 map e.1 w
    obtain ⟨journal', hrest⟩ := ih (map.set e.1 e.2) { w with journal := journal }
    exact ⟨journal', (Action.run_bind_ok hfirst).trans hrest⟩

theorem find?_served (ts : List Transformer) (m : String) :
    ((served ts).reverse.find? fun e => e.1 == m).map (·.2) = lastServing ts m := by
  induction ts with
  | nil => rfl
  | cons t rest ih =>
    have hsplit : served (t :: rest) = (t.inputs.map fun m => (m, t)) ++ served rest := rfl
    have hfirst : (((t.inputs.map fun m => (m, t)).reverse.find? fun e => e.1 == m).map (·.2)) =
        [t].find? fun t => t.inputs.contains m := by
      rw [← List.map_reverse, List.find?_map, Option.map_map]
      cases hfound : t.inputs.reverse.find? ((fun e => e.1 == m) ∘ fun m => (m, t)) with
      | some m' =>
        have hm' := List.find?_some hfound
        have hmem := List.mem_reverse.mp (List.mem_of_find?_eq_some hfound)
        simp only [Function.comp_apply, beq_iff_eq] at hm'
        subst hm'
        simp [hmem]
      | none =>
        have hnot : m ∉ t.inputs := by
          intro hmem
          have hnone := List.find?_eq_none.mp hfound m (List.mem_reverse.mpr hmem)
          exact hnone (by simp)
        simp [hnot]
    rw [hsplit, List.reverse_append, List.find?_append, Option.map_or, ih, hfirst, lastServing,
      lastServing, List.reverse_cons, List.find?_append]

/-- The map has the last transformer for each media type, and the passthrough for plain text that none
serves. -/
theorem run_build (ts : List Transformer) (passthrough : Transformer) (w : World σ) :
    ∃ map journal, (build ts true passthrough).run w = (.ok map, { w with journal := journal }) ∧
      map.keys.Nodup ∧
      ∀ m, map.find? m = (lastServing ts m).or
        (if m = MediaType.plainText then some passthrough else none) := by
  obtain ⟨journal, hrun⟩ := run_assignAll [] (served ts) w
  have hkeys := Keyed.nodup_keys_foldl_set (served ts) [] List.nodup_nil
  have hfind : ∀ m, Keyed.find? m ((served ts).foldl (fun t e => t.set e.1 e.2) []) =
      lastServing ts m := by
    intro m
    rw [Keyed.find?_foldl_set_last, find?_served]
    cases lastServing ts m <;> rfl
  generalize (served ts).foldl (fun t e => Keyed.set e.1 e.2 t) [] = map at hrun hkeys hfind
  unfold build
  rw [Action.run_bind_ok hrun]
  cases hplain : map.find? MediaType.plainText with
  | none =>
    refine ⟨map.set MediaType.plainText passthrough, journal, by simp, ?_, ?_⟩
    · exact Keyed.nodup_keys_set _ hkeys
    · intro m
      rw [Keyed.find?_set, hfind]
      split
      · rename_i hm
        rw [hm, ← hfind, hplain]
        rfl
      · rw [Option.or_none]
  | some t =>
    refine ⟨map, journal, by simp, hkeys, ?_⟩
    intro m
    rw [hfind]
    split
    · rename_i hm
      rw [hm, ← hfind, hplain]
      rfl
    · rw [Option.or_none]

/-! Registries of such maps -/

/-- Transformers of one name serve the same media types, and one that has the passthrough's name serves plain
text. -/
structure AreExchangeable (ts : List Transformer) : Prop where
  inputs : ∀ t ∈ ts, ∀ u ∈ ts, t.name = u.name → ∀ m, m ∈ t.inputs ↔ m ∈ u.inputs
  passthrough : ∀ t ∈ ts, t.name = "passthrough" → MediaType.plainText ∈ t.inputs

theorem mem_of_lastServing {m : String} {t : Transformer} (h : lastServing ts m = some t) : t ∈ ts := by
  obtain ⟨-, before, after, rfl, -⟩ := lastServing_eq_some.mp h
  simp

/-- No transformer that another one of its name replaced is left in the map. -/
theorem AreExchangeable.isConsistent (h : AreExchangeable ts) {n : Nat}
    {map : Keyed String Transformer} (hkeys : map.keys.Nodup)
    (hfind : ∀ m, map.find? m = (lastServing ts m).or
      (if m = MediaType.plainText then some (.passthrough n) else none)) :
    Registry.IsConsistent (Registry.registered map none) := by
  have hcases : ∀ t ∈ Registry.registered map none, (∃ m, lastServing ts m = some t) ∨
      (t = .passthrough n ∧ ∀ u ∈ ts, MediaType.plainText ∉ u.inputs) := by
    intro t ht
    simp only [Registry.registered, Option.toList_none, List.append_nil, List.mem_map] at ht
    obtain ⟨⟨m, t⟩, hmem, rfl⟩ := ht
    have hfound := Keyed.find?_of_mem hkeys hmem
    rw [hfind] at hfound
    rcases Option.or_eq_some_iff.mp hfound with hlast | ⟨hnone, hplain⟩
    · exact .inl ⟨m, hlast⟩
    · split at hplain
      · rename_i hm
        exact .inr ⟨(Option.some.inj hplain).symm, hm ▸ lastServing_eq_none.mp hnone⟩
      · cases hplain
  have hapart : ∀ t m, lastServing ts m = some t → (∀ u ∈ ts, MediaType.plainText ∉ u.inputs) →
      t.name ≠ "passthrough" := by
    intro t m hlast hnobody hname
    have ht := mem_of_lastServing hlast
    exact hnobody t ht (h.passthrough t ht hname)
  intro t ht u hu hname
  rcases hcases t ht with ⟨m, hlast⟩ | ⟨rfl, hnobody⟩
  · rcases hcases u hu with ⟨m', hlast'⟩ | ⟨rfl, hnobody⟩
    · have hsame := h.inputs t (mem_of_lastServing hlast) u (mem_of_lastServing hlast') hname
      have hm := (lastServing_eq_some.mp hlast).1
      have hm' := (lastServing_eq_some.mp hlast').1
      exact lastServing_unique hlast hlast' ((hsame m').mpr hm') ((hsame m).mp hm)
    · exact absurd hname (hapart t m hlast hnobody)
  · rcases hcases u hu with ⟨m', hlast'⟩ | ⟨rfl, -⟩
    · exact absurd hname.symm (hapart u m' hlast' hnobody)
    · rfl

/-- A map of exchangeable transformers has the last one for each media type, and the passthrough exactly where
nobody serves plain text. A registry of it fails only where one of its caches fails, and a host of it never
for its configuration. -/
theorem build_exchangeable (h : AreExchangeable ts) (n : Nat) (w : World σ) :
    ∃ map w', (build ts true (.passthrough n)).run w = (.ok map, w') ∧ map.keys.Nodup ∧
      (∀ m t, map.find? m = some t ↔
        (m ∈ t.inputs ∧ ∃ before after, ts = before ++ t :: after ∧ ∀ u ∈ after, m ∉ u.inputs) ∨
        (m = MediaType.plainText ∧ t = .passthrough n ∧ ∀ u ∈ ts, m ∉ u.inputs)) ∧
      (∀ m, m ∈ map.keys ↔ m = MediaType.plainText ∨ ∃ t ∈ ts, m ∈ t.inputs) ∧
      (∀ (κ : Type) (make : Transformer → Work σ κ) v e v',
        (Registry.build make map none).run v = (.error e, v') →
          ∃ t ∈ map.map (·.2), ∃ u u', (make t).run u = (.error e, u')) ∧
      ∀ root desk mode settings v issue v',
        (Host.build root map desk mode none settings).run v ≠
          ((.error (.configuration issue), v') : Except Failure Host × World σ) := by
  obtain ⟨map, journal, hrun, hkeys, hfind⟩ := run_build ts (.passthrough n) w
  have hconsistent := h.isConsistent hkeys hfind
  have hregistered : Registry.registered map none = map.map (·.2) := by simp [Registry.registered]
  refine ⟨map, _, hrun, hkeys, ?_, ?_, ?_, ?_⟩
  · intro m t
    rw [hfind, Option.or_eq_some_iff, lastServing_eq_some, lastServing_eq_none]
    refine or_congr_right ?_
    constructor
    · rintro ⟨hnobody, hplain⟩
      split at hplain
      · rename_i hm
        exact ⟨hm, (Option.some.inj hplain).symm, hnobody⟩
      · cases hplain
    · rintro ⟨rfl, rfl, hnobody⟩
      exact ⟨hnobody, if_pos rfl⟩
  · intro m
    rw [← not_iff_not, ← Keyed.find?_eq_none_iff, hfind, Option.or_eq_none_iff, lastServing_eq_none]
    simp only [ite_eq_right_iff, reduceCtorEq, imp_false, not_or, not_exists, not_and]
    exact and_comm
  · intro κ make v e v' hfails
    have hends := Registry.ends_build make (fun _ => True) hconsistent (fun _ _ _ _ _ _ _ => trivial)
      (fun _ _ _ => trivial) (w := v) trivial
    rw [hfails] at hends
    obtain ⟨t, ht, u, u', -, hmake⟩ := hends
    exact ⟨t, hregistered ▸ ht, u, u', hmake⟩
  · intro root desk mode settings v issue v' hfails
    exact (Host.isPlain_of_build hconsistent hfails).configuration issue rfl

def sheets (handle : Nat) (version : String) : Transformer :=
  ⟨handle, .custom "Sheets", "css", version, ["text/less", "text/scss"]⟩

/-- A class that is given twice, and a passthrough of one's own. -/
def givenTwice : List Transformer := [sheets 1 "1", .passthrough 2, sheets 3 "2", .passthrough 4]

theorem build_exchangeable_twice : AreExchangeable givenTwice ∧
    ∃ map w', (build givenTwice true (.passthrough 0)).run Registry.idleWorld = (.ok map, w') ∧
      map.find? "text/less" = some (sheets 3 "2") ∧
      map.find? MediaType.plainText = some (.passthrough 4) ∧ map.find? "text/css" = none := by
  have hexchangeable : AreExchangeable givenTwice := by
    refine ⟨?_, by decide⟩
    intro t ht u hu hname m
    have hinputs : t.inputs = u.inputs :=
      (by decide : ∀ t ∈ givenTwice, ∀ u ∈ givenTwice, t.name = u.name → t.inputs = u.inputs)
        t ht u hu hname
    rw [hinputs]
  obtain ⟨map, w', hrun, -, hfind, hkeys, -⟩ :=
    build_exchangeable hexchangeable 0 Registry.idleWorld
  refine ⟨hexchangeable, map, w', hrun, (hfind _ _).mpr (.inl ⟨by decide, ?_⟩),
    (hfind _ _).mpr (.inl ⟨by decide, ?_⟩), Keyed.find?_eq_none_iff.mpr fun hmem => ?_⟩
  · exact ⟨[sheets 1 "1", .passthrough 2], [.passthrough 4], rfl, by decide⟩
  · exact ⟨[sheets 1 "1", .passthrough 2, sheets 3 "2"], [], rfl, by decide⟩
  · rcases (hkeys _).mp hmem with hplain | hserved
    · exact absurd hplain (by decide)
    · exact absurd hserved (by decide)

end MediaMap
end AssetCompiler
