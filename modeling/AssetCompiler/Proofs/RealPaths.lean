import AssetCompiler.Fingerprinting
import AssetCompiler.Proofs.Stores

/-!
Real paths. Every path that is read from a text has proper components, and so has the real path behind
it; a real path is told by its text.
-/
namespace AssetCompiler

/-- Component names that a path can have. -/
def AreProper (names : List String) : Prop := ∀ name ∈ names, name ≠ "" ∧ '/' ∉ name.toList

theorem AreProper.append {names names' : List String} (h : AreProper names)
    (h' : AreProper names') : AreProper (names ++ names') := by
  intro name hname
  rcases List.mem_append.mp hname with hmem | hmem
  · exact h name hmem
  · exact h' name hmem

theorem AreProper.dropLast {names : List String} (h : AreProper names) :
    AreProper names.dropLast :=
  fun name hname => h name ((List.dropLast_sublist names).subset hname)

namespace Path

theorem pieces_cons (c : Char) (s : List Char) : pieces (c :: s) =
    if c = '/' then [] :: pieces s else match pieces s with
      | [] => [[c]]
      | p :: rest => (c :: p) :: rest := rfl

theorem slash_not_mem_pieces (s : List Char) : ∀ piece ∈ pieces s, '/' ∉ piece := by
  induction s with
  | nil => simp [pieces]
  | cons c s ih =>
    rw [pieces_cons]
    by_cases hc : c = '/'
    · rw [if_pos hc]
      intro piece hpiece
      rcases List.mem_cons.mp hpiece with rfl | hrest
      · exact List.not_mem_nil
      · exact ih piece hrest
    · rw [if_neg hc]
      cases hpieces : pieces s with
      | nil => simpa using Ne.symm hc
      | cons p rest =>
        rw [hpieces] at ih
        intro piece hpiece
        rcases List.mem_cons.mp hpiece with rfl | hrest
        · rw [List.mem_cons, not_or]
          exact ⟨Ne.symm hc, ih p (List.mem_cons_self ..)⟩
        · exact ih piece (List.mem_cons_of_mem _ hrest)

/-- A piece ends at the first slash. -/
theorem pieces_append {a : List Char} (h : '/' ∉ a) (b : List Char) :
    pieces (a ++ '/' :: b) = a :: pieces b := by
  induction a with
  | nil => rfl
  | cons c a ih =>
    rw [List.mem_cons, not_or] at h
    rw [List.cons_append, pieces_cons, if_neg (Ne.symm h.1), ih h.2]

theorem areProper_ofText (s : String) : AreProper (ofText s).parts := by
  intro name hname
  change name ∈ List.filter _ _ at hname
  rw [List.mem_filter] at hname
  obtain ⟨hpiece, hkept⟩ := hname
  obtain ⟨piece, hmem, rfl⟩ := List.mem_map.mp hpiece
  refine ⟨?_, ?_⟩
  · intro hempty
    rw [hempty] at hkept
    cases hkept
  · rw [String.toList_ofList]
    exact slash_not_mem_pieces _ piece hmem

/-- Components between slashes are the pieces of the whole. -/
theorem pieces_intercalate {parts : List String} (h : AreProper parts) (hne : parts ≠ []) :
    pieces ("/".intercalate parts).toList = parts.map String.toList := by
  induction parts with
  | nil => exact absurd rfl hne
  | cons a rest ih =>
    have ha := (h a (List.mem_cons_self ..)).2
    cases rest with
    | nil =>
      rw [String.intercalate_singleton, pieces_of_not_mem ha]
      rfl
    | cons b rest =>
      have hrest := ih (fun name hname => h name (List.mem_cons_of_mem _ hname)) (by simp)
      rw [String.intercalate_cons_cons, String.toList_append, String.toList_append,
        List.append_assoc]
      have hslash : "/".toList ++ ("/".intercalate (b :: rest)).toList =
          '/' :: ("/".intercalate (b :: rest)).toList := rfl
      rw [hslash, pieces_append ha, hrest]
      rfl

theorem intercalate_ne_empty {parts : List String} (h : AreProper parts) (hne : parts ≠ []) :
    "/".intercalate parts ≠ "" := by
  intro hempty
  have hpieces := pieces_intercalate h hne
  rw [hempty] at hpieces
  cases parts with
  | nil => exact hne rfl
  | cons a rest =>
    have ha : [] = a.toList := (List.cons.inj hpieces).1
    exact (h a (List.mem_cons_self ..)).1 (String.toList_inj.mp ha.symm)

/-- An absolute path is told by its text. -/
theorem text_injective {parts parts' : List String} (h : AreProper parts) (h' : AreProper parts')
    (htext : (⟨"/", parts⟩ : Path).text = (⟨"/", parts'⟩ : Path).text) : parts = parts' := by
  have hroot : ∀ names : List String,
      (⟨"/", names⟩ : Path).text = "/" ++ "/".intercalate names := fun _ => rfl
  rw [hroot, hroot, String.append_right_inj] at htext
  by_cases hne : parts = []
  · by_cases hne' : parts' = []
    · rw [hne, hne']
    · rw [hne, String.intercalate_nil] at htext
      exact absurd htext.symm (intercalate_ne_empty h' hne')
  · by_cases hne' : parts' = []
    · rw [hne', String.intercalate_nil] at htext
      exact absurd htext (intercalate_ne_empty h hne)
    · have hpieces := pieces_intercalate h hne
      rw [htext, pieces_intercalate h' hne'] at hpieces
      exact (List.map_injective_iff.mpr fun _ _ => String.toList_inj.mp) hpieces.symm

end Path

namespace Volume

/-- The names that a search for a real path has still to follow. -/
def Step.AreProper (steps : List Step) : Prop :=
  ∀ name, Step.name name ∈ steps → name ≠ "" ∧ '/' ∉ name.toList

theorem Step.areProper_names {steps : List Step} (h : Step.AreProper steps) :
    AssetCompiler.AreProper (Step.names steps) := by
  intro name hname
  unfold Step.names at hname
  obtain ⟨step, hstep, heq⟩ := List.mem_filterMap.mp hname
  cases step with
  | name n =>
    cases heq
    exact h name hstep
  | finish l => cases heq

theorem Step.areProper_cons {step : Step} {steps : List Step} (h : Step.AreProper (step :: steps)) :
    Step.AreProper steps :=
  fun name hname => h name (List.mem_cons_of_mem _ hname)

theorem Step.areProper_map {names : List String} (h : AssetCompiler.AreProper names) :
    Step.AreProper (names.map .name) := by
  intro name hname
  obtain ⟨n, hn, heq⟩ := List.mem_map.mp hname
  cases heq
  exact h name hn

variable {v : Volume}

theorem areProper_expandWith (atLink : Location → List Step → Option Location)
    (hlink : ∀ stand steps l, AreProper stand → Step.AreProper steps →
      atLink stand steps = some l → AreProper l) (stand : Location) (steps : List Step)
    (hstand : AreProper stand) (hsteps : Step.AreProper steps) :
    AreProper (v.expandWith atLink stand steps) := by
  have hchild : ∀ {stand : Location} {name : String} {rest : List Step}, AreProper stand →
      Step.AreProper (.name name :: rest) → AreProper (stand ++ [name]) := by
    intro stand name rest hstand hsteps
    refine hstand.append ?_
    intro n hn
    rw [List.mem_singleton] at hn
    subst hn
    exact hsteps n (List.mem_cons_self ..)
  have hstops : ∀ {stand : Location} {name : String} {rest : List Step}, AreProper stand →
      Step.AreProper (.name name :: rest) → AreProper (stand ++ name :: Step.names rest) := by
    intro stand name rest hstand hsteps
    rw [List.append_cons]
    exact (hchild hstand hsteps).append (Step.areProper_names (Step.areProper_cons hsteps))
  fun_induction expandWith v atLink stand steps with
  | case1 stand => exact hstand
  | case2 stand link rest ih => exact ih hstand (Step.areProper_cons hsteps)
  | case3 stand rest ih => exact ih hstand.dropLast (Step.areProper_cons hsteps)
  | case4 stand name rest hname target hnode hmet => exact hstops hstand hsteps
  | case5 stand name rest hname target hnode hmet t =>
    cases hgoes : atLink (if t.isAbsolute then [] else stand)
        (t.parts.map .name ++ .finish (stand ++ [name]) :: rest) with
    | none => exact hstops hstand hsteps
    | some l =>
      refine hlink _ _ l ?_ ?_ hgoes
      · split
        · exact nofun
        · exact hstand
      · intro n hn
        rcases List.mem_append.mp hn with hmem | hmem
        · exact Step.areProper_map (Path.areProper_ofText target) n hmem
        · exact Step.areProper_cons hsteps n ((List.mem_cons.mp hmem).resolve_left nofun)
  | case6 stand name rest hname hnode ih =>
    exact ih (hchild hstand hsteps) (Step.areProper_cons hsteps)

theorem areProper_expand (links : Nat) (stand : Location) (steps : List Step)
    (hstand : AreProper stand) (hsteps : Step.AreProper steps) :
    AreProper (v.expand links stand steps) := by
  induction links generalizing stand steps with
  | zero =>
    refine areProper_expandWith _ ?_ stand steps hstand hsteps
    intro stand steps l hstand hsteps heq
    cases heq
  | succ links ih =>
    refine areProper_expandWith _ ?_ stand steps hstand hsteps
    intro stand steps l hstand hsteps heq
    cases heq
    exact ih stand steps hstand hsteps

/-- A real path begins at the root and has proper components. -/
theorem realPath_ok {p real : Path} (hhere : AreProper v.here) (hp : AreProper p.parts)
    (h : v.realPath p = .ok real) : real.root = "/" ∧ AreProper real.parts := by
  unfold realPath at h
  split at h
  · cases h
  · have hstart : AreProper (v.start p) := by
      unfold start
      split
      · exact nofun
      · exact hhere
    have hreal := areProper_expand (v := v) linkLimit (v.start p) (p.parts.map .name) hstart
      (Step.areProper_map hp)
    simp only at h
    split at h
    · cases h
    · cases h
      exact ⟨rfl, hreal⟩

/-- Real paths with one text are one path. -/
theorem realPath_unique {v' : Volume} {p p' real real' : Path} (hhere : AreProper v.here)
    (hhere' : AreProper v'.here) (hp : AreProper p.parts) (hp' : AreProper p'.parts)
    (h : v.realPath p = .ok real) (h' : v'.realPath p' = .ok real')
    (htext : real.text = real'.text) : real = real' := by
  obtain ⟨hroot, hparts⟩ := realPath_ok hhere hp h
  obtain ⟨hroot', hparts'⟩ := realPath_ok hhere' hp' h'
  obtain ⟨root, parts⟩ := real
  obtain ⟨root', parts'⟩ := real'
  cases hroot
  cases hroot'
  have heq : parts = parts' := Path.text_injective hparts hparts' htext
  rw [heq]

end Volume
end AssetCompiler
