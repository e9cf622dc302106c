import AssetCompiler.Proofs.Compilations
import AssetCompiler.Proofs.FailedReductions

/-!
Failures that are no compile failures. Whatever a transformer raises or returns, the host reports it with
the file and the transformer, except for one thing: what it lists as dependencies is only gone through, and
checked with the result at the end. If this is no list of texts, the compilation ends with the plain failure
of the going through or of the check.
-/
namespace AssetCompiler

/-- A crew that fails with exceptions only, not with the signals that stop a process. -/
def Crew.RaisesNoSignal {σ : Type} (crew : Crew σ) : Prop :=
  ∀ c s e, (crew.respond c s).1.outcome = .error e → e.isSignal = false

theorem Crew.RaisesNoSignal.answer {σ : Type} {crew : Crew σ} (h : crew.RaisesNoSignal) {c : Call}
    {s : σ} {e : Failure} (herror : (crew.answer c s).1.outcome = .error e) : e.isSignal = false := by
  unfold Crew.answer at herror
  split at herror
  · rename_i outcome hown
    unfold Call.ownAnswer? at hown
    split at hown <;> cases hown <;> cases herror
    rfl
  · exact h c s e herror

namespace Reduction

variable {σ : Type}

/-- The dependencies of a result, which must be texts. -/
def textsOf (items : List Json) : Reading (List String) :=
  (Schema.list Schema.text (.arr items)).within (.field "dependent_files")

/-- An answer about dependencies that is no list of texts, and the failure that it leads to. -/
inductive Exchange.Mislists (x : Exchange) : Failure → Prop
  | notItems {v : Json} {e : Failure} (asks : x.call.question = .dependencies)
      (answers : x.reply.outcome = .ok v) (unlisted : itemsOf v = .error e) : Mislists x e
  | notTexts {v : Json} {items : List Json} {errors : List FieldError}
      (asks : x.call.question = .dependencies) (answers : x.reply.outcome = .ok v)
      (listed : itemsOf v = .ok items) (wrong : textsOf items = .error errors) :
      Mislists x (.invalid Artifact.modelName errors)

/-- Why the passes of a reduction fail. -/
inductive Cause (file : String) (limit : Int) (v : Volume) (i : Fingerprint) (xs : List Exchange) :
    Failure → Prop
  | blamed {x : Exchange} {e : Failure} (among : x ∈ xs) (fails : x.failure? = some e) :
      Cause file limit v i xs (blame file x.call.transformer e)
  | mislisted {x : Exchange} {e : Failure} (among : x ∈ xs) (mislists : x.Mislists e) :
      Cause file limit v i xs e
  | stuck (type : Option String) : Cause file limit v i xs (.unhandledType file type)
  | exhausted (types : List (Option String)) : Cause file limit v i xs (.passLimit file types limit)
  | unread {e : Failure} (none : i.source = none)
      (unreadable : v.readTextLossy (Path.ofText file) = .error e) : Cause file limit v i xs e

/-- What the answers of transformers mean for an outcome; `past` are the exchanges before. -/
structure Accounted (file : String) (limit : Int) (v : Volume) (i : Fingerprint)
    (past : List Exchange) (c : Course σ) : Prop where
  blamed : ∀ x ∈ c.exchanges, ∀ e, x.failure? = some e →
    c.outcome = .error (blame file x.call.transformer e)
  unlisted : ∀ x ∈ c.exchanges, ∀ v e, x.call.question = .dependencies → x.reply.outcome = .ok v →
    itemsOf v = .error e → c.outcome = .error e
  causes : ∀ e, c.outcome = .error e → Cause file limit v i (past ++ c.exchanges) e

/-- Nothing has been listed so far but texts, or an earlier answer is to blame. -/
def Excused (past : List Exchange) (items : List Json) : Prop :=
  ∀ errors, textsOf items = .error errors →
    ∃ x ∈ past, x.Mislists (.invalid Artifact.modelName errors)

theorem excused_nil (past : List Exchange) : Excused past [] := by
  intro errors h
  cases h

theorem Excused.append {past : List Exchange} {items : List Json} (h : Excused past items)
    (xs : List Exchange) : Excused (past ++ xs) items := by
  intro errors herrors
  obtain ⟨x, hx, hmislists⟩ := h errors herrors
  exact ⟨x, List.mem_append_left xs hx, hmislists⟩

section Courses

variable {crew : Crew σ} {file : String} {limit : Int} {v : Volume} {i : Fingerprint}
variable {past : List Exchange} {s : σ} {f : Frame} {q : Question} {scratch : List (String × Json)}

/-- A reduction that ends at once. -/
theorem Accounted.of_done {r : Except Failure Artifact}
    (h : ∀ e, r = .error e → Cause file limit v i past e) :
    Accounted file limit v i past (course crew v (.done r) s) where
  blamed := List.forall_mem_nil _
  unlisted := List.forall_mem_nil _
  causes := by
    intro e he
    rw [course, List.append_nil]
    exact h e he

theorem Accounted.finish {items : List Json} (h : Excused past items) (code type : String) :
    Accounted file limit v i past ((finish code type items).course crew v s) := by
  refine Accounted.of_done fun e he => ?_
  cases htexts : textsOf items with
  | ok ds =>
    unfold textsOf at htexts
    rw [htexts] at he
    cases he
  | error errors =>
    obtain ⟨x, hx, hmislists⟩ := h errors htexts
    unfold textsOf at htexts
    rw [htexts] at he
    cases he
    exact .mislisted hx hmislists

/-- An exchange that is no reason to stop goes before a course. -/
theorem Accounted.after {x : Exchange} {c : Course σ}
    (h : Accounted file limit v i (past ++ [x]) c) (hquiet : x.failure? = none)
    (hlisted : ∀ value e, x.call.question = .dependencies → x.reply.outcome = .ok value →
      itemsOf value ≠ .error e) : Accounted file limit v i past (c.after [x]) where
  blamed := by
    rw [Course.after_exchanges, Course.after_outcome]
    refine List.forall_mem_append.mpr ⟨List.forall_mem_singleton.mpr fun e he => ?_, h.blamed⟩
    cases hquiet.symm.trans he
  unlisted := by
    rw [Course.after_exchanges, Course.after_outcome]
    refine List.forall_mem_append.mpr ⟨List.forall_mem_singleton.mpr ?_, h.unlisted⟩
    intro value e hasks hanswers hno
    exact absurd hno (hlisted value e hasks hanswers)
  causes := by
    rw [Course.after_exchanges, Course.after_outcome, ← List.append_assoc]
    exact h.causes

/-- An exchange that is the reason to stop. -/
theorem Accounted.of_last {x : Exchange} {e : Failure} {s : σ}
    (hfails : ∀ e', x.failure? = some e' → e = blame file x.call.transformer e')
    (hunlisted : ∀ value e', x.call.question = .dependencies → x.reply.outcome = .ok value →
      itemsOf value = .error e' → e = e')
    (hcause : Cause file limit v i (past ++ [x]) e) :
    Accounted (σ := σ) file limit v i past ⟨[x], .error e, s⟩ where
  blamed := List.forall_mem_singleton.mpr fun e' he' => by rw [hfails e' he']
  unlisted := List.forall_mem_singleton.mpr fun value e' hasks hanswers hno => by
    rw [hunlisted value e' hasks hanswers hno]
  causes := by
    intro e' he'
    cases he'
    exact hcause

/-- A question whose answer is a failure ends the passes. -/
theorem Accounted.of_error {e : Failure} {next : Json → List (String × Json) → Reduction}
    (hfile : f.file = file) (h : (crew.answer (f.call q scratch) s).1.outcome = .error e) :
    Accounted file limit v i past ((f.asking q scratch next).course crew v s) := by
  rw [course_asking, h]
  have hfails := Exchange.failure?_of_error
    (x := ⟨f.call q scratch, (crew.answer (f.call q scratch) s).1⟩) h
  refine Accounted.of_last (fun e' he' => ?_) (fun value e' _ hanswers _ => ?_) ?_
  · cases hfails.symm.trans he'
    rw [← hfile]
    rfl
  · cases h.symm.trans hanswers
  · rw [hfile]
    exact .blamed (List.mem_append_right _ (List.mem_singleton_self _)) hfails

theorem Accounted.withOutput {rest : Output → Reduction} (hfile : f.file = file)
    (h : ∀ o past' s', past <+: past' → Accounted file limit v i past' ((rest o).course crew v s')) :
    Accounted file limit v i past ((f.withOutput scratch rest).course crew v s) := by
  unfold Frame.withOutput
  cases houtcome : (crew.answer (f.call .transform scratch) s).1.outcome with
  | error e => exact Accounted.of_error hfile houtcome
  | ok value =>
    have hfailure := Exchange.failure?_of_transform
      (x := ⟨f.call .transform scratch, (crew.answer (f.call .transform scratch) s).1⟩) rfl houtcome
    rw [course_asking, houtcome]
    cases hread : (Output.read value).checked Output.modelName with
    | ok o =>
      rw [hread] at hfailure
      simp only [hread]
      refine (h o _ _ (List.prefix_append past _)).after hfailure ?_
      intro value' e hasks
      cases hasks
    | error e =>
      rw [hread] at hfailure
      simp only [hread]
      rw [course]
      refine Accounted.of_last (fun e' he' => ?_) (fun value' e' hasks => ?_) ?_
      · cases hfailure.symm.trans he'
        rw [← hfile]
        rfl
      · cases hasks
      · rw [hfile]
        exact .blamed (List.mem_append_right _ (List.mem_singleton_self _)) hfailure

theorem Accounted.withDependencies {known : List Json} (hknown : Excused past known)
    {rest : List Json → List (String × Json) → Reduction} (hfile : f.file = file)
    (h : ∀ items scratch' past' s', past <+: past' → Excused past' items →
      Accounted file limit v i past' ((rest items scratch').course crew v s')) :
    Accounted file limit v i past ((f.withDependencies known scratch rest).course crew v s) := by
  unfold Frame.withDependencies
  split
  · cases houtcome : (crew.answer (f.call .dependencies scratch) s).1.outcome with
    | error e => exact Accounted.of_error hfile houtcome
    | ok value =>
      have hquiet := Exchange.failure?_of_ok (v := value)
        (x := ⟨f.call .dependencies scratch, (crew.answer (f.call .dependencies scratch) s).1⟩)
        houtcome nofun
      rw [course_asking, houtcome]
      cases hitems : itemsOf value with
      | ok items =>
        simp only [hitems]
        refine (h items _ _ _ (List.prefix_append past _) fun errors herrors => ?_).after hquiet ?_
        · exact ⟨_, List.mem_append_right _ (List.mem_singleton_self _),
            .notTexts rfl houtcome hitems herrors⟩
        · intro value' e _ hanswers hno
          cases houtcome.symm.trans hanswers
          cases hitems.symm.trans hno
      | error e =>
        simp only [hitems]
        rw [course]
        refine Accounted.of_last (fun e' he' => ?_) (fun value' e' _ hanswers hno => ?_) ?_
        · cases hquiet.symm.trans he'
        · cases houtcome.symm.trans hanswers
          cases hitems.symm.trans hno
          rfl
        · exact .mislisted (List.mem_append_right _ (List.mem_singleton_self _))
            (.notItems rfl houtcome hitems)
  · exact h known scratch past s (List.prefix_refl past) hknown

theorem Excused.of_isPrefix {past past' : List Exchange} {items : List Json}
    (h : Excused past items) (hbegins : past <+: past') : Excused past' items := by
  obtain ⟨xs, rfl⟩ := hbegins
  exact h.append xs

/-- Code that is there already is not read. -/
theorem Cause.of_withSource {xs : List Exchange} {code : String} {type : Option String} {e : Failure}
    (h : Cause file limit v (i.withSource (some code) type) xs e) : Cause file limit v i xs e := by
  cases h with
  | blamed among fails => exact .blamed among fails
  | mislisted among mislists => exact .mislisted among mislists
  | stuck type => exact .stuck type
  | exhausted types => exact .exhausted types
  | unread none _ => cases none

/-- A pass asks its questions in their order. -/
theorem Accounted.pass {known : List Json} {refused : Reduction}
    {rest : List Json → Output → Reduction} (hknown : Excused past known) (hfile : f.file = file)
    (hrefused : ∀ past' s', Excused past' known →
      Accounted file limit v i past' (refused.course crew v s'))
    (hrest : ∀ items o past' s', Excused past' items →
      Accounted file limit v i past' ((rest items o).course crew v s')) :
    Accounted file limit v i past
      ((f.asking .accepts [] fun accepted scratch =>
        if accepted.isTruthy then
          f.withDependencies known scratch fun ds scratch => f.withOutput scratch (rest ds)
        else refused).course crew v s) := by
  cases houtcome : (crew.answer (f.call .accepts []) s).1.outcome with
  | error e => exact Accounted.of_error hfile houtcome
  | ok value =>
    have hquiet := Exchange.failure?_of_ok (v := value)
      (x := ⟨f.call .accepts [], (crew.answer (f.call .accepts []) s).1⟩) houtcome nofun
    rw [course_asking, houtcome]
    refine Accounted.after ?_ hquiet nofun
    simp only
    split
    · refine Accounted.withDependencies (hknown.append _) hfile ?_
      intro items scratch past' s' _ hitems
      exact Accounted.withOutput hfile fun o past'' s'' hbegins =>
        hrest items o past'' s'' (hitems.of_isPrefix hbegins)
    · exact hrefused _ _ (hknown.append _)

/-- A pass needs the code of its fingerprint or of its file. -/
theorem Accounted.withSource {next : String → Reduction}
    (h : ∀ code, Accounted file limit v i past ((next code).course crew v s)) :
    Accounted file limit v i past ((withSource i file next).course crew v s) := by
  unfold Reduction.withSource
  split
  · exact h _
  · rename_i hsource
    rw [course]
    cases hread : v.readTextLossy (Path.ofText file) with
    | ok text => exact h _
    | error e =>
      refine Accounted.of_done fun e' he' => ?_
      cases he'
      exact .unread hsource hread

theorem Accounted.of_withSource {code : String} {type : Option String} {c : Course σ}
    (h : Accounted file limit v (i.withSource (some code) type) past c) :
    Accounted file limit v i past c where
  blamed := h.blamed
  unlisted := h.unlisted
  causes := fun e he => (h.causes e he).of_withSource

theorem Accounted.passes (next? : Option String → Option Transformer) {left index : Nat}
    {t : Transformer} {known : List Json} {chain : List (Option String)}
    (hknown : Excused past known) :
    Accounted file limit v i past
      ((passes next? file limit left index i t known chain).course crew v s) := by
  induction left generalizing index i t known chain past s with
  | zero =>
    refine Accounted.of_done fun e he => ?_
    cases he
    exact .exhausted _
  | succ left ih =>
    rw [Reduction.passes]
    refine Accounted.withSource fun code => Accounted.pass hknown rfl ?_ ?_
    · intro past' s' hknown'
      rw [course]
      exact Accounted.finish hknown' _ _
    · intro items o past' s' hitems
      split
      · exact Accounted.finish hitems _ _
      · rw [course]
        split
        · rw [course]
          refine Accounted.of_done fun e he => ?_
          cases he
          exact .stuck _
        · exact (ih hitems).of_withSource

/-- The crew has given the answers. -/
theorem answered_of_mem_course {r : Reduction} {x : Exchange}
    (h : x ∈ (r.course crew v s).exchanges) : ∃ s', x.reply = (crew.answer x.call s').1 := by
  induction r generalizing s with
  | done outcome => cases h
  | note context event rest ih => exact ih h
  | read file rest ih => exact ih _ h
  | ask c rest ih =>
    rw [course, Course.after_exchanges, List.singleton_append, List.mem_cons] at h
    rcases h with rfl | h
    · exact ⟨s, rfl⟩
    · exact ih _ h

/-- Without signals from the crew there are none. -/
theorem isSignal_of_failure? (hsignals : crew.RaisesNoSignal) {r : Reduction} {x : Exchange}
    (h : x ∈ (r.course crew v s).exchanges) {e : Failure} (he : x.failure? = some e) :
    e.isSignal = false := by
  obtain ⟨s', hreply⟩ := answered_of_mem_course h
  unfold Exchange.failure? at he
  split at he
  · rename_i houtcome
    cases he
    exact hsignals.answer (hreply ▸ houtcome)
  · split at he
    · cases he
    · rename_i e' hread
      cases he
      unfold Reading.checked at hread
      split at hread
      · cases hread
      · cases hread
        rfl
  · cases he

end Courses

end Reduction

/-! Whole compilations -/

section Errands

variable {σ : Type}

end Errands

namespace Host

open Reduction

variable {σ : Type}

namespace Styles

end Styles

end Host
end AssetCompiler
