import AssetCompiler.Proofs.LegalReduction

/-!
The exchanges of a reduction: the questions that it puts to transformers, with the answers, in their
order. What a reduction comes to follows from the volume and the state of the crew alone, and so do its
exchanges.
-/
namespace AssetCompiler.Reduction

variable {σ : Type}

/-- A question that was put to a transformer, and the answer. -/
structure Exchange where
  call : Call
  reply : Reply

namespace Exchange

def isTransform (x : Exchange) : Bool := x.call.question = .transform

/-- The output that a transformation has given. -/
def output? (x : Exchange) : Option Output :=
  match x.call.question, x.reply.outcome with
  | .transform, .ok v => ((Output.read v).checked Output.modelName).toOption
  | _, _ => none

/-- What an exchange fails with: the failure of the answer, or that an output does not have its
form. -/
def failure? (x : Exchange) : Option Failure :=
  match x.call.question, x.reply.outcome with
  | _, .error e => some e
  | .transform, .ok v =>
    match (Output.read v).checked Output.modelName with
    | .ok _ => none
    | .error e => some e
  | _, .ok _ => none

variable {x : Exchange}

theorem failure?_of_transform {v : Json} (hquestion : x.call.question = .transform)
    (h : x.reply.outcome = .ok v) : x.failure? =
      match (Output.read v).checked Output.modelName with
      | .ok _ => none
      | .error e => some e := by
  unfold failure?
  rw [hquestion, h]

/-- The transformer was asked whether it takes the code, and declined it. -/
def Declines (x : Exchange) : Prop :=
  x.call.question = .accepts ∧ ∃ v, x.reply.outcome = .ok v ∧ v.isTruthy = false

theorem failure?_of_error {e : Failure} (h : x.reply.outcome = .error e) :
    x.failure? = some e := by
  unfold failure?
  rw [h]

theorem failure?_of_ok {v : Json} (h : x.reply.outcome = .ok v)
    (hquestion : x.call.question ≠ .transform) : x.failure? = none := by
  unfold failure?
  rw [h]
  split
  · rename_i heq
    cases heq
  · rename_i hask _
    exact absurd hask hquestion
  · rfl

theorem output?_of_ne (hquestion : x.call.question ≠ .transform) : x.output? = none := by
  unfold output?
  split
  · rename_i hask _
    exact absurd hask hquestion
  · rfl

theorem question_of_output? {o : Output} (h : x.output? = some o) :
    x.call.question = .transform := by
  by_contra hquestion
  rw [output?_of_ne hquestion] at h
  cases h

/-- An exchange that gives an output did not fail. -/
theorem failure?_of_output? {o : Output} (h : x.output? = some o) : x.failure? = none := by
  unfold output? at h
  split at h
  · rename_i v hask hok
    unfold failure?
    rw [hask, hok]
    cases hread : (Output.read v).checked Output.modelName with
    | ok o' => simp only [hread]
    | error e =>
      rw [hread] at h
      cases h
  · cases h

theorem Declines.failure? (h : x.Declines) : x.failure? = none := by
  obtain ⟨hask, v, hok, _⟩ := h
  exact failure?_of_ok hok (by rw [hask]; decide)

theorem Declines.output? (h : x.Declines) : x.output? = none :=
  output?_of_ne (by rw [h.1]; decide)

end Exchange

/-- What a reduction comes to: its exchanges, its outcome, and the state of the crew after it. -/
structure Course (σ : Type) where
  exchanges : List Exchange
  outcome : Except Failure Artifact
  tools : σ

/-- A course with more exchanges before it. -/
def Course.after (xs : List Exchange) (c : Course σ) : Course σ :=
  { c with exchanges := xs ++ c.exchanges }

@[simp] theorem Course.after_exchanges (xs : List Exchange) (c : Course σ) :
    (c.after xs).exchanges = xs ++ c.exchanges := rfl

@[simp] theorem Course.after_outcome (xs : List Exchange) (c : Course σ) :
    (c.after xs).outcome = c.outcome := rfl

@[simp] theorem Course.after_tools (xs : List Exchange) (c : Course σ) :
    (c.after xs).tools = c.tools := rfl

theorem Course.after_after (xs ys : List Exchange) (c : Course σ) :
    (c.after ys).after xs = c.after (xs ++ ys) := by
  simp [Course.after]

/-- The course of a reduction. -/
def course (crew : Crew σ) (v : Volume) : Reduction → σ → Course σ
  | .done outcome, s => ⟨[], outcome, s⟩
  | .note _ _ rest, s => rest.course crew v s
  | .read file rest, s =>
    (rest ((v.readTextLossy (Path.ofText file)).map String.ofList)).course crew v s
  | .ask c rest, s =>
    ((rest (crew.answer c s).1).course crew v (crew.answer c s).2).after
      [⟨c, (crew.answer c s).1⟩]

/-- A run takes the course of its reduction; beside the state of the crew it changes the journal. -/
theorem run_eq_course (crew : Crew σ) (r : Reduction) (w : World σ) :
    ∃ journal, (r.run crew).run w = ((r.course crew w.volume w.tools).outcome,
      { w with tools := (r.course crew w.volume w.tools).tools, journal := journal }) := by
  induction r generalizing w with
  | done outcome =>
    refine ⟨w.journal, ?_⟩
    rw [run, Work.run_lift]
    rfl
  | note context event rest ih =>
    obtain ⟨journal, hrun⟩ := ih { w with journal := ⟨context, event⟩ :: w.journal }
    refine ⟨journal, ?_⟩
    rw [run, Action.run_bind_ok (Work.run_note context event w), hrun]
    rfl
  | read file rest ih =>
    obtain ⟨journal, hrun⟩ := ih ((w.volume.readTextLossy (Path.ofText file)).map String.ofList) w
    refine ⟨journal, ?_⟩
    rw [run, Action.run_bind_ok (Work.run_outcome _ w), run_readSource, hrun]
    rfl
  | ask c rest ih =>
    obtain ⟨journal, hrun⟩ :=
      ih (crew.answer c w.tools).1 { w with tools := (crew.answer c w.tools).2 }
    refine ⟨journal, ?_⟩
    rw [run, Action.run_bind_ok (run_consult crew c w), hrun]
    rfl

/-- A question that fails is the last one. -/
theorem course_asking (crew : Crew σ) (v : Volume) (f : Frame) (q : Question)
    (scratch : List (String × Json)) (rest : Json → List (String × Json) → Reduction) (s : σ) :
    (f.asking q scratch rest).course crew v s =
      Course.after [⟨f.call q scratch, (crew.answer (f.call q scratch) s).1⟩]
        (match (crew.answer (f.call q scratch) s).1.outcome with
          | .error e => ⟨[], .error (blame f.file f.transformer e),
              (crew.answer (f.call q scratch) s).2⟩
          | .ok value => (rest value (crew.answer (f.call q scratch) s).1.scratch).course crew v
              (crew.answer (f.call q scratch) s).2) := by
  unfold Frame.asking
  rw [course]
  cases (crew.answer (f.call q scratch) s).1.outcome <;> rfl

end AssetCompiler.Reduction
