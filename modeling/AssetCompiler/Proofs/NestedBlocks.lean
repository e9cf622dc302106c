import AssetCompiler.Log.Context

/-!
Nested blocks of the log context. Work enters and leaves blocks, clears the context at any depth, and fails;
a failure leaves the blocks around it. Whatever is done inside a block, leaving it gives back the context from
before it, so that of all the work only the clears outside of its blocks are left to be seen.
-/
namespace AssetCompiler.Log

namespace Scopes

/-- The scopes after some steps. -/
def after (s : Scopes) (ops : List ScopeStep) : Scopes := ops.foldl step s

/-- The contexts before, between and after some steps. -/
def contexts (s : Scopes) (ops : List ScopeStep) : List Context := s.current :: s.trail ops

theorem after_cons (s : Scopes) (a : ScopeStep) (ops : List ScopeStep) :
    s.after (a :: ops) = (s.step a).after ops := rfl

theorem after_append (s : Scopes) (ops ops' : List ScopeStep) :
    s.after (ops ++ ops') = (s.after ops).after ops' := List.foldl_append

theorem contexts_cons (s : Scopes) (a : ScopeStep) (ops : List ScopeStep) :
    s.contexts (a :: ops) = s.current :: (s.step a).contexts ops := rfl

theorem getElem?_contexts (s : Scopes) {ops : List ScopeStep} {k : Nat} (hk : k ≤ ops.length) :
    (s.contexts ops)[k]? = some (s.after (ops.take k)).current := by
  induction ops generalizing s k with
  | nil =>
    rw [Nat.le_zero.mp hk]
    rfl
  | cons a ops ih =>
    cases k with
    | zero => rfl
    | succ k =>
      rw [contexts_cons, List.getElem?_cons_succ, ih (s.step a) (Nat.le_of_succ_le_succ hk)]
      rfl

theorem getLast?_contexts (s : Scopes) (ops : List ScopeStep) :
    (s.contexts ops).getLast? = some (s.after ops).current := by
  induction ops generalizing s with
  | nil => rfl
  | cons a ops ih => exact ih (s.step a)

/-- Behind an enter the context is the one given. -/
theorem getElem?_contexts_enter (s : Scopes) {ops : List ScopeStep} {j : Nat} {given : Context}
    (hj : ops[j]? = some (.enter given)) : (s.contexts ops)[j + 1]? = some given := by
  obtain ⟨hlt, hget⟩ := List.getElem?_eq_some_iff.mp hj
  rw [getElem?_contexts s hlt, List.take_succ_eq_append_getElem hlt, hget, after_append]
  rfl

/-- Leaving a block gives the scopes from before it back, if in between all inner blocks were left. -/
theorem leave_of_tokens {s now : Scopes} {given : Context}
    (h : now.tokens = (s.step (.enter given)).tokens) : now.step .leave = s := by
  change now.tokens = ((Context.bind given).run s.current).1 :: s.tokens at h
  unfold step
  simp only [h, Context.run_restore]

end Scopes

/-- Each enter has its leave behind it, and each leave its enter before it. -/
inductive IsNested : List ScopeStep → Prop
  | nil : IsNested []
  | clear {ops : List ScopeStep} (rest : IsNested ops) : IsNested (.clear :: ops)
  | block {ops ops' : List ScopeStep} (given : Context) (body : IsNested ops) (rest : IsNested ops') :
      IsNested (.enter given :: (ops ++ .leave :: ops'))

/-- The enter at one place and the leave at another are those of one block. -/
inductive IsBlock : List ScopeStep → Nat → Nat → Prop
  | intro (before : List ScopeStep) (given : Context) {body : List ScopeStep} (later : List ScopeStep)
      (nested : IsNested body) :
      IsBlock (before ++ .enter given :: (body ++ .leave :: later)) before.length
        (before.length + body.length + 1)

theorem IsNested.append {ops ops' : List ScopeStep} (h : IsNested ops) (h' : IsNested ops') :
    IsNested (ops ++ ops') := by
  induction h with
  | nil => exact h'
  | clear rest ih => exact .clear ih
  | block given body rest _ ih =>
    rw [List.cons_append, List.append_assoc, List.cons_append]
    exact .block given body ih

/-- All blocks are left in the end. -/
theorem IsNested.tokens_after {ops : List ScopeStep} (h : IsNested ops) (s : Scopes) :
    (s.after ops).tokens = s.tokens := by
  induction h generalizing s with
  | nil => rfl
  | clear rest ih => exact ih (s.step .clear)
  | block given body rest ihbody ihrest =>
    rw [Scopes.after_cons, Scopes.after_append, Scopes.after_cons,
      Scopes.leave_of_tokens (ihbody (s.step (.enter given)))]
    exact ihrest s

theorem IsBlock.within {ops : List ScopeStep} {j k : Nat} (h : IsBlock ops j k) (front back : List ScopeStep) :
    IsBlock (front ++ ops ++ back) (front.length + j) (front.length + k) := by
  cases h with
  | intro before given later nested =>
    rename_i body
    have hblock := IsBlock.intro (front ++ before) given (later ++ back) nested
    simp only [List.length_append, Nat.add_assoc] at hblock ⊢
    simpa using hblock

/-- Every leave ends a block. -/
theorem IsNested.exists_isBlock {ops : List ScopeStep} (h : IsNested ops) {k : Nat}
    (hk : ops[k]? = some .leave) : ∃ j, IsBlock ops j k := by
  induction h generalizing k with
  | nil => cases hk
  | clear rest ih =>
    cases k with
    | zero => cases hk
    | succ k =>
      obtain ⟨j, hblock⟩ := ih hk
      have hwithin := hblock.within [.clear] []
      rw [List.append_nil, List.length_singleton, Nat.add_comm 1 k] at hwithin
      exact ⟨_, hwithin⟩
  | @block body ops' given nested rest ihbody ihrest =>
    cases k with
    | zero => cases hk
    | succ k =>
      rw [List.getElem?_cons_succ] at hk
      rcases Nat.lt_trichotomy k body.length with hlt | rfl | hgt
      · rw [List.getElem?_append_left hlt] at hk
        obtain ⟨j, hblock⟩ := ihbody hk
        have hwithin := hblock.within [.enter given] (.leave :: ops')
        rw [List.length_singleton, Nat.add_comm 1 k] at hwithin
        exact ⟨_, hwithin⟩
      · have hblock := IsBlock.intro [] given ops' nested
        rw [List.length_nil, Nat.zero_add] at hblock
        exact ⟨_, hblock⟩
      · obtain ⟨n, rfl⟩ := Nat.exists_eq_add_of_lt hgt
        rw [List.getElem?_append_right (by omega),
          show body.length + n + 1 - body.length = n + 1 by omega, List.getElem?_cons_succ] at hk
        obtain ⟨j, hblock⟩ := ihrest hk
        have hwithin := hblock.within (.enter given :: (body ++ [.leave])) []
        rw [List.append_nil, List.cons_append, List.append_assoc, List.singleton_append, List.length_cons,
          List.length_append, List.length_singleton,
          show body.length + 1 + 1 + n = body.length + n + 1 + 1 by omega] at hwithin
        exact ⟨_, hwithin⟩

theorem IsBlock.entered {ops : List ScopeStep} {j k : Nat} (h : IsBlock ops j k) :
    ∃ given, ops[j]? = some (.enter given) := by
  cases h with
  | intro before given later nested => exact ⟨given, by simp⟩

/-- After a block the scopes are those from before it. -/
theorem IsBlock.after {ops : List ScopeStep} {j k : Nat} (h : IsBlock ops j k) (s : Scopes) :
    k < ops.length ∧ s.after (ops.take (k + 1)) = s.after (ops.take j) := by
  cases h with
  | intro before given later nested =>
    rename_i body
    refine ⟨by simp; omega, ?_⟩
    have hfirst : (before ++ .enter given :: (body ++ .leave :: later)).take (before.length + body.length + 1 + 1) =
        before ++ .enter given :: (body ++ [.leave]) := by
      rw [show before ++ .enter given :: (body ++ .leave :: later) =
        (before ++ .enter given :: (body ++ [.leave])) ++ later by simp]
      exact List.take_left' (by simp; omega)
    rw [hfirst, List.take_left, Scopes.after_append, Scopes.after_cons, Scopes.after_append, Scopes.after_cons]
    exact Scopes.leave_of_tokens (nested.tokens_after _)

/-! Work that can fail -/

/-- Work in the log context. Where it fails, the work around it is passed over, up to an attempt, which goes on
whether its body has failed or not. -/
inductive Activity
  | done
  | fail
  | clear (rest : Activity)
  | block (given : Context) (body rest : Activity)
  | attempt (body rest : Activity)
  deriving Repr

namespace Activity

def fails : Activity → Bool
  | done => false
  | fail => true
  | clear rest => rest.fails
  | block _ body rest => body.fails || rest.fails
  | attempt _ rest => rest.fails

/-- The steps that are taken. A block is left when its body fails, too. -/
def steps : Activity → List ScopeStep
  | done => []
  | fail => []
  | clear rest => .clear :: rest.steps
  | block given body rest => .enter given :: (body.steps ++ .leave :: if body.fails then [] else rest.steps)
  | attempt body rest => body.steps ++ rest.steps

/-- The clears outside of all blocks. -/
def ownClears : Activity → List ScopeStep
  | done => []
  | fail => []
  | clear rest => .clear :: rest.ownClears
  | block _ body rest => if body.fails then [] else rest.ownClears
  | attempt body rest => body.ownClears ++ rest.ownClears

theorem isNested_steps (x : Activity) : IsNested x.steps := by
  induction x with
  | done => exact .nil
  | fail => exact .nil
  | clear rest ih => exact .clear ih
  | block given body rest ihbody ihrest =>
    refine .block given ihbody ?_
    split
    · exact .nil
    · exact ihrest
  | attempt body rest ihbody ihrest => exact ihbody.append ihrest

/-- Work takes the steps of nested blocks, and can take any of them, even without a failure. -/
theorem isNested_iff {ops : List ScopeStep} : IsNested ops ↔ ∃ x : Activity, x.steps = ops := by
  constructor
  · intro h
    suffices ∃ x : Activity, x.steps = ops ∧ x.fails = false from this.imp fun _ hx => hx.1
    induction h with
    | nil => exact ⟨.done, rfl, rfl⟩
    | clear rest ih =>
      obtain ⟨x, rfl, hx⟩ := ih
      exact ⟨.clear x, rfl, hx⟩
    | block given body rest ihbody ihrest =>
      obtain ⟨x, rfl, hx⟩ := ihbody
      obtain ⟨y, rfl, hy⟩ := ihrest
      refine ⟨.block given x y, ?_, ?_⟩
      · rw [steps, hx]
        rfl
      · rw [fails, hx, hy]
        rfl
  · rintro ⟨x, rfl⟩
    exact x.isNested_steps

/-- Of all work only the clears outside of its blocks are left. -/
theorem after_steps (x : Activity) (s : Scopes) : s.after x.steps = s.after x.ownClears := by
  induction x generalizing s with
  | done => rfl
  | fail => rfl
  | clear rest ih => exact ih (s.step .clear)
  | block given body rest ihbody ihrest =>
    rw [steps, Scopes.after_cons, Scopes.after_append, Scopes.after_cons,
      Scopes.leave_of_tokens (body.isNested_steps.tokens_after _), ownClears]
    split
    · rfl
    · exact ihrest s
  | attempt body rest ihbody ihrest =>
    rw [steps, ownClears, Scopes.after_append, Scopes.after_append, ihbody s, ihrest]

/-- Work, with failures or without, takes just the steps of nested blocks. Whatever the context is when it
begins: each leave ends a block, and after it the context is the one from before its enter; behind an enter it
is the one given; and when all blocks are left it is the one from the beginning with the clears applied that are
outside of all blocks. -/
theorem stack_discipline :
    (∀ ops, IsNested ops ↔ ∃ x : Activity, x.steps = ops) ∧
    ∀ (x : Activity) (s : Scopes),
      (∀ k, x.steps[k]? = some .leave → ∃ j, IsBlock x.steps j k) ∧
      (∀ j k, IsBlock x.steps j k → ∃ c, (s.contexts x.steps)[j]? = some c ∧
        (s.contexts x.steps)[k + 1]? = some c) ∧
      (∀ j given, x.steps[j]? = some (.enter given) → (s.contexts x.steps)[j + 1]? = some given) ∧
      (s.contexts x.steps).getLast? = (s.contexts x.ownClears).getLast? := by
  refine ⟨fun ops => isNested_iff, fun x s => ⟨fun k => x.isNested_steps.exists_isBlock, ?_, ?_, ?_⟩⟩
  · intro j k hblock
    obtain ⟨hk, hafter⟩ := hblock.after s
    obtain ⟨given, hj⟩ := hblock.entered
    have hlt : j < x.steps.length := (List.getElem?_eq_some_iff.mp hj).1
    refine ⟨_, s.getElem?_contexts (Nat.le_of_lt hlt), ?_⟩
    rw [s.getElem?_contexts hk, hafter]
  · exact fun j given => s.getElem?_contexts_enter
  · rw [Scopes.getLast?_contexts, Scopes.getLast?_contexts, x.after_steps s]

/-- A block that is cleared and in which an inner block fails, between two clears. -/
def shadowed : Activity :=
  .clear (.attempt
    (.block ⟨some "a.ts", none, some 0⟩ (.clear (.block ⟨some "b.ts", some "js", none⟩ .fail .done)) .done)
    (.clear .done))

theorem isBlock_shadowed : IsBlock shadowed.steps 1 5 :=
  .intro [.clear] ⟨some "a.ts", none, some 0⟩ [.clear] (.clear (.block ⟨some "b.ts", some "js", none⟩ .nil .nil))

theorem stack_discipline_shadowed : ∃ c,
    (Scopes.initial.contexts shadowed.steps)[1]? = some c ∧
    (Scopes.initial.contexts shadowed.steps)[6]? = some c :=
  (stack_discipline.2 shadowed .initial).2.1 1 5 isBlock_shadowed

end Activity
end AssetCompiler.Log
