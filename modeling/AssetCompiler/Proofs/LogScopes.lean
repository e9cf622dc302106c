import AssetCompiler.Reduction

/-!
The log context of a reduction. A pass is a block that binds its file, its transformer and its number, and
gives the former context back when it is left: at its end, early, or by a failure. Work in such blocks leaves
the scopes of its caller as it found them, and comes to the reduction, whose contexts are those of the
blocks.
-/
namespace AssetCompiler

open Log (Context Scopes ScopeStep)

variable {α β : Type}

/-- Work in which blocks of the log context are entered and left. What is noted or asked has the context of
the time. -/
inductive Routine (α : Type)
  | done (outcome : Except Failure α)
  | scope (step : ScopeStep) (rest : Routine α)
  | note (event : Log.Event) (rest : Routine α)
  | read (file : String) (rest : Except Failure String → Routine α)
  | ask (call : Context → Call) (rest : Reply → Routine α)

namespace Routine

/-- Goes on whatever the outcome is. -/
def always (f : Except Failure α → Routine β) : Routine α → Routine β
  | done outcome => f outcome
  | scope step rest => scope step (rest.always f)
  | note event rest => note event (rest.always f)
  | read file rest => read file fun r => (rest r).always f
  | ask call rest => ask call fun reply => (rest reply).always f

/-- Goes on with a result. A failure ends the work. -/
def andThen (x : Routine α) (f : α → Routine β) : Routine β :=
  x.always fun outcome => match outcome with | .ok a => f a | .error e => done (.error e)

/-- A block binds a context, and gives the former one back however it is left. -/
def block (c : Context) (body : Routine α) : Routine α :=
  scope (.enter c) (body.always fun outcome => scope .leave (done outcome))

/-- The reduction that a routine comes to when it is begun in some scopes. -/
def into (k : Scopes → Except Failure α → Reduction) : Scopes → Routine α → Reduction
  | s, done outcome => k s outcome
  | s, scope step rest => rest.into k (s.step step)
  | s, note event rest => .note s.current event (rest.into k s)
  | s, read file rest => .read file fun r => (rest r).into k s
  | s, ask call rest => .ask (call s.current) fun reply => (rest reply).into k s

/-- The reduction of a routine that makes a result. -/
def under (s : Scopes) (x : Routine Artifact) : Reduction := x.into (fun _ outcome => .done outcome) s

/-- How a routine can end: from which scopes, with which outcome, and in which scopes. -/
inductive Ends : Routine α → Scopes → Except Failure α → Scopes → Prop
  | done (outcome : Except Failure α) (s : Scopes) : Ends (done outcome) s outcome s
  | scope {step : ScopeStep} {rest : Routine α} {s s' : Scopes} {outcome : Except Failure α}
      (later : Ends rest (s.step step) outcome s') : Ends (scope step rest) s outcome s'
  | note {event : Log.Event} {rest : Routine α} {s s' : Scopes} {outcome : Except Failure α}
      (later : Ends rest s outcome s') : Ends (note event rest) s outcome s'
  | read {file : String} {rest : Except Failure String → Routine α} {s s' : Scopes}
      {outcome : Except Failure α} (r : Except Failure String)
      (later : Ends (rest r) s outcome s') : Ends (read file rest) s outcome s'
  | ask {call : Context → Call} {rest : Reply → Routine α} {s s' : Scopes}
      {outcome : Except Failure α} (reply : Reply)
      (later : Ends (rest reply) s outcome s') : Ends (ask call rest) s outcome s'

/-- However a routine ends, the scopes are as they were at its beginning. -/
def IsBalanced (x : Routine α) : Prop := ∀ s outcome s', x.Ends s outcome s' → s' = s

theorem Ends.of_always {f : Except Failure α → Routine β} {x : Routine α} {s s' : Scopes}
    {outcome : Except Failure β} (h : (x.always f).Ends s outcome s') :
    ∃ first s₁, x.Ends s first s₁ ∧ (f first).Ends s₁ outcome s' := by
  induction x generalizing s with
  | done first => exact ⟨first, s, .done first s, h⟩
  | scope step rest ih =>
    obtain ⟨first, s₁, hfirst, hlater⟩ := ih (match h with | .scope later => later)
    exact ⟨first, s₁, .scope hfirst, hlater⟩
  | note event rest ih =>
    obtain ⟨first, s₁, hfirst, hlater⟩ := ih (match h with | .note later => later)
    exact ⟨first, s₁, .note hfirst, hlater⟩
  | read file rest ih =>
    cases h with
    | read r later =>
      obtain ⟨first, s₁, hfirst, hlater⟩ := ih r later
      exact ⟨first, s₁, .read r hfirst, hlater⟩
  | ask call rest ih =>
    cases h with
    | ask reply later =>
      obtain ⟨first, s₁, hfirst, hlater⟩ := ih reply later
      exact ⟨first, s₁, .ask reply hfirst, hlater⟩

section Balance

variable {x : Routine α}

theorem isBalanced_done (outcome : Except Failure α) : (done outcome).IsBalanced := by
  intro s outcome' s' h
  cases h
  rfl

theorem IsBalanced.note (h : x.IsBalanced) (event : Log.Event) : (note event x).IsBalanced := by
  intro s outcome s' hend
  cases hend with
  | note later => exact h s outcome s' later

theorem IsBalanced.ask {call : Context → Call} {rest : Reply → Routine α}
    (h : ∀ reply, (rest reply).IsBalanced) : (ask call rest).IsBalanced := by
  intro s outcome s' hend
  cases hend with
  | ask reply later => exact h reply s outcome s' later

theorem IsBalanced.read {file : String} {rest : Except Failure String → Routine α}
    (h : ∀ r, (rest r).IsBalanced) : (read file rest).IsBalanced := by
  intro s outcome s' hend
  cases hend with
  | read r later => exact h r s outcome s' later

theorem IsBalanced.andThen (h : x.IsBalanced) {f : α → Routine β} (hf : ∀ a, (f a).IsBalanced) :
    (x.andThen f).IsBalanced := by
  intro s outcome s' hend
  obtain ⟨first, s₁, hfirst, hlater⟩ := hend.of_always
  rw [← h s first s₁ hfirst]
  cases first with
  | ok a => exact hf a s₁ outcome s' hlater
  | error e => exact isBalanced_done _ s₁ outcome s' hlater

/-- Leaving a block undoes entering it. -/
theorem IsBalanced.block (h : x.IsBalanced) (c : Context) : (block c x).IsBalanced := by
  intro s outcome s' hend
  cases hend with
  | scope later =>
    obtain ⟨first, s₁, hfirst, hlater⟩ := later.of_always
    have hinner := h _ first s₁ hfirst
    cases hlater with
    | scope last =>
      cases last
      rw [hinner]
      rfl

end Balance

/-! What routines come to -/

theorem into_always (k : Scopes → Except Failure β → Reduction) (f : Except Failure α → Routine β)
    (x : Routine α) (s : Scopes) :
    (x.always f).into k s = x.into (fun s' outcome => (f outcome).into k s') s := by
  induction x generalizing s with
  | done outcome => rfl
  | scope step rest ih => exact ih _
  | note event rest ih => exact congrArg (Reduction.note s.current event) (ih s)
  | read file rest ih => exact congrArg (Reduction.read file) (funext fun r => ih r s)
  | ask call rest ih =>
    exact congrArg (Reduction.ask (call s.current)) (funext fun reply => ih reply s)

theorem into_block (k : Scopes → Except Failure α → Reduction) (c : Context) (body : Routine α)
    (s : Scopes) : (block c body).into k s =
      body.into (fun s' outcome => k (s'.step .leave) outcome) (s.step (.enter c)) := by
  unfold block
  simp only [into, into_always]

end Routine

/-! Reductions for callers with a context -/

namespace Reduction

/-- A reduction in the context of its caller: notes that belong to no pass are the caller's. -/
def within (c : Context) : Reduction → Reduction
  | .done outcome => .done outcome
  | .note c' event rest => .note (if c' = Context.none then c else c') event (rest.within c)
  | .read file rest => .read file fun r => (rest r).within c
  | .ask call rest => .ask call fun reply => (rest reply).within c

theorem within_none (r : Reduction) : r.within Context.none = r := by
  induction r with
  | done outcome => rfl
  | note c event rest ih =>
    rw [within, ih]
    split
    · rename_i hc
      rw [hc]
    · rfl
  | read file rest ih => exact congrArg (Reduction.read file) (funext ih)
  | ask call rest ih => exact congrArg (Reduction.ask call) (funext ih)

theorem within_asking (c : Context) (f : Frame) (q : Question) (scratch : List (String × Json))
    (rest : Json → List (String × Json) → Reduction) :
    (f.asking q scratch rest).within c =
      f.asking q scratch fun v scratch => (rest v scratch).within c := by
  unfold Frame.asking
  rw [within]
  congr 1
  funext reply
  cases reply.outcome <;> rfl

theorem within_withDependencies (c : Context) (f : Frame) (known : List Json)
    (scratch : List (String × Json)) (rest : List Json → List (String × Json) → Reduction) :
    (f.withDependencies known scratch rest).within c =
      f.withDependencies known scratch fun items scratch => (rest items scratch).within c := by
  unfold Frame.withDependencies
  split
  · rw [within_asking]
    congr 1
    funext v scratch
    cases itemsOf v <;> rfl
  · rfl

theorem within_withOutput (c : Context) (f : Frame) (scratch : List (String × Json))
    (rest : Output → Reduction) :
    (f.withOutput scratch rest).within c = f.withOutput scratch fun o => (rest o).within c := by
  unfold Frame.withOutput
  rw [within_asking]
  congr 1
  funext v scratch
  cases (Output.read v).checked Output.modelName <;> rfl

theorem within_withSource (c : Context) (i : Fingerprint) (file : String) (rest : String → Reduction) :
    (withSource i file rest).within c = withSource i file fun code => (rest code).within c := by
  unfold withSource
  cases i.source with
  | some code => rfl
  | none =>
    simp only [within]
    congr 1
    funext r
    cases r <;> rfl

end Reduction

/-! The passes as blocks -/

namespace Routine

open Reduction (Frame)

/-- How a pass ends without a failure: the code is declined, or an output is made. -/
inductive Passed
  | declined (a : Artifact)
  | made (output : Output) (dependencies : List Json)

/-- A result with dependencies that need not be texts. -/
def result (code mediaType : String) (dependencies : List Json) : Except Failure Artifact :=
  let reading : Reading Artifact :=
    ((Schema.list Schema.text (.arr dependencies)).within (.field "dependent_files")).map
      fun ds => Artifact.ofContent code mediaType ds
  reading.checked Artifact.modelName

/-- A question of a pass, asked in the context of the time. -/
def asking (f : Frame) (q : Question) (scratch : List (String × Json))
    (rest : Json → List (String × Json) → Routine α) : Routine α :=
  .ask (fun c => { f.call q scratch with context := c }) fun reply =>
    match reply.outcome with
    | .error e => .done (.error (Reduction.blame f.file f.transformer e))
    | .ok v => rest v reply.scratch

def withSource (i : Fingerprint) (file : String) (rest : String → Routine α) : Routine α :=
  match i.source with
  | some code => rest code
  | none => .read file fun r => match r with | .ok code => rest code | .error e => .done (.error e)

def withDependencies (f : Frame) (known : List Json) (scratch : List (String × Json))
    (rest : List Json → List (String × Json) → Routine α) : Routine α :=
  if f.index = 0 then
    asking f .dependencies scratch fun v scratch =>
      match Reduction.itemsOf v with
      | .ok items => rest items scratch
      | .error e => .done (.error e)
  else rest known scratch

def withOutput (f : Frame) (scratch : List (String × Json)) (rest : Output → Routine α) :
    Routine α :=
  asking f .transform scratch fun v _ =>
    match (Output.read v).checked Output.modelName with
    | .ok output => rest output
    | .error e => .done (.error (Reduction.blame f.file f.transformer e))

/-- What is done with the code of a pass. -/
def withCode (f : Frame) (known : List Json) : Routine Passed :=
  asking f .accepts [] fun accepted scratch =>
    if accepted.isTruthy then
      withDependencies f known scratch fun dependencies scratch =>
        withOutput f scratch fun output => .done (.ok (.made output dependencies))
    else
      .note (.declined f.transformer.name f.file)
        (.done ((result f.code (f.input.getD MediaType.plainText) known).map .declined))

/-- A pass is a block for its file, its transformer and its number. -/
def pass (file : String) (t : Transformer) (index : Nat) (i : Fingerprint) (known : List Json) :
    Routine Passed :=
  block ⟨some file, some t.name, some index⟩ <| withSource i file fun code =>
    withCode ⟨file, t, index, Reduction.inputType file i, code⟩ known

/-- The passes that may still follow, each a block of its own. -/
def passes (next? : Option String → Option Transformer) (file : String) (limit : Int) :
    (left index : Nat) → Fingerprint → Transformer → (dependencies : List Json) →
    (chain : List (Option String)) → Routine Artifact
  | 0, _, i, _, _, chain => .done (.error (.passLimit file (chain ++ [i.mediaType]) limit))
  | left + 1, index, i, t, dependencies, chain =>
    let input := Reduction.inputType file i
    (pass file t index i dependencies).andThen fun passed =>
      match passed with
      | .declined a => .done (.ok a)
      | .made output dependencies =>
        match Reduction.isTerminal output.mediaType input, output.mediaType with
        | true, some type => .done (result output.code type dependencies)
        | _, type =>
          .note (.goingOn file type) <|
            match next? type with
            | none => .note (.stuck output) (.done (.error (.unhandledType file type)))
            | some t' =>
              passes next? file limit left (index + 1)
                (i.withSource (some output.code) type) t' dependencies (chain ++ [input])

/-- The routine of a file with a fingerprint, begun by a transformer. -/
def ofFile (next? : Option String → Option Transformer) (limit : Int) (file : String)
    (i : Fingerprint) (t : Transformer) : Routine Artifact :=
  passes next? file limit limit.toNat 0 i t [] []

section Balance

theorem isBalanced_asking (f : Frame) (q : Question) (scratch : List (String × Json))
    {rest : Json → List (String × Json) → Routine α} (h : ∀ v scratch, (rest v scratch).IsBalanced) :
    (asking f q scratch rest).IsBalanced := by
  refine .ask fun reply => ?_
  split
  · exact isBalanced_done _
  · exact h _ _

theorem isBalanced_withSource (i : Fingerprint) (file : String) {rest : String → Routine α}
    (h : ∀ code, (rest code).IsBalanced) : (withSource i file rest).IsBalanced := by
  unfold withSource
  split
  · exact h _
  · refine .read fun r => ?_
    split
    · exact h _
    · exact isBalanced_done _

theorem isBalanced_withDependencies (f : Frame) (known : List Json) (scratch : List (String × Json))
    {rest : List Json → List (String × Json) → Routine α}
    (h : ∀ items scratch, (rest items scratch).IsBalanced) :
    (withDependencies f known scratch rest).IsBalanced := by
  unfold withDependencies
  split
  · refine isBalanced_asking _ _ _ fun v scratch => ?_
    split
    · exact h _ _
    · exact isBalanced_done _
  · exact h _ _

theorem isBalanced_withOutput (f : Frame) (scratch : List (String × Json)) {rest : Output → Routine α}
    (h : ∀ output, (rest output).IsBalanced) : (withOutput f scratch rest).IsBalanced := by
  refine isBalanced_asking _ _ _ fun v _ => ?_
  split
  · exact h _
  · exact isBalanced_done _

theorem isBalanced_withCode (f : Frame) (known : List Json) : (withCode f known).IsBalanced := by
  refine isBalanced_asking _ _ _ fun accepted scratch => ?_
  split
  · exact isBalanced_withDependencies _ _ _ fun dependencies scratch =>
      isBalanced_withOutput _ _ fun output => isBalanced_done _
  · exact (isBalanced_done _).note _

theorem isBalanced_passes (next? : Option String → Option Transformer) (file : String) (limit : Int)
    (left index : Nat) (i : Fingerprint) (t : Transformer) (known : List Json)
    (chain : List (Option String)) :
    (passes next? file limit left index i t known chain).IsBalanced := by
  induction left generalizing index i t known chain with
  | zero => exact isBalanced_done _
  | succ left ih =>
    refine ((isBalanced_withSource i file fun code => isBalanced_withCode _ _).block _).andThen
      fun passed => ?_
    cases passed with
    | declined a => exact isBalanced_done _
    | made output dependencies =>
      simp only
      split
      · exact isBalanced_done _
      · refine IsBalanced.note ?_ _
        split
        · exact (isBalanced_done _).note _
        · exact ih _ _ _ _ _

end Balance

section Coming

variable (k : Scopes → Except Failure α → Reduction)

theorem into_asking {s : Scopes} {f : Frame} (hcontext : s.current = f.context)
    (hfails : ∀ e, k s (.error e) = .done (.error e)) (q : Question)
    (scratch : List (String × Json)) (rest : Json → List (String × Json) → Routine α) :
    (asking f q scratch rest).into k s =
      f.asking q scratch fun v scratch => (rest v scratch).into k s := by
  unfold asking Frame.asking
  have hcall : { f.call q scratch with context := s.current } = f.call q scratch := by
    rw [hcontext]
    rfl
  rw [into, hcall]
  congr 1
  funext reply
  cases reply.outcome with
  | error e => exact hfails _
  | ok v => rfl

theorem into_withSource {s : Scopes} (hfails : ∀ e, k s (.error e) = .done (.error e))
    (i : Fingerprint) (file : String) (rest : String → Routine α) :
    (withSource i file rest).into k s =
      Reduction.withSource i file fun code => (rest code).into k s := by
  unfold withSource Reduction.withSource
  cases i.source with
  | some code => rfl
  | none =>
    simp only [into]
    congr 1
    funext r
    cases r with
    | error e => exact hfails e
    | ok code => rfl

theorem into_withDependencies {s : Scopes} {f : Frame} (hcontext : s.current = f.context)
    (hfails : ∀ e, k s (.error e) = .done (.error e)) (known : List Json)
    (scratch : List (String × Json)) (rest : List Json → List (String × Json) → Routine α) :
    (withDependencies f known scratch rest).into k s =
      f.withDependencies known scratch fun items scratch => (rest items scratch).into k s := by
  unfold withDependencies Frame.withDependencies
  split
  · rw [into_asking k hcontext hfails]
    congr 1
    funext v scratch
    cases Reduction.itemsOf v with
    | error e => exact hfails e
    | ok items => rfl
  · rfl

theorem into_withOutput {s : Scopes} {f : Frame} (hcontext : s.current = f.context)
    (hfails : ∀ e, k s (.error e) = .done (.error e)) (scratch : List (String × Json))
    (rest : Output → Routine α) :
    (withOutput f scratch rest).into k s = f.withOutput scratch fun o => (rest o).into k s := by
  unfold withOutput Frame.withOutput
  rw [into_asking k hcontext hfails]
  congr 1
  funext v scratch
  cases (Output.read v).checked Output.modelName with
  | error e => exact hfails _
  | ok output => rfl

theorem into_withCode {s : Scopes} {f : Frame} (k : Scopes → Except Failure Passed → Reduction)
    (hcontext : s.current = f.context) (hfails : ∀ e, k s (.error e) = .done (.error e))
    (known : List Json) : (withCode f known).into k s =
      f.asking .accepts [] fun accepted scratch =>
        if accepted.isTruthy then
          f.withDependencies known scratch fun dependencies scratch =>
            f.withOutput scratch fun output => k s (.ok (.made output dependencies))
        else
          .note f.context (.declined f.transformer.name f.file)
            (k s ((result f.code (f.input.getD MediaType.plainText) known).map .declined)) := by
  unfold withCode
  rw [into_asking k hcontext hfails]
  congr 1
  funext accepted scratch
  split
  · rw [into_withDependencies k hcontext hfails]
    congr 1
    funext dependencies scratch
    exact into_withOutput k hcontext hfails scratch _
  · rw [into, hcontext]
    rfl

theorem within_note_none (c : Context) (event : Log.Event) (rest : Reduction) :
    (Reduction.note Context.none event rest).within c = .note c event (rest.within c) := by
  rw [Reduction.within, if_pos rfl]

/-- The blocks bind the contexts that the passes have, whatever the caller's context is. -/
theorem under_passes (next? : Option String → Option Transformer) (file : String) (limit : Int)
    (left index : Nat) (i : Fingerprint) (t : Transformer) (known : List Json)
    (chain : List (Option String)) (s : Scopes) :
    (passes next? file limit left index i t known chain).under s =
      (Reduction.passes next? file limit left index i t known chain).within s.current := by
  induction left generalizing index i t known chain with
  | zero => rfl
  | succ left ih =>
    rw [passes, Reduction.passes, under, andThen, into_always, pass, into_block,
      into_withSource _ (by intro e; rfl), Reduction.within_withSource]
    congr 1
    funext code
    rw [into_withCode _ rfl (by intro e; rfl), Reduction.within_asking]
    congr 1
    funext accepted scratch
    split
    · rw [Reduction.within_withDependencies]
      congr 1
      funext dependencies scratch
      rw [Reduction.within_withOutput]
      congr 1
      funext output
      have hgoing (type : Option String) : (Routine.note (.goingOn file type) <|
          match next? type with
          | none => .note (.stuck output) (.done (.error (.unhandledType file type)))
          | some t' => passes next? file limit left (index + 1)
              (i.withSource (some output.code) type) t' dependencies
              (chain ++ [Reduction.inputType file i])).under s =
          (Reduction.note Context.none (.goingOn file type) <|
          match next? type with
          | none => .note Context.none (.stuck output) (.done (.error (.unhandledType file type)))
          | some t' => Reduction.passes next? file limit left (index + 1)
              (i.withSource (some output.code) type) t' dependencies
              (chain ++ [Reduction.inputType file i])).within s.current := by
        rw [within_note_none, under, into]
        congr 1
        cases next? type with
        | none =>
          simp only
          rw [within_note_none]
          rfl
        | some t' => exact ih _ _ _ _ _
      simp only
      cases Reduction.isTerminal output.mediaType (Reduction.inputType file i) with
      | false => exact hgoing output.mediaType
      | true =>
        cases output.mediaType with
        | none => exact hgoing none
        | some type => rfl
    · have hcontext : (⟨some file, some t.name, some (index : Int)⟩ : Context) ≠ Context.none :=
        nofun
      rw [Reduction.within, if_neg (by exact hcontext)]
      congr 1
      change into _ s _ = Reduction.within _ (.done (result code
        ((Reduction.inputType file i).getD MediaType.plainText) known))
      cases result code ((Reduction.inputType file i).getD MediaType.plainText) known <;> rfl

end Coming

/-- However a file is reduced, and whatever the context of the caller: the work comes to the reduction of the
file in that context, and leaves the scopes of the caller as they were. -/
theorem under_ofFile (next? : Option String → Option Transformer) (limit : Int) (file : String)
    (i : Fingerprint) (t : Transformer) (s : Scopes) :
    (ofFile next? limit file i t).under s =
      (Reduction.ofFile next? limit file i t).within s.current :=
  under_passes next? file limit limit.toNat 0 i t [] [] s

theorem isBalanced_ofFile (next? : Option String → Option Transformer) (limit : Int) (file : String)
    (i : Fingerprint) (t : Transformer) : (ofFile next? limit file i t).IsBalanced :=
  isBalanced_passes next? file limit limit.toNat 0 i t [] []

end Routine
end AssetCompiler
