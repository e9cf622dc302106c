import AssetCompiler.Proofs.Exchanges

/-!
The passes of a reduction, seen as exchanges. Each pass asks its transformer some questions, and the
last answer tells how the pass comes out; the work goes on to another pass only after a transformation
whose output is not terminal and has a registered type.
-/
namespace AssetCompiler

namespace Reduction

variable {σ : Type}

namespace Exchange

/-- An exchange after which the work goes on: it did not fail, the code was not declined, and an
output is not terminal and has a registered type. -/
structure GoesOn (next? : Option String → Option Transformer) (x : Exchange) : Prop where
  failure : x.failure? = none
  taken : ¬ x.Declines
  goes : ∀ o, x.output? = some o →
    ¬ Terminal o.mediaType x.call.pass.mediaType ∧ (next? o.mediaType).isSome = true

/-- An exchange that ends a reduction, and the outcome that it leads to. -/
inductive Concludes (next? : Option String → Option Transformer) (file : String) (x : Exchange) :
    Except Failure Artifact → Prop
  | failed {e : Failure} (fails : x.failure? = some e) :
      Concludes next? file x (.error (blame file x.call.transformer e))
  | declined {a : Artifact} (declines : x.Declines) : Concludes next? file x (.ok a)
  | made {o : Output} {a : Artifact} (gives : x.output? = some o)
      (terminal : Terminal o.mediaType x.call.pass.mediaType) : Concludes next? file x (.ok a)
  | stuck {o : Output} (gives : x.output? = some o)
      (goes : ¬ Terminal o.mediaType x.call.pass.mediaType) (unknown : next? o.mediaType = none) :
      Concludes next? file x (.error (.unhandledType file o.mediaType))

variable {next? : Option String → Option Transformer} {file : String} {x : Exchange}

end Exchange

/-! One pass -/

/-- An exchange of a pass. -/
def Frame.Has (f : Frame) (x : Exchange) : Prop := ∃ q scratch, x.call = f.call q scratch

/-- An exchange of a pass that keeps the pass going: it did not fail, the code was not declined, and
it was no transformation. -/
structure Frame.Keeps (f : Frame) (x : Exchange) : Prop where
  has : f.Has x
  failure : x.failure? = none
  taken : ¬ x.Declines
  question : x.call.question ≠ .transform

theorem Frame.Keeps.goesOn {f : Frame} {x : Exchange} (h : f.Keeps x)
    (next? : Option String → Option Transformer) : x.GoesOn next? where
  failure := h.failure
  taken := h.taken
  goes := by
    intro o ho
    rw [Exchange.output?_of_ne h.question] at ho
    cases ho

theorem Frame.Has.pass {f : Frame} {x : Exchange} (h : f.Has x) :
    x.call.transformer = f.transformer ∧ x.call.file = f.file ∧ x.call.pass.file = f.file ∧
      x.call.pass.mediaType = f.input ∧ x.call.pass.index = f.index := by
  obtain ⟨q, scratch, hcall⟩ := h
  rw [hcall]
  exact ⟨rfl, rfl, rfl, rfl, rfl⟩

/-- How the questions of a pass come out. -/
inductive Turnout
  | failed (e : Failure)
  | declined
  | made (output : Output) (dependencies : List String)

/-- The last exchange of a pass tells how the pass comes out. -/
inductive Exchange.Tells (x : Exchange) : Turnout → Prop
  | failed {e : Failure} (fails : x.failure? = some e) : Tells x (.failed e)
  | declined (declines : x.Declines) : Tells x .declined
  | made {o : Output} {ds : List String} (gives : x.output? = some o) : Tells x (.made o ds)

/-- The exchanges of a pass, the last one apart. -/
structure Turn (f : Frame) (before : List Exchange) (last : Exchange) (turnout : Turnout) : Prop where
  keeps : ∀ y ∈ before, f.Keeps y
  has : f.Has last
  tells : last.Tells turnout

theorem Turn.first {f : Frame} {x : Exchange} {turnout : Turnout} (hhas : f.Has x)
    (htells : x.Tells turnout) : Turn f [] x turnout :=
  ⟨List.forall_mem_nil _, hhas, htells⟩

theorem Turn.cons {f : Frame} {before : List Exchange} {x y : Exchange} {turnout : Turnout}
    (h : Turn f before x turnout) (hy : f.Keeps y) : Turn f (y :: before) x turnout where
  keeps := List.forall_mem_cons.mpr ⟨hy, h.keeps⟩
  has := h.has
  tells := h.tells

section Turns

variable {crew : Crew σ} {v : Volume} {f : Frame} {refused : Reduction}
variable {rest : List Json → Output → Reduction} {q : Question} {scratch : List (String × Json)}
variable {s : σ} {next : Json → List (String × Json) → Reduction}

end Turns

/-! All passes -/

/-- How the passes from one of them on unfold: the exchanges, and what they lead to. -/
inductive Unfolds (next? : Option String → Option Transformer) (file : String) (limit : Int)
    (v : Volume) : (left index : Nat) → Fingerprint → Transformer → (chain : List (Option String)) →
      List Exchange → Except Failure Artifact → Prop
  | exhausted {index : Nat} {i : Fingerprint} {t : Transformer} {chain : List (Option String)} :
      Unfolds next? file limit v 0 index i t chain []
        (.error (.passLimit file (chain ++ [i.mediaType]) limit))
  | unread {left index : Nat} {i : Fingerprint} {t : Transformer} {chain : List (Option String)}
      {e : Failure} (none : i.source = none)
      (unreadable : v.readTextLossy (Path.ofText file) = .error e) :
      Unfolds next? file limit v (left + 1) index i t chain [] (.error e)
  | last {left index : Nat} {i : Fingerprint} {t : Transformer} {chain : List (Option String)}
      {code : String} {before : List Exchange} {x : Exchange} {turnout : Turnout}
      {r : Except Failure Artifact}
      (turn : Turn ⟨file, t, index, inputType file i, code⟩ before x turnout)
      (concludes : x.Concludes next? file r) :
      Unfolds next? file limit v (left + 1) index i t chain (before ++ [x]) r
  | onward {left index : Nat} {i : Fingerprint} {t t' : Transformer}
      {chain : List (Option String)} {code : String} {before : List Exchange} {x : Exchange}
      {o : Output} {ds : List String} {later : List Exchange} {r : Except Failure Artifact}
      (turn : Turn ⟨file, t, index, inputType file i, code⟩ before x (.made o ds))
      (goes : ¬ Terminal o.mediaType (inputType file i)) (registered : next? o.mediaType = some t')
      (rest : Unfolds next? file limit v left (index + 1)
        (i.withSource (some o.code) o.mediaType) t' (chain ++ [inputType file i]) later r) :
      Unfolds next? file limit v (left + 1) index i t chain (before ++ [x] ++ later) r

section Passes

variable {crew : Crew σ} {next? : Option String → Option Transformer} {file : String} {limit : Int}
variable {v : Volume} {left index : Nat} {i : Fingerprint} {t : Transformer}
variable {chain : List (Option String)} {code : String} {part refused : Reduction}
variable {rest : List Json → Output → Reduction} {s : σ} {xs : List Exchange}
variable {r : Except Failure Artifact}

/-- A pass needs the code of its fingerprint or of its file. -/
theorem Unfolds.of_withSource {next : String → Reduction}
    (h : ∀ code, Unfolds next? file limit v (left + 1) index i t chain
      ((next code).course crew v s).exchanges ((next code).course crew v s).outcome) :
    Unfolds next? file limit v (left + 1) index i t chain
      ((withSource i file next).course crew v s).exchanges
      ((withSource i file next).course crew v s).outcome := by
  unfold withSource
  split
  · exact h _
  · rename_i hsource
    rw [course]
    cases hread : v.readTextLossy (Path.ofText file) with
    | ok text => exact h _
    | error e => exact .unread hsource hread

end Passes

end Reduction
end AssetCompiler
