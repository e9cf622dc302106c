import AssetCompiler.Host.Basic
import AssetCompiler.Proofs.FailedReductions

/-!
Reductions under different limits. Two reductions of one file go the same way until the passes of the one with
the smaller limit are used up: they ask the same questions, write the same notes and end alike, or they part where
the smaller limit is reached, and then what the one with the larger limit has gone through begins with what the
other one has.
-/
namespace AssetCompiler

/-- An outcome that tells of used up passes. -/
def IsUsedUp {α : Type} (r : Except Failure α) : Prop :=
  ∃ file types limit, r = .error (.passLimit file types limit)

/-- Nobody who is asked claims that passes are used up. -/
def Crew.ClaimsNoLimit {σ : Type} (crew : Crew σ) : Prop :=
  ∀ c s, ¬ IsUsedUp (crew.respond c s).1.outcome

theorem not_isUsedUp_ok {α : Type} (a : α) : ¬ IsUsedUp (.ok a : Except Failure α) := by
  rintro ⟨_, _, _, h⟩
  cases h

/-- Transformers that answer for themselves do not claim it either. -/
theorem Crew.ClaimsNoLimit.answer {σ : Type} {crew : Crew σ} (h : crew.ClaimsNoLimit) (c : Call) (s : σ) :
    ¬ IsUsedUp (crew.answer c s).1.outcome := by
  unfold Crew.answer
  split
  · rename_i outcome hown
    unfold Call.ownAnswer? at hown
    split at hown
    · cases hown
    · cases hown
      exact not_isUsedUp_ok _
    · cases hown
      exact not_isUsedUp_ok _
    · cases hown
      exact not_isUsedUp_ok _
    · cases hown
      exact not_isUsedUp_ok _
    · cases hown
      rintro ⟨_, _, _, hused⟩
      cases hused
  · exact h c s

namespace Reduction

/-- Reductions that go the same way for all answers that tell of no used up passes. They part at leaves, if at
all. -/
inductive Parallel (Leaf : Reduction → Reduction → Prop) : Reduction → Reduction → Prop
  | leaf {r r' : Reduction} (parts : Leaf r r') : Parallel Leaf r r'
  | done {outcome : Except Failure Artifact} (ended : ¬ IsUsedUp outcome) :
      Parallel Leaf (.done outcome) (.done outcome)
  | note {c : Log.Context} {e : Log.Event} {r r' : Reduction} (rest : Parallel Leaf r r') :
      Parallel Leaf (.note c e r) (.note c e r')
  | read {file : String} {r r' : Except Failure String → Reduction}
      (rest : ∀ text, ¬ IsUsedUp text → Parallel Leaf (r text) (r' text)) :
      Parallel Leaf (.read file r) (.read file r')
  | ask {c : Call} {r r' : Reply → Reduction}
      (rest : ∀ reply, ¬ IsUsedUp reply.outcome → Parallel Leaf (r reply) (r' reply)) :
      Parallel Leaf (.ask c r) (.ask c r')

section Trees

variable {Leaf : Reduction → Reduction → Prop} {f : Frame} {q : Question}
variable {scratch : List (String × Json)}

theorem not_isUsedUp_blame {α : Type} {file : String} {t : Transformer} {e : Failure}
    (h : ¬ IsUsedUp (.error e : Except Failure Json)) :
    ¬ IsUsedUp (.error (blame file t e) : Except Failure α) := by
  rintro ⟨file', types, limit, hblame⟩
  unfold blame at hblame
  split at hblame
  · exact h ⟨file', types, limit, by rw [Except.error.inj hblame]⟩
  · cases hblame

theorem not_isUsedUp_checked {α : Type} (model : String) (x : Reading α) : ¬ IsUsedUp (x.checked model) := by
  rintro ⟨_, _, _, h⟩
  cases x <;> cases h

theorem Parallel.finish (code type : String) (ds : List Json) :
    Parallel Leaf (finish code type ds) (finish code type ds) :=
  .done (not_isUsedUp_checked _ _)

theorem Parallel.withSource {i : Fingerprint} {file : String} {rest rest' : String → Reduction}
    (h : ∀ code, Parallel Leaf (rest code) (rest' code)) :
    Parallel Leaf (withSource i file rest) (withSource i file rest') := by
  unfold Reduction.withSource
  cases i.source with
  | some code => exact h code
  | none =>
    refine .read fun text htext => ?_
    cases text with
    | ok code => exact h code
    | error e =>
      refine .done fun hused => htext ?_
      obtain ⟨file', types, limit, he⟩ := hused
      exact ⟨file', types, limit, by rw [Except.error.inj he]⟩

theorem Parallel.asking {rest rest' : Json → List (String × Json) → Reduction}
    (h : ∀ v scratch, Parallel Leaf (rest v scratch) (rest' v scratch)) :
    Parallel Leaf (f.asking q scratch rest) (f.asking q scratch rest') := by
  unfold Frame.asking
  refine .ask fun reply hreply => ?_
  cases houtcome : reply.outcome with
  | ok v => exact h v reply.scratch
  | error e => exact .done (not_isUsedUp_blame (houtcome ▸ hreply))

theorem Parallel.withDependencies {known : List Json}
    {rest rest' : List Json → List (String × Json) → Reduction}
    (h : ∀ ds scratch, Parallel Leaf (rest ds scratch) (rest' ds scratch)) :
    Parallel Leaf (f.withDependencies known scratch rest) (f.withDependencies known scratch rest') := by
  unfold Frame.withDependencies
  split
  · refine .asking fun v scratch => ?_
    cases hitems : itemsOf v with
    | ok items => exact h items scratch
    | error e =>
      refine .done ?_
      rintro ⟨_, _, _, he⟩
      unfold itemsOf at hitems
      split at hitems <;> cases hitems
      cases he
  · exact h known scratch

theorem Parallel.withOutput {rest rest' : Output → Reduction}
    (h : ∀ o, Parallel Leaf (rest o) (rest' o)) :
    Parallel Leaf (f.withOutput scratch rest) (f.withOutput scratch rest') := by
  unfold Frame.withOutput
  refine .asking fun v _ => ?_
  cases hread : (Output.read v).checked Output.modelName with
  | ok o => exact h o
  | error e =>
    refine .done (not_isUsedUp_blame fun hused => not_isUsedUp_checked Output.modelName (Output.read v) ?_)
    obtain ⟨file', types, limit, he⟩ := hused
    rw [hread]
    exact ⟨file', types, limit, by rw [Except.error.inj he]⟩

/-- One pass goes the same way under both limits, if what follows it does. -/
theorem Parallel.pass {next? : Option String → Option Transformer} {file : String} {limit limit' : Int}
    {left left' index : Nat} {i : Fingerprint} {t : Transformer} {ds : List Json}
    {chain : List (Option String)}
    (h : ∀ i' t' ds, Parallel Leaf
      (passes next? file limit left (index + 1) i' t' ds (chain ++ [inputType file i]))
      (passes next? file limit' left' (index + 1) i' t' ds (chain ++ [inputType file i]))) :
    Parallel Leaf (passes next? file limit (left + 1) index i t ds chain)
      (passes next? file limit' (left' + 1) index i t ds chain) := by
  unfold passes
  refine .withSource fun code => .asking fun accepted scratch => ?_
  split
  · refine .withDependencies fun ds scratch => .withOutput fun o => ?_
    split
    · exact .finish _ _ _
    · refine .note ?_
      split
      · refine .note (.done ?_)
        rintro ⟨_, _, _, he⟩
        cases he
      · exact h _ _ _
  · exact .note (.finish _ _ _)

end Trees

section Runs

variable {σ : Type} {Leaf : Reduction → Reduction → Prop} {r r' : Reduction} {crew : Crew σ}

/-- Two reductions that go the same way run alike to their common end, or up to related leaves. -/
theorem Parallel.course (h : Parallel Leaf r r') (hclaims : crew.ClaimsNoLimit) (w : World σ) :
    ((r'.run crew).run w = (r.run crew).run w ∧
      r'.course crew w.volume w.tools = r.course crew w.volume w.tools ∧
      ¬ IsUsedUp (r.course crew w.volume w.tools).outcome) ∨
    ∃ q q' s xs, Leaf q q' ∧
      r.course crew w.volume w.tools = (q.course crew w.volume s).after xs ∧
      r'.course crew w.volume w.tools = (q'.course crew w.volume s).after xs := by
  induction h generalizing w with
  | @leaf r r' parts => exact .inr ⟨r, r', w.tools, [], parts, rfl, rfl⟩
  | done ended => exact .inl ⟨rfl, rfl, ended⟩
  | @note c e r r' rest ih =>
    have hrest := ih { w with journal := ⟨c, e⟩ :: w.journal }
    rw [run, run, Action.run_bind_ok (Work.run_note c e w), Action.run_bind_ok (Work.run_note c e w)]
    exact hrest
  | @read file r r' rest ih =>
    have htext : ¬ IsUsedUp ((w.volume.readTextLossy (Path.ofText file)).map String.ofList) := by
      rintro ⟨_, _, _, hused⟩
      cases hread : w.volume.readTextLossy (Path.ofText file) with
      | ok s =>
        rw [hread] at hused
        cases hused
      | error e =>
        rw [hread] at hused
        rcases Volume.readTextLossy_error hread with ⟨issue, rfl⟩ | rfl <;> cases hused
    have hrest := ih _ htext w
    rw [run, run, Action.run_bind_ok (Work.run_outcome _ w), Action.run_bind_ok (Work.run_outcome _ w),
      run_readSource]
    exact hrest
  | @ask c r r' rest ih =>
    rw [run, run, Action.run_bind_ok (run_consult crew c w), Action.run_bind_ok (run_consult crew c w)]
    rcases ih _ (hclaims.answer c w.tools) { w with tools := (crew.answer c w.tools).2 } with
      ⟨hrun, hcourse, hended⟩ | ⟨q, q', s, xs, hleaf, hcourse, hcourse'⟩
    · exact .inl ⟨hrun, congrArg (Course.after _) hcourse, hended⟩
    · refine .inr ⟨q, q', s, ⟨c, (crew.answer c w.tools).1⟩ :: xs, hleaf, ?_, ?_⟩
      · exact (congrArg (Course.after _) hcourse).trans (Course.after_after _ _ _)
      · exact (congrArg (Course.after _) hcourse').trans (Course.after_after _ _ _)

/-- The end where the passes are used up, with what has been gone through before. -/
def EndsBehind (file : String) (limit : Int) (chain : List (Option String)) (r r' : Reduction) : Prop :=
  r' = r ∧ ∃ types, r = .done (.error (.passLimit file (chain ++ types) limit))

/-- What is gone through is only ever added to. -/
theorem parallel_passes_self (next? : Option String → Option Transformer) (file : String) (limit : Int)
    (left index : Nat) (i : Fingerprint) (t : Transformer) (ds : List Json) (chain : List (Option String)) :
    Parallel (EndsBehind file limit chain) (passes next? file limit left index i t ds chain)
      (passes next? file limit left index i t ds chain) := by
  suffices h : ∀ more, Parallel (EndsBehind file limit chain)
      (passes next? file limit left index i t ds (chain ++ more))
      (passes next? file limit left index i t ds (chain ++ more)) by
    simpa using h []
  induction left generalizing index i t ds with
  | zero =>
    intro more
    unfold passes
    exact .leaf ⟨rfl, more ++ [i.mediaType], by rw [List.append_assoc]⟩
  | succ left ih =>
    intro more
    refine .pass fun i' t' ds' => ?_
    rw [List.append_assoc]
    exact ih (index + 1) i' t' ds' _

/-- The place where the passes of the smaller limit are used up. -/
def PartsAt (file : String) (limit limit' : Int) (r r' : Reduction) : Prop :=
  ∃ chain type, chain.length = limit.toNat ∧
    r = .done (.error (.passLimit file (chain ++ [type]) limit)) ∧
    Parallel (EndsBehind file limit' chain) r' r'

theorem parallel_passes (next? : Option String → Option Transformer) (file : String) {limit limit' : Int}
    {left left' index : Nat} (hleft : left ≤ left') {i : Fingerprint} {t : Transformer} {ds : List Json}
    {chain : List (Option String)} (hchain : chain.length + left = limit.toNat) :
    Parallel (PartsAt file limit limit') (passes next? file limit left index i t ds chain)
      (passes next? file limit' left' index i t ds chain) := by
  induction left generalizing left' index i t ds chain with
  | zero =>
    refine .leaf ⟨chain, i.mediaType, hchain, ?_, parallel_passes_self ..⟩
    rw [passes]
  | succ left ih =>
    obtain ⟨left', rfl⟩ : ∃ k, left' = k + 1 := ⟨left' - 1, by omega⟩
    refine .pass fun i' t' ds' => ih (by omega) ?_
    rw [List.length_append, List.length_singleton]
    omega

/-- The end of a run whose passes are used up, behind what has been gone through already. -/
theorem Parallel.usedUp {file : String} {limit : Int} {chain : List (Option String)}
    (h : Parallel (EndsBehind file limit chain) r r) (hclaims : crew.ClaimsNoLimit) (w : World σ) (s : σ)
    (hused : IsUsedUp (r.course crew w.volume s).outcome) :
    ∃ types, (r.course crew w.volume s).outcome = .error (.passLimit file (chain ++ types) limit) := by
  rcases h.course hclaims { w with tools := s } with
    ⟨-, -, hended⟩ | ⟨q, q', s', xs, ⟨-, types, rfl⟩, hcourse, -⟩
  · exact (hended hused).elim
  · refine ⟨types, ?_⟩
    rw [show r.course crew w.volume s = _ from hcourse]
    rfl

end Runs

end Reduction

namespace Host

variable {σ : Type}

/-- The host with another limit of passes. -/
def withPasses (h : Host) (limit : Int) : Host :=
  { h with settings := { h.settings with maxPasses := limit } }

/-- The exchanges of a compilation without a cache. -/
def exchangesAnew (h : Host) (crew : Crew σ) (file : String) (i : Fingerprint) (t : Transformer)
    (w : World σ) : List Reduction.Exchange :=
  ((h.reduction file i t).course crew w.volume w.tools).exchanges

/-- A larger limit of passes only takes away failures of used up passes. Where the smaller limit is enough, the
same is asked, and the same comes out in the same world. Where the larger one is not enough the smaller one is not
either; what its passes have gone through is what those of the larger limit began with. -/
theorem compileUncached_withPasses (h : Host) {crew : Crew σ} (hclaims : crew.ClaimsNoLimit)
    {limit limit' : Int} (hle : limit ≤ limit') (file : String) (i : Fingerprint)
    (t : Transformer) (w : World σ) :
    (¬ IsUsedUp (((h.withPasses limit).compileUncached crew file i t).run w).1 →
      ((h.withPasses limit').compileUncached crew file i t).run w =
        ((h.withPasses limit).compileUncached crew file i t).run w ∧
      (h.withPasses limit').exchangesAnew crew file i t w = (h.withPasses limit).exchangesAnew crew file i t w) ∧
    (IsUsedUp (((h.withPasses limit').compileUncached crew file i t).run w).1 → ∃ types types',
      (((h.withPasses limit).compileUncached crew file i t).run w).1 =
        .error (.passLimit file types limit) ∧
      (((h.withPasses limit').compileUncached crew file i t).run w).1 =
        .error (.passLimit file types' limit') ∧
      types.take limit.toNat = types'.take limit.toNat ∧ types.length = limit.toNat + 1 ∧
      (h.withPasses limit).exchangesAnew crew file i t w <+: (h.withPasses limit').exchangesAnew crew file i t w) := by
  have houtcome : ∀ n, (((h.withPasses n).compileUncached crew file i t).run w).1 =
      (((h.withPasses n).reduction file i t).course crew w.volume w.tools).outcome := by
    intro n
    obtain ⟨journal, hrun⟩ := Reduction.run_eq_course crew ((h.withPasses n).reduction file i t) w
    exact congrArg Prod.fst hrun
  have hparallel : Reduction.Parallel (Reduction.PartsAt file limit limit')
      ((h.withPasses limit).reduction file i t) ((h.withPasses limit').reduction file i t) :=
    Reduction.parallel_passes h.next? file (Int.toNat_le_toNat hle) (Nat.zero_add _)
  unfold exchangesAnew
  rw [houtcome limit, houtcome limit']
  rcases hparallel.course hclaims w with
    ⟨hrun, hcourse, hended⟩ | ⟨q, q', s, xs, ⟨chain, type, hlength, rfl, hbehind⟩, hcourse, hcourse'⟩
  · rw [hcourse]
    exact ⟨fun _ => ⟨hrun, rfl⟩, fun hused => (hended hused).elim⟩
  · rw [hcourse, hcourse']
    refine ⟨fun hended => (hended ⟨file, _, limit, rfl⟩).elim, fun hused => ?_⟩
    obtain ⟨types, htypes⟩ := hbehind.usedUp hclaims w s hused
    refine ⟨chain ++ [type], chain ++ types, rfl, htypes, ?_, ?_, ?_⟩
    · rw [List.take_left' hlength, List.take_left' hlength]
    · rw [List.length_append, hlength, List.length_singleton]
    · exact ⟨(q'.course crew w.volume s).exchanges, by simp [Reduction.course, Reduction.Course.after]⟩

namespace Styles

/-- A style sheet whose text is known. -/
def shortSheet : Fingerprint := ⟨"0a", some "a", some "text/less", false, false, false, false⟩

theorem looping_claimsNoLimit : looping.ClaimsNoLimit := by
  intro c s
  cases hquestion : c.question <;> simp only [looping, crewOf, hquestion] <;> exact not_isUsedUp_ok _

end Styles

open Styles in
/-- A style sheet that is never done uses up two passes as it uses up three, and what the two go through is the
same. -/
theorem looping_withPasses : ∃ types types',
    (((host.withPasses 2).compileUncached looping "/x.less" shortSheet loop).run world).1 =
      .error (.passLimit "/x.less" types 2) ∧
    (((host.withPasses 3).compileUncached looping "/x.less" shortSheet loop).run world).1 =
      .error (.passLimit "/x.less" types' 3) ∧
    types.take 2 = types'.take 2 ∧ types.length = 3 := by
  have hused : IsUsedUp
      (((host.withPasses 3).compileUncached looping "/x.less" shortSheet loop).run world).1 :=
    ⟨"/x.less", [some "text/less", some "text/less", some "text/less", some "text/less"], 3,
      eq_passLimit (by decide)⟩
  obtain ⟨-, hpart⟩ := compileUncached_withPasses host looping_claimsNoLimit (show (2 : Int) ≤ 3 by decide)
    "/x.less" shortSheet loop world
  obtain ⟨types, types', htypes, htypes', hsame, hlength, -⟩ := hpart hused
  exact ⟨types, types', htypes, htypes', hsame, hlength⟩

end Host
end AssetCompiler
