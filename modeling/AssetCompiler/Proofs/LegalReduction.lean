import AssetCompiler.Host.Basic
import AssetCompiler.Proofs.Action
import AssetCompiler.Proofs.Reading
import Mathlib.Tactic.Common

/-!
Legal reductions. A reduction that succeeds is a row of passes, each working on what the one before
it made, and every such row that the crew's answers allow is what the reduction does. The row is
described on its own, by its passes and the states of the crew between them.
-/
namespace AssetCompiler.Reduction

variable {σ : Type}

/-- How a pass ends: its transformer declines the input, or makes an output of it. -/
inductive Ending
  | declined
  | made (output : Output)

/-- One pass: who works on which code, under which media type, and how it ends. -/
structure PassRecord where
  transformer : Transformer
  input : Option String
  code : String
  ending : Ending

def PassRecord.frame (p : PassRecord) (file : String) (index : Nat) : Frame :=
  ⟨file, p.transformer, index, p.input, p.code⟩

/-- A final form, unless it is HTML made from something else. -/
def Terminal (output input : Option String) : Prop :=
  ∃ m ∈ MediaType.finalForms, output = some m ∧ (m = MediaType.html → input = some MediaType.html)

/-- A media type, or the one that the path shows where there is none. -/
def effectiveType (file : String) : Option String → Option String
  | some m => if m.isEmpty then MediaType.ofPath (Path.ofText file) else some m
  | none => MediaType.ofPath (Path.ofText file)

/-- The code that the first pass works on: what the fingerprint carries, else the file's text. -/
inductive Source (v : Volume) (file : String) (i : Fingerprint) : String → Prop
  | carried (code : String) (given : i.source = some code) : Source v file i code
  | text (s : List Char) (none : i.source = none)
      (found : v.readTextLossy (Path.ofText file) = .ok s) : Source v file i (String.ofList s)

/-- Dependencies are asked for in the first pass only. The crew goes from the state `s` to another
one, and the scratch values with it. -/
inductive Lists (crew : Crew σ) (f : Frame) (scratch : List (String × Json)) (s : σ) :
    List Json → List (String × Json) → σ → Prop
  | first (v : Json) (items : List Json) (scratch' : List (String × Json)) (s' : σ)
      (index : f.index = 0)
      (answer : crew.answer (f.call .dependencies scratch) s = (⟨.ok v, scratch'⟩, s'))
      (listed : itemsOf v = .ok items) : Lists crew f scratch s items scratch' s'
  | later (index : f.index ≠ 0) : Lists crew f scratch s [] scratch s

/-- The crew's answers carry a pass to its recorded ending, and its scratch values go from question
to question. -/
inductive Answers (crew : Crew σ) (file : String) (index : Nat) (p : PassRecord) (s : σ) :
    List Json → σ → Prop
  | declined (v : Json) (scratch : List (String × Json)) (s' : σ)
      (answer : crew.answer ((p.frame file index).call .accepts []) s = (⟨.ok v, scratch⟩, s'))
      (refused : v.isTruthy = false) (ending : p.ending = .declined) :
      Answers crew file index p s [] s'
  | made (v v' : Json) (o : Output) (items : List Json)
      (scratch scratch' scratch'' : List (String × Json)) (s₁ s₂ s₃ : σ)
      (answer : crew.answer ((p.frame file index).call .accepts []) s = (⟨.ok v, scratch⟩, s₁))
      (taken : v.isTruthy = true)
      (lists : Lists crew (p.frame file index) scratch s₁ items scratch' s₂)
      (answer' : crew.answer ((p.frame file index).call .transform scratch') s₂ =
        (⟨.ok v', scratch''⟩, s₃))
      (output : Output.read v' = .ok o) (ending : p.ending = .made o) :
      Answers crew file index p s items s₃

/-- The second pass takes up what the first one made, which must not be terminal. -/
def Leads (next? : Option String → Option Transformer) (file : String) (p q : PassRecord) : Prop :=
  ∃ o t, p.ending = .made o ∧ ¬ Terminal o.mediaType p.input ∧ next? o.mediaType = some t ∧
    q.transformer = t ∧ q.code = o.code ∧ q.input = effectiveType file o.mediaType

/-- The result of a row whose last pass is `p`. -/
def Ends (p : PassRecord) (c : Content) : Prop :=
  (p.ending = .declined ∧ c = ⟨p.code, p.input.getD MediaType.plainText⟩) ∨
  ∃ o m, p.ending = .made o ∧ o.mediaType = some m ∧ Terminal o.mediaType p.input ∧
    c = ⟨o.code, m⟩

/-- A legal row of passes: `pass k` for `k ≤ n`, numbered from `index` on, with the crew in
`state k` before it. `ds` are the dependencies that the pass with number zero lists. -/
structure Legal (crew : Crew σ) (next? : Option String → Option Transformer) (file : String)
    (index : Nat) (n : Nat) (pass : Nat → PassRecord) (state : Nat → σ) (ds : List String)
    (c : Content) : Prop where
  answered : ∀ k ≤ n, Answers crew file (index + k) (pass k) (state k)
    (if index + k = 0 then ds.map .str else []) (state (k + 1))
  leads : ∀ k < n, Leads next? file (pass k) (pass (k + 1))
  ends : Ends (pass n) c

/-- A pass that takes up a file with a fingerprint: the transformer is given, and the code and its
type are those of the fingerprint or of the file. -/
structure Takes (v : Volume) (file : String) (i : Fingerprint) (t : Transformer)
    (p : PassRecord) : Prop where
  transformer : p.transformer = t
  source : Source v file i p.code
  input : p.input = effectiveType file i.mediaType

/-- A sequence with one more member before it. -/
def prepend {α : Type} (x : α) (f : Nat → α) : Nat → α
  | 0 => x
  | k + 1 => f k

theorem isTerminal_iff (output input : Option String) :
    isTerminal output input = true ↔ Terminal output input := by
  unfold isTerminal Terminal
  cases output with
  | none => simp [MediaType.isFinal]
  | some m =>
    simp only [MediaType.isFinal, List.contains_eq_mem, Bool.and_eq_true, decide_eq_true_eq,
      Bool.not_eq_true', Bool.and_eq_false_iff, beq_eq_false_iff_ne, bne_eq_false_iff_eq,
      ne_eq, Option.some.injEq]
    constructor
    · rintro ⟨hm, hhtml⟩
      exact ⟨m, hm, rfl, fun heq => hhtml.resolve_left (fun hne => hne heq)⟩
    · rintro ⟨m', hm, rfl, hhtml⟩
      refine ⟨hm, ?_⟩
      by_cases heq : m = MediaType.html
      · exact Or.inr (hhtml heq)
      · exact Or.inl heq

theorem inputType_eq (file : String) (i : Fingerprint) :
    inputType file i = effectiveType file i.mediaType := rfl

/-! What a reduction yields: its result and the state in which it leaves the crew. -/

/-- The reduction succeeds with a result and leaves the crew in a state. -/
def Yields (crew : Crew σ) (r : Reduction) (w : World σ) (a : Artifact) (s : σ) : Prop :=
  ∃ w', (r.run crew).run w = (.ok a, w') ∧ w'.tools = s

theorem yields_done (crew : Crew σ) (outcome : Except Failure Artifact) (w : World σ)
    (a : Artifact) (s : σ) :
    Yields crew (.done outcome) w a s ↔ outcome = .ok a ∧ w.tools = s := by
  unfold Yields
  rw [run, Work.run_lift]
  constructor
  · rintro ⟨w', hrun, htools⟩
    cases hrun
    exact ⟨rfl, htools⟩
  · rintro ⟨rfl, htools⟩
    exact ⟨w, rfl, htools⟩

theorem yields_note (crew : Crew σ) (c : Log.Context) (e : Log.Event) (r : Reduction)
    (w : World σ) (a : Artifact) (s : σ) :
    Yields crew (.note c e r) w a s ↔
      Yields crew r { w with journal := ⟨c, e⟩ :: w.journal } a s := by
  unfold Yields
  rw [run, Action.run_bind_ok (Work.run_note c e w)]

theorem run_readSource (file : String) (w : World σ) :
    (readSource file).run w =
      ((w.volume.readTextLossy (Path.ofText file)).map String.ofList, w) := by
  unfold readSource
  rw [Action.run_bind, Work.run_look]
  cases w.volume.readTextLossy (Path.ofText file) <;> rfl

theorem yields_read (crew : Crew σ) (file : String) (rest : Except Failure String → Reduction)
    (w : World σ) (a : Artifact) (s : σ) :
    Yields crew (.read file rest) w a s ↔
      Yields crew (rest ((w.volume.readTextLossy (Path.ofText file)).map String.ofList)) w a s := by
  unfold Yields
  rw [run, Action.run_bind_ok (Work.run_outcome _ w), run_readSource]

theorem yields_withSource (crew : Crew σ) (i : Fingerprint) (file : String)
    (rest : String → Reduction) (w : World σ) (a : Artifact) (s : σ) :
    Yields crew (withSource i file rest) w a s ↔
      ∃ code, Source w.volume file i code ∧ Yields crew (rest code) w a s := by
  unfold withSource
  cases hsource : i.source with
  | some code =>
    constructor
    · intro h
      exact ⟨code, .carried code hsource, h⟩
    · rintro ⟨code', hcode, h⟩
      cases hcode with
      | carried _ hgiven =>
        cases hsource.symm.trans hgiven
        exact h
      | text _ hnone _ => cases hsource.symm.trans hnone
  | none =>
    simp only [yields_read]
    cases hread : w.volume.readTextLossy (Path.ofText file) with
    | ok text =>
      constructor
      · intro h
        exact ⟨_, .text text hsource hread, h⟩
      · rintro ⟨code', hcode, h⟩
        cases hcode with
        | carried _ hgiven => cases hsource.symm.trans hgiven
        | text text' _ hfound =>
          cases hread.symm.trans hfound
          exact h
    | error e =>
      constructor
      · intro h
        cases ((yields_done crew (.error e) w a s).mp h).1
      · rintro ⟨code', hcode, _⟩
        cases hcode with
        | carried _ hgiven => cases hsource.symm.trans hgiven
        | text text' _ hfound => cases hread.symm.trans hfound

theorem run_consult (crew : Crew σ) (c : Call) (w : World σ) :
    (consult crew c).run w =
      (.ok (crew.answer c w.tools).1, { w with tools := (crew.answer c w.tools).2 }) := rfl

theorem yields_asking (crew : Crew σ) (f : Frame) (q : Question) (scratch : List (String × Json))
    (rest : Json → List (String × Json) → Reduction) (w : World σ) (a : Artifact) (s : σ) :
    Yields crew (f.asking q scratch rest) w a s ↔
      ∃ v scratch' s', crew.answer (f.call q scratch) w.tools = (⟨.ok v, scratch'⟩, s') ∧
        Yields crew (rest v scratch') { w with tools := s' } a s := by
  have hask : ∀ k : Reply → Reduction, Yields crew (.ask (f.call q scratch) k) w a s ↔
      Yields crew (k (crew.answer (f.call q scratch) w.tools).1)
        { w with tools := (crew.answer (f.call q scratch) w.tools).2 } a s := by
    intro k
    unfold Yields
    rw [run, Action.run_bind_ok (run_consult crew _ w)]
  unfold Frame.asking
  rw [hask]
  rcases hanswer : crew.answer (f.call q scratch) w.tools with ⟨⟨outcome, scratch'⟩, s'⟩
  cases outcome with
  | error e =>
    constructor
    · intro h
      cases ((yields_done crew _ _ a s).mp h).1
    · rintro ⟨v, scratch'', s'', heq, _⟩
      cases heq
  | ok v =>
    constructor
    · intro h
      exact ⟨v, scratch', s', rfl, h⟩
    · rintro ⟨v', scratch'', s'', heq, h⟩
      cases heq
      exact h

theorem yields_finish (crew : Crew σ) (code mediaType : String) (dependencies : List Json)
    (w : World σ) (a : Artifact) (s : σ) :
    Yields crew (finish code mediaType dependencies) w a s ↔
      ∃ ds, dependencies = ds.map .str ∧ a = Artifact.ofContent code mediaType ds ∧
        w.tools = s := by
  unfold finish
  rw [yields_done, Reading.checked_eq_ok, Reading.map_eq_ok]
  constructor
  · rintro ⟨⟨ds, hds, rfl⟩, htools⟩
    rw [Reading.within_eq_ok, Schema.list, Schema.itemsFrom_text_eq_ok] at hds
    exact ⟨ds, hds, rfl, htools⟩
  · rintro ⟨ds, hds, rfl, htools⟩
    refine ⟨⟨ds, ?_, rfl⟩, htools⟩
    rw [Reading.within_eq_ok, Schema.list, Schema.itemsFrom_text_eq_ok]
    exact hds

theorem yields_withDependencies (crew : Crew σ) (f : Frame) (known : List Json)
    (scratch : List (String × Json)) (rest : List Json → List (String × Json) → Reduction)
    (w : World σ) (a : Artifact) (s : σ) :
    Yields crew (f.withDependencies known scratch rest) w a s ↔
      ∃ items scratch' s', Lists crew f scratch w.tools items scratch' s' ∧
        Yields crew (rest (if f.index = 0 then items else known) scratch')
          { w with tools := s' } a s := by
  unfold Frame.withDependencies
  by_cases hindex : f.index = 0
  · simp only [hindex, if_true]
    rw [yields_asking]
    constructor
    · rintro ⟨v, scratch', s', hanswer, h⟩
      cases hitems : itemsOf v with
      | ok items =>
        rw [hitems] at h
        exact ⟨items, scratch', s', .first v items scratch' s' hindex hanswer hitems, h⟩
      | error e =>
        rw [hitems] at h
        cases ((yields_done crew _ _ a s).mp h).1
    · rintro ⟨items, scratch', s', hlists, h⟩
      cases hlists with
      | first v _ _ _ _ hanswer hitems =>
        refine ⟨v, scratch', s', hanswer, ?_⟩
        rw [hitems]
        exact h
      | later hne => exact absurd hindex hne
  · simp only [hindex, if_false]
    constructor
    · intro h
      exact ⟨[], scratch, w.tools, .later hindex, h⟩
    · rintro ⟨items, scratch', s', hlists, h⟩
      cases hlists with
      | first _ _ _ _ heq _ _ => exact absurd heq hindex
      | later _ => exact h

theorem yields_withOutput (crew : Crew σ) (f : Frame) (scratch : List (String × Json))
    (rest : Output → Reduction) (w : World σ) (a : Artifact) (s : σ) :
    Yields crew (f.withOutput scratch rest) w a s ↔
      ∃ v o scratch' s', crew.answer (f.call .transform scratch) w.tools =
        (⟨.ok v, scratch'⟩, s') ∧ Output.read v = .ok o ∧
        Yields crew (rest o) { w with tools := s' } a s := by
  unfold Frame.withOutput
  rw [yields_asking]
  constructor
  · rintro ⟨v, scratch', s', hanswer, h⟩
    cases hread : (Output.read v).checked Output.modelName with
    | ok o =>
      rw [hread] at h
      exact ⟨v, o, scratch', s', hanswer, Reading.checked_eq_ok.mp hread, h⟩
    | error e =>
      rw [hread] at h
      cases ((yields_done crew _ _ a s).mp h).1
  · rintro ⟨v, o, scratch', s', hanswer, hread, h⟩
    refine ⟨v, scratch', s', hanswer, ?_⟩
    rw [Reading.checked_eq_ok.mpr hread]
    exact h

/-- What follows an output: the end if it is terminal, else the pass of the transformer that its
type names. -/
theorem yields_afterOutput (crew : Crew σ) (next? : Option String → Option Transformer)
    (file : String) (o : Output) (input : Option String)
    (deps : List Json) (rest : Option String → Transformer → Reduction) (w : World σ)
    (a : Artifact) (s : σ) :
    Yields crew (match isTerminal o.mediaType input, o.mediaType with
      | true, some type => finish o.code type deps
      | _, type =>
        .note Log.Context.none (.goingOn file type) <|
          match next? type with
          | none => .note Log.Context.none (.stuck o) (.done (.error (.unhandledType file type)))
          | some t' => rest type t') w a s ↔
      (∃ m ds, o.mediaType = some m ∧ Terminal o.mediaType input ∧ deps = ds.map .str ∧
        a = Artifact.ofContent o.code m ds ∧ w.tools = s) ∨
      (¬ Terminal o.mediaType input ∧ ∃ t', next? o.mediaType = some t' ∧
        Yields crew (rest o.mediaType t') { w with journal :=
          ⟨Log.Context.none, .goingOn file o.mediaType⟩ :: w.journal } a s) := by
  by_cases hterminal : Terminal o.mediaType input
  · obtain ⟨m, hm, htype, hhtml⟩ := hterminal
    have hbool : isTerminal (some m) input = true :=
      (isTerminal_iff _ _).mpr ⟨m, hm, rfl, hhtml⟩
    simp only [htype, hbool, yields_finish, Option.some.injEq]
    constructor
    · rintro ⟨ds, hds, ha, hs⟩
      exact Or.inl ⟨m, ds, rfl, ⟨m, hm, rfl, hhtml⟩, hds, ha, hs⟩
    · rintro (⟨m', ds, rfl, _, hds, ha, hs⟩ | ⟨hnot, _⟩)
      · exact ⟨ds, hds, ha, hs⟩
      · exact absurd ⟨m, hm, rfl, hhtml⟩ hnot
  · have hbool : isTerminal o.mediaType input = false := by
      rw [Bool.eq_false_iff]
      exact fun h => hterminal ((isTerminal_iff _ _).mp h)
    simp only [hbool, yields_note, hterminal, not_false_iff, true_and, false_and, and_false,
      exists_false, false_or]
    cases hnext : next? o.mediaType with
    | none =>
      simp only [yields_note, yields_done, reduceCtorEq, false_and, exists_false]
    | some t' =>
      simp only [Option.some.injEq, exists_eq_left']

variable {next? : Option String → Option Transformer} {file : String} {limit : Int}

/-- One pass, seen by the answers that carry it and by what it leaves to do. -/
theorem yields_passes_succ (crew : Crew σ) (left index : Nat) (i : Fingerprint) (t : Transformer)
    (known : List Json) (chain : List (Option String)) (w : World σ) (a : Artifact) (s : σ) :
    Yields crew (passes next? file limit (left + 1) index i t known chain) w a s ↔
      ∃ code, Source w.volume file i code ∧
        ((∃ s', Answers crew file index ⟨t, inputType file i, code, .declined⟩ w.tools [] s' ∧
          ∃ ds, known = ds.map .str ∧ s' = s ∧
            a = Artifact.ofContent code ((inputType file i).getD MediaType.plainText) ds) ∨
        ∃ o items s', Answers crew file index ⟨t, inputType file i, code, .made o⟩ w.tools items s' ∧
          ((∃ m ds, o.mediaType = some m ∧ Terminal o.mediaType (inputType file i) ∧
            (if index = 0 then items else known) = ds.map .str ∧
            a = Artifact.ofContent o.code m ds ∧ s' = s) ∨
          (¬ Terminal o.mediaType (inputType file i) ∧ ∃ t', next? o.mediaType = some t' ∧
            Yields crew (passes next? file limit left (index + 1)
              (i.withSource (some o.code) o.mediaType) t'
              (if index = 0 then items else known) (chain ++ [inputType file i]))
              { w with tools := s', journal :=
                ⟨Log.Context.none, .goingOn file o.mediaType⟩ :: w.journal } a s))) := by
  rw [passes, yields_withSource]
  refine exists_congr fun code => and_congr_right fun _ => ?_
  rw [yields_asking]
  constructor
  · rintro ⟨v, scratch, s₁, hanswer, h⟩
    cases htaken : v.isTruthy with
    | false =>
      rw [htaken] at h
      simp only [Bool.false_eq_true, if_false, yields_note, yields_finish] at h
      obtain ⟨ds, hds, ha, hs⟩ := h
      exact Or.inl ⟨s₁, .declined v scratch s₁ hanswer htaken rfl, ds, hds, hs, ha⟩
    | true =>
      rw [htaken] at h
      simp only [if_true] at h
      rw [yields_withDependencies] at h
      obtain ⟨items, scratch', s₂, hlists, h⟩ := h
      rw [yields_withOutput] at h
      obtain ⟨v', o, scratch'', s₃, hanswer', hread, h⟩ := h
      refine Or.inr ⟨o, items, s₃, .made v v' o items scratch scratch' scratch'' s₁ s₂ s₃ hanswer
        htaken hlists hanswer' hread rfl, ?_⟩
      exact (yields_afterOutput crew next? file o (inputType file i)
        (if index = 0 then items else known)
        (fun m t' => passes next? file limit left (index + 1)
          (i.withSource (some o.code) m) t' (if index = 0 then items else known)
          (chain ++ [inputType file i])) { w with tools := s₃ } a s).mp h
  · rintro (⟨s', hanswers, ds, hds, rfl, ha⟩ | ⟨o, items, s', hanswers, h⟩)
    · cases hanswers with
      | declined v scratch _ hanswer hrefused _ =>
        refine ⟨v, scratch, s', hanswer, ?_⟩
        simp only [hrefused, Bool.false_eq_true, if_false, yields_note, yields_finish]
        exact ⟨ds, hds, ha, trivial⟩
      | made _ _ _ _ _ _ _ _ _ _ _ _ _ _ _ hending => cases hending
    · cases hanswers with
      | declined _ _ _ _ _ hending => cases hending
      | made v v' o' _ scratch scratch' scratch'' s₁ s₂ _ hanswer htaken hlists hanswer' hread
          hending =>
        cases hending
        refine ⟨v, scratch, s₁, hanswer, ?_⟩
        simp only [htaken, if_true]
        rw [yields_withDependencies]
        refine ⟨items, scratch', s₂, hlists, ?_⟩
        rw [yields_withOutput]
        refine ⟨v', o, scratch'', s', hanswer', hread, ?_⟩
        exact (yields_afterOutput crew next? file o (inputType file i)
          (if index = 0 then items else known)
          (fun m t' => passes next? file limit left (index + 1)
            (i.withSource (some o.code) m) t' (if index = 0 then items else known)
            (chain ++ [inputType file i])) { w with tools := s' } a s).mpr h

/-! Rows of passes, taken apart and put together at their first pass. -/

section Rows

variable {crew : Crew σ} {next? : Option String → Option Transformer} {file : String}
variable {index n : Nat} {p : PassRecord} {pass : Nat → PassRecord} {s : σ} {state : Nat → σ}
variable {ds : List String} {c : Content}

/-- A pass that ends the work is a legal row by itself. -/
theorem Legal.single {s' : σ}
    (answers : Answers crew file index p s (if index = 0 then ds.map .str else []) s')
    (ends : Ends p c) :
    Legal crew next? file index 0 (fun _ => p) (prepend s fun _ => s') ds c where
  answered := by
    intro k hk
    obtain rfl : k = 0 := by omega
    exact answers
  leads := by
    intro k hk
    omega
  ends := ends

/-- A pass that leads to a legal row makes a legal row with it. -/
theorem Legal.cons
    (answers : Answers crew file index p s (if index = 0 then ds.map .str else []) (state 0))
    (leads : Leads next? file p (pass 0))
    (legal : Legal crew next? file (index + 1) n pass state ds c) :
    Legal crew next? file index (n + 1) (prepend p pass) (prepend s state) ds c where
  answered := by
    intro k hk
    cases k with
    | zero => exact answers
    | succ k =>
      have h := legal.answered k (by omega)
      rw [show index + (k + 1) = index + 1 + k by omega]
      exact h
  leads := by
    intro k hk
    cases k with
    | zero => exact leads
    | succ k => exact legal.leads k (by omega)
  ends := legal.ends

/-- A row that begins later lists no dependencies. -/
theorem Legal.relist {ds' : List String} (legal : Legal crew next? file (index + 1) n pass state ds c) :
    Legal crew next? file (index + 1) n pass state ds' c where
  answered := by
    intro k hk
    have h := legal.answered k hk
    rw [if_neg (by omega)] at h ⊢
    exact h
  leads := legal.leads
  ends := legal.ends

/-- What follows the first pass of a legal row is one. -/
theorem Legal.tail (legal : Legal crew next? file index (n + 1) pass state ds c) :
    Legal crew next? file (index + 1) n (fun k => pass (k + 1)) (fun k => state (k + 1)) ds c where
  answered := by
    intro k hk
    have h := legal.answered (k + 1) (by omega)
    rw [show index + (k + 1) = index + 1 + k by omega] at h
    exact h
  leads := fun k hk => legal.leads (k + 1) (by omega)
  ends := legal.ends

end Rows

theorem source_withSource_iff (v : Volume) (file : String) (i : Fingerprint) (code code' : String)
    (m : Option String) : Source v file (i.withSource (some code) m) code' ↔ code' = code := by
  constructor
  · intro h
    cases h with
    | carried _ hgiven =>
      cases hgiven
      rfl
    | text _ hnone _ => cases hnone
  · rintro rfl
    exact .carried code' rfl

theorem leads_iff_takes (v : Volume) (file : String) (i : Fingerprint) (p q : PassRecord)
    (o : Output) (hmade : p.ending = .made o) :
    Leads next? file p q ↔ ¬ Terminal o.mediaType p.input ∧ ∃ t, next? o.mediaType = some t ∧
      Takes v file (i.withSource (some o.code) o.mediaType) t q := by
  constructor
  · rintro ⟨o', t, hmade', hgoes, hnext, htransformer, hcode, hinput⟩
    cases hmade.symm.trans hmade'
    exact ⟨hgoes, t, hnext, htransformer, (source_withSource_iff v file i o.code q.code _).mpr hcode,
      hinput⟩
  · rintro ⟨hgoes, t, hnext, htakes⟩
    exact ⟨o, t, hmade, hgoes, hnext, htakes.transformer,
      (source_withSource_iff v file i o.code q.code _).mp htakes.source, htakes.input⟩

/-- A successful end of the passes from `index` on, seen as a row of passes. `known` are the
dependencies that were listed before. -/
def Row (crew : Crew σ) (next? : Option String → Option Transformer) (file : String)
    (left index : Nat) (i : Fingerprint) (t : Transformer) (known : List Json) (v : Volume)
    (s₀ : σ) (a : Artifact) (s : σ) : Prop :=
  ∃ n pass state ds ks c, n < left ∧ Takes v file i t (pass 0) ∧ state 0 = s₀ ∧
    state (n + 1) = s ∧ Legal crew next? file index n pass state ds c ∧
    (if index = 0 then ds.map .str else known) = ks.map .str ∧
    a = Artifact.ofContent c.code c.mediaType ks

theorem row_of_declined {crew : Crew σ} {left index : Nat} {i : Fingerprint} {t : Transformer}
    {known : List Json} {v : Volume} {s₀ s : σ} {code : String} {ks : List String}
    (hfirst : index = 0 → known = []) (hsource : Source v file i code)
    (hanswers : Answers crew file index ⟨t, inputType file i, code, .declined⟩ s₀ [] s)
    (hknown : known = ks.map .str) :
    Row crew next? file (left + 1) index i t known v s₀
      (Artifact.ofContent code ((inputType file i).getD MediaType.plainText) ks) s := by
  have hlist : (if index = 0 then ([] : List String).map Json.str else []) = [] := by
    split <;> rfl
  refine ⟨0, _, _, [], ks, ⟨code, (inputType file i).getD MediaType.plainText⟩, by omega,
    ⟨rfl, hsource, rfl⟩, rfl, rfl, Legal.single (hlist ▸ hanswers) (.inl ⟨rfl, rfl⟩), ?_, rfl⟩
  split
  · rename_i hindex
    rw [← hknown, hfirst hindex]
    rfl
  · exact hknown

theorem answers_later_items {crew : Crew σ} {index : Nat} {p : PassRecord} {s s' : σ}
    {items : List Json} (hanswers : Answers crew file index p s items s') (hindex : index ≠ 0) :
    items = [] := by
  cases hanswers with
  | declined => rfl
  | made _ _ _ _ _ _ _ _ _ _ _ _ hlists _ _ _ =>
    cases hlists with
    | first _ _ _ _ heq _ _ => exact absurd heq hindex
    | later _ => rfl

theorem answers_declined_items {crew : Crew σ} {index : Nat} {p : PassRecord} {s s' : σ}
    {items : List Json} (hanswers : Answers crew file index p s items s')
    (hending : p.ending = .declined) : items = [] := by
  cases hanswers with
  | declined => rfl
  | made _ _ _ _ _ _ _ _ _ _ _ _ _ _ _ hmade => cases hending.symm.trans hmade

theorem answers_items_eq {crew : Crew σ} {index : Nat} {p : PassRecord} {s s' : σ}
    {items known : List Json} {ks : List String}
    (hanswers : Answers crew file index p s items s')
    (hlist : (if index = 0 then items else known) = ks.map .str) :
    ∃ ds : List String, items = (if index = 0 then ds.map .str else []) ∧
      (if index = 0 then ds.map .str else known) = ks.map .str := by
  by_cases hindex : index = 0
  · rw [if_pos hindex] at hlist
    refine ⟨ks, ?_, ?_⟩
    · rw [if_pos hindex, hlist]
    · rw [if_pos hindex]
  · rw [if_neg hindex] at hlist
    refine ⟨[], ?_, ?_⟩
    · rw [if_neg hindex]
      exact answers_later_items hanswers hindex
    · rw [if_neg hindex, hlist]

theorem row_of_terminal {crew : Crew σ} {left index : Nat} {i : Fingerprint} {t : Transformer}
    {known items : List Json} {v : Volume} {s₀ s : σ} {code m : String} {o : Output}
    {ks : List String} (hsource : Source v file i code)
    (hanswers : Answers crew file index ⟨t, inputType file i, code, .made o⟩ s₀ items s)
    (htype : o.mediaType = some m) (hterminal : Terminal o.mediaType (inputType file i))
    (hlist : (if index = 0 then items else known) = ks.map .str) :
    Row crew next? file (left + 1) index i t known v s₀ (Artifact.ofContent o.code m ks) s := by
  obtain ⟨ds, hitems, hks⟩ := answers_items_eq hanswers hlist
  exact ⟨0, _, _, ds, ks, ⟨o.code, m⟩, by omega, ⟨rfl, hsource, rfl⟩, rfl, rfl,
    Legal.single (hitems ▸ hanswers) (.inr ⟨o, m, rfl, htype, hterminal, rfl⟩), hks, rfl⟩

theorem row_of_later {crew : Crew σ} {left index : Nat} {i : Fingerprint} {t t' : Transformer}
    {known items : List Json} {v : Volume} {s₀ s₁ s : σ} {code : String} {o : Output}
    {a : Artifact} (hsource : Source v file i code)
    (hanswers : Answers crew file index ⟨t, inputType file i, code, .made o⟩ s₀ items s₁)
    (hgoes : ¬ Terminal o.mediaType (inputType file i)) (hnext : next? o.mediaType = some t')
    (hrow : Row crew next? file left (index + 1) (i.withSource (some o.code) o.mediaType) t'
      (if index = 0 then items else known) v s₁ a s) :
    Row crew next? file (left + 1) index i t known v s₀ a s := by
  obtain ⟨n, pass, state, ds', ks, c, hn, htakes, hstart, hend, hlegal, hlist, ha⟩ := hrow
  rw [if_neg (by omega)] at hlist
  obtain ⟨ds, hitems, hks⟩ := answers_items_eq hanswers hlist
  have hleads : Leads next? file ⟨t, inputType file i, code, .made o⟩ (pass 0) :=
    (leads_iff_takes v file i _ _ o rfl).mpr ⟨hgoes, t', hnext, htakes⟩
  refine ⟨n + 1, prepend ⟨t, inputType file i, code, .made o⟩ pass, prepend s₀ state, ds, ks, c,
    by omega, ⟨rfl, hsource, rfl⟩, rfl, hend, ?_, hks, ha⟩
  exact Legal.cons (hstart ▸ hitems ▸ hanswers) hleads hlegal.relist

/-- The passes yield a result exactly if a row of passes leads to it. -/
theorem yields_passes_iff (crew : Crew σ) (left index : Nat) (i : Fingerprint) (t : Transformer)
    (known : List Json) (chain : List (Option String)) (w : World σ) (a : Artifact) (s : σ)
    (hfirst : index = 0 → known = []) :
    Yields crew (passes next? file limit left index i t known chain) w a s ↔
      Row crew next? file left index i t known w.volume w.tools a s := by
  induction left generalizing index i t known chain w with
  | zero =>
    rw [passes, yields_done]
    constructor
    · rintro ⟨h, _⟩
      cases h
    · rintro ⟨n, _, _, _, _, _, hn, _⟩
      omega
  | succ left ih =>
    rw [yields_passes_succ]
    constructor
    · rintro ⟨code, hsource, ⟨s', hanswers, ks, hknown, rfl, rfl⟩ |
        ⟨o, items, s', hanswers, ⟨m, ks, htype, hterminal, hlist, rfl, rfl⟩ |
          ⟨hgoes, t', hnext, hyields⟩⟩⟩
      · exact row_of_declined hfirst hsource hanswers hknown
      · exact row_of_terminal hsource hanswers htype hterminal hlist
      · exact row_of_later hsource hanswers hgoes hnext
          ((ih _ _ _ _ _ _ (by omega)).mp hyields)
    · rintro ⟨n, pass, state, ds, ks, c, hn, htakes, hstart, hend, hlegal, hlist, rfl⟩
      refine ⟨(pass 0).code, htakes.source, ?_⟩
      have hanswers : Answers crew file index (pass 0) w.tools
          (if index = 0 then ds.map .str else []) (state 1) :=
        hstart ▸ hlegal.answered 0 (by omega)
      have hshape : ∀ e, (pass 0).ending = e →
          pass 0 = ⟨t, inputType file i, (pass 0).code, e⟩ := by
        intro e he
        rw [← htakes.transformer, inputType_eq, ← htakes.input, ← he]
      have hitems : (if index = 0 then (if index = 0 then ds.map .str else []) else known) =
          ks.map .str := by
        rw [← hlist]
        split <;> rfl
      cases n with
      | zero =>
        rcases hlegal.ends with ⟨hdeclined, rfl⟩ | ⟨o, m, hmade, htype, hterminal, rfl⟩
        · have hnone := answers_declined_items hanswers hdeclined
          have hknown : known = ks.map .str := by
            by_cases hindex : index = 0
            · rw [if_pos hindex] at hlist hnone
              rw [hfirst hindex, ← hlist, hnone]
            · rw [if_neg hindex] at hlist
              exact hlist
          rw [hshape _ hdeclined, hnone] at hanswers
          refine .inl ⟨s, hend ▸ hanswers, ks, hknown, rfl, ?_⟩
          rw [inputType_eq, ← htakes.input]
        · rw [hshape _ hmade] at hanswers hterminal
          exact .inr ⟨o, _, s, hend ▸ hanswers, .inl ⟨m, ks, htype, hterminal, hitems, rfl, rfl⟩⟩
      | succ n =>
        obtain ⟨o, t', hmade, hleads⟩ := hlegal.leads 0 (by omega)
        obtain ⟨hgoes, t'', hnext, htakes'⟩ :=
          (leads_iff_takes w.volume file i (pass 0) (pass 1) o hmade).mp ⟨o, t', hmade, hleads⟩
        rw [hshape _ hmade] at hanswers hgoes
        refine .inr ⟨o, _, state 1, hanswers, .inr ⟨hgoes, t'', hnext, ?_⟩⟩
        refine (ih _ _ _ _ _ _ (by omega)).mpr ⟨n, _, _, ds, ks, c, by omega, htakes', rfl, hend,
          hlegal.tail, ?_, rfl⟩
        rw [if_neg (by omega)]
        exact hitems

end AssetCompiler.Reduction

namespace AssetCompiler.Host

/-- A compilation without a cache succeeds with a result exactly if fewer passes than the limit, each
taking up what the one before it made, lead from the file to the result. -/
theorem compileUncached_ok_iff {σ : Type} (h : Host) (crew : Crew σ) (file : String)
    (i : Fingerprint) (t : Transformer) (w : World σ) (a : Artifact) (s : σ) :
    (∃ w', (h.compileUncached crew file i t).run w = (.ok a, w') ∧ w'.tools = s) ↔
      ∃ (n : Nat) (pass : Nat → Reduction.PassRecord) (state : Nat → σ) (ds : List String)
        (c : Content), (n : Int) < h.settings.maxPasses ∧
        Reduction.Takes w.volume file i t (pass 0) ∧ state 0 = w.tools ∧ state (n + 1) = s ∧
        Reduction.Legal crew h.next? file 0 n pass state ds c ∧
        a = ⟨some c, firstOccurrences ds⟩ := by
  refine (Reduction.yields_passes_iff crew _ 0 i t [] [] w a s (fun _ => rfl)).trans ?_
  constructor
  · rintro ⟨n, pass, state, ds, ks, c, hn, htakes, hstart, hend, hlegal, hlist, rfl⟩
    rw [if_pos rfl] at hlist
    have hks : ds = ks := (List.map_inj_right fun _ _ h => Json.str.inj h).mp hlist
    rw [hks] at hlegal
    exact ⟨n, pass, state, ks, c, by omega, htakes, hstart, hend, hlegal, rfl⟩
  · rintro ⟨n, pass, state, ds, c, hn, htakes, hstart, hend, hlegal, rfl⟩
    exact ⟨n, pass, state, ds, ds, c, by omega, htakes, hstart, hend, hlegal, rfl, rfl⟩

end AssetCompiler.Host
