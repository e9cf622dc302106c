import AssetCompiler.Proofs.LegalReduction

/-!
Steady crews. What a steady crew answers follows from the transformer, the question, the code, and what
the pass says of type, index and scratch values: neither the path of the file nor the state of the crew
has a part in it. So what a steady crew makes of a code it makes of it under every path that shows the same
media type.
-/
namespace AssetCompiler

variable {σ : Type} {crew : Crew σ}

namespace Call

variable {c c' : Call}

theorem ownAnswer?_custom {label : String} (hform : c.transformer.form = .custom label) :
    c.ownAnswer? = none := by
  simp only [ownAnswer?, hform]

/-- The passthrough takes nothing. -/
theorem ownAnswer?_passthrough (hform : c.transformer.form = .passthrough)
    (hquestion : c.question = .accepts) : c.ownAnswer? = some (.ok (.bool false)) := by
  simp only [ownAnswer?, hform, hquestion]

/-- The stand-in makes nothing. -/
theorem ownAnswer?_standIn (hform : c.transformer.form = .standIn)
    (hquestion : c.question = .transform) : ∃ e, c.ownAnswer? = some (.error e) := by
  simp only [ownAnswer?, hform, hquestion]
  exact ⟨_, rfl⟩

/-- The code and its path count for transformations only. -/
theorem ownAnswer?_congr (htransformer : c'.transformer = c.transformer)
    (hquestion : c'.question = c.question) (hno : c.question ≠ .transform) :
    c'.ownAnswer? = c.ownAnswer? := by
  unfold ownAnswer?
  rw [htransformer, hquestion]
  cases hq : c.question with
  | transform => exact absurd hq hno
  | accepts => cases c.transformer.form <;> rfl
  | dependencies => cases c.transformer.form <;> rfl

end Call

/-- The answers are a function of the transformer, the question, the code, and the type, the index and the
scratch values of the pass. -/
def Crew.IsSteady (crew : Crew σ) : Prop :=
  ∃ f : Transformer → Question → String → Option String → Int → List (String × Json) → Reply,
    ∀ c s, (crew.respond c s).1 =
      f c.transformer c.question c.code c.pass.mediaType c.pass.index c.pass.scratch

namespace Reduction

/-- The same frame of a pass for another file. -/
def Frame.under (f : Frame) (file : String) : Frame := { f with file := file }

/-- Whether a code is taken and what it depends on, everybody answers alike under all paths. -/
theorem answer_under (hsteady : crew.IsSteady) (f : Frame) (file : String) {q : Question}
    (hquestion : q ≠ .transform) (scratch : List (String × Json)) (s s' : σ) :
    (crew.answer ((f.under file).call q scratch) s').1 = (crew.answer (f.call q scratch) s).1 := by
  obtain ⟨g, hg⟩ := hsteady
  have hown : ((f.under file).call q scratch).ownAnswer? = (f.call q scratch).ownAnswer? :=
    Call.ownAnswer?_congr rfl rfl hquestion
  unfold Crew.answer
  rw [hown]
  cases (f.call q scratch).ownAnswer? with
  | some outcome => rfl
  | none => exact (hg ((f.under file).call q scratch) s').trans (hg (f.call q scratch) s).symm

/-- A transformer that takes a code and makes an output of it answers alike under all paths. -/
theorem answer_transform_under (hsteady : crew.IsSteady) (f : Frame) (file : String)
    {scratch scratch' scratch'' : List (String × Json)} {v v' : Json} {s₀ s₁ s₂ s₃ : σ}
    (haccepts : crew.answer (f.call .accepts []) s₀ = (⟨.ok v, scratch⟩, s₁))
    (htaken : v.isTruthy = true)
    (hmakes : crew.answer (f.call .transform scratch') s₂ = (⟨.ok v', scratch''⟩, s₃)) (s : σ) :
    (crew.answer ((f.under file).call .transform scratch') s).1 = ⟨.ok v', scratch''⟩ := by
  cases hform : f.transformer.form with
  | passthrough =>
    rw [Crew.answer, Call.ownAnswer?_passthrough (c := f.call .accepts []) hform rfl] at haccepts
    cases haccepts
    cases htaken
  | standIn =>
    obtain ⟨e, he⟩ := Call.ownAnswer?_standIn (c := f.call .transform scratch') hform rfl
    rw [Crew.answer, he] at hmakes
    cases hmakes
  | custom label =>
    obtain ⟨g, hg⟩ := hsteady
    rw [Crew.answer, Call.ownAnswer?_custom (c := f.call .transform scratch') hform] at hmakes
    rw [Crew.answer, Call.ownAnswer?_custom (c := (f.under file).call .transform scratch') hform]
    have hsame : (crew.respond (f.call .transform scratch') s₂).1 = ⟨.ok v', scratch''⟩ :=
      congrArg Prod.fst hmakes
    rw [← hsame]
    exact (hg ((f.under file).call .transform scratch') s).trans
      (hg (f.call .transform scratch') s₂).symm

/-- What the answers carry a pass to under one path, they carry it to under every path. -/
theorem Answers.under (hsteady : crew.IsSteady) {file : String} {index : Nat} {p : PassRecord}
    {s s₁ : σ} {items : List Json} (h : Answers crew file index p s items s₁) (file' : String)
    (s' : σ) : ∃ s₂, Answers crew file' index p s' items s₂ := by
  have hends : ∀ {q : Question} {scratch : List (String × Json)} {t : σ} {r : Reply},
      (crew.answer ((p.frame file' index).call q scratch) t).1 = r →
      ∃ t', crew.answer ((p.frame file' index).call q scratch) t = (r, t') :=
    fun heq => ⟨_, Prod.ext heq rfl⟩
  cases h with
  | declined v scratch _ answer refused ending =>
    have hsame := answer_under hsteady (p.frame file index) file' (q := .accepts) nofun [] s s'
    rw [answer] at hsame
    obtain ⟨s₂, answer₂⟩ := hends hsame
    exact ⟨s₂, .declined v scratch s₂ answer₂ refused ending⟩
  | made v v' o _ scratch scratch' scratch'' t₁ t₂ _ answer taken lists answer' output ending =>
    have hsame := answer_under hsteady (p.frame file index) file' (q := .accepts) nofun [] s s'
    rw [answer] at hsame
    obtain ⟨u₁, answer₂⟩ := hends hsame
    have hmakes := answer_transform_under hsteady (p.frame file index) file' answer taken answer'
    cases lists with
    | first w _ _ _ hindex asked listed =>
      have hlisted := answer_under hsteady (p.frame file index) file' (q := .dependencies) nofun
        scratch t₁ u₁
      rw [asked] at hlisted
      obtain ⟨u₂, asked₂⟩ := hends hlisted
      obtain ⟨u₃, answer₃⟩ := hends (hmakes u₂)
      exact ⟨u₃, .made v v' o items scratch scratch' scratch'' u₁ u₂ u₃ answer₂ taken
        (.first w items scratch' u₂ hindex asked₂ listed) answer₃ output ending⟩
    | later hindex =>
      obtain ⟨u₃, answer₃⟩ := hends (hmakes u₁)
      exact ⟨u₃, .made v v' o [] scratch scratch scratch'' u₁ u₁ u₃ answer₂ taken (.later hindex)
        answer₃ output ending⟩

section Passes

variable {next? : Option String → Option Transformer} {file file' : String} {limit : Int}

/-- What the passes yield for a code, a steady crew yields for it under every path that shows the same
media type. -/
theorem yields_passes_under (hsteady : crew.IsSteady)
    (htype : MediaType.ofPath (Path.ofText file') = MediaType.ofPath (Path.ofText file))
    (left index : Nat) {i i' : Fingerprint} (t : Transformer) (known : List Json)
    (chain chain' : List (Option String)) {w : World σ} (w' : World σ) {a : Artifact} {s : σ}
    (hmedia : i'.mediaType = i.mediaType)
    (hsource : ∀ code, Source w.volume file i code → Source w'.volume file' i' code)
    (h : Yields crew (passes next? file limit left index i t known chain) w a s) :
    ∃ s', Yields crew (passes next? file' limit left index i' t known chain') w' a s' := by
  induction left generalizing index i i' t known chain chain' w w' s with
  | zero =>
    rw [passes, yields_done] at h
    cases h.1
  | succ left ih =>
    have hinput : inputType file' i' = inputType file i := by
      unfold inputType Fingerprint.typeOr
      rw [hmedia, htype]
    obtain ⟨code, hcode, hends⟩ := (yields_passes_succ crew left index i t known chain w a s).mp h
    rcases hends with ⟨_, hanswers, ds, hknown, rfl, hresult⟩ |
      ⟨o, items, _, hanswers, hfollows⟩
    · obtain ⟨s₂, hanswers'⟩ := hanswers.under hsteady file' w'.tools
      refine ⟨s₂, (yields_passes_succ ..).mpr ⟨code, hsource code hcode, Or.inl ⟨s₂, ?_, ds, hknown,
        rfl, ?_⟩⟩⟩
      · rw [hinput]
        exact hanswers'
      · rw [hinput]
        exact hresult
    · obtain ⟨s₂, hanswers'⟩ := hanswers.under hsteady file' w'.tools
      rcases hfollows with ⟨m, ds, htype', hterminal, hlist, hresult, rfl⟩ |
        ⟨hgoes, t', hnext, hrest⟩
      · refine ⟨s₂, (yields_passes_succ ..).mpr ⟨code, hsource code hcode, Or.inr ⟨o, items, s₂, ?_,
          Or.inl ⟨m, ds, htype', ?_, hlist, hresult, rfl⟩⟩⟩⟩
        · rw [hinput]
          exact hanswers'
        · rw [hinput]
          exact hterminal
      · -- From here on the code is that of the output, whatever the file.
        have hmedia' : (i'.withSource (some o.code) o.mediaType).mediaType =
            (i.withSource (some o.code) o.mediaType).mediaType := rfl
        have hsource' : ∀ v v' code',
            Source v file (i.withSource (some o.code) o.mediaType) code' →
              Source v' file' (i'.withSource (some o.code) o.mediaType) code' := by
          intro v v' code' hcode'
          rw [source_withSource_iff] at hcode' ⊢
          exact hcode'
        obtain ⟨s₃, hyields⟩ := ih (index + 1) t' (if index = 0 then items else known) _
          (chain' ++ [inputType file' i'])
          { w' with tools := s₂, journal := ⟨Log.Context.none, .goingOn file' o.mediaType⟩ :: w'.journal }
          hmedia' (hsource' _ _) hrest
        refine ⟨s₃, (yields_passes_succ ..).mpr ⟨code, hsource code hcode, Or.inr ⟨o, items, s₂, ?_,
          Or.inr ⟨?_, t', hnext, hyields⟩⟩⟩⟩
        · rw [hinput]
          exact hanswers'
        · rw [hinput]
          exact hgoes

end Passes
end Reduction

/-- A result that is made without a cache under one path is made under every path that shows the same
media type and leads to the same code, if transformers and limits are the same. -/
theorem Host.compileUncached_under (hsteady : crew.IsSteady) {h h' : Host}
    (hnext : h'.next? = h.next?) (hlimit : h'.settings.maxPasses = h.settings.maxPasses)
    {file file' : String}
    (htype : MediaType.ofPath (Path.ofText file') = MediaType.ofPath (Path.ofText file))
    {i i' : Fingerprint} (hmedia : i'.mediaType = i.mediaType) {w w' : World σ}
    (hsource : ∀ code, Reduction.Source w.volume file i code →
      Reduction.Source w'.volume file' i' code) {t : Transformer} {a : Artifact}
    (hmade : ((h.compileUncached crew file i t).run w).1 = .ok a) :
    ((h'.compileUncached crew file' i' t).run w').1 = .ok a := by
  have hyields : Reduction.Yields crew (h.reduction file i t) w a
      ((h.compileUncached crew file i t).run w).2.tools := ⟨_, Prod.ext hmade rfl, rfl⟩
  unfold reduction Reduction.ofFile at hyields
  obtain ⟨_, _, hrun, -⟩ := Reduction.yields_passes_under hsteady htype _ 0 t [] [] [] w' hmedia
    hsource hyields
  unfold compileUncached reduction Reduction.ofFile
  rw [hnext, hlimit, hrun]

end AssetCompiler
