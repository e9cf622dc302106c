import AssetCompiler.Proofs.Consultations
import AssetCompiler.Proofs.PlainFailures
import AssetCompiler.Proofs.SteadyCrews

/-!
Reductions by steady crews. What a steady crew makes of a reduction does not depend on the state of the crew,
and of the files only the one that the reduction reads has a part in it. So a reduction that gives way comes
to the same end, whoever else goes on in between; and files that show the same code under the same type come
to the same result, or fail all.
-/
namespace AssetCompiler

variable {σ : Type} {crew : Crew σ}

/-- The state of a steady crew has no part in its answers. -/
theorem Crew.IsSteady.answer (hsteady : crew.IsSteady) (c : Call) (s s' : σ) :
    (crew.answer c s').1 = (crew.answer c s).1 := by
  obtain ⟨f, hf⟩ := hsteady
  unfold Crew.answer
  cases c.ownAnswer? with
  | some outcome => rfl
  | none => exact (hf c s').trans (hf c s).symm

namespace Reduction

/-- A reduction that reads no file but one. -/
def ReadsOnly (file : String) : Reduction → Prop
  | .done _ => True
  | .note _ _ rest => rest.ReadsOnly file
  | .read path rest => path = file ∧ ∀ r, (rest r).ReadsOnly file
  | .ask _ rest => ∀ reply, (rest reply).ReadsOnly file

section Reading

variable {file : String} {f : Frame} {q : Question} {scratch : List (String × Json)}

theorem ReadsOnly.asking {rest : Json → List (String × Json) → Reduction}
    (h : ∀ v scratch, (rest v scratch).ReadsOnly file) : (f.asking q scratch rest).ReadsOnly file := by
  intro reply
  simp only
  split
  · trivial
  · exact h _ _

theorem ReadsOnly.withSource {i : Fingerprint} {rest : String → Reduction}
    (h : ∀ code, (rest code).ReadsOnly file) : (withSource i file rest).ReadsOnly file := by
  unfold Reduction.withSource
  split
  · exact h _
  · refine ⟨rfl, fun r => ?_⟩
    cases r with
    | ok code => exact h code
    | error e => trivial

theorem ReadsOnly.withDependencies {known : List Json}
    {rest : List Json → List (String × Json) → Reduction}
    (h : ∀ items scratch, (rest items scratch).ReadsOnly file) :
    (f.withDependencies known scratch rest).ReadsOnly file := by
  unfold Frame.withDependencies
  split
  · refine ReadsOnly.asking fun v scratch => ?_
    cases itemsOf v with
    | ok items => exact h items scratch
    | error e => trivial
  · exact h known scratch

theorem ReadsOnly.withOutput {rest : Output → Reduction} (h : ∀ o, (rest o).ReadsOnly file) :
    (f.withOutput scratch rest).ReadsOnly file := by
  refine ReadsOnly.asking fun v _ => ?_
  split
  · exact h _
  · trivial

/-- The passes for a file read this file. -/
theorem readsOnly_passes (next? : Option String → Option Transformer) (limit : Int)
    (left index : Nat) (i : Fingerprint) (t : Transformer) (known : List Json)
    (chain : List (Option String)) :
    (passes next? file limit left index i t known chain).ReadsOnly file := by
  induction left generalizing index i t known chain with
  | zero => trivial
  | succ left ih =>
    rw [passes]
    refine ReadsOnly.withSource fun code => ReadsOnly.asking fun accepted scratch => ?_
    split
    · refine ReadsOnly.withDependencies fun items scratch => ReadsOnly.withOutput fun o => ?_
      split
      · trivial
      · unfold ReadsOnly
        split
        · trivial
        · exact ih _ _ _ _ _
    · trivial

/-- What comes of a reduction, whoever has worked in between. -/
theorem ReadsOnly.outcome_congr (hsteady : crew.IsSteady) {r : Reduction} (h : r.ReadsOnly file)
    {v v' : Volume} (hread : v'.readTextLossy (Path.ofText file) = v.readTextLossy (Path.ofText file))
    (s s' : σ) : (r.course crew v' s').outcome = (r.course crew v s).outcome := by
  induction r generalizing s s' with
  | done outcome => rfl
  | note context event rest ih => exact ih h s s'
  | read path rest ih =>
    obtain ⟨rfl, hrest⟩ := h
    rw [course, course, hread]
    exact ih _ (hrest _) s s'
  | ask c rest ih =>
    rw [course, course, Course.after_outcome, Course.after_outcome, hsteady.answer c s s']
    exact ih _ (h _) _ _

end Reading

/-- What progress will come to. -/
def Progress.outcome (crew : Crew σ) (v : Volume) (s : σ) : Progress → Except Failure Artifact
  | .finished outcome => outcome
  | .waiting _ rest => (rest.course crew v s).outcome

def Progress.ReadsOnly (file : String) : Progress → Prop
  | .finished _ => True
  | .waiting _ rest => rest.ReadsOnly file

/-- A leg is a part of the way to the same end. -/
theorem ReadsOnly.leg (hsteady : crew.IsSteady) {file : String} {r : Reduction} (h : r.ReadsOnly file)
    (v : Volume) (waited : Nat) (s s' : σ) :
    (r.leg crew v waited s').progress.ReadsOnly file ∧
      (r.leg crew v waited s').progress.outcome crew v s = (r.course crew v s).outcome := by
  induction r generalizing waited s s' with
  | done outcome => exact ⟨trivial, rfl⟩
  | note context event rest ih => exact ih h 0 s s'
  | read path rest ih => exact ih _ (h.2 _) 0 s s'
  | ask c rest ih =>
    rw [Reduction.leg]
    split
    · exact ⟨h, rfl⟩
    · obtain ⟨hreads, houtcome⟩ := ih _ (h (crew.answer c s').1) 0 s (crew.answer c s').2
      refine ⟨hreads, houtcome.trans ?_⟩
      rw [course, Course.after_outcome, ← hsteady.answer c s s']
      exact (h _).outcome_congr hsteady rfl _ _

/-- Going on with a reduction brings it nearer to its end. -/
theorem ReadsOnly.proceed (hsteady : crew.IsSteady) {file : String} {r : Reduction}
    (h : r.ReadsOnly file) {v : Volume} (waited : Nat) (w : World σ) (s : σ)
    (hread : w.volume.readTextLossy (Path.ofText file) = v.readTextLossy (Path.ofText file)) :
    ∃ progress, ((r.proceed crew waited).run w).1 = .ok progress ∧ progress.ReadsOnly file ∧
      progress.outcome crew v s = (r.course crew v s).outcome := by
  obtain ⟨journal, hrun⟩ := proceed_eq_leg crew r waited w
  obtain ⟨hreads, houtcome⟩ := h.leg hsteady w.volume waited s w.tools
  refine ⟨_, congrArg Prod.fst hrun, hreads, ?_⟩
  rw [h.outcome_congr hsteady hread s s] at houtcome
  rw [← houtcome]
  cases hprogress : (r.leg crew w.volume waited w.tools).progress with
  | finished outcome => rfl
  | waiting waited rest =>
    rw [hprogress] at hreads
    exact hreads.outcome_congr hsteady hread.symm s s

/-! Files that show the same -/

section Alike

variable {next? : Option String → Option Transformer} {file file' : String} {limit : Int}

theorem yields_iff_outcome (r : Reduction) (w : World σ) (a : Artifact) :
    (∃ s, Yields crew r w a s) ↔ (r.course crew w.volume w.tools).outcome = .ok a := by
  obtain ⟨journal, hrun⟩ := run_eq_course crew r w
  constructor
  · rintro ⟨s, w', hyields, -⟩
    exact (congrArg Prod.fst hrun).symm.trans (congrArg Prod.fst hyields)
  · intro houtcome
    exact ⟨_, _, Prod.ext ((congrArg Prod.fst hrun).trans houtcome) rfl, rfl⟩

/-- The passes for two files that show the same make the same result of them. -/
theorem outcome_passes_alike (hsteady : crew.IsSteady)
    (htype : MediaType.ofPath (Path.ofText file') = MediaType.ofPath (Path.ofText file))
    {i i' : Fingerprint} (hmedia : i'.mediaType = i.mediaType) {w : World σ}
    (hsource : ∀ code, Source w.volume file' i' code ↔ Source w.volume file i code)
    (t : Transformer) (a : Artifact) :
    ((ofFile next? limit file' i' t).course crew w.volume w.tools).outcome = .ok a ↔
      ((ofFile next? limit file i t).course crew w.volume w.tools).outcome = .ok a := by
  rw [← yields_iff_outcome, ← yields_iff_outcome]
  constructor
  · rintro ⟨s, hyields⟩
    exact yields_passes_under hsteady htype.symm _ 0 t [] [] [] w hmedia.symm
      (fun code => (hsource code).mp) hyields
  · rintro ⟨s, hyields⟩
    exact yields_passes_under hsteady htype _ 0 t [] [] [] w hmedia (fun code => (hsource code).mpr)
      hyields

end Alike

/-! Failures -/

/-- A reduction by a crew that raises no signals ends with none. -/
theorem isSignal_outcome_passes (hsignals : crew.RaisesNoSignal)
    (next? : Option String → Option Transformer) (limit : Int) (file : String) (i : Fingerprint)
    (t : Transformer) (v : Volume) (s : σ) {e : Failure}
    (he : ((ofFile next? limit file i t).course crew v s).outcome = .error e) : e.isSignal = false := by
  have haccount : Accounted file limit v i [] ((ofFile next? limit file i t).course crew v s) :=
    Accounted.passes next? (excused_nil [])
  cases haccount.causes e he with
  | @blamed x f among fails =>
    have hquiet := isSignal_of_failure? hsignals among fails
    unfold blame
    split
    · exact hquiet
    · rfl
  | mislisted among mislists =>
    cases mislists with
    | notItems asks answers unlisted =>
      unfold itemsOf at unlisted
      split at unlisted <;> cases unlisted
      rfl
    | notTexts asks answers listed wrong => rfl
  | stuck type => rfl
  | exhausted types => rfl
  | unread none unreadable =>
    rcases Volume.readTextLossy_error unreadable with ⟨issue, rfl⟩ | rfl <;> rfl

end Reduction
end AssetCompiler
