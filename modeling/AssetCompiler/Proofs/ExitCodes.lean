import AssetCompiler.CommandLine.Run
import AssetCompiler.Proofs.Action
import AssetCompiler.Proofs.Reading

/-!
Exit codes. Once the log is open a run ends with a code: what goes wrong in its task is reported, and a log file
that takes nothing more is left alone. The settings are read before, and their failures end the run without a
code, as those of a log file do.
-/
namespace AssetCompiler

/-! The log -/

namespace Log.Setup

theorem run_emit (s : Setup) (time : Instant) (r : Record) (v : Volume) :
    ∃ line v', (s.emit time r).run v = (.ok line, v') := by
  unfold emit
  split
  · exact ⟨none, v, rfl⟩
  · cases s.sink with
    | none => exact ⟨_, v, rfl⟩
    | some sink =>
      simp only
      rcases hrun : (sink.write (r.line s.asJson time)).run v with ⟨e | u, v'⟩
      · refine ⟨some (r.line s.asJson time), v', ?_⟩
        rw [Action.run_bind, Filing.run_tryCatch, hrun]
        rfl
      · refine ⟨some (r.line s.asJson time), v', ?_⟩
        rw [Action.run_bind, Filing.run_tryCatch, hrun]
        rfl

theorem run_emitAll (s : Setup) (time : Instant) (records : List Record) (v : Volume) :
    ∃ lines v', (s.emitAll time records).run v = (.ok lines, v') := by
  induction records generalizing v with
  | nil => exact ⟨[], v, rfl⟩
  | cons r rest ih =>
    obtain ⟨line, v₁, hfirst⟩ := run_emit s time r v
    obtain ⟨lines, v₂, hrest⟩ := ih v₁
    refine ⟨line.toList ++ lines, v₂, ?_⟩
    rw [emitAll, Action.run_bind_ok hfirst, Action.run_bind_ok hrest]
    rfl

end Log.Setup

/-! The settings -/

namespace Settings

open Schema

end Settings

namespace CommandLine

variable {σ : Type} {s : Surroundings σ} {i : Invocation} {w : World σ}

/-- What the drained log and the task come to: the lines so far, and the result of the task. -/
def perform (s : Surroundings σ) (i : Invocation) (log : Log.Setup) :
    Work σ (List String × Except Failure (Nat × String)) := do
  let begun ← Work.outcome (begin s i)
  let early ← drain s i.verbose log
  let result ← Work.outcome (do finish s (← Work.lift begun))
  return (early, result)

theorem run_drain (s : Surroundings σ) (verbose : Bool) (log : Log.Setup) (w : World σ) :
    ∃ lines w', (drain s verbose log).run w = (.ok lines, w') := by
  obtain ⟨lines, v, hrun⟩ := log.run_emitAll w.now (w.journal.reverse.map (recordOf s verbose)) w.volume
  refine ⟨lines, { w with journal := [], volume := v }, ?_⟩
  unfold drain
  rw [Action.run_bind_ok (Action.run_get w), Action.run_bind_ok (Action.run_set w _), Work.run_filing,
    hrun]

/-- What is done with the result of a task. -/
theorem runInvocation_eq (s : Surroundings σ) (i : Invocation) :
    runInvocation s i = (do
      let log ← openLog i.verbose
      let (early, result) ← perform s i log
      let (code, output) ← conclude result
      let late ← drain s i.verbose log
      return ⟨code, output, early ++ late⟩) := by
  simp only [runInvocation, perform, bind_assoc, pure_bind]

/-- Surroundings without transformer classes. -/
def bare : Surroundings Unit := ⟨[], ⟨fun _ s => (⟨.ok .null, []⟩, s), fun _ => 0⟩, fun _ => ""⟩

end CommandLine
end AssetCompiler
