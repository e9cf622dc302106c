import AssetCompiler.Proofs.Documents
import AssetCompiler.Proofs.SavedMemory

/-!
Memories loaded from any file. The records of an object are taken up one by one, each that can be read, and the
rest of the memory stays. Text that is no JSON counts as empty; another value than an object, and bytes that are no
text, are failures.
-/
namespace AssetCompiler

namespace Fingerprinter

end Fingerprinter

namespace Work

variable {σ : Type} {w : World σ} {n : Nat} {f : Fingerprinter} {file p : Path}

/-- What loading comes to, as the text of the file is. -/
theorem run_loadMemory_text (hexpand : file.expandHome? (w.environment.lookup "HOME") = some p)
    (hthere : w.volume.isThere p = .ok true) :
    (loadMemory n file).run w = (match w.volume.readText p with
      | .error (.file issue path) => do
        report (.memoryUnreadable p.text (.file issue path))
        return 0
      | .error e => throw e
      | .ok text =>
        match Json.read? text with
        | none => do
          report (.memoryUnreadable p.text .malformedJson)
          return 0
        | some (.obj fields) => do
          let (f, count) := (← desk n).takeUp fields
          setDesk n f
          return count
        | some v => throw (.notTable v.kindWord) : Work σ Nat).run w := by
  have hlooked : (look fun v => v.isThere p).run w = (.ok true, w) := by
    rw [run_look, hthere]
  unfold loadMemory
  rw [Action.run_bind_ok (run_expandHome hexpand), Action.run_bind_ok hlooked]
  simp only [if_true]
  exact Action.run_bind_ok (show Work.volume.run w = (.ok w.volume, w) from rfl)

end Work
end AssetCompiler
