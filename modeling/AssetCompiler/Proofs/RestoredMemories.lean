import AssetCompiler.Proofs.DamagedMemories

/-!
Memories that are saved and restored. Whatever a fingerprinter has taken and loaded, its memory has one record
for each path. Such a memory is in its file as a whole, and an empty one that loads the file becomes the same,
record by record and in the same order. Loading what is already remembered changes nothing.
-/
namespace AssetCompiler

namespace Keyed

variable {κ ν : Type} [BEq κ] [LawfulBEq κ]

theorem set_of_find? {k : κ} {v : ν} {t : Keyed κ ν} (h : find? k t = some v) : set k v t = t := by
  induction t with
  | nil => cases h
  | cons e rest ih =>
    obtain ⟨k₀, v₀⟩ := e
    by_cases h₀ : k₀ = k
    · subst h₀
      simp only [find?, List.lookup_cons, beq_self_eq_true, Option.some.injEq] at h
      simp [set, h]
    · simp only [find?, List.lookup_cons, beq_eq_false_iff_ne.mpr (Ne.symm h₀)] at h
      rw [set, if_neg (by simpa using h₀), ih h]

/-- Settings of what is set already change nothing. -/
theorem foldl_set_of_find? {pairs t : Keyed κ ν} (h : ∀ e ∈ pairs, find? e.1 t = some e.2) :
    pairs.foldl (fun t e => set e.1 e.2 t) t = t := by
  induction pairs with
  | nil => rfl
  | cons e rest ih =>
    rw [List.foldl_cons, set_of_find? (h e List.mem_cons_self)]
    exact ih fun e' he' => h e' (List.mem_cons_of_mem _ he')

end Keyed

namespace Fingerprinter

variable {f g : Fingerprinter}

/-- What an empty memory takes up is the whole of it. -/
theorem joined_of_empty (hempty : g.memory = []) (hkeys : f.memory.keys.Nodup) :
    g.joined f = { g with memory := f.memory } := by
  unfold joined
  rw [hempty, Keyed.foldl_set_of_nodup [] f.memory hkeys, List.nil_append]

/-- A memory that is as it was saved takes up nothing new. -/
theorem joined_of_same (hsame : g.memory = f.memory) (hkeys : f.memory.keys.Nodup) : g.joined f = g := by
  unfold joined
  rw [Keyed.foldl_set_of_find? fun e he => Keyed.find?_of_mem (hsame ▸ hkeys) (hsame ▸ he)]

theorem nodup_takeUp (hkeys : f.memory.keys.Nodup) (fs : List (String × Json)) :
    (f.takeUp fs).1.options = f.options ∧ (f.takeUp fs).1.memory.keys.Nodup := by
  induction fs generalizing f with
  | nil => exact ⟨rfl, hkeys⟩
  | cons e rest ih =>
    obtain ⟨path, v⟩ := e
    unfold takeUp
    cases Memory.read v with
    | ok m => exact ih (f := f.remember path m) (Keyed.nodup_keys_set m hkeys)
    | error errors => exact ih hkeys

end Fingerprinter

namespace Work

variable {σ τ : Type} {n : Nat} {w : World σ}

/-- A fingerprinter remembers each path once. -/
def Distinct (n : Nat) (w : World σ) : Prop :=
  ∃ f, Keyed.find? n w.desks = some f ∧ f.memory.keys.Nodup

theorem Distinct.set {w : World σ} {f : Fingerprinter} (hkeys : f.memory.keys.Nodup) :
    Distinct n { w with desks := w.desks.set n f } :=
  ⟨f, Keyed.find?_set_self _ _ _, hkeys⟩

theorem Distinct.fingerprint (h : Distinct n w) (p : Path) : Distinct n ((fingerprint n p).run w).2 := by
  obtain ⟨f, hf, hkeys⟩ := h
  cases hinspect : w.volume.inspect p with
  | error e =>
    rw [run_fingerprint_error hinspect]
    exact ⟨f, hf, hkeys⟩
  | ok found =>
    obtain ⟨real, bytes, mtime⟩ := found
    rw [run_fingerprint hf hinspect]
    split
    · exact ⟨f, hf, hkeys⟩
    · exact Distinct.set (Keyed.nodup_keys_set _ hkeys)

/-- Whatever is in a file, loading it changes what one fingerprinter remembers, and leaves it one record for
each path. -/
theorem run_loadMemory_of_distinct {f : Fingerprinter} (hf : Keyed.find? n w.desks = some f)
    (hkeys : f.memory.keys.Nodup) (file : Path) : ∃ r journal g,
    (loadMemory n file).run w = (r, { w with journal := journal, desks := w.desks.set n g }) ∧
      g.options = f.options ∧ g.memory.keys.Nodup := by
  have hsame : ∀ journal, { w with journal := journal, desks := w.desks.set n f } =
      { w with journal := journal } := by
    intro journal
    rw [Keyed.set_of_find? hf]
  have hkept : ∀ r journal, (loadMemory n file).run w = (r, { w with journal := journal }) →
      ∃ r journal g, (loadMemory n file).run w = (r, { w with journal := journal, desks := w.desks.set n g }) ∧
        g.options = f.options ∧ g.memory.keys.Nodup :=
    fun r journal hrun => ⟨r, journal, f, hrun.trans (by rw [hsame]), rfl, hkeys⟩
  cases hexpand : file.expandHome? (w.environment.lookup "HOME") with
  | none =>
    have hhome : (expandHome file).run w = (.error .noHome, w) := by
      unfold expandHome
      rw [Action.run_bind_ok (show environment.run w = (.ok w.environment, w) from rfl), hexpand]
      rfl
    refine hkept (.error .noHome) w.journal ?_
    unfold Work.loadMemory
    rw [Action.run_bind_error hhome]
  | some q =>
    have hopened := run_expandHome hexpand
    have hlooked : (look fun v => v.isThere q).run w = (w.volume.isThere q, w) := run_look _ _
    cases hthere : w.volume.isThere q with
    | error e =>
      rw [hthere] at hlooked
      refine hkept (.error e) w.journal ?_
      unfold Work.loadMemory
      rw [Action.run_bind_ok hopened, Action.run_bind_error hlooked]
    | ok found =>
      cases found with
      | false =>
        rw [hthere] at hlooked
        refine hkept (.ok 0) w.journal ?_
        unfold Work.loadMemory
        rw [Action.run_bind_ok hopened, Action.run_bind_ok hlooked]
        rfl
      | true =>
        have htext := run_loadMemory_text (n := n) hexpand hthere
        cases hread : w.volume.readText q with
        | error e =>
          rw [hread] at htext
          cases e <;> exact hkept _ _ htext
        | ok text =>
          rw [hread] at htext
          simp only at htext
          cases hjson : Json.read? text with
          | none =>
            rw [hjson] at htext
            exact hkept _ _ htext
          | some v =>
            rw [hjson] at htext
            cases v with
            | obj fields =>
              simp only at htext
              rw [Action.run_bind_ok (run_desk hf)] at htext
              exact ⟨_, w.journal, _, htext, Fingerprinter.nodup_takeUp hkeys fields⟩
            | _ => exact hkept _ _ htext

theorem Distinct.loadMemory (h : Distinct n w) (file : Path) : Distinct n ((loadMemory n file).run w).2 := by
  obtain ⟨f, hf, hkeys⟩ := h
  obtain ⟨r, journal, g, hrun, -, hkeys'⟩ := run_loadMemory_of_distinct hf hkeys file
  rw [hrun]
  exact Distinct.set (w := { w with journal := journal }) hkeys'

/-- A fingerprinter at work. It begins with nothing, takes fingerprints and loads whatever files there are;
in between others do what they like, and leave it what it remembers. -/
inductive AtWork (n : Nat) : World σ → Prop
  | start {w : World σ} {options : ClassifyOptions}
      (fresh : Keyed.find? n w.desks = some (.fresh options)) : AtWork n w
  | call {w : World σ} (p : Path) (before : AtWork n w) : AtWork n ((fingerprint n p).run w).2
  | load {w : World σ} (file : Path) (before : AtWork n w) : AtWork n ((loadMemory n file).run w).2
  | edit {w w' : World σ} (before : AtWork n w)
      (same : Keyed.find? n w'.desks = Keyed.find? n w.desks) : AtWork n w'

theorem AtWork.distinct (h : AtWork n w) : Distinct n w := by
  induction h with
  | start fresh => exact ⟨_, fresh, List.nodup_nil⟩
  | call p _ ih => exact ih.fingerprint p
  | load file _ ih => exact ih.loadMemory file
  | edit _ same ih =>
    obtain ⟨f, hf, hkeys⟩ := ih
    exact ⟨f, same.trans hf, hkeys⟩

/-- Whether a memory can be saved depends on the place only, not on what is remembered. -/
theorem saveMemory_outcome {file q : Path}
    (hexpand : file.expandHome? (w.environment.lookup "HOME") = some q) :
    ((saveMemory n file).run w).1 = do
      let v ← w.volume.makeDirectories q.parent
      let _ ← v.write q []
      return () := by
  unfold saveMemory
  rw [Action.run_bind_ok (run_expandHome hexpand)]
  cases hmade : w.volume.makeDirectories q.parent with
  | error e =>
    have hfailed : (filing (Filing.makeDirectories q.parent)).run w = (.error e, w) := by
      rw [run_filing, Filing.makeDirectories, Filing.run_change, hmade]
    rw [Action.run_bind_error hfailed]
    rfl
  | ok v =>
    have hdone : (filing (Filing.makeDirectories q.parent)).run w = (.ok (), { w with volume := v }) := by
      rw [run_filing, Filing.makeDirectories, Filing.run_change, hmade]
    have hdesk : (desk n).run { w with volume := v } = (.ok (w.fingerprinter n), { w with volume := v }) := rfl
    rw [Action.run_bind_ok hdone, Action.run_bind_ok hdesk, writeText, run_filing, Filing.write,
      Filing.run_change]
    simp only [bind, Except.bind, Volume.write]
    cases Volume.about q (v.target q) <;> rfl

/-- A memory that is in a file already takes nothing up from it. -/
theorem loadMemory_same {f g : Fingerprinter} {file q : Path} (hsaved : f.IsSaved q w.volume)
    (hkeys : f.memory.keys.Nodup) (hexpand : file.expandHome? (w.environment.lookup "HOME") = some q)
    (hg : Keyed.find? n w.desks = some g) (hsame : g.memory = f.memory) :
    (loadMemory n file).run w = (.ok f.memory.length, w) := by
  rw [run_loadMemory hkeys hsaved hexpand hg, Fingerprinter.joined_of_same hsame hkeys,
    Keyed.set_of_find? hg]

/-- A memory survives being saved and loaded. Whatever a fingerprinter has come to remember, saving it goes
well wherever a file can be written; then a fingerprinter without memory that loads the file, in this process or
in another, remembers exactly the same, and the answer is the number of the records. Loading it once more
changes nothing, and neither does loading it into the one that saved it. -/
theorem saveMemory_loadMemory {file q : Path} (hwork : AtWork n w) (hstanding : w.volume.IsStanding)
    (hexpand : file.expandHome? (w.environment.lookup "HOME") = some q) :
    ∃ f, Keyed.find? n w.desks = some f ∧
      (((saveMemory n file).run w).1 = do
        let v ← w.volume.makeDirectories q.parent
        let _ ← v.write q []
        return ()) ∧
      ∀ w₁, (saveMemory n file).run w = (.ok (), w₁) →
        (loadMemory n file).run w₁ = (.ok f.memory.length, w₁) ∧
        ∀ (w₂ : World τ) (b : Nat) (g : Fingerprinter) (file' : Path),
          file'.expandHome? (w₂.environment.lookup "HOME") = some q →
          w₂.volume.stat q = w₁.volume.stat q → Keyed.find? b w₂.desks = some g → g.memory = [] →
          ∃ w₃, (loadMemory b file').run w₂ = (.ok f.memory.length, w₃) ∧
            w₃ = { w₂ with desks := w₂.desks.set b { g with memory := f.memory } } ∧
            (loadMemory b file').run w₃ = (.ok f.memory.length, w₃) := by
  obtain ⟨f, hf, hkeys⟩ := hwork.distinct
  refine ⟨f, hf, saveMemory_outcome hexpand, fun w₁ hsave => ?_⟩
  obtain ⟨hsaved, hdesks⟩ := saveMemory_ok hf hstanding hexpand hsave
  have hkeeps : Keeps World.environment (saveMemory n file : Work σ Unit) :=
    keeps_saveMemory (fun _ _ => rfl) n file
  have henvironment : w₁.environment = w.environment := by
    have hkept := hkeeps w
    rwa [hsave] at hkept
  refine ⟨loadMemory_same hsaved hkeys (henvironment ▸ hexpand) (hdesks ▸ hf) rfl, ?_⟩
  intro w₂ b g file' hexpand' hkept hg hempty
  have hsaved' : f.IsSaved q w₂.volume := ⟨hsaved.zero, by rw [hkept]; exact hsaved.written⟩
  refine ⟨{ w₂ with desks := w₂.desks.set b { g with memory := f.memory } }, ?_, rfl, ?_⟩
  · rw [run_loadMemory hkeys hsaved' hexpand' hg, Fingerprinter.joined_of_empty hempty hkeys]
  · exact loadMemory_same hsaved' hkeys hexpand' (Keyed.find?_set_self _ _ _) rfl

/-! A memory of one record, and a fingerprinter with other options that restores it -/

theorem saveMemory_loadMemory_small :
    (loadMemory 0 memoryFile).run savedDesk = (.ok 1, savedDesk) ∧
    ∃ w₃, (loadMemory 1 memoryFile).run savedDesk = (.ok 1, w₃) ∧
      Keyed.find? 1 w₃.desks = some { Fingerprinter.fresh vendoring with memory := seenMemory.memory } ∧
      (loadMemory 1 memoryFile).run w₃ = (.ok 1, w₃) := by
  have hwork : AtWork 0 seenDesk := .call (Path.ofText "/lib/a.js") (.start rfl)
  obtain ⟨f, hf, -, hrestores⟩ := saveMemory_loadMemory (τ := Unit) hwork seenDesk_isStanding
    (expandHome?_memoryFile _)
  obtain rfl : f = seenMemory := Option.some.inj (hf.symm.trans find?_seenDesk)
  obtain ⟨hsame, hother⟩ := hrestores savedDesk run_savedDesk
  obtain ⟨w₃, hload, rfl, hagain⟩ := hother savedDesk 1 (.fresh vendoring) memoryFile
    (expandHome?_memoryFile _) rfl savedDesk_spec.2 rfl
  exact ⟨hsame, _, hload, Keyed.find?_set_self _ _ _, hagain⟩

end Work
end AssetCompiler
