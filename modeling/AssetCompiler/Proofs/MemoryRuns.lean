import AssetCompiler.Proofs.SavedMemory

/-!
Runs of fingerprinters that share their options. Calls, changes of files, savings and loadings come in
any order, and old memories may be loaded over newer ones. As long as no file ever has the same size
and time with two contents, each record is the fingerprint of every content that its file had under its
size and time, and so each call answers as if nothing were remembered.
-/
namespace AssetCompiler

variable {σ : Type}

/-- A run of fingerprinters with the same options: the volumes that it went through, the latest first,
the fingerprinters as they were when they were saved, and the world that it has come to. In between
others may do with the files what they like. A file from which a memory is loaded holds one that was
saved, unless it is gone. -/
inductive MemoryRun (options : ClassifyOptions) :
    List Volume → List Fingerprinter → World σ → Prop
  | start {w : World σ} (none : w.desks = []) : MemoryRun options [w.volume] [] w
  | create {history : List Volume} {saved : List Fingerprinter} {w : World σ} (n : Nat)
      (before : MemoryRun options history saved w) :
      MemoryRun options (w.volume :: history) saved
        { w with desks := w.desks.set n (.fresh options) }
  | edit {history : List Volume} {saved : List Fingerprinter} {w w' : World σ}
      (before : MemoryRun options history saved w) (same : w'.desks = w.desks) :
      MemoryRun options (w'.volume :: history) saved w'
  | call {history : List Volume} {saved : List Fingerprinter} {w : World σ} {n : Nat}
      {f : Fingerprinter} (file : String) (before : MemoryRun options history saved w)
      (there : Keyed.find? n w.desks = some f) :
      MemoryRun options (((Work.fingerprint n (Path.ofText file)).run w).2.volume :: history) saved
        ((Work.fingerprint n (Path.ofText file)).run w).2
  | save {history : List Volume} {saved : List Fingerprinter} {w : World σ} {n : Nat}
      {f : Fingerprinter} (file : Path) (before : MemoryRun options history saved w)
      (there : Keyed.find? n w.desks = some f) :
      MemoryRun options (((Work.saveMemory n file).run w).2.volume :: history) (f :: saved)
        ((Work.saveMemory n file).run w).2
  | load {history : List Volume} {saved : List Fingerprinter} {w : World σ} {n : Nat}
      {f : Fingerprinter} (file : Path) (before : MemoryRun options history saved w)
      (there : Keyed.find? n w.desks = some f)
      (holds : ∀ q, file.expandHome? (w.environment.lookup "HOME") = some q →
        w.volume.isThere q = .ok true → ∃ f' ∈ saved, f'.IsSaved q w.volume) :
      MemoryRun options (((Work.loadMemory n file).run w).2.volume :: history) saved
        ((Work.loadMemory n file).run w).2

/-- No file of the volumes has the same size and time with two contents. -/
def Volume.AreTold (history : List Volume) : Prop :=
  ∀ v ∈ history, ∀ file real bytes mtime,
    v.inspect (Path.ofText file) = .ok (real, bytes, mtime) → IsTold history real bytes mtime

namespace Volume

/-- The contents of all files, with their times. -/
def contents (v : Volume) : List (List UInt8 × Int) :=
  v.nodes.filterMap fun e => Work.contentOf e.2

theorem mem_contents_of_inspect {v : Volume} {p real : Path} {bytes : List UInt8} {mtime : Int}
    (h : v.inspect p = .ok (real, bytes, mtime)) : (bytes, mtime) ∈ v.contents := by
  obtain ⟨-, -, l, node, hstat, hcontent⟩ := inspect_ok.mp h
  have hnode : v.nodeAt? l = some node := (stat_eq_ok_iff.mp hstat).2
  unfold nodeAt? at hnode
  split at hnode
  · cases hnode
    cases hcontent
  · exact List.mem_filterMap.mpr ⟨(l, node), Keyed.mem_of_find? hnode, hcontent⟩

theorem areTold_of_contents {history : List Volume}
    (h : ∀ c ∈ history.flatMap contents, ∀ c' ∈ history.flatMap contents, c'.2 = c.2 →
      c'.1.length = c.1.length → c'.1 = c.1) : AreTold history := by
  intro v hv file real bytes mtime hsight v' hv' file' bytes' hsight' hlength
  exact h (bytes, mtime) (List.mem_flatMap.mpr ⟨v, hv, mem_contents_of_inspect hsight⟩)
    (bytes', mtime) (List.mem_flatMap.mpr ⟨v', hv', mem_contents_of_inspect hsight'⟩) rfl hlength

end Volume

namespace Fingerprinter

/-- A fingerprinter with these options that remembers, for each file once, what it or another one with
the same options has seen. -/
structure IsFaithful (options : ClassifyOptions) (history : List Volume) (f : Fingerprinter) :
    Prop where
  options : f.options = options
  recalls : f.Recalls history
  nodup : f.memory.keys.Nodup

variable {options : ClassifyOptions} {history : List Volume} {f g : Fingerprinter}

theorem Recalls.mono {history' : List Volume} (h : f.Recalls history)
    (hsub : ∀ v ∈ history, v ∈ history') : f.Recalls history' := by
  intro text m hm
  obtain ⟨v, hv, hrest⟩ := h text m hm
  exact ⟨v, hsub v hv, hrest⟩

theorem IsFaithful.cons (h : f.IsFaithful options history) (v : Volume) :
    f.IsFaithful options (v :: history) :=
  ⟨h.options, h.recalls.mono fun _ hu => List.mem_cons_of_mem _ hu, h.nodup⟩

theorem isFaithful_fresh (options : ClassifyOptions) (history : List Volume) :
    (fresh options).IsFaithful options history := ⟨rfl, nofun, List.nodup_nil⟩

theorem IsFaithful.remember (h : f.IsFaithful options history) {v : Volume} {file : String}
    {real : Path} {bytes : List UInt8} {mtime : Int}
    (hsight : v.inspect (Path.ofText file) = .ok (real, bytes, mtime)) :
    (f.remember real.text
      ⟨bytes.length, mtime, Fingerprint.classify bytes real f.options⟩).IsFaithful options
        (v :: history) :=
  ⟨h.options, Work.recalls_remember h.recalls hsight, Keyed.nodup_keys_set _ h.nodup⟩

/-- What is loaded from another one with the same options is remembered rightly, and so is what stays
from before. -/
theorem IsFaithful.joined (hg : g.IsFaithful options history) (hf : f.IsFaithful options history) :
    (g.joined f).IsFaithful options history := by
  refine ⟨hg.options, ?_, Keyed.nodup_keys_foldl_set _ _ hg.nodup⟩
  intro text m hm
  change Keyed.find? text (f.memory.foldl (fun t e => t.set e.1 e.2) g.memory) = some m at hm
  rw [Keyed.find?_foldl_set text f.memory g.memory hf.nodup, Option.or_eq_some_iff] at hm
  change ∃ v ∈ history, ∃ file real bytes mtime,
    v.inspect (Path.ofText file) = .ok (real, bytes, mtime) ∧ real.text = text ∧
      m = ⟨bytes.length, mtime, Fingerprint.classify bytes real g.options⟩
  rw [hg.options]
  rcases hm with hloaded | ⟨-, hkept⟩
  · exact hf.options ▸ hf.recalls text m hloaded
  · exact hg.options ▸ hg.recalls text m hkept

/-- A record is the fingerprint of every content that the file had under the size and time of the
record. -/
theorem IsFaithful.record (h : f.IsFaithful options history)
    (hhere : ∀ v ∈ history, AreProper v.here) (htold : Volume.AreTold history) {text : String}
    {m : Memory} (hm : Keyed.find? text f.memory = some m) {v : Volume} (hv : v ∈ history)
    {file : String} {real : Path} {bytes : List UInt8}
    (hsight : v.inspect (Path.ofText file) = .ok (real, bytes, m.mtime)) (htext : real.text = text)
    (hsize : (bytes.length : Int) = m.size) :
    m.fingerprint = Fingerprint.classify bytes real options := by
  obtain ⟨v', hv', file', real', bytes', mtime', hsight', htext', rfl⟩ := h.recalls text m hm
  obtain rfl : real' = real :=
    Volume.realPath_unique (hhere v' hv') (hhere v hv) (Path.areProper_ofText _)
      (Path.areProper_ofText _) (Volume.inspect_ok.mp hsight').1 (Volume.inspect_ok.mp hsight).1
      (htext'.trans htext.symm)
  rw [htold v hv file real' bytes mtime' hsight v' hv' file' bytes' hsight'
    (Int.ofNat.inj hsize).symm, ← h.options]

end Fingerprinter

namespace Work

theorem fingerprint_volume (n : Nat) (p : Path) (w : World σ) :
    ((fingerprint n p).run w).2.volume = w.volume := by
  have hkept := keeps_fingerprint n p w
  unfold surroundings at hkept
  exact (Prod.mk.inj hkept).1

theorem saveMemory_desks (n : Nat) (file : Path) (w : World σ) :
    ((saveMemory n file).run w).2.desks = w.desks := by
  have hkeeps : Keeps World.desks (saveMemory n file : Work σ Unit) :=
    keeps_saveMemory (fun _ _ => rfl) n file
  exact hkeeps w

/-- Loading a memory that was saved, or finding none, leaves the world with what is remembered then. -/
theorem loadMemory_desks {saved : List Fingerprinter} {w : World σ} {n : Nat} {f : Fingerprinter}
    {file : Path} (hnodup : ∀ f' ∈ saved, f'.memory.keys.Nodup)
    (there : Keyed.find? n w.desks = some f)
    (holds : ∀ q, file.expandHome? (w.environment.lookup "HOME") = some q →
      w.volume.isThere q = .ok true → ∃ f' ∈ saved, f'.IsSaved q w.volume) :
    ((loadMemory n file).run w).2 = w ∨ ∃ f' ∈ saved,
      ((loadMemory n file).run w).2 = { w with desks := w.desks.set n (f.joined f') } := by
  cases hexpand : file.expandHome? (w.environment.lookup "HOME") with
  | none =>
    left
    have hhome : (expandHome file).run w = (.error .noHome, w) := by
      unfold expandHome
      rw [Action.run_bind_ok (show environment.run w = (.ok w.environment, w) from rfl), hexpand]
      rfl
    unfold loadMemory
    rw [Action.run_bind_error hhome]
  | some q =>
    have hopened := run_expandHome hexpand
    have hlooked : (look fun v => v.isThere q).run w = (w.volume.isThere q, w) := run_look _ _
    cases hthere : w.volume.isThere q with
    | error e =>
      left
      rw [hthere] at hlooked
      unfold loadMemory
      rw [Action.run_bind_ok hopened, Action.run_bind_error hlooked]
    | ok found =>
      cases found with
      | false =>
        left
        rw [hthere] at hlooked
        unfold loadMemory
        rw [Action.run_bind_ok hopened, Action.run_bind_ok hlooked]
        rfl
      | true =>
        right
        obtain ⟨f', hf', hsaved⟩ := holds q hexpand hthere
        refine ⟨f', hf', ?_⟩
        rw [run_loadMemory (hnodup f' hf') hsaved hexpand there]

end Work

namespace MemoryRun

variable {options : ClassifyOptions} {history : List Volume} {saved : List Fingerprinter}
variable {w : World σ}

open Fingerprinter

theorem volume_mem (h : MemoryRun options history saved w) : w.volume ∈ history := by
  cases h <;> exact List.mem_cons_self

/-- All fingerprinters of a world remember rightly. -/
def AreFaithful (options : ClassifyOptions) (history : List Volume)
    (desks : Keyed Nat Fingerprinter) : Prop :=
  ∀ n f, Keyed.find? n desks = some f → f.IsFaithful options history

theorem AreFaithful.cons {desks : Keyed Nat Fingerprinter} (h : AreFaithful options history desks)
    (v : Volume) : AreFaithful options (v :: history) desks :=
  fun n f hf => (h n f hf).cons v

theorem AreFaithful.set {desks : Keyed Nat Fingerprinter} (h : AreFaithful options history desks)
    (n : Nat) {f : Fingerprinter} (hf : f.IsFaithful options history) :
    AreFaithful options history (desks.set n f) := by
  intro n' f' hf'
  rw [Keyed.find?_set] at hf'
  split at hf'
  · cases hf'
    exact hf
  · exact h n' f' hf'

theorem AreFaithful.fingerprint (h : AreFaithful options history w.desks) {n : Nat}
    {f : Fingerprinter} (there : Keyed.find? n w.desks = some f) (file : String) :
    AreFaithful options (w.volume :: history)
      ((Work.fingerprint n (Path.ofText file)).run w).2.desks := by
  cases hinspect : w.volume.inspect (Path.ofText file) with
  | error e =>
    rw [Work.run_fingerprint_error hinspect]
    exact h.cons _
  | ok sight =>
    obtain ⟨real, bytes, mtime⟩ := sight
    rw [Work.run_fingerprint there hinspect]
    split
    · exact h.cons _
    · exact (h.cons _).set n ((h n f there).remember hinspect)

theorem AreFaithful.load (h : AreFaithful options history w.desks)
    (hsaved : ∀ f ∈ saved, f.IsFaithful options history) {n : Nat} {f : Fingerprinter}
    (there : Keyed.find? n w.desks = some f) {file : Path}
    (holds : ∀ q, file.expandHome? (w.environment.lookup "HOME") = some q →
      w.volume.isThere q = .ok true → ∃ f' ∈ saved, f'.IsSaved q w.volume) :
    AreFaithful options history ((Work.loadMemory n file).run w).2.desks := by
  rcases Work.loadMemory_desks (fun g hg => (hsaved g hg).nodup) there holds with
    hsame | ⟨g, hg, hloaded⟩
  · rw [hsame]
    exact h
  · rw [hloaded]
    exact h.set n ((h n f there).joined (hsaved g hg))

/-- Whatever happens in a run, every fingerprinter remembers rightly, and so did those that were
saved. -/
theorem areFaithful (h : MemoryRun options history saved w) :
    AreFaithful options history w.desks ∧ ∀ f ∈ saved, f.IsFaithful options history := by
  induction h with
  | @start w none =>
    refine ⟨fun n f hf => ?_, nofun⟩
    rw [none] at hf
    cases hf
  | create n before ih =>
    exact ⟨(ih.1.cons _).set n (isFaithful_fresh options _), fun f hf => (ih.2 f hf).cons _⟩
  | edit before same ih =>
    exact ⟨same ▸ ih.1.cons _, fun f hf => (ih.2 f hf).cons _⟩
  | @call history saved w n f file before there ih =>
    rw [Work.fingerprint_volume]
    exact ⟨ih.1.fingerprint there file, fun f hf => (ih.2 f hf).cons _⟩
  | @save history saved w n f file before there ih =>
    rw [Work.saveMemory_desks]
    refine ⟨ih.1.cons _, fun f' hf' => ?_⟩
    rcases List.mem_cons.mp hf' with rfl | hold
    · exact (ih.1 n f' there).cons _
    · exact (ih.2 f' hold).cons _
  | load file before there holds ih =>
    exact ⟨(ih.1.load ih.2 there holds).cons _, fun f hf => (ih.2 f hf).cons _⟩

/-- What is remembered is never noticed. Each record is the fingerprint of a content that its file had
under the size and time of the record, and of every such content. A call answers with the fingerprint of
the present content, or it fails as reading the file does and changes nothing. -/
theorem transparent (h : MemoryRun options history saved w)
    (hhere : ∀ v ∈ history, AreProper v.here) (htold : Volume.AreTold history) {n : Nat}
    {f : Fingerprinter} (there : Keyed.find? n w.desks = some f) :
    (∀ text m, Keyed.find? text f.memory = some m →
      (∃ v ∈ history, ∃ file real bytes, v.inspect (Path.ofText file) = .ok (real, bytes, m.mtime) ∧
        real.text = text ∧ (bytes.length : Int) = m.size) ∧
      ∀ v ∈ history, ∀ file real bytes, v.inspect (Path.ofText file) = .ok (real, bytes, m.mtime) →
        real.text = text → (bytes.length : Int) = m.size →
        m.fingerprint = Fingerprint.classify bytes real options) ∧
    ∀ file, match w.volume.inspect (Path.ofText file) with
      | .ok (real, bytes, _) => ∃ desks, (Work.fingerprint n (Path.ofText file)).run w =
          (.ok (Fingerprint.classify bytes real options), { w with desks := desks })
      | .error e => (Work.fingerprint n (Path.ofText file)).run w = (.error e, w) := by
  have hf := h.areFaithful.1 n f there
  refine ⟨fun text m hm => ⟨?_, ?_⟩, fun file => ?_⟩
  · obtain ⟨v, hv, file, real, bytes, mtime, hsight, htext, rfl⟩ := hf.recalls text m hm
    exact ⟨v, hv, file, real, bytes, hsight, htext, rfl⟩
  · intro v hv file real bytes hsight htext hsize
    exact hf.record hhere htold hm hv hsight htext hsize
  · split
    · rename_i real bytes mtime hinspect
      have hpast : ∀ v ∈ w.volume :: history, AreProper v.here := by
        rintro v hv
        rcases List.mem_cons.mp hv with rfl | hv
        · exact hhere _ h.volume_mem
        · exact hhere v hv
      obtain ⟨i, w', htaken, hright⟩ :=
        Work.fingerprints ⟨f, there, hf.options, hf.recalls⟩ hpast hinspect
      obtain ⟨desks, rfl⟩ := htaken.desks
      rw [← hright (htold _ h.volume_mem file real bytes mtime hinspect)]
      exact ⟨desks, htaken.run⟩
    · rename_i e hinspect
      exact Work.run_fingerprint_error hinspect

/-! A file that is replaced after its record was loaded -/

def firstDesk : World Unit := { Work.twoDesks with desks := [(0, .fresh .standard)] }

def firstCall : World Unit := { firstDesk with desks := [(0, Work.seenMemory)] }

/-- What desk 0 remembers, as it is saved. -/
def savedBytes : List UInt8 := Text.Utf8.ofString (Json.write .line Work.seenMemory.toJson)

def firstSaved : World Unit :=
  { firstCall with
    volume := (firstCall.volume.put ["state.json"] (.file savedBytes 1000000000000000000)).tick }

def secondDesk : World Unit := { firstSaved with desks := firstSaved.desks.set 1 (.fresh .standard) }

def secondLoaded : World Unit :=
  { secondDesk with
    desks := secondDesk.desks.set 1 ((Fingerprinter.fresh .standard).joined Work.seenMemory) }

/-- The file has another content of the same size, and another time. -/
def replaced : World Unit :=
  { secondLoaded with volume := secondLoaded.volume.put ["lib", "a.js"] (.file [98] 6) }

theorem run_firstDesk :
    (Work.fingerprint 0 (Path.ofText "/lib/a.js")).run firstDesk =
      (.ok (Fingerprint.classify [97] Work.libFile .standard), firstCall) := by
  have hinspect : firstDesk.volume.inspect (Path.ofText "/lib/a.js") =
      .ok (Work.libFile, [97], 5) := Work.inspect_twoDesks
  rw [Work.run_fingerprint (f := .fresh .standard) rfl hinspect]
  rfl

theorem run_firstCall :
    (Work.saveMemory 0 Work.memoryFile).run firstCall = (.ok (), firstSaved) := by
  have hmade : firstCall.volume.makeDirectories Work.memoryFile.parent = .ok firstCall.volume :=
    Volume.makeDirectories_of_isDirectory (by decide) ⟨[], by decide, rfl⟩
  have htarget : Volume.about Work.memoryFile (firstCall.volume.target Work.memoryFile) =
      .ok ["state.json"] := eq_ok_of_toOption (by decide)
  have hwritten : firstCall.volume.write Work.memoryFile savedBytes = .ok firstSaved.volume := by
    rw [Volume.write, htarget]
    rfl
  have hdirectories : (Work.filing (Filing.makeDirectories Work.memoryFile.parent)).run firstCall =
      (.ok (), firstCall) := by
    rw [Work.run_filing, Filing.makeDirectories, Filing.run_change, hmade]
  unfold Work.saveMemory
  rw [Action.run_bind_ok (Work.run_expandHome (Work.expandHome?_memoryFile _)),
    Action.run_bind_ok hdirectories, Action.run_bind_ok (Work.run_desk rfl), Work.writeText,
    Work.run_filing, Filing.write, Filing.run_change]
  rw [show Text.Utf8.ofString (Json.write .line Work.seenMemory.toJson) = savedBytes from rfl,
    hwritten]
  rfl

theorem firstSaved_isSaved : Work.seenMemory.IsSaved Work.memoryFile firstSaved.volume := by
  refine (Work.saveMemory_ok rfl ?_ (Work.expandHome?_memoryFile _) run_firstCall).1
  intro l hl
  rw [List.prefix_nil.mp hl]
  rfl

theorem run_secondDesk :
    (Work.loadMemory 1 Work.memoryFile).run secondDesk = (.ok 1, secondLoaded) :=
  have hkeys : Work.seenMemory.memory.keys.Nodup := List.nodup_singleton _
  Work.run_loadMemory hkeys firstSaved_isSaved (Work.expandHome?_memoryFile _)
    (Keyed.find?_set_self 1 _ _)

/-- The volumes of the run, the latest first. -/
def replacedHistory : List Volume :=
  [replaced.volume, firstSaved.volume, firstSaved.volume, firstSaved.volume, firstCall.volume,
    firstCall.volume, firstCall.volume]

theorem replaced_run :
    MemoryRun .standard replacedHistory [Work.seenMemory] replaced := by
  have hstart : MemoryRun .standard _ _ { Work.twoDesks with desks := [] } := .start rfl
  have hcreated : MemoryRun .standard _ _ firstDesk := .create 0 hstart
  have hcalled := MemoryRun.call (n := 0) (f := .fresh .standard) "/lib/a.js" hcreated rfl
  rw [run_firstDesk] at hcalled
  have hsaved := MemoryRun.save (n := 0) (f := Work.seenMemory) Work.memoryFile hcalled rfl
  rw [run_firstCall] at hsaved
  have hsecond : MemoryRun .standard _ _ secondDesk := .create 1 hsaved
  have hloaded := MemoryRun.load Work.memoryFile hsecond (Keyed.find?_set_self 1 _ _) (by
    intro q hq _
    rw [Work.expandHome?_memoryFile] at hq
    cases hq
    exact ⟨_, List.mem_cons_self, firstSaved_isSaved⟩)
  rw [run_secondDesk] at hloaded
  exact .edit hloaded rfl

theorem replaced_areTold : Volume.AreTold replacedHistory := by
  refine Volume.areTold_of_contents fun c hc c' hc' htime _ => ?_
  have hcases : ∀ c ∈ replacedHistory.flatMap Volume.contents, c = ([97], 5) ∨ c = (savedBytes, 1000000000000000000) ∨ c = ([98], 6) := by
    simp [replacedHistory, Volume.contents, replaced, secondLoaded, secondDesk, firstSaved, firstCall, firstDesk,
      Work.twoDesks, Volume.put, Volume.tick, Keyed.set, Work.contentOf]
  rcases hcases c hc with rfl | rfl | rfl <;> rcases hcases c' hc' with rfl | rfl | rfl <;>
    first | exact absurd htime (by decide) | rfl

/-- The second fingerprinter has loaded a record of the old content, and answers for the new one. -/
theorem transparent_replaced : ∃ desks,
    (Work.fingerprint 1 (Path.ofText "/lib/a.js")).run replaced =
      (.ok (Fingerprint.classify [98] Work.libFile .standard), { replaced with desks := desks }) := by
  have hinspect : replaced.volume.inspect (Path.ofText "/lib/a.js") =
      .ok (Work.libFile, [98], 6) := eq_ok_of_toOption (by decide)
  have hproper : ∀ v ∈ replacedHistory, AreProper v.here := by
    simp [replacedHistory, replaced, secondLoaded, secondDesk, firstSaved, firstCall, firstDesk, Work.twoDesks,
      Volume.put, Volume.tick, AreProper]
  have hanswer := (transparent replaced_run hproper replaced_areTold
    (Keyed.find?_set_self 1 _ _)).2 "/lib/a.js"
  simp only [hinspect] at hanswer
  exact hanswer

end MemoryRun
end AssetCompiler
