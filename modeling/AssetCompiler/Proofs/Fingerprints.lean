import AssetCompiler.Proofs.QuietWork
import AssetCompiler.Proofs.RealPaths

/-!
What a fingerprint tells. A fingerprinter remembers what it found at earlier sights of a file, and it
remembers rightly: as long as no other content had the size and the time of the present one, the
fingerprint is that of the present content.
-/
namespace AssetCompiler

namespace Volume

/-- The file behind a path: its real path, its content and its time. -/
def inspect (v : Volume) (p : Path) : Except Failure (Path × List UInt8 × Int) := do
  let real ← v.realPath p
  let (_, node) ← about real (v.stat real)
  match Work.contentOf node with
  | none => .error (.file .isDirectory real.text)
  | some (bytes, mtime) => .ok (real, bytes, mtime)

theorem inspect_ok {v : Volume} {p real : Path} {bytes : List UInt8} {mtime : Int} :
    v.inspect p = .ok (real, bytes, mtime) ↔ v.realPath p = .ok real ∧ hasZero real = false ∧
      ∃ l node, v.stat real = .ok (l, node) ∧ Work.contentOf node = some (bytes, mtime) := by
  unfold inspect
  cases hreal : v.realPath p with
  | error e => simp [bind, Except.bind]
  | ok real' =>
    simp only [bind, Except.bind]
    constructor
    · intro h
      cases habout : about real' (v.stat real') with
      | error e =>
        rw [habout] at h
        cases h
      | ok found =>
        obtain ⟨l, node⟩ := found
        obtain ⟨hzero, hstat⟩ := about_eq_ok_iff.mp habout
        rw [habout] at h
        simp only at h
        cases hcontent : Work.contentOf node with
        | none =>
          rw [hcontent] at h
          cases h
        | some content =>
          rw [hcontent] at h
          cases h
          exact ⟨rfl, hzero, l, node, hstat, hcontent⟩
    · rintro ⟨hsame, hzero, l, node, hstat, hcontent⟩
      cases hsame
      rw [about_eq_ok_iff.mpr ⟨hzero, hstat⟩]
      simp only [hcontent]

/-- What can be read is the content of a file. -/
theorem read_eq_ok_iff {v : Volume} {p : Path} {bytes : List UInt8} :
    v.read p = .ok bytes ↔ hasZero p = false ∧
      ∃ l node mtime, v.stat p = .ok (l, node) ∧ Work.contentOf node = some (bytes, mtime) := by
  unfold Volume.read
  rw [about_eq_ok_iff]
  cases v.stat p with
  | error e => simp
  | ok found =>
    obtain ⟨l, node⟩ := found
    cases node <;> simp [Work.contentOf]

/-- The real path tells the file. -/
theorem inspect_unique {v : Volume} {p p' real : Path} {bytes bytes' : List UInt8}
    {mtime mtime' : Int} (h : v.inspect p = .ok (real, bytes, mtime))
    (h' : v.inspect p' = .ok (real, bytes', mtime')) : bytes' = bytes ∧ mtime' = mtime := by
  obtain ⟨-, -, l, node, hstat, hcontent⟩ := inspect_ok.mp h
  obtain ⟨-, -, l', node', hstat', hcontent'⟩ := inspect_ok.mp h'
  rw [hstat] at hstat'
  cases hstat'
  rw [hcontent] at hcontent'
  cases hcontent'
  exact ⟨rfl, rfl⟩

end Volume

/-- A fingerprinter remembers what it found on earlier volumes. -/
def Fingerprinter.Recalls (f : Fingerprinter) (past : List Volume) : Prop :=
  ∀ text m, Keyed.find? text f.memory = some m → ∃ v ∈ past, ∃ file real bytes mtime,
    v.inspect (Path.ofText file) = .ok (real, bytes, mtime) ∧ real.text = text ∧
      m = ⟨bytes.length, mtime, Fingerprint.classify bytes real f.options⟩

/-- No other content had the size and the time of a file on earlier volumes. -/
def Volume.IsTold (past : List Volume) (real : Path) (bytes : List UInt8) (mtime : Int) : Prop :=
  ∀ v ∈ past, ∀ file bytes', v.inspect (Path.ofText file) = .ok (real, bytes', mtime) →
    bytes'.length = bytes.length → bytes' = bytes

namespace World

variable {σ : Type}

/-- The fingerprinter with a number; where there is none, one that has seen nothing. -/
def fingerprinter (w : World σ) (n : Nat) : Fingerprinter :=
  (Keyed.find? n w.desks).getD (.fresh .standard)

/-- A fingerprinter of a world, with its options and what it has seen. -/
def Recalls (w : World σ) (desk : Nat) (options : ClassifyOptions) (past : List Volume) : Prop :=
  ∃ f, Keyed.find? desk w.desks = some f ∧ f.options = options ∧ f.Recalls past

theorem Recalls.mono {w w' : World σ} {desk : Nat} {options : ClassifyOptions}
    {past past' : List Volume} (h : w.Recalls desk options past) (hdesks : w'.desks = w.desks)
    (hpast : ∀ v ∈ past, v ∈ past') : w'.Recalls desk options past' := by
  obtain ⟨f, hf, hoptions, hrecalls⟩ := h
  refine ⟨f, by rw [hdesks, hf], hoptions, ?_⟩
  intro text m hm
  obtain ⟨v, hv, hrest⟩ := hrecalls text m hm
  exact ⟨v, hpast v hv, hrest⟩

theorem recalls_fresh {w : World σ} {desk : Nat} {options : ClassifyOptions}
    (h : Keyed.find? desk w.desks = some (.fresh options)) : w.Recalls desk options [] := by
  refine ⟨_, h, rfl, ?_⟩
  intro text m hm
  cases hm

end World

namespace Work

variable {σ : Type} {desk : Nat} {w : World σ} {p real : Path} {bytes : List UInt8} {mtime : Int}

/-- A path behind which there is no file has no fingerprint. -/
theorem run_fingerprint_error {e : Failure} (h : w.volume.inspect p = .error e) :
    (fingerprint desk p).run w = (.error e, w) := by
  unfold Volume.inspect at h
  unfold fingerprint
  cases hreal : w.volume.realPath p with
  | error e' =>
    rw [hreal] at h
    cases h
    exact Action.run_bind_error (by rw [run_look, hreal])
  | ok real =>
    rw [hreal] at h
    rw [Action.run_bind_ok (show (look fun v => v.realPath p).run w = (.ok real, w) by
      rw [run_look, hreal])]
    simp only [bind, Except.bind] at h
    cases hstat : Volume.about real (w.volume.stat real) with
    | error e' =>
      rw [hstat] at h
      cases h
      exact Action.run_bind_error (by rw [run_look, hstat])
    | ok found =>
      obtain ⟨l, node⟩ := found
      rw [hstat] at h
      rw [Action.run_bind_ok (show (look fun v => Volume.about real (v.stat real)).run w =
        (.ok (l, node), w) by rw [run_look, hstat])]
      simp only at h ⊢
      cases hcontent : contentOf node with
      | none =>
        rw [hcontent] at h
        cases h
        rfl
      | some content =>
        obtain ⟨bytes, mtime⟩ := content
        rw [hcontent] at h
        cases h

/-- A fingerprint is remembered, or made and remembered. -/
theorem run_fingerprint_at (n : Nat) (h : w.volume.inspect p = .ok (real, bytes, mtime)) :
    (fingerprint n p).run w =
      match (w.fingerprinter n).known? real.text bytes.length mtime with
      | some i => (.ok i, w)
      | none =>
        (.ok (Fingerprint.classify bytes real (w.fingerprinter n).options),
          { w with desks := w.desks.set n ((w.fingerprinter n).remember real.text
            ⟨bytes.length, mtime,
              Fingerprint.classify bytes real (w.fingerprinter n).options⟩) }) := by
  obtain ⟨hreal, hzero, l, node, hstat, hcontent⟩ := Volume.inspect_ok.mp h
  unfold fingerprint
  rw [Action.run_bind_ok (show (look fun v => v.realPath p).run w = (.ok real, w) by
      rw [run_look, hreal]),
    Action.run_bind_ok (show (look fun v => Volume.about real (v.stat real)).run w =
      (.ok (l, node), w) by rw [run_look, Volume.about_eq_ok_iff.mpr ⟨hzero, hstat⟩])]
  simp only [hcontent]
  have hdesk : (Work.desk n).run w = (.ok (w.fingerprinter n), w) := rfl
  rw [Action.run_bind_ok hdesk]
  cases (w.fingerprinter n).known? real.text bytes.length mtime with
  | some i => rfl
  | none => rfl

theorem run_fingerprint {f : Fingerprinter} (hf : Keyed.find? desk w.desks = some f)
    (h : w.volume.inspect p = .ok (real, bytes, mtime)) :
    (fingerprint desk p).run w =
      match f.known? real.text bytes.length mtime with
      | some i => (.ok i, w)
      | none =>
        (.ok (Fingerprint.classify bytes real f.options),
          { w with desks := w.desks.set desk (f.remember real.text
            ⟨bytes.length, mtime, Fingerprint.classify bytes real f.options⟩) }) := by
  rw [run_fingerprint_at desk h, World.fingerprinter, hf, Option.getD_some]

/-- The fingerprint that a file gets in a world, the right one if the content of the file is told by its
size and time. -/
structure Sees (desk : Nat) (options : ClassifyOptions) (past : List Volume) (file : String)
    (real : Path) (bytes : List UInt8) (mtime : Int) (w : World σ) (i : Fingerprint) : Prop where
  taken : ((fingerprint desk (Path.ofText file)).run w).1 = .ok i
  right : Volume.IsTold past real bytes mtime → i = Fingerprint.classify bytes real options

theorem run_fingerprint_congr {w' : World σ} (hdesks : w'.desks = w.desks)
    (hvolume : w'.volume = w.volume) :
    ((fingerprint desk p).run w').1 = ((fingerprint desk p).run w).1 := by
  cases hinspect : w.volume.inspect p with
  | error e =>
    rw [run_fingerprint_error hinspect, run_fingerprint_error (hvolume ▸ hinspect)]
  | ok found =>
    obtain ⟨real, bytes, mtime⟩ := found
    have hsame : w'.fingerprinter desk = w.fingerprinter desk := by
      rw [World.fingerprinter, hdesks, World.fingerprinter]
    rw [run_fingerprint_at desk hinspect, run_fingerprint_at desk (hvolume ▸ hinspect), hsame]
    cases (w.fingerprinter desk).known? real.text bytes.length mtime <;> rfl

/-- What taking a fingerprint comes to: taken again it is the same, and what was seen is remembered
beside what was seen before. -/
structure Fingerprints (desk : Nat) (options : ClassifyOptions) (past : List Volume) (file : String)
    (w : World σ) (i : Fingerprint) (w' : World σ) : Prop where
  run : (fingerprint desk (Path.ofText file)).run w = (.ok i, w')
  desks : ∃ desks, w' = { w with desks := desks }
  recalls : w'.Recalls desk options (w.volume :: past)
  again : ∀ w'' : World σ, w''.volume = w.volume → w''.desks = w'.desks →
    (fingerprint desk (Path.ofText file)).run w'' = (.ok i, w'')

theorem known?_eq_some {f : Fingerprinter} {text : String} {size mtime : Int} {i : Fingerprint}
    (h : f.known? text size mtime = some i) :
    Keyed.find? text f.memory = some ⟨size, mtime, i⟩ := by
  unfold Fingerprinter.known? at h
  split at h
  · rename_i m hm
    split at h
    · rename_i hsame
      cases h
      rw [hm, ← hsame.1, ← hsame.2]
    · cases h
  · cases h

theorem known?_remember (f : Fingerprinter) (text : String) (m : Memory) :
    (f.remember text m).known? text m.size m.mtime = some m.fingerprint := by
  unfold Fingerprinter.known? Fingerprinter.remember
  simp

/-- A fingerprint that has been taken is the one that is taken again. -/
theorem fingerprint_again {n : Nat} {i : Fingerprint} {w₁ w₂ : World σ}
    (h : (fingerprint n p).run w = (.ok i, w₁)) (hvolume : w₂.volume = w.volume)
    (hdesks : w₂.desks = w₁.desks) : (fingerprint n p).run w₂ = (.ok i, w₂) := by
  cases hinspect : w.volume.inspect p with
  | error e => cases (run_fingerprint_error hinspect).symm.trans h
  | ok found =>
    obtain ⟨real, bytes, mtime⟩ := found
    rw [run_fingerprint_at n hinspect] at h
    rw [run_fingerprint_at n (hvolume ▸ hinspect), World.fingerprinter, hdesks]
    cases hknown : (w.fingerprinter n).known? real.text bytes.length mtime with
    | some i' =>
      rw [hknown] at h
      obtain ⟨hi, rfl⟩ := Prod.mk.inj h
      rw [World.fingerprinter] at hknown
      rw [hknown, Except.ok.inj hi]
    | none =>
      rw [hknown] at h
      obtain ⟨hi, rfl⟩ := Prod.mk.inj h
      rw [Keyed.find?_set_self, Option.getD_some,
        known?_remember _ real.text ⟨bytes.length, mtime, _⟩, Except.ok.inj hi]

/-- A new sight of a file is remembered. -/
theorem recalls_remember {f : Fingerprinter} {past : List Volume} (hrecalls : f.Recalls past)
    {v : Volume} {file : String}
    (h : v.inspect (Path.ofText file) = .ok (real, bytes, mtime)) :
    (f.remember real.text
      ⟨bytes.length, mtime, Fingerprint.classify bytes real f.options⟩).Recalls (v :: past) := by
  intro text m hm
  change Keyed.find? text (f.memory.set real.text _) = some m at hm
  rw [Keyed.find?_set] at hm
  split at hm
  · rename_i htext
    cases hm
    exact ⟨v, List.mem_cons_self .., file, real, bytes, mtime, h, htext.symm, rfl⟩
  · obtain ⟨u, hu, hrest⟩ := hrecalls text m hm
    exact ⟨u, List.mem_cons_of_mem _ hu, hrest⟩

variable {options : ClassifyOptions} {past : List Volume} {file : String}

/-- A file is fingerprinted, rightly if its content is told by its size and time. -/
theorem fingerprints (hrecalls : w.Recalls desk options past)
    (hhere : ∀ v ∈ w.volume :: past, AreProper v.here)
    (h : w.volume.inspect (Path.ofText file) = .ok (real, bytes, mtime)) :
    ∃ i w', Fingerprints desk options past file w i w' ∧
      (Volume.IsTold past real bytes mtime → i = Fingerprint.classify bytes real options) := by
  obtain ⟨f, hf, rfl, hremembers⟩ := hrecalls
  have hrun := run_fingerprint hf h
  have hsame : ∀ w' : World σ, w'.volume = w.volume →
      w'.volume.inspect (Path.ofText file) = .ok (real, bytes, mtime) := by
    intro w' hw'
    rw [hw', h]
  cases hknown : f.known? real.text bytes.length mtime with
  | some i =>
    rw [hknown] at hrun
    refine ⟨i, w, ⟨hrun, ⟨w.desks, rfl⟩, ?_, ?_⟩, ?_⟩
    · exact World.Recalls.mono ⟨f, hf, rfl, hremembers⟩ rfl
        fun v hv => List.mem_cons_of_mem _ hv
    · intro w'' hvolume hdesks
      rw [run_fingerprint (hdesks ▸ hf) (hsame w'' hvolume), hknown]
    · intro htold
      obtain ⟨v, hv, file', real', bytes', mtime', hsight, htext, hm⟩ :=
        hremembers _ _ (known?_eq_some hknown)
      obtain ⟨hlength, rfl, rfl⟩ := Memory.mk.inj hm
      obtain rfl : real' = real :=
        Volume.realPath_unique (hhere v (List.mem_cons_of_mem _ hv)) (hhere _ (List.mem_cons_self ..))
          (Path.areProper_ofText _) (Path.areProper_ofText _) (Volume.inspect_ok.mp hsight).1
          (Volume.inspect_ok.mp h).1 htext
      rw [htold v hv file' bytes' hsight (Int.ofNat.inj hlength).symm]
  | none =>
    rw [hknown] at hrun
    refine ⟨_, _, ⟨hrun, ⟨_, rfl⟩, ?_, ?_⟩, fun _ => rfl⟩
    · exact ⟨_, Keyed.find?_set_self _ _ _, rfl, recalls_remember hremembers h⟩
    · intro w'' hvolume hdesks
      have hfound : Keyed.find? desk w''.desks = some (f.remember real.text
          ⟨bytes.length, mtime, Fingerprint.classify bytes real f.options⟩) := by
        rw [hdesks]
        exact Keyed.find?_set_self _ _ _
      rw [run_fingerprint hfound (hsame w'' hvolume)]
      simp only [known?_remember f real.text
        ⟨bytes.length, mtime, Fingerprint.classify bytes real f.options⟩]

end Work
end AssetCompiler
