import AssetCompiler.Proofs.Fingerprints
import AssetCompiler.Proofs.Stores
import AssetCompiler.Proofs.WrittenRecords

/-!
Memories that are saved and loaded. A fingerprinter that has loaded the memory of another one answers
for a file as the other one did, as long as size and time of the file are the same. The record of a
file does not tell under which options it was made, so the answer follows the options of the one that
saved it. Where the options of the two judge a file differently, the answer is not the one that the
later fingerprinter would give by itself.
-/
namespace AssetCompiler

namespace Volume

/-! A file that was written is there -/

/-- The directory from which relative paths start is there. -/
def IsStanding (v : Volume) : Prop := ∀ l, l <+: v.here → v.nodeAt? l = some .directory

theorem IsStanding.start {v : Volume} (h : v.IsStanding) (p : Path) :
    ∀ l, l <+: v.start p → v.nodeAt? l = some .directory := by
  intro l hl
  unfold Volume.start at hl
  split at hl
  · rw [List.prefix_nil.mp hl]
    rfl
  · exact h l hl

/-- A walk along all links, from a directory, does not end at a link. -/
theorem Arrives.isLeaf_or_directory {v : Volume} {links : Nat} {stand : Location}
    {names : List String} {l : Location} (h : Arrives v true links stand names l)
    (hstand : ∀ l', l' <+: stand → v.nodeAt? l' = some .directory) :
    v.nodeAt? l = some .directory ∨ IsLeaf (v.nodeAt? l) := by
  induction h with
  | here links stand => exact Or.inl (hstand _ List.prefix_rfl)
  | @up links stand rest l next ih =>
    exact ih fun l' hl' => hstand l' (hl'.trans (List.dropLast_prefix _))
  | @last links stand name proper short stops =>
    right
    cases hnode : v.nodeAt? (stand ++ [name]) with
    | none => exact isLeaf_none
    | some node =>
      rw [hnode] at stops
      cases node with
      | directory => cases stops
      | link target => cases stops
      | file bytes mtime => exact isLeaf_file _ _
      | table rows mtime => exact isLeaf_table _ _
  | through proper short directory next ih =>
    refine ih fun l' hl' => ?_
    rcases List.prefix_concat_iff.mp hl' with rfl | hl'
    · exact directory
    · exact hstand l' hl'
  | link target proper short link followed next ih =>
    refine ih fun l' hl' => ?_
    split at hl'
    · rw [List.prefix_nil.mp hl']
      rfl
    · exact hstand l' hl'

/-- A path leads to a file that has been written for it. -/
theorem stat_write {v v' : Volume} {p : Path} {bytes : List UInt8} (hstanding : v.IsStanding)
    (hwrite : v.write p bytes = .ok v') :
    hasZero p = false ∧ ∃ l mtime, v'.stat p = .ok (l, .file bytes mtime) := by
  obtain ⟨hzero, l, htarget, rfl⟩ := write_eq_ok_iff.mp hwrite
  obtain ⟨hlocate, -, hfile⟩ := target_eq_ok_iff.mp htarget
  have hend := (walk_eq_ok_iff.mp hlocate).isLeaf_or_directory (hstanding.start p)
  have hleaf := hend.resolve_left hfile
  refine ⟨hzero, l, v.writeTime, stat_eq_ok_iff.mpr ⟨?_, ?_⟩⟩
  · exact (Store.advances_file bytes hleaf).grows.locate hlocate
  · exact nodeAt?_put_self v _ (Advances.ne_root hleaf)

end Volume

open Volume

/-! Saved records -/

namespace Fingerprinter

/-- A fingerprinter that has taken up what another one remembers. -/
def joined (g f : Fingerprinter) : Fingerprinter :=
  { g with memory := f.memory.foldl (fun t e => t.set e.1 e.2) g.memory }

theorem isPlain_toJson {f : Fingerprinter} (hkeys : f.memory.keys.Nodup) :
    Json.IsPlain f.toJson := by
  have hfields : ∀ ms : Keyed String Memory,
      Json.FieldsPlain (ms.map fun e => (e.1, e.2.toJson)) := by
    intro ms
    induction ms with
    | nil => exact trivial
    | cons e rest ih => exact ⟨e.2.isPlain_toJson, ih⟩
  have hsame : Keyed.keys (f.memory.map fun e => (e.1, e.2.toJson)) = f.memory.keys := by
    simp [Keyed.keys, Function.comp_def]
  exact ⟨hsame ▸ hkeys, hfields _⟩

/-- All of the saved records are taken up. -/
theorem takeUp_toJson (g : Fingerprinter) (ms : Keyed String Memory) :
    g.takeUp (ms.map fun e => (e.1, e.2.toJson)) =
      ({ g with memory := ms.foldl (fun t e => t.set e.1 e.2) g.memory }, ms.length) := by
  induction ms generalizing g with
  | nil => rfl
  | cons e rest ih =>
    rw [List.map_cons, takeUp, e.2.read_toJson]
    simp only [ih, List.foldl_cons, List.length_cons]
    rfl

/-- What the other one knows comes first. -/
theorem known?_joined {f g : Fingerprinter} (hkeys : f.memory.keys.Nodup) {text : String}
    {size mtime : Int} {i : Fingerprint} (h : f.known? text size mtime = some i) :
    (g.joined f).known? text size mtime = some i := by
  have hfound := Work.known?_eq_some h
  have hjoined : Keyed.find? text (g.joined f).memory = some ⟨size, mtime, i⟩ := by
    unfold joined
    rw [Keyed.find?_foldl_set text f.memory g.memory hkeys, hfound]
    rfl
  unfold known?
  rw [hjoined]
  simp

/-- A file holds what a fingerprinter remembers. -/
structure IsSaved (f : Fingerprinter) (q : Path) (v : Volume) : Prop where
  zero : hasZero q = false
  written : ∃ l mtime,
    v.stat q = .ok (l, .file (Text.Utf8.ofString (Json.write .line f.toJson)) mtime)

end Fingerprinter

namespace Work

variable {σ τ : Type}

theorem run_expandHome {w : World σ} {p q : Path}
    (h : p.expandHome? (w.environment.lookup "HOME") = some q) :
    (expandHome p).run w = (.ok q, w) := by
  unfold expandHome
  rw [Action.run_bind_ok (show environment.run w = (.ok w.environment, w) from rfl), h]
  rfl

theorem run_desk {w : World σ} {n : Nat} {f : Fingerprinter}
    (h : Keyed.find? n w.desks = some f) : (desk n).run w = (.ok f, w) := by
  change (Except.ok ((Keyed.find? n w.desks).getD _), w) = _
  rw [h]
  rfl

theorem keeps_expandHome {γ : Type} {part : World σ → γ} (p : Path) :
    Keeps part (expandHome p : Work σ Path) := by
  unfold expandHome
  refine Keeps.bind (fun _ => rfl) fun environment => ?_
  cases p.expandHome? (environment.lookup "HOME") with
  | some q => exact keeps_pure q
  | none => exact keeps_throw _

/-- Saving a memory changes the volume only. -/
theorem keeps_saveMemory {γ : Type} {part : World σ → γ}
    (hvolume : ∀ (w : World σ) v, part { w with volume := v } = part w) (n : Nat) (file : Path) :
    Keeps part (saveMemory n file : Work σ Unit) := by
  have hfiling : ∀ action : Filing Unit, Keeps part (filing action : Work σ Unit) :=
    fun action w => by
      rw [run_filing]
      exact hvolume w _
  unfold saveMemory
  refine (keeps_expandHome file).bind fun p => (hfiling _).bind fun _ => ?_
  exact Keeps.bind (fun w => rfl) fun f => hfiling _

/-- A memory that was saved without a failure is in its file. -/
theorem saveMemory_ok {w w' : World σ} {n : Nat} {f : Fingerprinter} {file q : Path}
    (hf : Keyed.find? n w.desks = some f) (hstanding : w.volume.IsStanding)
    (hexpand : file.expandHome? (w.environment.lookup "HOME") = some q)
    (hrun : (saveMemory n file).run w = (.ok (), w')) :
    f.IsSaved q w'.volume ∧ w'.desks = w.desks := by
  unfold saveMemory at hrun
  rw [Action.run_bind_ok (run_expandHome hexpand)] at hrun
  obtain ⟨_, w₁, hmade, hrun⟩ := Action.of_run_bind_ok hrun
  rw [run_filing, Filing.makeDirectories, Filing.run_change] at hmade
  split at hmade
  · rename_i v hdirectories
    cases hmade
    have hopens := (makeDirectories_ok hdirectories).2.1
    have hstanding' : v.IsStanding := by
      intro l hl
      rw [hopens.here] at hl
      exact hopens.grows.directory l (hstanding l hl)
    have hdesk : (desk n).run { w with volume := v } = (.ok f, { w with volume := v }) :=
      run_desk hf
    simp only at hrun
    rw [Action.run_bind_ok hdesk, writeText, run_filing, Filing.write, Filing.run_change] at hrun
    split at hrun
    · rename_i v' hwrite
      cases hrun
      obtain ⟨hzero, hwritten⟩ := stat_write hstanding' hwrite
      exact ⟨⟨hzero, hwritten⟩, rfl⟩
    · cases hrun
  · cases hmade

/-- A saved memory is loaded as a whole. -/
theorem run_loadMemory {w : World τ} {n : Nat} {f g : Fingerprinter} {file q : Path}
    (hkeys : f.memory.keys.Nodup) (hsaved : f.IsSaved q w.volume)
    (hexpand : file.expandHome? (w.environment.lookup "HOME") = some q)
    (hg : Keyed.find? n w.desks = some g) :
    (loadMemory n file).run w =
      (.ok f.memory.length, { w with desks := w.desks.set n (g.joined f) }) := by
  obtain ⟨l, mtime, hstat⟩ := hsaved.written
  have hplain := Fingerprinter.isPlain_toJson hkeys
  have hthere : w.volume.isThere q = .ok true := by
    unfold isThere probe
    rw [hsaved.zero, hstat]
    rfl
  have htext := Store.readText_written hsaved.zero hstat (Json.unifyLineEnds_write .line hplain)
  have hlooked : (look fun v => v.isThere q).run w = (.ok true, w) := by
    rw [run_look, hthere]
  unfold loadMemory
  rw [Action.run_bind_ok (run_expandHome hexpand), Action.run_bind_ok hlooked]
  simp only [if_true]
  rw [Action.run_bind_ok (show Work.volume.run w = (.ok w.volume, w) from rfl), htext]
  simp only [Json.read?_write .line hplain]
  rw [Fingerprinter.toJson]
  simp only
  rw [Action.run_bind_ok (run_desk hg), Fingerprinter.takeUp_toJson]
  rfl

/-! What a loaded memory answers -/

/-- A fingerprinter at work: it takes fingerprints, and in between others change the world and leave
it what it remembers. The last call comes first. -/
inductive Fingerprinted (desk : Nat) (options : ClassifyOptions) :
    List (World σ × String) → World σ → Prop
  | start {w : World σ} (fresh : Keyed.find? desk w.desks = some (.fresh options)) :
      Fingerprinted desk options [] w
  | call {calls : List (World σ × String)} {w : World σ} (file : String)
      (before : Fingerprinted desk options calls w) :
      Fingerprinted desk options ((w, file) :: calls)
        ((fingerprint desk (Path.ofText file)).run w).2
  | edit {calls : List (World σ × String)} {w w' : World σ}
      (before : Fingerprinted desk options calls w)
      (same : Keyed.find? desk w'.desks = Keyed.find? desk w.desks) :
      Fingerprinted desk options calls w'

variable {desk : Nat} {options : ClassifyOptions} {calls : List (World σ × String)} {w : World σ}

/-- The volumes at which calls were made. -/
def seen (calls : List (World σ × String)) : List Volume := calls.map fun c => c.1.volume

/-- What a fingerprinter remembers after a call: what it remembered before, unless the file of the call
was not known; then that file is remembered as it was answered. -/
theorem find?_after_fingerprint {f : Fingerprinter} (hf : Keyed.find? desk w.desks = some f)
    (file : String) :
    ∃ f', Keyed.find? desk ((fingerprint desk (Path.ofText file)).run w).2.desks = some f' ∧
      (f' = f ∨ ∃ real bytes mtime, w.volume.inspect (Path.ofText file) = .ok (real, bytes, mtime) ∧
        f.known? real.text bytes.length mtime = none ∧
        f' = f.remember real.text
          ⟨bytes.length, mtime, Fingerprint.classify bytes real f.options⟩) := by
  cases hinspect : w.volume.inspect (Path.ofText file) with
  | error e =>
    rw [run_fingerprint_error hinspect]
    exact ⟨f, hf, Or.inl rfl⟩
  | ok found =>
    obtain ⟨real, bytes, mtime⟩ := found
    rw [run_fingerprint hf hinspect]
    cases hknown : f.known? real.text bytes.length mtime with
    | some i => exact ⟨f, hf, Or.inl rfl⟩
    | none => exact ⟨_, Keyed.find?_set_self _ _ _, Or.inr ⟨real, bytes, mtime, rfl, hknown, rfl⟩⟩

/-- The answer to a call is known from then on. -/
theorem known?_after_fingerprint {f : Fingerprinter} (hf : Keyed.find? desk w.desks = some f)
    {file : String} {real : Path} {bytes : List UInt8} {mtime : Int}
    (hinspect : w.volume.inspect (Path.ofText file) = .ok (real, bytes, mtime)) :
    ∃ f' i, Keyed.find? desk ((fingerprint desk (Path.ofText file)).run w).2.desks = some f' ∧
      ((fingerprint desk (Path.ofText file)).run w).1 = .ok i ∧
      f'.known? real.text bytes.length mtime = some i := by
  rw [run_fingerprint hf hinspect]
  cases hknown : f.known? real.text bytes.length mtime with
  | some i => exact ⟨f, i, hf, rfl, hknown⟩
  | none => exact ⟨_, _, Keyed.find?_set_self _ _ _, rfl, known?_remember f real.text _⟩

/-- A fingerprinter at work recalls what it has seen, each file once. -/
theorem Fingerprinted.recalls (h : Fingerprinted desk options calls w) :
    ∃ f, Keyed.find? desk w.desks = some f ∧ f.options = options ∧ f.Recalls (seen calls) ∧
      f.memory.keys.Nodup := by
  induction h with
  | start fresh => exact ⟨_, fresh, rfl, nofun, List.nodup_nil⟩
  | @call calls w file before ih =>
    obtain ⟨f, hf, hoptions, hrecalls, hkeys⟩ := ih
    obtain ⟨f', hf', hsame | ⟨real, bytes, mtime, hinspect, _, hnew⟩⟩ :=
      find?_after_fingerprint hf file
    · subst hsame
      refine ⟨f', hf', hoptions, fun text m hm => ?_, hkeys⟩
      obtain ⟨v, hv, hrest⟩ := hrecalls text m hm
      exact ⟨v, List.mem_cons_of_mem _ hv, hrest⟩
    · subst hnew
      exact ⟨_, hf', hoptions, recalls_remember hrecalls hinspect, Keyed.nodup_keys_set _ hkeys⟩
  | edit before same ih =>
    obtain ⟨f, hf, hrest⟩ := ih
    exact ⟨f, same.trans hf, hrest⟩

/-- Before each call the fingerprinter was at work. -/
theorem Fingerprinted.before (h : Fingerprinted desk options calls w)
    {later earlier : List (World σ × String)} {c : World σ × String}
    (hcalls : calls = later ++ c :: earlier) : Fingerprinted desk options earlier c.1 := by
  induction h generalizing later with
  | start fresh => simp at hcalls
  | call file before ih =>
    rcases List.cons_eq_append_iff.mp hcalls with ⟨_, hfirst⟩ | ⟨later', _, hrest⟩
    · obtain ⟨rfl, rfl⟩ := List.cons.inj hfirst
      exact before
    · exact ih hrest
  | edit before same ih => exact ih hcalls

/-- No later call has seen another content or another time of a file. -/
def Unchanged (later : List (World σ × String)) (real : Path) (bytes : List UInt8)
    (mtime : Int) : Prop :=
  ∀ c ∈ later, ∀ real' bytes' mtime',
    c.1.volume.inspect (Path.ofText c.2) = .ok (real', bytes', mtime') → real'.text = real.text →
      bytes' = bytes ∧ mtime' = mtime

/-- What was answered for a file is known as long as the file is unchanged. -/
theorem Fingerprinted.knows (h : Fingerprinted desk options calls w)
    {later earlier : List (World σ × String)} {c : World σ × String}
    (hcalls : calls = later ++ c :: earlier) {real : Path} {bytes : List UInt8} {mtime : Int}
    (hinspect : c.1.volume.inspect (Path.ofText c.2) = .ok (real, bytes, mtime))
    (hunchanged : Unchanged later real bytes mtime) :
    ∃ f i, Keyed.find? desk w.desks = some f ∧
      ((fingerprint desk (Path.ofText c.2)).run c.1).1 = .ok i ∧
      f.known? real.text bytes.length mtime = some i := by
  induction h generalizing later with
  | start fresh => simp at hcalls
  | @call calls w file before ih =>
    obtain ⟨f₀, hf₀, _⟩ := before.recalls
    rcases List.cons_eq_append_iff.mp hcalls with ⟨_, hfirst⟩ | ⟨later', hlater, hrest⟩
    · obtain ⟨rfl, rfl⟩ := List.cons.inj hfirst
      exact known?_after_fingerprint hf₀ hinspect
    · subst hlater
      obtain ⟨f, i, hf, hanswer, hknown⟩ :=
        ih hrest fun c' hc' => hunchanged c' (List.mem_cons_of_mem _ hc')
      obtain ⟨f', hf', hsame | ⟨real', bytes', mtime', hinspect', hunknown, hnew⟩⟩ :=
        find?_after_fingerprint hf file
      · exact ⟨f', i, hf', hanswer, hsame ▸ hknown⟩
      · -- A file that is made known now is another one: the unchanged one was known already.
        have hother : real.text ≠ real'.text := by
          intro htext
          obtain ⟨rfl, rfl⟩ := hunchanged _ (List.mem_cons_self ..) _ _ _ hinspect' htext.symm
          rw [← htext, hknown] at hunknown
          cases hunknown
        refine ⟨f', i, hf', hanswer, ?_⟩
        rw [hnew, Fingerprinter.known?, Fingerprinter.remember, Keyed.find?_set_of_ne hother]
        exact hknown
  | edit before same ih =>
    obtain ⟨f, i, hf, hrest⟩ := ih hcalls hunchanged
    exact ⟨f, i, same.trans hf, hrest⟩

end Work

/-- Under other options a file has the same fingerprint exactly if it counts as minified under both or
none, and as vendored under both or none. -/
theorem Fingerprint.classify_eq_iff {bytes : List UInt8} {real : Path}
    {options options' : ClassifyOptions} :
    classify bytes real options = classify bytes real options' ↔
      ((sourceOf bytes).any fun s => isMinifiedText s options.lineLength) =
        ((sourceOf bytes).any fun s => isMinifiedText s options'.lineLength) ∧
      isVendoredPath real options.vendoredNames = isVendoredPath real options'.vendoredNames := by
  simp [classify]

namespace Work

variable {σ τ : Type} {a b : Nat} {options : ClassifyOptions} {g : Fingerprinter} {file q : Path}
variable {later earlier : List (World σ × String)} {c : World σ × String} {w w₁ : World σ}
variable {w₂ : World τ} {real : Path} {bytes : List UInt8} {mtime : Int}

/-- A fingerprinter `a` at work is saved, and `b` loads what was saved. Then `b` answers for a file as
`a` did, if the file is as it was when `a` last saw it. Is the content of the file told by its size and
time, then this is the fingerprint under the options of `a`. It is the one under the options of `b` only
for files that both judge alike. -/
theorem fingerprint_loaded (hwork : Fingerprinted a options (later ++ c :: earlier) w)
    (hinspect : c.1.volume.inspect (Path.ofText c.2) = .ok (real, bytes, mtime))
    (hunchanged : Unchanged later real bytes mtime) (hstanding : w.volume.IsStanding)
    (hexpand : file.expandHome? (w.environment.lookup "HOME") = some q)
    (hsave : (saveMemory a file).run w = (.ok (), w₁))
    (hexpand' : file.expandHome? (w₂.environment.lookup "HOME") = some q)
    (hkept : w₂.volume.stat q = w₁.volume.stat q) (hg : Keyed.find? b w₂.desks = some g) :
    ∃ n w₃ i, (loadMemory b file).run w₂ = (.ok n, w₃) ∧ w₃.volume = w₂.volume ∧
      ((fingerprint a (Path.ofText c.2)).run c.1).1 = .ok i ∧
      (∀ w₄ : World τ, Keyed.find? b w₄.desks = Keyed.find? b w₃.desks → ∀ p,
        w₄.volume.inspect p = .ok (real, bytes, mtime) → (fingerprint b p).run w₄ = (.ok i, w₄)) ∧
      ((∀ v ∈ c.1.volume :: seen earlier, AreProper v.here) →
        Volume.IsTold (seen earlier) real bytes mtime →
        i = Fingerprint.classify bytes real options ∧
        (i = Fingerprint.classify bytes real g.options ↔
          ((Fingerprint.sourceOf bytes).any fun s =>
              Fingerprint.isMinifiedText s options.lineLength) =
            ((Fingerprint.sourceOf bytes).any fun s =>
              Fingerprint.isMinifiedText s g.options.lineLength) ∧
          Fingerprint.isVendoredPath real options.vendoredNames =
            Fingerprint.isVendoredPath real g.options.vendoredNames)) := by
  obtain ⟨f, hf, hoptions, _, hkeys⟩ := hwork.recalls
  obtain ⟨f', i, hf', hanswer, hknown⟩ := hwork.knows rfl hinspect hunchanged
  obtain rfl : f = f' := Option.some.inj (hf.symm.trans hf')
  have hsaved := (saveMemory_ok hf hstanding hexpand hsave).1
  have hsaved' : f.IsSaved q w₂.volume := ⟨hsaved.zero, by rw [hkept]; exact hsaved.written⟩
  refine ⟨_, _, i, run_loadMemory hkeys hsaved' hexpand' hg, rfl, hanswer, ?_, ?_⟩
  · intro w₄ hdesk p hpresent
    have hjoined : Keyed.find? b w₄.desks = some (g.joined f) := by
      rw [hdesk, Keyed.find?_set_self]
    rw [run_fingerprint hjoined hpresent, Fingerprinter.known?_joined hkeys hknown]
  · intro hhere htold
    obtain ⟨f₀, hf₀, hoptions₀, hrecalls₀, _⟩ := (hwork.before rfl).recalls
    obtain ⟨i', w', htaken, hclassified⟩ :=
      fingerprints ⟨f₀, hf₀, hoptions₀, hrecalls₀⟩ hhere hinspect
    rw [htaken.run] at hanswer
    obtain rfl : i' = i := Except.ok.inj hanswer
    rw [hclassified htold]
    exact ⟨rfl, Fingerprint.classify_eq_iff⟩

/-! A file of a directory that the later options call vendored -/

def vendoring : ClassifyOptions := ⟨["lib"], 80⟩

/-- Desk 0 has the standard options, desk 1 counts the directory as vendored. -/
def twoDesks : World Unit where
  volume := ⟨[(["lib"], .directory), (["lib", "a.js"], .file [97] 5)], [], 0⟩
  environment := []
  desks := [(0, .fresh .standard), (1, .fresh vendoring)]
  journal := []
  now := ⟨2024, 2, 29, 12, 0, 0, 0, none⟩
  tools := ()

def libFile : Path := ⟨"/", ["lib", "a.js"]⟩

def memoryFile : Path := ⟨"/", ["state.json"]⟩

/-- Desk 0 has seen the file. -/
def seenDesk : World Unit := ((fingerprint 0 (Path.ofText "/lib/a.js")).run twoDesks).2

def savedDesk : World Unit := ((saveMemory 0 memoryFile).run seenDesk).2

/-- What desk 0 remembers. -/
def seenMemory : Fingerprinter :=
  (Fingerprinter.fresh .standard).remember "/lib/a.js"
    ⟨1, 5, Fingerprint.classify [97] libFile .standard⟩

/-- Desk 1 has loaded what desk 0 remembers. -/
def loadedDesk : World Unit :=
  { savedDesk with
    desks := savedDesk.desks.set 1 ((Fingerprinter.fresh vendoring).joined seenMemory) }

theorem expandHome?_memoryFile (home : Option String) :
    memoryFile.expandHome? home = some memoryFile := by
  unfold Path.expandHome?
  rw [show memoryFile.isAbsolute = true from by decide]

theorem inspect_twoDesks :
    twoDesks.volume.inspect (Path.ofText "/lib/a.js") = .ok (libFile, [97], 5) :=
  eq_ok_of_toOption (by decide)

theorem seenDesk_isStanding : seenDesk.volume.IsStanding := by
  have hhere : seenDesk.volume.here = [] := by decide
  intro l hl
  rw [hhere] at hl
  rw [List.prefix_nil.mp hl]
  rfl

theorem find?_seenDesk : Keyed.find? 0 seenDesk.desks = some seenMemory := by
  have hfresh : Keyed.find? 0 twoDesks.desks = some (.fresh .standard) := rfl
  unfold seenDesk
  rw [run_fingerprint hfresh inspect_twoDesks]
  exact Keyed.find?_set_self _ _ _

theorem run_savedDesk : (saveMemory 0 memoryFile).run seenDesk = (.ok (), savedDesk) := by
  have hdone : ((saveMemory 0 memoryFile).run seenDesk).1.isOk = true := by decide
  unfold savedDesk
  rcases hrun : (saveMemory 0 memoryFile).run seenDesk with ⟨_ | _, w⟩
  · rw [hrun] at hdone
    cases hdone
  · rfl

/-- The file holds what desk 0 remembers, and desk 1 is as it was. -/
theorem savedDesk_spec : seenMemory.IsSaved memoryFile savedDesk.volume ∧
    Keyed.find? 1 savedDesk.desks = some (.fresh vendoring) := by
  obtain ⟨hsaved, hdesks⟩ :=
    saveMemory_ok find?_seenDesk seenDesk_isStanding (expandHome?_memoryFile _) run_savedDesk
  refine ⟨hsaved, ?_⟩
  have hfresh : Keyed.find? 0 twoDesks.desks = some (.fresh .standard) := rfl
  rw [hdesks, seenDesk, run_fingerprint hfresh inspect_twoDesks]
  change Keyed.find? 1 (twoDesks.desks.set 0 _) = _
  rw [Keyed.find?_set_of_ne (by decide)]
  rfl

/-- Whether a fingerprint was given, and whether it says that its file is vendored. -/
def vendored? (r : Except Failure Fingerprint) : Option Bool := r.toOption.map (·.isVendored)

/-- The file stays as it is. By itself desk 1 calls it vendored, as its options say; after it has
loaded what desk 0 remembers, it does not. -/
theorem loaded_options_overlooked :
    (saveMemory 0 memoryFile).run seenDesk = (.ok (), savedDesk) ∧
    (loadMemory 1 memoryFile).run savedDesk = (.ok 1, loadedDesk) ∧
    twoDesks.volume.inspect (Path.ofText "/lib/a.js") = .ok (libFile, [97], 5) ∧
    loadedDesk.volume.inspect (Path.ofText "/lib/a.js") = .ok (libFile, [97], 5) ∧
    vendored? ((fingerprint 1 (Path.ofText "/lib/a.js")).run savedDesk).1 = some true ∧
    (Fingerprint.classify [97] libFile vendoring).isVendored = true ∧
    vendored? ((fingerprint 1 (Path.ofText "/lib/a.js")).run loadedDesk).1 = some false := by
  have hkeys : seenMemory.memory.keys.Nodup := List.nodup_singleton _
  obtain ⟨hsaved, hfresh⟩ := savedDesk_spec
  have hload := run_loadMemory hkeys hsaved (expandHome?_memoryFile _) hfresh
  have hinspect : savedDesk.volume.inspect (Path.ofText "/lib/a.js") = .ok (libFile, [97], 5) :=
    eq_ok_of_toOption (by decide)
  have hknown : seenMemory.known? libFile.text ([97] : List UInt8).length 5 =
      some (Fingerprint.classify [97] libFile .standard) := known?_remember _ _ _
  have hdesk : Keyed.find? 1 loadedDesk.desks =
      some ((Fingerprinter.fresh vendoring).joined seenMemory) := Keyed.find?_set_self _ _ _
  have hpresent : loadedDesk.volume.inspect (Path.ofText "/lib/a.js") = .ok (libFile, [97], 5) :=
    hinspect
  refine ⟨run_savedDesk, hload, inspect_twoDesks, hpresent, ?_, by decide, ?_⟩
  · rw [run_fingerprint hfresh hinspect]
    decide
  · rw [run_fingerprint hdesk hpresent, Fingerprinter.known?_joined hkeys hknown]
    decide

/-- Desk 1 answers as desk 0 did, and not as its own options say. -/
theorem fingerprint_loaded_small :
    ∃ n w₃ i, (loadMemory 1 memoryFile).run savedDesk = (.ok n, w₃) ∧
      (fingerprint 1 (Path.ofText "/lib/a.js")).run w₃ = (.ok i, w₃) ∧
      i = Fingerprint.classify [97] libFile .standard ∧
      i ≠ Fingerprint.classify [97] libFile vendoring := by
  have hwork : Fingerprinted 0 .standard ([] ++ (twoDesks, "/lib/a.js") :: []) seenDesk :=
    .call "/lib/a.js" (.start rfl)
  obtain ⟨n, w₃, i, hload, hvolume, _, hanswers, hoptions⟩ :=
    fingerprint_loaded hwork inspect_twoDesks nofun seenDesk_isStanding (expandHome?_memoryFile _)
      run_savedDesk (expandHome?_memoryFile _) rfl savedDesk_spec.2
  have hpresent : w₃.volume.inspect (Path.ofText "/lib/a.js") = .ok (libFile, [97], 5) := by
    rw [hvolume]
    exact eq_ok_of_toOption (by decide)
  have hhere : ∀ v ∈ twoDesks.volume :: seen ([] : List (World Unit × String)),
      AreProper v.here := by
    simp [seen, twoDesks, AreProper]
  obtain ⟨hstandard, hvendoring⟩ := hoptions hhere nofun
  refine ⟨n, w₃, i, hload, hanswers w₃ rfl _ hpresent, hstandard, fun hsame => ?_⟩
  exact absurd (hvendoring.mp hsame).2 (by decide)

end Work
end AssetCompiler
