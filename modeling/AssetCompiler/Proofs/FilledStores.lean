import AssetCompiler.Proofs.AgreeingWalks
import AssetCompiler.Proofs.BegunRequests
import AssetCompiler.Proofs.RestoredMemories

/-!
What files leave behind that are compiled together, in any order and by whatever crew. A file whose visit ends
with a result has a result in the store of its slot, and the fingerprinter knows the file as it was seen. A
result may be replaced by one for another file that shares its place, but a place that is filled stays filled.
-/
namespace AssetCompiler

variable {σ : Type}

/-! Results with content -/

namespace Reduction

/-- All results that a reduction can come to have content. -/
def EndsWhole : Reduction → Prop
  | .done outcome => ∀ a, outcome = .ok a → a.IsWhole
  | .note _ _ rest => rest.EndsWhole
  | .read _ rest => ∀ r, (rest r).EndsWhole
  | .ask _ rest => ∀ reply, (rest reply).EndsWhole

section Ending

variable {f : Frame} {scratch : List (String × Json)}

theorem EndsWhole.asking {q : Question} {rest : Json → List (String × Json) → Reduction}
    (h : ∀ v scratch, (rest v scratch).EndsWhole) : (f.asking q scratch rest).EndsWhole := by
  intro reply
  simp only
  split
  · exact nofun
  · exact h _ _

theorem EndsWhole.withSource {i : Fingerprint} {file : String} {rest : String → Reduction}
    (h : ∀ code, (rest code).EndsWhole) : (withSource i file rest).EndsWhole := by
  unfold Reduction.withSource
  split
  · exact h _
  · intro r
    cases r with
    | ok code => exact h code
    | error e => exact nofun

theorem EndsWhole.withDependencies {known : List Json}
    {rest : List Json → List (String × Json) → Reduction}
    (h : ∀ items scratch, (rest items scratch).EndsWhole) :
    (f.withDependencies known scratch rest).EndsWhole := by
  unfold Frame.withDependencies
  split
  · refine EndsWhole.asking fun v scratch => ?_
    cases itemsOf v with
    | ok items => exact h items scratch
    | error e => exact nofun
  · exact h known scratch

theorem EndsWhole.withOutput {rest : Output → Reduction} (h : ∀ o, (rest o).EndsWhole) :
    (f.withOutput scratch rest).EndsWhole := by
  refine EndsWhole.asking fun v _ => ?_
  split
  · exact h _
  · exact nofun

theorem endsWhole_finish (code mediaType : String) (dependencies : List Json) :
    (finish code mediaType dependencies).EndsWhole := by
  intro a ha
  obtain ⟨ds, -, rfl⟩ := Reading.map_eq_ok.mp (Reading.checked_eq_ok.mp ha)
  exact ⟨code, mediaType, ds, rfl⟩

/-- The passes for a file end with content. -/
theorem endsWhole_passes (next? : Option String → Option Transformer) (file : String) (limit : Int)
    (left index : Nat) (i : Fingerprint) (t : Transformer) (known : List Json)
    (chain : List (Option String)) :
    (passes next? file limit left index i t known chain).EndsWhole := by
  induction left generalizing index i t known chain with
  | zero =>
    intro a ha
    cases ha
  | succ left ih =>
    rw [passes]
    refine EndsWhole.withSource fun code => EndsWhole.asking fun accepted scratch => ?_
    split
    · refine EndsWhole.withDependencies fun items scratch => EndsWhole.withOutput fun o => ?_
      split
      · exact endsWhole_finish _ _ _
      · unfold EndsWhole
        split
        · intro a ha
          cases ha
        · exact ih _ _ _ _ _
    · exact endsWhole_finish _ _ _

end Ending

def Progress.EndsWhole : Progress → Prop
  | .finished outcome => ∀ a, outcome = .ok a → a.IsWhole
  | .waiting _ rest => rest.EndsWhole

theorem EndsWhole.leg {r : Reduction} (h : r.EndsWhole) (crew : Crew σ) (v : Volume) (waited : Nat)
    (s : σ) : (r.leg crew v waited s).progress.EndsWhole := by
  induction r generalizing waited s with
  | done outcome => exact h
  | note context event rest ih => exact ih h 0 s
  | read file rest ih => exact ih _ (h _) 0 s
  | ask c rest ih =>
    rw [Reduction.leg]
    split
    · exact h
    · exact ih _ (h _) 0 _

/-- Going on with a reduction writes to the journal, and comes to content if it comes to an end. -/
theorem EndsWhole.proceed {r : Reduction} (h : r.EndsWhole) (crew : Crew σ) (waited : Nat) (w : World σ) :
    ∃ progress journal tools, (r.proceed crew waited).run w =
      (.ok progress, { w with tools := tools, journal := journal }) ∧ progress.EndsWhole := by
  obtain ⟨journal, hrun⟩ := proceed_eq_leg crew r waited w
  exact ⟨_, journal, _, hrun, h.leg crew w.volume waited w.tools⟩

end Reduction

theorem Walk.ending_eq_ok {os : List (Except Failure Artifact)} :
    Walk.ending os = .ok () ↔ ∀ o ∈ os, ∃ a, o = .ok a := by
  induction os with
  | nil => exact ⟨fun _ => nofun, fun _ => rfl⟩
  | cons o rest ih =>
    cases o with
    | error e => exact ⟨nofun, fun hall => nomatch hall (.error e) List.mem_cons_self⟩
    | ok a =>
      rw [Walk.ending, ih, List.forall_mem_cons]
      exact ⟨fun hall => ⟨⟨a, rfl⟩, hall⟩, And.right⟩

/-! What is seen elsewhere than in the caches -/

namespace Host

/-- A file with its real path, bytes and time, elsewhere than where a host stores. -/
structure SeesOutside (h : Host) (d : Location) (v : Volume) (file : String) (real : Path)
    (bytes : List UInt8) (mtime : Int) : Prop where
  seen : v.inspect (Path.ofText file) = .ok (real, bytes, mtime)
  outside : ∀ l, v.locate true real = .ok l → ¬ h.Owns d l

/-- The fingerprinter of a host knows a file of so many bytes and of a time. -/
def Knows (h : Host) (w : World σ) (real : Path) (size mtime : Int) (i : Fingerprint) : Prop :=
  (w.fingerprinter h.desk).known? real.text size mtime = some i

section Knowing

variable {h : Host} {d : Location} {v : Volume} {w w' : World σ} {file : String} {real : Path}
variable {bytes : List UInt8} {mtime : Int} {i : Fingerprint}

theorem SeesOutside.now (hsees : h.SeesOutside d v file real bytes mtime)
    (hadvances : Volume.Advances (h.Owns d) v w.volume) :
    w.volume.inspect (Path.ofText file) = .ok (real, bytes, mtime) :=
  hadvances.inspect hsees.seen hsees.outside

theorem Knows.print (hknows : h.Knows w real bytes.length mtime i)
    (hsight : w.volume.inspect (Path.ofText file) = .ok (real, bytes, mtime)) :
    h.print w file = .ok i := by
  have hfst := Work.fingerprint_fst (n := h.desk) hsight
  rw [hknows] at hfst
  exact hfst

theorem Knows.congr {size : Int} (hknows : h.Knows w real size mtime i) (hdesks : w'.desks = w.desks) :
    h.Knows w' real size mtime i := by
  unfold Knows World.fingerprinter
  rw [hdesks]
  exact hknows

/-- A file that was fingerprinted is known. -/
theorem knows_fingerprint (h : Host)
    (hsight : w.volume.inspect (Path.ofText file) = .ok (real, bytes, mtime)) :
    ∃ i, h.Knows ((Work.fingerprint h.desk (Path.ofText file)).run w).2 real bytes.length mtime i := by
  rw [Work.run_fingerprint_at h.desk hsight]
  cases hknown : (w.fingerprinter h.desk).known? real.text bytes.length mtime with
  | some i => exact ⟨i, hknown⟩
  | none =>
    refine ⟨Fingerprint.classify bytes real (w.fingerprinter h.desk).options, ?_⟩
    unfold Knows World.fingerprinter
    rw [Keyed.find?_set_self, Option.getD_some]
    exact Work.known?_remember _ real.text ⟨bytes.length, mtime, _⟩

/-- Fingerprinting another file is nothing to one that is known. -/
theorem Knows.fingerprint (hknows : h.Knows w real bytes.length mtime i)
    (hhere : AreProper w.volume.here)
    (hsight : w.volume.inspect (Path.ofText file) = .ok (real, bytes, mtime)) (other : String) :
    h.Knows ((Work.fingerprint h.desk (Path.ofText other)).run w).2 real bytes.length mtime i := by
  cases hother : w.volume.inspect (Path.ofText other) with
  | error e =>
    rw [Work.run_fingerprint_error hother]
    exact hknows
  | ok found =>
    obtain ⟨real', bytes', mtime'⟩ := found
    rw [Work.run_fingerprint_at h.desk hother]
    cases hknown : (w.fingerprinter h.desk).known? real'.text bytes'.length mtime' with
    | some i' => exact hknows
    | none =>
      have htext : real.text ≠ real'.text := by
        intro htext
        obtain rfl : real = real' := Volume.realPath_unique hhere hhere (Path.areProper_ofText _)
          (Path.areProper_ofText _) (Volume.inspect_ok.mp hsight).1 (Volume.inspect_ok.mp hother).1 htext
        obtain ⟨rfl, rfl⟩ := Volume.inspect_unique hsight hother
        rw [hknows] at hknown
        cases hknown
      unfold Knows World.fingerprinter Fingerprinter.known? Fingerprinter.remember
      rw [Keyed.find?_set_self, Option.getD_some]
      simp only
      rw [Keyed.find?_set, if_neg htext]
      exact hknows

end Knowing

end Host

/-! Filled places -/

/-- Something is served under a key. -/
def Store.IsFilled (v : Volume) (s : Store) (key : String) : Prop := ∃ a, s.Serves v key a

namespace Host

/-- What is filled in the stores of a host stays filled. -/
def KeepsFilled (h : Host) (v v' : Volume) : Prop :=
  ∀ name s key, h.registry.slot? name = some s → s.cache.store.IsFilled v key →
    s.cache.store.IsFilled v' key

/-- A world in which files are being visited since another one. -/
structure Visiting (h : Host) (q : Path) (d : Location) (w₀ w : World σ) : Prop where
  stands : h.Stands q d w.volume
  advances : Volume.Advances (h.Owns d) w₀.volume w.volume
  setting : (w.environment, w.now) = (w₀.environment, w₀.now)
  distinct : Work.Distinct h.desk w
  prints : ∀ file real bytes mtime, h.SeesOutside d w₀.volume file real bytes mtime →
    h.print w file = h.print w₀ file

/-- What no visit takes back: filled places, and the files that are known. -/
structure Onward (h : Host) (d : Location) (w₀ w w' : World σ) : Prop where
  filled : h.KeepsFilled w.volume w'.volume
  known : ∀ file real bytes mtime i, h.SeesOutside d w₀.volume file real bytes mtime →
    h.Knows w real bytes.length mtime i → h.Knows w' real bytes.length mtime i

section Visiting

variable {h : Host} {q : Path} {d : Location} {w₀ w w' w'' : World σ}

theorem keepsFilled_refl (h : Host) (v : Volume) : h.KeepsFilled v v := fun _ _ _ _ hfilled => hfilled

theorem Onward.refl (h : Host) (d : Location) (w₀ w : World σ) : h.Onward d w₀ w w :=
  ⟨keepsFilled_refl h _, fun _ _ _ _ _ _ hknows => hknows⟩

theorem Onward.trans (honward : h.Onward d w₀ w w') (honward' : h.Onward d w₀ w' w'') :
    h.Onward d w₀ w w'' where
  filled name s key hs hfilled := honward'.filled name s key hs (honward.filled name s key hs hfilled)
  known file real bytes mtime i hsees hknows :=
    honward'.known file real bytes mtime i hsees (honward.known file real bytes mtime i hsees hknows)

theorem Onward.of_desks (hfilled : h.KeepsFilled w.volume w'.volume) (hdesks : w'.desks = w.desks) :
    h.Onward d w₀ w w' :=
  ⟨hfilled, fun _ _ _ _ _ _ hknows => hknows.congr hdesks⟩

theorem Visiting.start (hstands : h.Stands q d w.volume) (hdistinct : Work.Distinct h.desk w) :
    h.Visiting q d w w where
  stands := hstands
  advances := Volume.Advances.refl _ _
  setting := rfl
  distinct := hdistinct
  prints _ _ _ _ _ := rfl

/-- Another journal, and another state of the crew. -/
theorem Visiting.congr (hvisiting : h.Visiting q d w₀ w) (hvolume : w'.volume = w.volume)
    (hsetting : (w'.environment, w'.now) = (w.environment, w.now)) (hdesks : w'.desks = w.desks) :
    h.Visiting q d w₀ w' where
  stands := hvolume ▸ hvisiting.stands
  advances := hvolume ▸ hvisiting.advances
  setting := hsetting.trans hvisiting.setting
  distinct := by
    unfold Work.Distinct
    rw [hdesks]
    exact hvisiting.distinct
  prints file real bytes mtime hsees :=
    (Work.run_fingerprint_congr hdesks hvolume).trans (hvisiting.prints file real bytes mtime hsees)

/-- A file is fingerprinted. -/
theorem Visiting.looked (hvisiting : h.Visiting q d w₀ w) (hhere : AreProper w₀.volume.here)
    (file : String) : h.Visiting q d w₀ ((Work.fingerprint h.desk (Path.ofText file)).run w).2 ∧
      h.Onward d w₀ w ((Work.fingerprint h.desk (Path.ofText file)).run w).2 := by
  have hkept := Work.keeps_fingerprint h.desk (Path.ofText file) w
  have hproper : AreProper w.volume.here := by
    rw [hvisiting.advances.here]
    exact hhere
  have hother := fun other : String => Work.fingerprint_other (n := h.desk) (w := w) hproper
    (Path.areProper_ofText file) (Path.areProper_ofText other)
  have hdistinct := hvisiting.distinct.fingerprint (Path.ofText file)
  have hknown : ∀ other real bytes mtime i, h.SeesOutside d w₀.volume other real bytes mtime →
      h.Knows w real bytes.length mtime i →
      h.Knows ((Work.fingerprint h.desk (Path.ofText file)).run w).2 real bytes.length mtime i :=
    fun other real bytes mtime i hsees hknows =>
      hknows.fingerprint hproper (hsees.now hvisiting.advances) file
  generalize ((Work.fingerprint h.desk (Path.ofText file)).run w).2 = w₁ at hkept hother hdistinct hknown
  simp only [Work.surroundings, Prod.mk.injEq] at hkept
  obtain ⟨hvolume, henvironment, hnow⟩ := hkept
  refine ⟨⟨hvolume ▸ hvisiting.stands, hvolume ▸ hvisiting.advances, ?_, hdistinct, ?_⟩, ?_, hknown⟩
  · rw [henvironment, hnow]
    exact hvisiting.setting
  · intro other real bytes mtime hsees
    exact (hother other).trans (hvisiting.prints other real bytes mtime hsees)
  · rw [hvolume]
    exact keepsFilled_refl h _

/-- A result is put into the store of a slot, and served from then on if that goes well. -/
theorem Visiting.delivers (hvisiting : h.Visiting q d w₀ w) (hdate : w₀.now.IsDate) {name : String}
    {s : Slot Cache} (hs : h.registry.slot? name = some s) {errand : Errand}
    (hcache : errand.cache = s.cache) {a : Artifact} (ha : a.IsWhole) :
    let delivered := (errand.deliver a).run w
    h.Visiting q d w₀ delivered.2 ∧ h.Onward d w₀ w delivered.2 ∧
      ∀ b, delivered.1 = .ok b → s.cache.store.IsFilled delivered.2.volume errand.key := by
  have hnow : w.now.IsDate := by
    rw [(Prod.mk.inj hvisiting.setting).2]
    exact hdate
  obtain ⟨stored, v', hrun, hstores⟩ :=
    errand.run_deliver ha.isPrecompiled (hcache.symm ▸ hvisiting.stands.places name s hs) hnow
  rw [hcache] at hstores
  have hadvances : Volume.Advances (h.Owns d) w.volume v' :=
    hstores.advances.mono fun l hl => ⟨name, s, hs, hl⟩
  have hserves := fun hok : stored = .ok () => hstores.serves hok
  simp only [hrun]
  refine ⟨⟨hvisiting.stands.stores hstores, hvisiting.advances.trans hadvances, hvisiting.setting,
    hvisiting.distinct, ?_⟩, .of_desks ?_ rfl, ?_⟩
  · intro file real bytes mtime hsees
    have hsight := hsees.now hvisiting.advances
    have hsight' := hsees.now (w := { w with volume := v' }) (hvisiting.advances.trans hadvances)
    refine Eq.trans ?_ (hvisiting.prints file real bytes mtime hsees)
    exact (Work.fingerprint_fst (n := h.desk) hsight').trans (Work.fingerprint_fst (n := h.desk) hsight).symm
  · intro name' s' key' hs' hfilled
    obtain ⟨b, hb⟩ := hfilled
    rcases hvisiting.stands.answers hs hstores hs' key' with hsame | ⟨hok, -, -, hget⟩
    · exact ⟨b, hb.congr hsame⟩
    · exact ⟨_, (hserves hok).congr fun now => by rw [hget]⟩
  · intro b hb
    cases stored with
    | error f => cases hb
    | ok u => exact ⟨_, hserves rfl⟩

end Visiting

/-! Flights -/

open Concurrent

/-- A flight fills a place: what it still works on ends with content, and if it has landed with a result then
the place is filled. -/
def StageFills (s : Slot Cache) (errand : Errand) (w : World σ) : Stage → Prop
  | .looking => errand.work.EndsWhole
  | .fetching _ rest => rest.EndsWhole
  | .landed o => ∀ a, o = .ok a → s.cache.store.IsFilled w.volume errand.key

section Flying

variable {h : Host} {q : Path} {d : Location} {w₀ w : World σ} {name : String} {s : Slot Cache}
variable {errand : Errand} {crew : Crew σ}

/-- What progress leads to. -/
theorem Visiting.reached (hvisiting : h.Visiting q d w₀ w) (hdate : w₀.now.IsDate)
    (hs : h.registry.slot? name = some s) (hcache : errand.cache = s.cache)
    {progress : Reduction.Progress} (hwhole : progress.EndsWhole) :
    let reached := Flight.reached errand w (.ok progress)
    h.Visiting q d w₀ reached.2 ∧ h.Onward d w₀ w reached.2 ∧
      StageFills s errand reached.2 reached.1 := by
  cases progress with
  | waiting waited rest => exact ⟨hvisiting, .refl h d w₀ w, hwhole⟩
  | finished outcome =>
    cases outcome with
    | error e => exact ⟨hvisiting, .refl h d w₀ w, nofun⟩
    | ok a => exact hvisiting.delivers hdate hs hcache (hwhole a rfl)

variable (crew) in
/-- What going on with a reduction leads to. -/
theorem Visiting.proceed (hvisiting : h.Visiting q d w₀ w) (hdate : w₀.now.IsDate)
    (hs : h.registry.slot? name = some s) (hcache : errand.cache = s.cache) {rest : Reduction}
    (hwhole : rest.EndsWhole) (waited : Nat) :
    let reached := Flight.reached errand ((rest.proceed crew waited).run w).2
      ((rest.proceed crew waited).run w).1
    h.Visiting q d w₀ reached.2 ∧ h.Onward d w₀ w reached.2 ∧
      StageFills s errand reached.2 reached.1 := by
  obtain ⟨progress, journal, tools, hrun, hprogress⟩ := hwhole.proceed crew waited w
  rw [hrun]
  have hwent : h.Visiting q d w₀ { w with tools := tools, journal := journal } :=
    hvisiting.congr rfl rfl rfl
  have honward : h.Onward d w₀ w { w with tools := tools, journal := journal } :=
    .of_desks (keepsFilled_refl h _) rfl
  obtain ⟨hvisiting', honward', hfills⟩ := hwent.reached hdate hs hcache hprogress
  exact ⟨hvisiting', honward.trans honward', hfills⟩

variable (crew) in
/-- The next part of a flight. -/
theorem Visiting.next (hvisiting : h.Visiting q d w₀ w) (hdate : w₀.now.IsDate)
    (hs : h.registry.slot? name = some s) (hcache : errand.cache = s.cache) {stage : Stage}
    (hstage : StageFills s errand w stage) :
    let next := Flight.next crew errand w stage
    h.Visiting q d w₀ next.2 ∧ h.Onward d w₀ w next.2 ∧ StageFills s errand next.2 next.1 := by
  cases stage with
  | landed o => exact ⟨hvisiting, .refl h d w₀ w, hstage⟩
  | fetching waited rest => exact hvisiting.proceed crew hdate hs hcache hstage waited
  | looking =>
    have hkept := errand.keeps_stored? w
    unfold Flight.next
    rcases hstored : (errand.stored?).run w with ⟨found, w₁⟩
    rw [hstored] at hkept
    simp only [Work.knowledge, Work.surroundings, Prod.mk.injEq] at hkept
    obtain ⟨⟨hvolume, henvironment, hnow⟩, hdesks⟩ := hkept
    have hlooked : h.Visiting q d w₀ w₁ := hvisiting.congr hvolume (by rw [henvironment, hnow]) hdesks
    have honward : h.Onward d w₀ w w₁ := .of_desks (hvolume ▸ keepsFilled_refl h _) hdesks
    rcases found with e | (_ | a)
    · refine ⟨hlooked, honward, fun a ha => ?_⟩
      cases ha
    · obtain ⟨hvisiting', honward', hfills⟩ := hlooked.proceed crew hdate hs hcache hstage 0
      exact ⟨hvisiting', honward.trans honward', hfills⟩
    · refine ⟨hlooked, honward, fun b hb => ⟨a, ?_⟩⟩
      rw [hvolume, ← hcache]
      exact Errand.serves_of_stored? hstored

end Flying

/-! Visits together -/

/-- How a visit may end: files that are passed over have an empty result, and if another one has a result then
its place is filled. -/
structure MayEnd (h : Host) (d : Location) (wanted : String → Bool) (w₀ w : World σ) (file : String)
    (o : Except Failure Artifact) : Prop where
  passed : wanted file = false → o = .ok ⟨none, []⟩
  filled : ∀ a real bytes mtime, wanted file = true → o = .ok a →
    h.SeesOutside d w₀.volume file real bytes mtime →
    ∃ s i, h.Picks w₀ file s i ∧ s.cache.store.IsFilled w.volume i.cacheKey

/-- What is watched when files are visited together, in any order. -/
def filling (h : Host) (q : Path) (d : Location) (wanted : String → Bool) (files : List String)
    (w₀ : World σ) : Watch σ where
  fine := h.Visiting q d w₀
  later := h.Onward d w₀
  wants i key := ∃ file, files[i]? = some file ∧ wanted file = true ∧
    ∀ real bytes mtime, h.SeesOutside d w₀.volume file real bytes mtime →
      ∃ s print, h.Picks w₀ file s print ∧ key = (s.id, print.cacheKey)
  meant w _ key errand stage := ∃ s, h.registry.slot? key.1 = some s ∧ errand.cache = s.cache ∧
    errand.key = key.2 ∧ StageFills s errand w stage
  told w i o := ∀ file, files[i]? = some file → h.MayEnd d wanted w₀ w file o
  before _ _ := True

section Filling

variable {h : Host} {crew : Crew σ} {q : Path} {d : Location} {wanted : String → Bool}
variable {files : List String} {w₀ w w' : World σ} {file : String} {i : Nat}

theorem MayEnd.later (htidy : h.IsTidy) {o : Except Failure Artifact} (hends : h.MayEnd d wanted w₀ w file o)
    (honward : h.Onward d w₀ w w') : h.MayEnd d wanted w₀ w' file o where
  passed := hends.passed
  filled a real bytes mtime hwanted ho hsees := by
    obtain ⟨s, print, hpicks, hfilled⟩ := hends.filled a real bytes mtime hwanted ho hsees
    exact ⟨s, print, hpicks, honward.filled s.id s _ (hpicks.slot? htidy) hfilled⟩

theorem MayEnd.of_error (hwanted : wanted file = true) (e : Failure) :
    h.MayEnd d wanted w₀ w file (.error e) where
  passed hpassed := by
    rw [hwanted] at hpassed
    cases hpassed
  filled _ _ _ _ _ ho := nomatch ho

/-- A file that is seen elsewhere than in the caches has the slot and the fingerprint that it had at first. -/
theorem Visiting.picks (hvisiting : h.Visiting q d w₀ w) {real : Path} {bytes : List UInt8} {mtime : Int}
    (hsees : h.SeesOutside d w₀.volume file real bytes mtime) {s : Slot Cache} {print : Fingerprint} :
    h.Picks w file s print ↔ h.Picks w₀ file s print := by
  unfold Picks
  rw [hvisiting.prints file real bytes mtime hsees]

/-- The first part of a visit. -/
theorem Visiting.opensVisit (hvisiting : h.Visiting q d w₀ w) (hmode : h.readOnly = false)
    (htidy : h.IsTidy) (hhere : AreProper w₀.volume.here) (hi : files[i]? = some file) :
    h.Visiting q d w₀ ((h.visit wanted file).run w).2 ∧
      h.Onward d w₀ w ((h.visit wanted file).run w).2 ∧
      (h.filling q d wanted files w₀).Opens ((h.visit wanted file).run w).2 i
        ((h.visit wanted file).run w).1 := by
  have hself : ∀ {w : World σ} {o : Except Failure Artifact}, h.MayEnd d wanted w₀ w file o →
      (h.filling q d wanted files w₀).told w i o := by
    intro w o hends file' hi'
    rw [hi] at hi'
    cases hi'
    exact hends
  unfold visit
  by_cases hwanted : wanted file = true
  · rw [if_pos hwanted, openCompile, hmode, if_neg Bool.false_ne_true]
    obtain ⟨journal, hrun⟩ := run_openFull_opening htidy w file
    obtain ⟨hlooked, honward⟩ := hvisiting.looked hhere file
    rw [hrun]
    generalize ((Work.fingerprint h.desk (Path.ofText file)).run w).2 = w₁ at hlooked honward ⊢
    have hnoted : h.Onward d w₀ w₁ { w₁ with journal := journal } :=
      .of_desks (keepsFilled_refl h _) rfl
    refine ⟨hlooked.congr rfl rfl rfl, honward.trans hnoted, ?_⟩
    rcases h.opening_cases w file with ⟨e, hopening, -⟩ | ⟨s, print, hpicks, hopening⟩
    · rw [hopening]
      exact hself (.of_error hwanted e)
    · rw [hopening]
      refine ⟨⟨file, hi, hwanted, fun real bytes mtime hsees => ?_⟩, s, hpicks.slot? htidy, rfl, rfl, ?_⟩
      · exact ⟨s, print, (hvisiting.picks hsees).mp hpicks, rfl⟩
      · exact Reduction.endsWhole_passes h.next? file h.settings.maxPasses _ 0 print s.transformer [] []
  · rw [if_neg hwanted]
    refine ⟨hvisiting, .refl h d w₀ w, hself ⟨fun _ => rfl, fun _ _ _ _ hwanted' => absurd hwanted' hwanted⟩⟩

variable (crew) in
theorem filling_rules (hmode : h.readOnly = false) (htidy : h.IsTidy) (hhere : AreProper w₀.volume.here)
    (hdate : w₀.now.IsDate) :
    (h.filling q d wanted files w₀).Rules crew (h.visits wanted files) where
  stays w := .refl h d w₀ w
  goes _ _ _ := Onward.trans
  start _ := trivial
  opens w i hvisiting := by
    rw [visits_eq]
    cases hi : files[i]? with
    | none =>
      refine ⟨hvisiting, .refl h d w₀ w, fun file hfile => ?_⟩
      rw [hi] at hfile
      cases hfile
    | some file => exact hvisiting.opensVisit hmode htidy hhere hi
  notes w journal hvisiting :=
    ⟨hvisiting.congr rfl rfl rfl, .of_desks (keepsFilled_refl h _) rfl⟩
  carries w _ key errand stage hvisiting hmeant := by
    obtain ⟨s, hs, hcache, hkey, hstage⟩ := hmeant
    obtain ⟨hnext, honward, hstage'⟩ := hvisiting.next crew hdate hs hcache hstage
    exact ⟨hnext, honward, s, hs, hcache, hkey, hstage'⟩
  keepsMeant w w' _ key errand stage honward hmeant := by
    obtain ⟨s, hs, hcache, hkey, hstage⟩ := hmeant
    refine ⟨s, hs, hcache, hkey, ?_⟩
    cases stage with
    | looking => exact hstage
    | fetching waited rest => exact hstage
    | landed o => exact fun a ha => honward.filled key.1 s _ hs (hstage a ha)
  keepsTold w w' i o honward htold file hi := (htold file hi).later htidy honward
  tells w i _ key errand o hvisiting hwants _ hmeant := by
    obtain ⟨file, hi, hwanted, hkey⟩ := hwants
    obtain ⟨s', hs', -, hsame, hlanded⟩ := hmeant
    have hfilled : ∀ a, o = .ok a → s'.cache.store.IsFilled w.volume errand.key := hlanded
    intro file' hi'
    rw [hi] at hi'
    cases hi'
    refine ⟨fun hpassed => ?_, fun a real bytes mtime _ ho hsees => ?_⟩
    · rw [hwanted] at hpassed
      cases hpassed
    · obtain ⟨s, print, hpicks, rfl⟩ := hkey real bytes mtime hsees
      -- a name has one slot
      obtain rfl : s = s' := by
        rw [hpicks.slot? htidy] at hs'
        exact Option.some.inj hs'
      rw [hsame] at hfilled
      exact ⟨s, print, hpicks, hfilled a ho⟩

/-- The file of a visit is known. -/
def IsKnown (h : Host) (d : Location) (wanted : String → Bool) (files : List String) (w₀ w : World σ)
    (i : Nat) : Prop :=
  ∀ file real bytes mtime, files[i]? = some file → wanted file = true →
    h.SeesOutside d w₀.volume file real bytes mtime →
    ∃ print, h.Knows w real bytes.length mtime print

theorem isKnown_visit (hvisiting : h.Visiting q d w₀ w) (hmode : h.readOnly = false) (htidy : h.IsTidy) :
    h.IsKnown d wanted files w₀ ((h.visits wanted files i).run w).2 i := by
  intro file real bytes mtime hi hwanted hsees
  rw [visits_eq, hi]
  simp only
  unfold visit
  rw [if_pos hwanted, openCompile, hmode, if_neg Bool.false_ne_true]
  obtain ⟨journal, hrun⟩ := run_openFull_opening htidy w file
  obtain ⟨print, hknows⟩ := knows_fingerprint h (hsees.now hvisiting.advances)
  rw [hrun]
  exact ⟨print, hknows.congr rfl⟩

theorem Onward.isKnown (honward : h.Onward d w₀ w w') (hknown : h.IsKnown d wanted files w₀ w i) :
    h.IsKnown d wanted files w₀ w' i := by
  intro file real bytes mtime hi hwanted hsees
  obtain ⟨print, hknows⟩ := hknown file real bytes mtime hi hwanted hsees
  exact ⟨print, honward.known file real bytes mtime print hsees hknows⟩

end Filling

/-! Walks -/

section Walking

variable {h : Host} {crew : Crew σ} {q : Path} {d : Location} {wanted : String → Bool} {root : Path}
variable {w : World σ}

/-- The visits of a walk over the wanted files below a directory, when they have come to rest. -/
def visitsAtRest (h : Host) (crew : Crew σ) (wanted : String → Bool) (root : Path) (w : World σ) :
    Machine σ :=
  (Machine.initial w (w.volume.files root).length (some h.settings.scanLimit.toNat)).runToRest crew
    (h.visits wanted ((w.volume.files root).map Path.text))

/-- All wanted files below a directory compile when they are visited together, and nobody interrupts that. -/
structure AllCompile (h : Host) (crew : Crew σ) (wanted : String → Bool) (root : Path) (w : World σ) :
    Prop where
  calm : (h.visitsAtRest crew wanted root w).isInterrupted = false
  results : ∀ (i : Nat) (p : Path), (w.volume.files root)[i]? = some p → wanted p.text = true →
    ∃ a, (h.visitsAtRest crew wanted root w).request i = .settled (.ok a)

/-- A host in a world from which files can be visited. -/
structure MayVisit (h : Host) (q : Path) (d : Location) (w : World σ) : Prop where
  mode : h.readOnly = false
  limit : 0 < h.settings.scanLimit
  tidy : h.IsTidy
  stands : h.Stands q d w.volume
  distinct : Work.Distinct h.desk w
  here : AreProper w.volume.here
  date : w.now.IsDate

theorem MayVisit.visitsAtRest (hmay : h.MayVisit q d w) (crew : Crew σ) (wanted : String → Bool)
    (root : Path) :
    let files := (w.volume.files root).map Path.text
    let m := h.visitsAtRest crew wanted root w
    m.Guarded (h.filling q d wanted files w) ∧ m.HasOpened (h.IsKnown d wanted files w) ∧
      m.IsOrderly h.settings.scanLimit.toNat files.length ∧ m.queue = [] := by
  unfold Host.visitsAtRest
  generalize hfiles : (w.volume.files root).map Path.text = files
  have hcount : (w.volume.files root).length = files.length := by rw [← hfiles, List.length_map]
  rw [hcount]
  generalize h.settings.scanLimit.toNat = limit
  have hfine : (h.filling q d wanted files w).fine w := Visiting.start hmay.stands hmay.distinct
  have horderly : (Machine.initial w files.length (some limit)).IsOrderly limit files.length :=
    Machine.IsOrderly.initial w files.length
  have hguarded : (Machine.initial w files.length (some limit)).Guarded (h.filling q d wanted files w) :=
    Machine.push_nil (Machine.initial w files.length (some limit)) ▸
      Machine.Guarded.initial hfine files.length (some limit) []
  have hopened : (Machine.initial w files.length (some limit)).HasOpened (h.IsKnown d wanted files w) := by
    intro i hi
    rw [Machine.hasBegun_initial] at hi
    cases hi
  have hopens : ∀ w₁ i, (h.filling q d wanted files w).fine w₁ →
      h.IsKnown d wanted files w ((h.visits wanted files i).run w₁).2 i :=
    fun _ _ hvisiting => isKnown_visit hvisiting hmay.mode hmay.tidy
  have hlater : ∀ w₁ w₂ i, (h.filling q d wanted files w).later w₁ w₂ →
      h.IsKnown d wanted files w w₁ i → h.IsKnown d wanted files w w₂ i :=
    fun _ _ _ honward => Onward.isKnown honward
  obtain ⟨hsteps, hrest⟩ := Machine.steps_runToRest crew (h.visits wanted files)
    (Machine.initial w files.length (some limit))
  obtain ⟨hguarded', hopened'⟩ := hguarded.orderly_steps hopens hlater
    (filling_rules crew hmay.mode hmay.tidy hmay.here hmay.date) (fun _ _ => trivial)
    hopened horderly hsteps
  exact ⟨hguarded', hopened', horderly.steps hsteps, hrest⟩

/-- All visits of a walk that nobody has interrupted have ended. -/
theorem MayVisit.ends (hmay : h.MayVisit q d w) {crew : Crew σ} {wanted : String → Bool} {root : Path}
    {m : Machine σ} (hm : h.visitsAtRest crew wanted root w = m) (hcalm : m.isInterrupted = false) :
    m.requests.length = (w.volume.files root).length ∧
      ∀ (i : Nat) (p : Path), (w.volume.files root)[i]? = some p →
        ∃ o, m.request i = .settled o ∧ m.requests[i]? = some (.settled o) ∧
          h.MayEnd d wanted w m.world p.text o := by
  obtain ⟨hguarded, -, horderly, hrest⟩ := hmay.visitsAtRest crew wanted root
  rw [hm] at hguarded horderly hrest
  have hkeeps : Machine.Keeps h.settings.scanLimit.toNat ((w.volume.files root).map Path.text).length
      .empty m := by
    rcases horderly with ⟨hinterrupted, -⟩ | hkeeps
    · rw [hcalm] at hinterrupted
      cases hinterrupted
    · exact hkeeps
  have hlength : m.requests.length = (w.volume.files root).length := by
    rw [hkeeps.attends.length, List.length_map]
  refine ⟨hlength, fun i p hi => ?_⟩
  have hlt : i < (w.volume.files root).length := (List.getElem?_eq_some_iff.mp hi).1
  obtain ⟨o, ho⟩ := horderly.rest (Int.lt_toNat.mpr hmay.limit) hrest hcalm
    (by rw [List.length_map]; exact hlt)
  have htold := hguarded.requests i
  rw [ho] at htold
  refine ⟨o, ho, ?_, htold p.text (by rw [List.getElem?_map, hi, Option.map_some])⟩
  unfold Machine.request at ho
  rw [List.getElem?_eq_getElem (hlength.symm ▸ hlt)] at ho ⊢
  exact congrArg some ho

/-- When nobody interrupts a walk then all its visits have results just if all wanted files compile: those that
are passed over have empty ones. -/
theorem MayVisit.results_iff (hmay : h.MayVisit q d w) {crew : Crew σ} {wanted : String → Bool} {root : Path}
    {m : Machine σ} (hm : h.visitsAtRest crew wanted root w = m) (hcalm : m.isInterrupted = false) :
    (∀ o ∈ m.requests.map fun r => r.outcome?.getD (.error .cancelled), ∃ a, o = .ok a) ↔
      h.AllCompile crew wanted root w := by
  obtain ⟨hlength, hends⟩ := hmay.ends hm hcalm
  subst hm
  constructor
  · refine fun hall => ⟨hcalm, fun i p hi _ => ?_⟩
    obtain ⟨o, ho, hr, -⟩ := hends i p hi
    obtain ⟨a, rfl⟩ := hall o (List.mem_map.mpr ⟨.settled o, List.mem_of_getElem? hr, rfl⟩)
    exact ⟨a, ho⟩
  · intro hall outcome houtcome
    obtain ⟨r, hr, rfl⟩ := List.mem_map.mp houtcome
    obtain ⟨i, hi⟩ := List.getElem?_of_mem hr
    have hlt : i < (w.volume.files root).length := hlength ▸ (List.getElem?_eq_some_iff.mp hi).1
    obtain ⟨o, ho, hr', hend⟩ := hends i _ (List.getElem?_eq_getElem hlt)
    cases hi.symm.trans hr'
    by_cases hwanted : wanted ((w.volume.files root)[i]).text = true
    · obtain ⟨a, ha⟩ := hall.results i _ (List.getElem?_eq_getElem hlt) hwanted
      cases ho.symm.trans ha
      exact ⟨a, rfl⟩
    · exact ⟨⟨none, []⟩, hend.passed (Bool.not_eq_true _ ▸ hwanted)⟩

/-- A walk ends without a failure just if all wanted files compile. It leaves the world as its visits do. -/
theorem MayVisit.run_compileAll (hmay : h.MayVisit q d w) (crew : Crew σ) (wanted : String → Bool)
    (hroot : w.volume.isDirectory root = .ok true) : ∃ r journal,
    (h.compileAll crew root wanted).run w =
      (r, { (h.visitsAtRest crew wanted root w).world with journal := journal }) ∧
    (r = .ok () ↔ h.AllCompile crew wanted root w) := by
  have hrun := Host.run_compileAll (h := h) crew wanted hmay.limit.le.not_gt hroot
  change (h.compileAll crew root wanted).run w =
    (((Walk.finish root (w.volume.files root) (h.visitsAtRest crew wanted root w)).run w).1.map fun _ => (),
      ((Walk.finish root (w.volume.files root) (h.visitsAtRest crew wanted root w)).run w).2) at hrun
  rw [hrun]
  generalize hm : h.visitsAtRest crew wanted root w = m
  by_cases hinterrupted : m.isInterrupted = true
  · unfold Walk.finish Machine.harvest
    rw [hinterrupted]
    refine ⟨.error .interrupted, m.world.journal, rfl, nofun, fun hall => ?_⟩
    have hcalm := hall.calm
    rw [hm, hinterrupted] at hcalm
    cases hcalm
  · rw [Bool.not_eq_true] at hinterrupted
    obtain ⟨hlength, -⟩ := hmay.ends hm hinterrupted
    obtain ⟨journal, hconclude⟩ := Walk.run_conclude root (w.volume.files root)
      (m.requests.map fun r => r.outcome?.getD (.error .cancelled)) (by rw [List.length_map, hlength]) m.world
    have hharvest : m.harvest.run w =
        (.ok ⟨m.requests.map fun r => r.outcome?.getD (.error .cancelled), m.peak⟩, m.world) := by
      unfold Machine.harvest
      rw [Action.run_bind_ok (Action.run_set w _), hinterrupted]
      rfl
    unfold Walk.finish
    rw [Action.run_bind_ok hharvest, hconclude]
    refine ⟨_, journal, rfl, ?_⟩
    rw [← hmay.results_iff hm hinterrupted, ← Walk.ending_eq_ok]
    cases Walk.ending (m.requests.map fun r => r.outcome?.getD (.error .cancelled)) with
    | ok u => exact ⟨fun _ => rfl, fun _ => rfl⟩
    | error e => exact ⟨nofun, nofun⟩

/-- When all wanted files have compiled, then those of them that are seen elsewhere than in the caches have their
places filled, and are known as they were seen at first. -/
theorem MayVisit.fills (hmay : h.MayVisit q d w) (crew : Crew σ) (wanted : String → Bool) (root : Path) :
    h.Visiting q d w (h.visitsAtRest crew wanted root w).world ∧
      (h.AllCompile crew wanted root w → ∀ p ∈ w.volume.files root, wanted p.text = true →
        ∀ real bytes mtime, h.SeesOutside d w.volume p.text real bytes mtime → ∃ s i,
          h.Picks w p.text s i ∧
          s.cache.store.IsFilled (h.visitsAtRest crew wanted root w).world.volume i.cacheKey ∧
          h.Knows (h.visitsAtRest crew wanted root w).world real bytes.length mtime i) := by
  obtain ⟨hguarded, hopened, -, -⟩ := hmay.visitsAtRest crew wanted root
  have hvisiting : h.Visiting q d w (h.visitsAtRest crew wanted root w).world := hguarded.world
  refine ⟨hvisiting, fun hall p hp hwanted real bytes mtime hsees => ?_⟩
  obtain ⟨i, hi⟩ := List.getElem?_of_mem hp
  have hfile : ((w.volume.files root).map Path.text)[i]? = some p.text := by
    rw [List.getElem?_map, hi, Option.map_some]
  obtain ⟨a, ha⟩ := hall.results i p hi hwanted
  obtain ⟨o, ho, -, hend⟩ := (hmay.ends rfl hall.calm).2 i p hi
  cases ho.symm.trans ha
  obtain ⟨s, print, hpicks, hfilled⟩ := hend.filled a real bytes mtime hwanted rfl hsees
  obtain ⟨print', hknows⟩ := hopened i (by rw [ha]; rfl) p.text real bytes mtime hfile hwanted hsees
  refine ⟨s, print, hpicks, hfilled, ?_⟩
  have hprint := (hknows.print (hsees.now hvisiting.advances)).symm.trans
    (hvisiting.prints p.text real bytes mtime hsees)
  cases hprint.trans hpicks.1
  exact hknows

end Walking

end Host
end AssetCompiler
