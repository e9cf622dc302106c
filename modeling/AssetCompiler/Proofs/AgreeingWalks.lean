import AssetCompiler.Proofs.Deployments
import AssetCompiler.Proofs.SharedFlights

/-!
Walks that compile. The files below a directory are compiled together or one at a time. Both walks end with the
failure of the first file that fails, or without one, and leave the same in the stores.
-/
namespace AssetCompiler

variable {σ : Type}

/-! How walks conclude -/

namespace Walk

/-- The end that outcomes have: the first failure, if there is one. -/
def ending : List (Except Failure Artifact) → Except Failure Unit
  | [] => .ok ()
  | .error e :: _ => .error e
  | .ok _ :: rest => ending rest

/-- Outcomes that are like others until the first of these is a failure. -/
def LikeToFirst : List (Except Failure Artifact) → List (Except Failure Artifact) → Prop
  | [], [] => True
  | o :: rest, o' :: rest' => EndAlike o o' ∧ ∀ a, o = .ok a → LikeToFirst rest rest'
  | _, _ => False

theorem LikeToFirst.ending {os os' : List (Except Failure Artifact)} (h : LikeToFirst os os') :
    EndAlike (ending os) (ending os') := by
  induction os generalizing os' with
  | nil =>
    cases os' with
    | nil => exact .refl _
    | cons o' rest' => exact h.elim
  | cons o rest ih =>
    cases os' with
    | nil => exact h.elim
    | cons o' rest' =>
      obtain ⟨hend, hrest⟩ := h
      cases o with
      | ok a =>
        obtain rfl := (hend.ok_iff a).mpr rfl
        change EndAlike (Walk.ending rest) (Walk.ending rest')
        exact ih (hrest a rfl)
      | error e =>
        cases o' with
        | ok a' => cases hend
        | error e' => exact hend.map fun _ => ()

theorem likeToFirst_of {os os' : List (Except Failure Artifact)} (hlength : os'.length = os.length)
    (halike : ∀ (i : Nat) (o' : Except Failure Artifact), os'[i]? = some o' →
      (∀ a, o' = .ok a ↔ os[i]? = some (.ok a)) ∧
        ∃ j ≤ i, ∃ o, os[j]? = some o ∧ EndAlike o o') : LikeToFirst os os' := by
  induction os generalizing os' with
  | nil =>
    obtain rfl := List.eq_nil_of_length_eq_zero hlength
    trivial
  | cons o rest ih =>
    cases os' with
    | nil => cases hlength
    | cons o' rest' =>
      obtain ⟨-, j, hj, o₁, ho₁, hend⟩ := halike 0 o' rfl
      obtain rfl := Nat.le_zero.mp hj
      cases ho₁
      refine ⟨hend, fun a ha => ih (Nat.succ.inj hlength) fun i o₂ ho₂ => ?_⟩
      obtain ⟨hiff, j, hj, o₃, ho₃, hend'⟩ := halike (i + 1) o₂ ho₂
      refine ⟨hiff, ?_⟩
      cases j with
      | succ j => exact ⟨j, Nat.le_of_succ_le_succ hj, o₃, ho₃, hend'⟩
      | zero =>
        -- what has ended like the first one has a result, and so is like itself
        cases ho₃
        rw [ha] at hend'
        have hresult := (hend'.ok_iff a).mpr rfl
        exact ⟨i, le_rfl, .ok a, (hiff a).mp hresult, hresult ▸ .refl _⟩

theorem run_checkRoot {root : Path} {w : World σ} (h : w.volume.isDirectory root = .ok true) :
    (checkRoot root).run w = (.ok (), w) := by
  unfold checkRoot
  rw [Action.run_bind, Work.run_look, h]
  rfl

theorem run_conclude (root : Path) (ps : List Path) (os : List (Except Failure Artifact))
    (hlength : os.length = ps.length) (w : World σ) : ∃ journal, (conclude root (ps.zip os)).run w =
      ((ending os).map fun _ => ps.length, { w with journal := journal }) := by
  have hends : ending os = (failures (ps.zip os)).head?.elim (.ok ()) fun failure => .error failure.2 := by
    unfold failures
    induction ps generalizing os with
    | nil =>
      obtain rfl := List.eq_nil_of_length_eq_zero hlength
      rfl
    | cons p ps ih =>
      cases os with
      | nil => cases hlength
      | cons o os =>
        cases o with
        | error e => rfl
        | ok a => exact ih os (Nat.succ.inj hlength)
  unfold conclude
  cases hfailures : failures (ps.zip os) with
  | nil =>
    rw [hfailures] at hends
    refine ⟨⟨Log.Context.none, .visited ps.length root.text⟩ :: w.journal, ?_⟩
    rw [hends, Action.run_bind_ok (Work.run_report _ w), List.length_zip, hlength, Nat.min_self]
    rfl
  | cons failure later =>
    rw [hfailures] at hends
    refine ⟨logged (later.map fun f => .visitFailed f.1.text f.2).reverse w.journal, ?_⟩
    rw [hends, Action.run_bind_ok (run_reportAll later w)]
    rfl

end Walk

namespace Host

open Concurrent

/-! Worlds after walks -/

/-- What has become of a world when all files have been compiled: what was made of them is served. -/
structure Compiled (h : Host) (crew : Crew σ) (q : Path) (d : Location) (files : List String)
    (w₀ w : World σ) : Prop extends Since h crew q d files w₀ w where
  complete : ∀ file ∈ files, ∀ a s i, h.made crew w₀ file = .ok a → h.Picks w₀ file s i →
    s.cache.store.answer? w.volume i.cacheKey = some (.ok a)

section Walking

variable {h : Host} {crew : Crew σ} {q : Path} {d : Location} {wanted : String → Bool} {root : Path}
variable {w w' : World σ} {m : Machine σ}

/-- The wanted files below a directory. -/
def asked (wanted : String → Bool) (v : Volume) (root : Path) : List String :=
  ((v.files root).map Path.text).filter wanted

/-- The end that a walk has to have: that of the first file that fails. -/
def walked (h : Host) (crew : Crew σ) (w : World σ) (wanted : String → Bool) (root : Path) :
    Except Failure Unit :=
  Walk.ending ((w.volume.files root).map fun p => h.visited crew w wanted p.text)

/-- Visits together, which have begun in path order and gone on in any order. -/
def VisitsTogether (h : Host) (crew : Crew σ) (wanted : String → Bool) (root : Path) (w : World σ)
    (m : Machine σ) : Prop :=
  Relation.ReflTransGen
    (Machine.TurnStep crew (h.visits wanted ((w.volume.files root).map Path.text)))
    (Machine.initial w (w.volume.files root).length (some h.settings.scanLimit.toNat)) m

/-- When visits together have come to rest, each has ended as it would have ended alone, up to the first one
that fails; and what was made of the files is served. -/
theorem VisitsTogether.rest (hvisits : h.VisitsTogether crew wanted root w m) (hmode : h.readOnly = false)
    (hsteady : crew.IsSteady) (hquiet : crew.RaisesNoSignal) (hlimit : 0 < h.settings.scanLimit)
    (ready : h.IsReadyFor q d w (asked wanted w.volume root)) (hrest : m.queue = []) :
    h.Compiled crew q d (asked wanted w.volume root) w m.world ∧
      ∃ os : List (Except Failure Artifact), os.length = (w.volume.files root).length ∧
        (∀ w', m.harvest.run w' = (.ok ⟨os, m.peak⟩, m.world)) ∧
        EndAlike (h.walked crew w wanted root) (Walk.ending os) := by
  unfold VisitsTogether at hvisits
  unfold asked at ready ⊢
  generalize hfiles : (w.volume.files root).map Path.text = files at hvisits ready ⊢
  have hcount : files.length = (w.volume.files root).length := by rw [← hfiles, List.length_map]
  obtain ⟨hwatched, -⟩ := (Machine.Watched.initial (ready.since crew)).steps
    (agreeing_rules hmode hsteady ready) (agreeing_isCalm hquiet ready) (fun _ _ hlt => hlt.le)
    (Machine.inTurn_initial w _) hvisits
  have hlength : m.requests.length = files.length := hwatched.keeps.attends.length.trans hcount.symm
  -- every visit has settled, and has been told what it may be told
  have htold : ∀ i file, files[i]? = some file → ∃ o, m.requests[i]? = some (.settled o) ∧
      h.Tells crew wanted files w m.world i file o := by
    intro i file hi
    have hlt : i < files.length := (List.getElem?_eq_some_iff.mp hi).1
    obtain ⟨o, ho⟩ := Machine.IsOrderly.rest (.inr hwatched.keeps) (by omega) hrest hwatched.calm
      (hcount ▸ hlt)
    have hfits := hwatched.guarded.requests i
    rw [ho] at hfits
    refine ⟨o, ?_, ?_⟩
    · unfold Machine.request at ho
      rw [List.getElem?_eq_getElem (hlength.symm ▸ hlt)] at ho ⊢
      exact congrArg some ho
    · rcases hfits with ⟨hnone, -⟩ | ⟨file', hi', htells⟩
      · cases hnone.symm.trans hi
      · cases hi.symm.trans hi'
        exact htells
  refine ⟨⟨hwatched.guarded.world, ?_⟩,
    m.requests.map fun r => r.outcome?.getD (.error .cancelled), ?_, fun w' => ?_, ?_⟩
  · intro file hfile a s print hmade hpicks
    obtain ⟨hmem, hwanted⟩ := List.mem_filter.mp hfile
    obtain ⟨i, hi⟩ := List.getElem?_of_mem hmem
    obtain ⟨o, -, htells⟩ := htold i file hi
    exact htells.served a s print ((htells.result a).mpr ((visited_of_wanted hwanted).trans hmade))
      hwanted hpicks
  · rw [List.length_map, hlength, hcount]
  · unfold Machine.harvest
    rw [Action.run_bind_ok (Action.run_set w' _), if_neg (by rw [hwatched.calm]; exact nofun)]
    rfl
  · have hwalked : h.walked crew w wanted root =
        Walk.ending (files.map fun file => h.visited crew w wanted file) := by
      unfold walked
      rw [← hfiles, List.map_map]
      rfl
    rw [hwalked]
    refine (Walk.likeToFirst_of (by simp only [List.length_map, hlength]) fun i o ho => ?_).ending
    rw [List.getElem?_map] at ho
    obtain ⟨r, hr, hro⟩ := Option.map_eq_some_iff.mp ho
    have hlt : i < files.length := hlength ▸ (List.getElem?_eq_some_iff.mp hr).1
    obtain ⟨o', hr', htells⟩ := htold i files[i] (List.getElem?_eq_getElem hlt)
    cases hr.symm.trans hr'
    obtain rfl : o' = o := hro
    refine ⟨fun a => ?_, ?_⟩
    · rw [htells.result, List.getElem?_map, List.getElem?_eq_getElem hlt, Option.map_some,
        Option.some.injEq]
    · obtain ⟨j, hj, file', hj', hend⟩ := htells.earlier
      exact ⟨j, hj, _, by rw [List.getElem?_map, hj', Option.map_some], hend⟩

/-- A visit of a file without interruptions. -/
def visitAlone (h : Host) (crew : Crew σ) (wanted : String → Bool) (file : String) : Work σ Artifact :=
  if wanted file then h.compile crew file else return ⟨none, []⟩

theorem Since.visitAlone {files : List String} {w₀ : World σ} {file : String}
    (hsince : h.Since crew q d files w₀ w) (hmode : h.readOnly = false) (hsteady : crew.IsSteady)
    (ready : h.IsReadyFor q d w₀ files) (hfile : wanted file = true → file ∈ files) :
    EndAlike (h.visited crew w₀ wanted file) ((h.visitAlone crew wanted file).run w).1 ∧
      h.Since crew q d files w₀ ((h.visitAlone crew wanted file).run w).2 ∧
      h.ServesOn w.volume ((h.visitAlone crew wanted file).run w).2.volume ∧
      (wanted file = true → ∀ a s i, h.made crew w₀ file = .ok a → h.Picks w₀ file s i →
        s.cache.store.answer? ((h.visitAlone crew wanted file).run w).2.volume i.cacheKey = some (.ok a)) := by
  unfold Host.visitAlone
  by_cases hwanted : wanted file = true
  · have hcompile : h.compile crew file = h.compileFull crew file := by
      unfold compile Host.compileFull openCompile
      rw [hmode]
      rfl
    obtain ⟨hend, hsince', hserves, hserved⟩ := hsince.compileFull ready hsteady (hfile hwanted)
    rw [if_pos hwanted, hcompile, visited_of_wanted hwanted]
    exact ⟨hend, hsince', hserves, fun _ a s i hmade => hserved a s i ((hend.ok_iff a).mpr hmade)⟩
  · rw [if_neg hwanted, visited, if_neg hwanted]
    exact ⟨.refl _, hsince, servesOn_refl h _, fun hwanted' => absurd hwanted' hwanted⟩

/-- Visits in turn. -/
theorem Since.visitEach {files : List String} {w₀ : World σ} (hsince : h.Since crew q d files w₀ w)
    (hmode : h.readOnly = false) (hsteady : crew.IsSteady) (hquiet : crew.RaisesNoSignal)
    (ready : h.IsReadyFor q d w₀ files) (ps : List Path)
    (hfiles : ∀ p ∈ ps, wanted p.text = true → p.text ∈ files) :
    ∃ os w', (Walk.visitEach (h.visitAlone crew wanted) ps).run w = (.ok (ps.zip os), w') ∧
      h.Since crew q d files w₀ w' ∧ h.ServesOn w.volume w'.volume ∧
      List.Forall₂ (fun p o => EndAlike (h.visited crew w₀ wanted p.text) o) ps os ∧
      ∀ p ∈ ps, wanted p.text = true → ∀ a s i, h.made crew w₀ p.text = .ok a → h.Picks w₀ p.text s i →
        s.cache.store.answer? w'.volume i.cacheKey = some (.ok a) := by
  induction ps generalizing w with
  | nil => exact ⟨[], w, rfl, hsince, servesOn_refl h _, .nil, nofun⟩
  | cons p rest ih =>
    obtain ⟨hfile, hfiles'⟩ := List.forall_mem_cons.mp hfiles
    obtain ⟨hend, hvisited, hserves, hserved⟩ := hsince.visitAlone hmode hsteady ready hfile
    obtain ⟨os, w', hrun, hlater, hserves', hends, hserved'⟩ := ih hvisited hfiles'
    have hsignal : ∀ e, ((h.visitAlone crew wanted p.text).run w).1 = .error e → e.isSignal = false := by
      intro e he
      refine hend.isSignal he fun e' he' => ?_
      by_cases hwanted : wanted p.text = true
      · rw [visited_of_wanted hwanted] at he'
        exact ready.isSignal_made hquiet (hfile hwanted) he'
      · rw [visited, if_neg hwanted] at he'
        cases he'
    refine ⟨((h.visitAlone crew wanted p.text).run w).1 :: os, w', ?_, hlater, hserves.trans hserves',
      .cons hend hends, List.forall_mem_cons.mpr ⟨fun hwanted a s i hmade hpicks => ?_, hserved'⟩⟩
    · unfold Walk.visitEach
      rw [Action.run_bind_ok (Work.run_outcome _ w)]
      cases hvisit : ((h.visitAlone crew wanted p.text).run w).1 with
      | ok a =>
        simp only
        rw [Action.run_bind_ok hrun]
        rfl
      | error e =>
        simp only [hsignal e hvisit, Bool.false_eq_true, if_false]
        rw [Action.run_bind_ok hrun]
        rfl
    · exact hserves' s.id s _ a (hpicks.slot? ready.tidy) (hserved hwanted a s i hmade hpicks)

/-- All files together: the walk ends as its visits do. -/
theorem run_compileAll (crew : Crew σ) (wanted : String → Bool) (hlimit : ¬ h.settings.scanLimit < 0)
    (hroot : w.volume.isDirectory root = .ok true) :
    let finished := (Walk.finish root (w.volume.files root)
      ((Machine.initial w (w.volume.files root).length (some h.settings.scanLimit.toNat)).runToRest crew
        (h.visits wanted ((w.volume.files root).map Path.text)))).run w
    (h.compileAll crew root wanted).run w = (finished.1.map fun _ => (), finished.2) := by
  have hchecked := Walk.run_checkRoot hroot
  have hfiles : (Walk.files root : Work σ (List Path)).run w = (.ok (w.volume.files root), w) := rfl
  have hrun := run_runTogether crew ((w.volume.files root).map fun p => h.visit wanted p.text)
    (some h.settings.scanLimit.toNat) [] w
  have hplans : numbered ((w.volume.files root).map fun p => h.visit (σ := σ) wanted p.text) =
      h.visits wanted ((w.volume.files root).map Path.text) := by
    unfold visits
    rw [List.map_map]
    rfl
  rw [List.length_map, Machine.push_nil, hplans] at hrun
  generalize (Machine.initial w (w.volume.files root).length (some h.settings.scanLimit.toNat)).runToRest crew
    (h.visits wanted ((w.volume.files root).map Path.text)) = m at hrun ⊢
  change (do
    let walked ← Walk.together crew root h.settings.scanLimit (h.visit wanted)
    let _ ← Work.lift walked.1).run w = _
  unfold Walk.together Walk.finish
  simp only [hlimit, if_false]
  rw [Action.run_bind, Action.run_bind_ok hchecked, Action.run_bind_ok hfiles, Action.run_bind, hrun,
    Action.run_bind]
  rcases m.harvest.run w with ⟨harvested, w₁⟩
  cases harvested with
  | error e => rfl
  | ok result =>
    simp only
    rw [Action.run_bind_ok (Work.run_outcome _ w₁)]
    rcases (Walk.conclude root ((w.volume.files root).zip result.outcomes)).run w₁ with ⟨concluded, w₂⟩
    cases concluded <;> rfl

/-- When visits together have come to rest, then a walk ends as they do. -/
theorem VisitsTogether.finish (hvisits : h.VisitsTogether crew wanted root w m) (hmode : h.readOnly = false)
    (hsteady : crew.IsSteady) (hquiet : crew.RaisesNoSignal) (hlimit : 0 < h.settings.scanLimit)
    (ready : h.IsReadyFor q d w (asked wanted w.volume root)) (hrest : m.queue = []) (w' : World σ) :
    let r := (Walk.finish root (w.volume.files root) m).run w'
    EndAlike (h.walked crew w wanted root) (r.1.map fun _ => ()) ∧ r.2.volume = m.world.volume := by
  obtain ⟨-, os, hlength, hharvest, hend⟩ := hvisits.rest hmode hsteady hquiet hlimit ready hrest
  obtain ⟨journal, hconclude⟩ := Walk.run_conclude root (w.volume.files root) os hlength m.world
  have hrun : (Walk.finish root (w.volume.files root) m).run w' =
      ((Walk.ending os).map fun _ => (w.volume.files root).length, { m.world with journal := journal }) := by
    unfold Walk.finish
    rw [Action.run_bind_ok (hharvest w'), hconclude]
  have hunit : ((Walk.ending os).map fun _ => (w.volume.files root).length).map (fun _ => ()) =
      Walk.ending os := by
    cases Walk.ending os <;> rfl
  rw [hrun]
  refine ⟨?_, rfl⟩
  rw [hunit]
  exact hend

end Walking

section Small

open Deploys

/-- Transformers that answer for the code alone. -/
def codeCrew (transform : String → Except Failure Output) : Crew Nat where
  respond c n :=
    (match c.question with
    | .accepts => ⟨.ok (.bool true), []⟩
    | .dependencies => ⟨.ok (.arr []), []⟩
    | .transform => ⟨(transform c.code).map Output.toJson, []⟩, n)
  pauses _ := 1

end Small

end Host
end AssetCompiler
