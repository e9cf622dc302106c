import AssetCompiler.Proofs.Consultations
import AssetCompiler.Proofs.Rest
import AssetCompiler.Walk

/-!
Sessions with a host. Callers compile files one after the other, or have files worked on together in any
order; walks over directories are made of such calls. A session is what has come of the calls so far: who
was consulted, and the world as it is now.
-/
namespace AssetCompiler

variable {σ α : Type}

open Reduction (Exchange)
open Concurrent (Machine exchangesIn)

namespace Host

/-- A visit of a file on a walk. Files that are not wanted are passed over. -/
def visit (h : Host) (wanted : String → Bool) (file : String) : Work σ Opening :=
  if wanted file then h.openCompile file else return .settled (.ok ⟨none, []⟩)

/-- Visits that are worked on together. -/
def visits (h : Host) (wanted : String → Bool) (files : List String) (i : Nat) : Work σ Opening :=
  ((files.map (h.visit wanted))[i]?).getD (throw .cancelled)

theorem visits_eq (h : Host) (wanted : String → Bool) (files : List String) (i : Nat) :
    h.visits (σ := σ) wanted files i = match files[i]? with
      | none => throw .cancelled
      | some file => h.visit wanted file := by
  unfold visits
  rw [List.getElem?_map]
  cases files[i]? <;> rfl

/-- Only a compilation of a wanted file sends an errand. -/
theorem shared_of_visits {h : Host} {wanted : String → Bool} {files : List String} {i : Nat}
    {w : World σ} {owner : String} {errand : Errand}
    (hshared : ((h.visits wanted files i).run w).1 = .ok (.shared owner errand)) :
    ∃ file ∈ files, ((h.openCompile file).run w).1 = .ok (.shared owner errand) := by
  rw [visits_eq] at hshared
  cases hfile : files[i]? with
  | none =>
    rw [hfile] at hshared
    cases hshared
  | some file =>
    simp only [hfile] at hshared
    unfold visit at hshared
    split at hshared
    · exact ⟨file, List.mem_of_getElem? hfile, hshared⟩
    · cases hshared

/-- What callers ask of a host. -/
inductive Order
  | compile (file : String)
  | together (root : Path) (wanted : String → Bool)
  | each (root : Path) (wanted : String → Bool)

def fill (h : Host) (crew : Crew σ) : Order → Work σ Unit
  | .compile file => do
    let _ ← h.compile crew file
  | .together root wanted => h.compileAll crew root wanted
  | .each root wanted => h.compileEach crew root wanted

/-- Fills orders one after the other, whatever comes of each. -/
def fillAll (h : Host) (crew : Crew σ) : List Order → Work σ Unit
  | [] => return ()
  | order :: rest => do
    let _ ← Work.outcome (h.fill crew order)
    h.fillAll crew rest

/-- What has come of calls: the exchanges with transformers, and the world after them. Requests that are
worked on together are visits, at most `permits` of them under way at once; callers may give some up. -/
inductive Session (h : Host) (crew : Crew σ) (w : World σ) : List Exchange → World σ → Prop
  | opened : Session h crew w [] w
  | noted {xs : List Exchange} {w' : World σ} (session : Session h crew w xs w')
      (journal : List Log.Entry) : Session h crew w xs { w' with journal := journal }
  | compiled {xs : List Exchange} {w' : World σ} (session : Session h crew w xs w')
      (file : String) :
      Session h crew w (xs ++ exchangesOf crew (h.openCompile file) w')
        ((h.compile crew file).run w').2
  | together {xs : List Exchange} {w' : World σ} (session : Session h crew w xs w')
      (wanted : String → Bool) (files : List String) (permits : Option Nat)
      (givenUp : List Concurrent.Job) {steps : List (Machine σ × Concurrent.Job)} {m : Machine σ}
      (trace : Machine.Trace crew (h.visits wanted files)
        ((Machine.initial w' files.length permits).push givenUp) steps m) :
      Session h crew w (xs ++ (exchangesIn crew steps).map Prod.snd) m.world

theorem keeps_visits {γ : Type} {part : World σ → γ} (hapart : Work.IsApart part) (h : Host)
    (wanted : String → Bool) (files : List String) (i : Nat) :
    Work.Keeps part (h.visits wanted files i) := by
  rw [visits_eq]
  cases files[i]? with
  | none => exact Work.keeps_throw _
  | some file =>
    simp only
    unfold visit
    split
    · exact hapart.openCompile h file
    · exact Work.keeps_pure _

section Filling

variable {h : Host} {crew : Crew σ} {w w' : World σ} {xs : List Exchange}

/-- An action prolongs sessions. -/
def Prolongs (h : Host) (crew : Crew σ) (x : Work σ α) : Prop :=
  ∀ w xs w', Session h crew w xs w' → ∃ ys, Session h crew w (xs ++ ys) (x.run w').2

theorem Prolongs.bind {β : Type} {x : Work σ α} {f : α → Work σ β} (hx : Prolongs h crew x)
    (hf : ∀ a, Prolongs h crew (f a)) : Prolongs h crew (x >>= f) := by
  intro w xs w' session
  obtain ⟨ys, hys⟩ := hx w xs w' session
  rw [Action.run_bind]
  rcases hrun : x.run w' with ⟨e | a, w''⟩
  · rw [hrun] at hys
    exact ⟨ys, hys⟩
  · rw [hrun] at hys
    obtain ⟨zs, hzs⟩ := hf a w (xs ++ ys) w'' hys
    exact ⟨ys ++ zs, by rwa [← List.append_assoc]⟩

/-- What only writes to the journal prolongs sessions. -/
theorem prolongs_of_noted {x : Work σ α}
    (hx : ∀ w, ∃ journal, (x.run w).2 = { w with journal := journal }) : Prolongs h crew x := by
  intro w xs w' session
  obtain ⟨journal, hrun⟩ := hx w'
  refine ⟨[], ?_⟩
  rw [hrun, List.append_nil]
  exact session.noted journal

theorem prolongs_pure (a : α) : Prolongs h crew (pure a : Work σ α) :=
  prolongs_of_noted fun w => ⟨w.journal, rfl⟩

theorem prolongs_throw (e : Failure) : Prolongs h crew (throw e : Work σ α) :=
  prolongs_of_noted fun w => ⟨w.journal, rfl⟩

theorem prolongs_lift (r : Except Failure α) : Prolongs h crew (Work.lift r) :=
  prolongs_of_noted fun w => ⟨w.journal, by rw [Work.run_lift]⟩

theorem prolongs_report (e : Log.Event) : Prolongs h crew (Work.report e : Work σ Unit) :=
  prolongs_of_noted fun _ => ⟨_, rfl⟩

theorem Prolongs.outcome {x : Work σ α} (hx : Prolongs h crew x) :
    Prolongs h crew (Work.outcome x) := by
  intro w xs w' session
  rw [Work.run_outcome]
  exact hx w xs w' session

theorem prolongs_compile (h : Host) (crew : Crew σ) (file : String) :
    Prolongs h crew (h.compile crew file) := fun _ _ _ session => ⟨_, session.compiled file⟩

theorem prolongs_checkRoot (root : Path) : Prolongs h crew (Walk.checkRoot root : Work σ Unit) := by
  refine (prolongs_of_noted fun w => ⟨w.journal, ?_⟩).bind fun isDirectory => ?_
  · rw [Work.run_look]
  · split
    · exact prolongs_pure _
    · exact prolongs_throw _

theorem prolongs_files (root : Path) : Prolongs h crew (Walk.files root : Work σ (List Path)) :=
  prolongs_of_noted fun w => ⟨w.journal, rfl⟩

theorem prolongs_reportAll (failures : List (Path × Failure)) :
    Prolongs h crew (Walk.reportAll failures : Work σ Unit) := by
  induction failures with
  | nil => exact prolongs_pure ()
  | cons failure rest ih => exact (prolongs_report _).bind fun _ => ih

theorem prolongs_conclude (root : Path) (visits : List (Path × Except Failure Artifact)) :
    Prolongs h crew (Walk.conclude root visits : Work σ Nat) := by
  unfold Walk.conclude
  split
  · exact (prolongs_reportAll _).bind fun _ => prolongs_throw _
  · exact (prolongs_report _).bind fun _ => prolongs_pure _

theorem prolongs_visitEach {visit : String → Work σ Artifact}
    (hvisit : ∀ file, Prolongs h crew (visit file)) (paths : List Path) :
    Prolongs h crew (Walk.visitEach visit paths) := by
  induction paths with
  | nil => exact prolongs_pure _
  | cons p rest ih =>
    refine (hvisit p.text).outcome.bind fun outcome => ?_
    cases outcome with
    | ok a => exact ih.bind fun _ => prolongs_pure _
    | error e =>
      simp only
      split
      · exact prolongs_throw e
      · exact ih.bind fun _ => prolongs_pure _

theorem prolongs_compileEach (h : Host) (crew : Crew σ) (root : Path) (wanted : String → Bool) :
    Prolongs h crew (h.compileEach crew root wanted) := by
  have hvisit : ∀ file, Prolongs h crew
      (if wanted file then h.compile crew file else return ⟨none, []⟩ : Work σ Artifact) := by
    intro file
    split
    · exact prolongs_compile h crew file
    · exact prolongs_pure _
  refine Prolongs.bind ?_ fun _ => prolongs_pure _
  exact (prolongs_checkRoot root).bind fun _ => (prolongs_files root).bind fun paths =>
    (prolongs_visitEach hvisit paths).bind fun visits => prolongs_conclude root visits

/-- Visits that are worked on together are one more call of a session. -/
theorem prolongs_runTogether (h : Host) (crew : Crew σ) (wanted : String → Bool)
    (files : List String) (permits : Option Nat) (givenUp : List Concurrent.Job) :
    Prolongs h crew
      (Concurrent.runTogether crew (files.map (h.visit wanted)) permits givenUp) := by
  intro w xs w' session
  rw [Concurrent.run_runTogether, List.length_map]
  let start := (Machine.initial w' files.length permits).push givenUp
  change ∃ ys, Session h crew w (xs ++ ys)
    ((start.runToRest crew (h.visits wanted files)).harvest.run w').2
  obtain ⟨steps, trace⟩ := Machine.trace_of_steps
    (Machine.steps_runToRest crew (h.visits wanted files) start).1
  refine ⟨(exchangesIn crew steps).map Prod.snd, ?_⟩
  generalize start.runToRest crew (h.visits wanted files) = m at trace ⊢
  have hworld : (m.harvest.run w').2 = m.world := by
    unfold Machine.harvest
    rw [Action.run_bind_ok (Action.run_set w' _)]
    split <;> rfl
  rw [hworld]
  exact session.together wanted files permits givenUp trace

theorem prolongs_compileAll (h : Host) (crew : Crew σ) (root : Path) (wanted : String → Bool) :
    Prolongs h crew (h.compileAll crew root wanted) := by
  refine Prolongs.bind ?_ fun result => (prolongs_lift _).bind fun _ => prolongs_pure _
  refine (prolongs_checkRoot root).bind fun _ => ?_
  split
  · exact prolongs_throw _
  · refine (prolongs_files root).bind fun paths => Prolongs.bind ?_ fun result => ?_
    · have htogether := prolongs_runTogether h crew wanted (paths.map Path.text)
        (some h.settings.scanLimit.toNat) []
      rw [List.map_map] at htogether
      exact htogether
    · exact (prolongs_conclude root _).outcome.bind fun _ => prolongs_pure _

/-- Whatever is ordered, filling the orders is a session. -/
theorem session_fillAll (h : Host) (crew : Crew σ) (orders : List Order) (w : World σ) :
    ∃ xs, Session h crew w xs ((h.fillAll crew orders).run w).2 := by
  have hall : Prolongs h crew (h.fillAll crew orders) := by
    induction orders with
    | nil => exact prolongs_pure ()
    | cons order rest ih =>
      refine Prolongs.bind (Prolongs.outcome ?_) fun _ => ih
      cases order with
      | compile file => exact (prolongs_compile h crew file).bind fun _ => prolongs_pure _
      | together root wanted => exact prolongs_compileAll h crew root wanted
      | each root wanted => exact prolongs_compileEach h crew root wanted
  exact hall w [] w .opened

end Filling
end Host
end AssetCompiler
