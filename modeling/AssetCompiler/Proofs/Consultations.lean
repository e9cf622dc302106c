import AssetCompiler.Host.Basic
import AssetCompiler.Proofs.Exchanges
import AssetCompiler.Proofs.GuardedRuns
import AssetCompiler.Proofs.ServedResults

/-!
Who is consulted. The exchanges with transformers of a reduction that gives way, of an errand, of a request
and of a step on requests that are worked on together; they are all that changes the state of the crew.
-/
namespace AssetCompiler

variable {σ : Type}

open Reduction (Exchange)

/-- The state in which exchanges leave a crew. -/
def Crew.after (crew : Crew σ) (s : σ) (xs : List Exchange) : σ :=
  xs.foldl (fun s x => (crew.answer x.call s).2) s

theorem Crew.after_append (crew : Crew σ) (s : σ) (xs ys : List Exchange) :
    crew.after s (xs ++ ys) = crew.after (crew.after s xs) ys := List.foldl_append

namespace Reduction

theorem tools_course (crew : Crew σ) (v : Volume) (r : Reduction) (s : σ) :
    (r.course crew v s).tools = crew.after s (r.course crew v s).exchanges := by
  induction r generalizing s with
  | done outcome => rfl
  | note context event rest ih => exact ih s
  | read file rest ih => exact ih _ s
  | ask c rest ih => exact ih _ _

/-- What a reduction comes to before it gives way: its exchanges, how far it is then, and the state of the
crew. -/
structure Leg (σ : Type) where
  exchanges : List Exchange
  progress : Progress
  tools : σ

/-- The leg of a reduction up to the next question that makes others wait. -/
def leg (crew : Crew σ) (v : Volume) : Reduction → (waited : Nat) → σ → Leg σ
  | .done outcome, _, s => ⟨[], .finished outcome, s⟩
  | .note _ _ rest, _, s => rest.leg crew v 0 s
  | .read file rest, _, s =>
    (rest ((v.readTextLossy (Path.ofText file)).map String.ofList)).leg crew v 0 s
  | .ask c rest, waited, s =>
    if waited < crew.pauses c then ⟨[], .waiting (waited + 1) (.ask c rest), s⟩
    else
      let next := (rest (crew.answer c s).1).leg crew v 0 (crew.answer c s).2
      { next with exchanges := ⟨c, (crew.answer c s).1⟩ :: next.exchanges }

/-- Going on takes a leg; beside the state of the crew it changes the journal. -/
theorem proceed_eq_leg (crew : Crew σ) (r : Reduction) (waited : Nat) (w : World σ) :
    ∃ journal, (r.proceed crew waited).run w = (.ok (r.leg crew w.volume waited w.tools).progress,
      { w with tools := (r.leg crew w.volume waited w.tools).tools, journal := journal }) := by
  induction r generalizing waited w with
  | done outcome => exact ⟨w.journal, rfl⟩
  | note context event rest ih =>
    obtain ⟨journal, hrun⟩ := ih 0 { w with journal := ⟨context, event⟩ :: w.journal }
    exact ⟨journal, by rw [proceed, Action.run_bind_ok (Work.run_note context event w), hrun]; rfl⟩
  | read file rest ih =>
    obtain ⟨journal, hrun⟩ := ih ((w.volume.readTextLossy (Path.ofText file)).map String.ofList) 0 w
    refine ⟨journal, ?_⟩
    rw [proceed, Action.run_bind_ok (Work.run_outcome _ w), run_readSource, hrun]
    rfl
  | ask c rest ih =>
    rw [proceed, leg]
    split
    · exact ⟨w.journal, rfl⟩
    · obtain ⟨journal, hrun⟩ :=
        ih (crew.answer c w.tools).1 0 { w with tools := (crew.answer c w.tools).2 }
      exact ⟨journal, by rw [Action.run_bind_ok (run_consult crew c w), hrun]⟩

theorem tools_leg (crew : Crew σ) (v : Volume) (r : Reduction) (waited : Nat) (s : σ) :
    (r.leg crew v waited s).tools = crew.after s (r.leg crew v waited s).exchanges := by
  induction r generalizing waited s with
  | done outcome => rfl
  | note context event rest ih => exact ih 0 s
  | read file rest ih => exact ih _ 0 s
  | ask c rest ih =>
    rw [leg]
    split
    · rfl
    · exact ih _ 0 _

end Reduction

/-! Work that consults nobody -/

namespace Work

variable {γ α : Type} {part : World σ → γ}

/-- A part of a world in which the journal and the memories of fingerprinters have no share. -/
structure IsApart (part : World σ → γ) : Prop where
  journal : ∀ w journal, part { w with journal := journal } = part w
  desks : ∀ w desks, part { w with desks := desks } = part w

theorem isApart_tools : IsApart (World.tools (σ := σ)) := ⟨fun _ _ => rfl, fun _ _ => rfl⟩

theorem isApart_volume : IsApart (World.volume (σ := σ)) := ⟨fun _ _ => rfl, fun _ _ => rfl⟩

theorem IsApart.report (h : IsApart part) (e : Log.Event) : Keeps part (report e : Work σ Unit) :=
  fun w => h.journal w _

theorem IsApart.fingerprint (h : IsApart part) (n : Nat) (p : Path) :
    Keeps part (fingerprint n p : Work σ _) :=
  keeps_fingerprint_of (fun _ w => h.desks w _) p

theorem IsApart.lookup (h : IsApart part) (c : Cache) (key : String) :
    Keeps part (c.lookup key : Work σ _) := by
  intro w
  obtain ⟨r, journal, hrun⟩ := c.run_lookup key w
  rw [hrun]
  exact h.journal w journal

theorem IsApart.stored? (h : IsApart part) (e : Errand) : Keeps part (e.stored? : Work σ _) := by
  unfold Errand.stored?
  refine (h.lookup e.cache e.key).bind fun found => ?_
  cases found with
  | none => exact keeps_pure _
  | some entry => exact (h.report _).bind fun _ => keeps_pure _

theorem IsApart.resolve (h : IsApart part) (host : Host) (file : String) :
    Keeps part (host.resolve file : Work σ _) := by
  unfold Host.resolve
  refine (h.fingerprint _ _).bind fun i => ?_
  unfold Host.select
  cases host.registry.select? (Path.ofText file) i with
  | none => exact keeps_throw _
  | some picked =>
    obtain ⟨s, isFallback⟩ := picked
    cases isFallback with
    | true => exact (h.report _).bind fun _ => keeps_pure s
    | false => exact keeps_pure s

theorem IsApart.openFull (h : IsApart part) (host : Host) (file : String) :
    Keeps part (host.openFull file : Work σ _) := by
  unfold Host.openFull Cache.openFetch
  exact (h.report _).bind fun _ => (h.resolve host file).bind fun s =>
    (h.fingerprint _ _).bind fun i => keeps_pure _

theorem IsApart.compileReadOnly (h : IsApart part) (host : Host) (file : String) :
    Keeps part (host.compileReadOnly file : Work σ _) := by
  unfold Host.compileReadOnly Cache.get
  refine (h.resolve host file).bind fun s => Keeps.bind ?_ fun found => ?_
  · exact (h.fingerprint _ _).bind fun i => (h.lookup _ _).bind fun _ => keeps_pure _
  · cases found with
    | none => exact keeps_throw _
    | some a =>
      simp only
      split
      · exact keeps_pure a
      · exact keeps_throw _

theorem IsApart.openCompile (h : IsApart part) (host : Host) (file : String) :
    Keeps part (host.openCompile file : Work σ _) := by
  unfold Host.openCompile
  split
  · exact (h.compileReadOnly host file).bind fun _ => keeps_pure _
  · exact h.openFull host file

/-- Storing a result consults nobody. -/
theorem keeps_tools_deliver (e : Errand) (a : Artifact) :
    Keeps World.tools (e.deliver a : Work σ _) := by
  unfold Errand.deliver Cache.keep
  refine Keeps.bind ?_ fun _ => keeps_pure _
  split
  · exact keeps_get.bind fun w => fun _ => rfl
  · exact keeps_pure _

end Work

/-! Requests without interruptions -/

/-- The exchanges of an errand: those of its reduction, unless the result is stored. -/
def Errand.exchanges (crew : Crew σ) (e : Errand) (w : World σ) : List Exchange :=
  match (e.stored?.run w).1 with
  | .ok none => (e.work.course crew w.volume w.tools).exchanges
  | _ => []

/-- The exchanges of a request, from its opening on. -/
def exchangesOf (crew : Crew σ) (opening : Work σ Opening) (w : World σ) : List Exchange :=
  match opening.run w with
  | (.ok (.shared _ e), w') => e.exchanges crew w'
  | _ => []

theorem Errand.volume_stored? (e : Errand) (w : World σ) : (e.stored?.run w).2.volume = w.volume :=
  congrArg Prod.fst (e.keeps_stored?.surroundings w)

theorem Errand.tools_run (crew : Crew σ) (e : Errand) (w : World σ) :
    ((e.run crew).run w).2.tools = crew.after w.tools (e.exchanges crew w) := by
  have htools := Work.isApart_tools.stored? e w
  have hvolume := e.volume_stored? w
  unfold Errand.run exchanges
  rw [Action.run_bind]
  rcases hstored : e.stored?.run w with ⟨stored, w₁⟩
  rw [hstored] at htools hvolume
  rcases stored with f | (_ | a)
  · exact htools
  · obtain ⟨journal, hcourse⟩ := Reduction.run_eq_course crew e.work w₁
    simp only
    rw [Action.run_bind, hcourse, ← hvolume, ← htools, ← Reduction.tools_course]
    cases (e.work.course crew w₁.volume w₁.tools).outcome with
    | error f => rfl
    | ok a => exact Work.keeps_tools_deliver e a _
  · exact htools

/-- The exchanges of a request are all that changes the state of the crew. -/
theorem tools_exchangesOf (crew : Crew σ) {opening : Work σ Opening}
    (hopening : Work.Keeps World.tools opening) (w : World σ) :
    ((opening >>= Opening.run crew).run w).2.tools = crew.after w.tools (exchangesOf crew opening w) := by
  have htools := hopening w
  unfold exchangesOf
  rw [Action.run_bind]
  rcases hrun : opening.run w with ⟨r, w'⟩
  rw [hrun] at htools
  rcases r with f | (outcome | ⟨pauses, outcome⟩ | ⟨owner, e⟩)
  · exact htools
  · exact (Work.keeps_lift outcome w').trans htools
  · exact (Work.keeps_lift outcome w').trans htools
  · rw [← htools]
    exact e.tools_run crew w'

/-! Steps of requests that are worked on together -/

namespace Concurrent

/-- The exchanges of a part of a flight. -/
def Flight.exchanges (crew : Crew σ) (errand : Errand) (w : World σ) : Stage → List Exchange
  | .landed _ => []
  | .fetching waited rest => (rest.leg crew w.volume waited w.tools).exchanges
  | .looking =>
    match (errand.stored?.run w).1 with
    | .ok none => (errand.work.leg crew w.volume 0 w.tools).exchanges
    | _ => []

/-- The exchanges of a job, and the flight in which they are made. -/
def Machine.exchanges (crew : Crew σ) (m : Machine σ) : Job → List (Nat × Exchange)
  | .advance f =>
    match m.flights[f]? with
    | none => []
    | some flight => (Flight.exchanges crew flight.errand m.world flight.stage).map fun x => (f, x)
  | _ => []

/-- All exchanges of a run. -/
def exchangesIn (crew : Crew σ) (steps : List (Machine σ × Job)) : List (Nat × Exchange) :=
  steps.flatMap fun s => s.1.exchanges crew s.2

namespace Machine

theorem world_release (m : Machine σ) : m.release.world = m.world := by
  unfold release
  split
  · rfl
  · split <;> rfl

theorem world_settle_any (m : Machine σ) (i : Nat) (o : Except Failure Artifact) :
    (m.settle i o).world = m.world := by
  unfold settle
  simp only
  split <;> exact world_release _

theorem world_land (m : Machine σ) (f : Nat) (flight : Flight) (o : Except Failure Artifact) :
    (m.land f flight o).world = m.world := by
  unfold land
  simp only
  split <;> rfl

theorem world_arrive (m : Machine σ) (f : Nat) (flight : Flight) (reached : Stage × World σ) :
    (m.arrive f flight reached).world = reached.2 := by
  obtain ⟨stage, w⟩ := reached
  cases stage with
  | landed o => exact world_land _ f flight o
  | _ => rfl

theorem flights_release (m : Machine σ) : m.release.flights = m.flights := by
  unfold release
  split
  · rfl
  · split <;> rfl

theorem flights_settle_any (m : Machine σ) (i : Nat) (o : Except Failure Artifact) :
    (m.settle i o).flights = m.flights := by
  unfold settle
  simp only
  split <;> exact flights_release _

theorem flights_arrive (m : Machine σ) (f : Nat) (flight : Flight) (reached : Stage × World σ) :
    (m.arrive f flight reached).flights = m.flights.set f { flight with stage := reached.1 } := by
  obtain ⟨stage, w⟩ := reached
  cases stage with
  | landed o =>
    unfold arrive land
    simp only
    split <;> rfl
  | _ => rfl

section Parts

variable {γ : Type} {part : World σ → γ} {plan : Nat → Work σ Opening}

theorem part_share (h : Work.IsApart part) (m : Machine σ) (i : Nat) (key : FlightKey)
    (errand : Errand) : part (m.share i key errand).world = part m.world := by
  unfold share
  split
  · rename_i f flight _
    have hreport := h.report (.joining errand.file errand.key) m.world
    simp only
    cases flight.outcome? with
    | some o =>
      rw [world_settle_any]
      exact hreport
    | none => exact hreport
  · rfl

theorem part_start (h : Work.IsApart part) (hplan : ∀ i, Work.Keeps part (plan i)) (m : Machine σ)
    (i : Nat) : part (m.start plan i).world = part m.world := by
  have hpart := hplan i m.world
  unfold start
  simp only [act]
  rcases hrun : (plan i).run m.world with ⟨r, w⟩
  rw [hrun] at hpart
  rcases r with e | (o | ⟨_ | n, o⟩ | ⟨owner, errand⟩)
  · exact (congrArg part (world_settle_any _ i _)).trans hpart
  · exact (congrArg part (world_settle_any _ i _)).trans hpart
  · exact (congrArg part (world_settle_any _ i _)).trans hpart
  · exact hpart
  · exact (part_share h _ i _ errand).trans hpart

theorem part_admission (h : Work.IsApart part) (hplan : ∀ i, Work.Keeps part (plan i))
    (m : Machine σ) (i : Nat) : part (m.admission plan i).world = part m.world := by
  unfold admission
  split
  · exact part_start h hplan m i
  · rfl
  · split
    · exact part_start h hplan _ i
    · rfl

end Parts

end Machine

theorem Flight.tools_reached (errand : Errand) (w : World σ)
    (progress : Except Failure Reduction.Progress) :
    (Flight.reached errand w progress).2.tools = w.tools := by
  rcases progress with e | (e | a) | ⟨waited, rest⟩
  · rfl
  · rfl
  · exact Work.keeps_tools_deliver errand a w
  · rfl

theorem Flight.tools_next (crew : Crew σ) (errand : Errand) (w : World σ) (stage : Stage) :
    (Flight.next crew errand w stage).2.tools =
      crew.after w.tools (Flight.exchanges crew errand w stage) := by
  cases stage with
  | landed o => rfl
  | fetching waited rest =>
    obtain ⟨journal, hrun⟩ := Reduction.proceed_eq_leg crew rest waited w
    unfold Flight.next Flight.exchanges
    rw [Flight.tools_reached, hrun, ← Reduction.tools_leg]
  | looking =>
    have htools := Work.isApart_tools.stored? errand w
    have hvolume := errand.volume_stored? w
    unfold Flight.next Flight.exchanges
    rcases hstored : errand.stored?.run w with ⟨stored, w₁⟩
    rw [hstored] at htools hvolume
    rcases stored with e | (_ | a)
    · exact htools
    · obtain ⟨journal, hrun⟩ := Reduction.proceed_eq_leg crew errand.work 0 w₁
      simp only
      rw [Flight.tools_reached, hrun, ← hvolume, ← htools, ← Reduction.tools_leg]
    · exact htools

namespace Machine

variable {crew : Crew σ} {plan : Nat → Work σ Opening}

/-- Beside openings and parts of flights, jobs leave the world and the flights as they are. -/
theorem perform_of_quiet (m : Machine σ) {job : Job} (hbegin : ∀ i, job ≠ .begin i)
    (henter : ∀ i, job ≠ .enter i) (hadvance : ∀ f, job ≠ .advance f) :
    (m.perform crew plan job).world = m.world ∧ (m.perform crew plan job).flights = m.flights := by
  cases job with
  | begin i => exact absurd rfl (hbegin i)
  | enter i => exact absurd rfl (henter i)
  | advance f => exact absurd rfl (hadvance f)
  | tick i =>
    simp only [perform]
    split
    · exact ⟨world_settle_any m i _, flights_settle_any m i _⟩
    · exact ⟨rfl, rfl⟩
    · exact ⟨rfl, rfl⟩
  | forget f =>
    simp only [perform]
    split <;> exact ⟨rfl, rfl⟩
  | deliver f i =>
    simp only [perform]
    split
    · split <;> exact ⟨rfl, rfl⟩
    · exact ⟨rfl, rfl⟩
  | resume i =>
    simp only [perform]
    split
    · exact ⟨world_settle_any m i _, flights_settle_any m i _⟩
    · exact ⟨rfl, rfl⟩
  | cancel i =>
    simp only [perform]
    split <;> exact ⟨rfl, rfl⟩

theorem tools_advance (crew : Crew σ) (m : Machine σ) (f : Nat) :
    (m.advance crew f).world.tools =
      crew.after m.world.tools ((m.exchanges crew (.advance f)).map Prod.snd) := by
  cases hf : m.flights[f]? with
  | none =>
    simp only [advance, exchanges, hf]
    rfl
  | some flight =>
    have hfirst : ((m.exchanges crew (.advance f)).map Prod.snd) =
        Flight.exchanges crew flight.errand m.world flight.stage := by
      simp [exchanges, hf, Function.comp_def]
    rw [hfirst]
    cases hstage : flight.stage with
    | landed o =>
      simp only [advance, hf, hstage]
      rfl
    | _ =>
      have hopen : flight.outcome? = none := by rw [Flight.outcome?, hstage]
      rw [advance_eq_arrive crew hf hopen, world_arrive, Flight.tools_next, hstage]

/-- The exchanges of a job are all that changes the state of the crew. -/
theorem tools_perform (hplan : ∀ i, Work.Keeps World.tools (plan i)) (m : Machine σ) (job : Job) :
    (m.perform crew plan job).world.tools =
      crew.after m.world.tools ((m.exchanges crew job).map Prod.snd) := by
  cases job with
  | begin i => exact part_admission Work.isApart_tools hplan m i
  | enter i => exact part_start Work.isApart_tools hplan m i
  | advance f => exact tools_advance crew m f
  | tick i | forget f | deliver f i | resume i | cancel i =>
    exact congrArg World.tools (m.perform_of_quiet (by nofun) (by nofun) (by nofun)).1

/-- The exchanges of a run are all that changes the state of the crew. -/
theorem Trace.tools {m m' : Machine σ} {steps : List (Machine σ × Job)}
    (hplan : ∀ i, Work.Keeps World.tools (plan i)) (h : Trace crew plan m steps m') :
    m'.world.tools = crew.after m.world.tools ((exchangesIn crew steps).map Prod.snd) := by
  induction h with
  | none => rfl
  | step run before job after pending ih =>
    rw [tools_perform hplan]
    simp only [exchangesIn, List.flatMap_append, List.map_append, Crew.after_append,
      List.flatMap_singleton] at ih ⊢
    rw [ih]

end Machine
end Concurrent
end AssetCompiler
