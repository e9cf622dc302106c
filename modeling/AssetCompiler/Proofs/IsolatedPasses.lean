import AssetCompiler.Proofs.Deployments
import AssetCompiler.Proofs.LogScopes
import AssetCompiler.Proofs.Sessions

/-!
Passes that are kept apart. Whatever else goes on, a transformer is asked in the log context of the pass that
asks, and sees the scratch values that the earlier questions of this pass have left. Which questions may
follow which is told of the tree of a reduction; a flight goes along one branch of its tree, in parts between
which other flights have theirs.
-/
namespace AssetCompiler

variable {σ : Type}

namespace Reduction

/-! Questions in turn -/

/-- However its questions are answered, a reduction asks each in its turn: `next` tells which questions may
come after an exchange, or at the beginning. -/
def AsksInTurn (next : Option Exchange → Call → Prop) : Option Exchange → Reduction → Prop
  | _, .done _ => True
  | last, .note _ _ rest => rest.AsksInTurn next last
  | last, .read _ rest => ∀ r, (rest r).AsksInTurn next last
  | last, .ask c rest => next last c ∧ ∀ reply, (rest reply).AsksInTurn next (some ⟨c, reply⟩)

/-- Exchanges that come in their turn. -/
def InTurn (next : Option Exchange → Call → Prop) : Option Exchange → List Exchange → Prop
  | _, [] => True
  | last, x :: xs => next last x.call ∧ InTurn next (some x) xs

/-- The last exchange, where some have come after others. -/
def lastOf (last : Option Exchange) (xs : List Exchange) : Option Exchange :=
  xs.foldl (fun _ x => some x) last

section Turns

variable {next : Option Exchange → Call → Prop} {last : Option Exchange}

theorem lastOf_append (xs ys : List Exchange) : lastOf last (xs ++ ys) = lastOf (lastOf last xs) ys :=
  List.foldl_append

theorem InTurn.append {xs ys : List Exchange} (hxs : InTurn next last xs)
    (hys : InTurn next (lastOf last xs) ys) : InTurn next last (xs ++ ys) := by
  induction xs generalizing last with
  | nil => exact hys
  | cons x xs ih => exact ⟨hxs.1, ih hxs.2 hys⟩

/-- A part of a reduction asks in turn, and so does what is left of it. -/
theorem AsksInTurn.leg {r : Reduction} (h : r.AsksInTurn next last) (crew : Crew σ) (v : Volume)
    (waited : Nat) (s : σ) : InTurn next last (r.leg crew v waited s).exchanges ∧
      ∀ waited' rest, (r.leg crew v waited s).progress = .waiting waited' rest →
        rest.AsksInTurn next (lastOf last (r.leg crew v waited s).exchanges) := by
  induction r generalizing last waited s with
  | done outcome => exact ⟨trivial, nofun⟩
  | note context event rest ih => exact ih h 0 s
  | read file rest ih => exact ih _ (h _) 0 s
  | ask c rest ih =>
    rw [Reduction.leg]
    split
    · refine ⟨trivial, fun waited' rest' hrest => ?_⟩
      cases hrest
      exact h
    · obtain ⟨hturn, hrest⟩ := ih (crew.answer c s).1 (h.2 _) 0 (crew.answer c s).2
      exact ⟨⟨h.1, hturn⟩, hrest⟩

end Turns

/-! The questions of passes -/

/-- What a question for a file finds: the log context of its own pass, and the scratch values as the last
question of its pass has left them; the first question of a pass finds none. -/
structure Comes (file : String) (last : Option Exchange) (c : Call) : Prop where
  path : c.file = file ∧ c.pass.file = file
  context : c.context = ⟨some file, some c.transformer.name, some c.pass.index⟩
  first : last = none → c.pass.index = 0 ∧ c.question = .accepts ∧ c.pass.scratch = []
  later : ∀ x, last = some x →
    (c.transformer = x.call.transformer ∧ c.pass.index = x.call.pass.index ∧
      c.question ≠ .accepts ∧ c.pass.scratch = x.reply.scratch) ∨
    (c.pass.index = x.call.pass.index + 1 ∧ c.question = .accepts ∧ c.pass.scratch = [])

/-- The last exchange was one of a pass, and left some scratch values. -/
def Frame.Left (f : Frame) (scratch : List (String × Json)) (last : Option Exchange) : Prop :=
  ∃ x, last = some x ∧ x.call.transformer = f.transformer ∧ x.call.pass.index = (f.index : Int) ∧
    x.reply.scratch = scratch

/-- A pass may begin: it is the first one, or the last exchange was one of the pass before. -/
def MayBegin (index : Nat) (last : Option Exchange) : Prop :=
  (last = none ∧ index = 0) ∨ ∃ x, last = some x ∧ x.call.pass.index + 1 = (index : Int)

section Passes

variable {f : Frame} {last : Option Exchange} {scratch : List (String × Json)}

theorem comes_call_of_left (h : f.Left scratch last) {q : Question} (hquestion : q ≠ .accepts) :
    Comes f.file last (f.call q scratch) := by
  obtain ⟨x, rfl, htransformer, hindex, hscratch⟩ := h
  refine ⟨⟨rfl, rfl⟩, rfl, nofun, fun y hy => ?_⟩
  cases hy
  exact .inl ⟨htransformer.symm, hindex.symm, hquestion, hscratch.symm⟩

theorem comes_call_of_mayBegin (h : MayBegin f.index last) :
    Comes f.file last (f.call .accepts []) := by
  rcases h with ⟨rfl, hindex⟩ | ⟨x, rfl, hindex⟩
  · refine ⟨⟨rfl, rfl⟩, rfl, fun _ => ⟨?_, rfl, rfl⟩, fun y hy => ?_⟩
    · exact congrArg Int.ofNat hindex
    · cases hy
  · refine ⟨⟨rfl, rfl⟩, rfl, nofun, fun y hy => ?_⟩
    cases hy
    exact .inr ⟨hindex.symm, rfl, rfl⟩

theorem asksInTurn_asking {next : Option Exchange → Call → Prop} {q : Question}
    (hnext : next last (f.call q scratch)) {rest : Json → List (String × Json) → Reduction}
    (hrest : ∀ v scratch' last', f.Left scratch' last' → (rest v scratch').AsksInTurn next last') :
    (f.asking q scratch rest).AsksInTurn next last := by
  refine ⟨hnext, fun reply => ?_⟩
  simp only
  split
  · exact trivial
  · exact hrest _ _ _ ⟨_, rfl, rfl, rfl, rfl⟩

theorem asksInTurn_withSource {next : Option Exchange → Call → Prop} (i : Fingerprint) (path : String)
    {rest : String → Reduction} (h : ∀ code, (rest code).AsksInTurn next last) :
    (withSource i path rest).AsksInTurn next last := by
  unfold withSource
  split
  · exact h _
  · intro r
    simp only
    split
    · exact h _
    · exact trivial

theorem asksInTurn_withDependencies (hleft : f.Left scratch last) (known : List Json)
    {rest : List Json → List (String × Json) → Reduction}
    (hrest : ∀ items scratch' last', f.Left scratch' last' →
      (rest items scratch').AsksInTurn (Comes f.file) last') :
    (f.withDependencies known scratch rest).AsksInTurn (Comes f.file) last := by
  unfold Frame.withDependencies
  split
  · refine asksInTurn_asking (comes_call_of_left hleft (by nofun)) fun v scratch' last' hleft' => ?_
    split
    · exact hrest _ _ _ hleft'
    · exact trivial
  · exact hrest _ _ _ hleft

theorem asksInTurn_withOutput (hleft : f.Left scratch last) {rest : Output → Reduction}
    (hrest : ∀ o last', (∃ scratch', f.Left scratch' last') →
      (rest o).AsksInTurn (Comes f.file) last') :
    (f.withOutput scratch rest).AsksInTurn (Comes f.file) last := by
  unfold Frame.withOutput
  refine asksInTurn_asking (comes_call_of_left hleft (by nofun)) fun v scratch' last' hleft' => ?_
  split
  · exact hrest _ _ ⟨_, hleft'⟩
  · exact trivial

/-- The passes for a file ask in turn. -/
theorem asksInTurn_passes (next? : Option String → Option Transformer) (file : String) (limit : Int)
    (left index : Nat) (i : Fingerprint) (t : Transformer) (known : List Json)
    (chain : List (Option String)) (hlast : MayBegin index last) :
    (passes next? file limit left index i t known chain).AsksInTurn (Comes file) last := by
  induction left generalizing index i t known chain last with
  | zero => exact trivial
  | succ left ih =>
    rw [passes]
    refine asksInTurn_withSource i file fun code => ?_
    let frame : Frame := ⟨file, t, index, inputType file i, code⟩
    refine asksInTurn_asking (f := frame) (comes_call_of_mayBegin hlast) ?_
    intro accepted scratch last₁ hleft
    split
    · refine asksInTurn_withDependencies (f := frame) hleft known ?_
      intro items scratch₁ last₂ hleft₁
      refine asksInTurn_withOutput (f := frame) hleft₁ fun o last₃ hleft₂ => ?_
      split
      · exact trivial
      · rw [AsksInTurn]
        split
        · exact trivial
        · obtain ⟨_, x, hx, -, hindex, -⟩ := hleft₂
          refine ih _ _ _ _ _ (.inr ⟨x, hx, ?_⟩)
          rw [hindex]
          rfl
    · exact trivial

theorem asksInTurn_ofFile (next? : Option String → Option Transformer) (limit : Int) (file : String)
    (i : Fingerprint) (t : Transformer) :
    (ofFile next? limit file i t).AsksInTurn (Comes file) none :=
  asksInTurn_passes next? file limit limit.toNat 0 i t [] [] (.inl ⟨rfl, rfl⟩)

end Passes
end Reduction

/-! Flights -/

namespace Concurrent

open Reduction (Exchange Comes InTurn lastOf)

/-- The exchanges of one flight in a run. -/
def exchangesOn (crew : Crew σ) (steps : List (Machine σ × Job)) (f : Nat) : List Exchange :=
  (exchangesIn crew steps).filterMap fun e => if e.1 = f then some e.2 else none

/-- What is left for a flight to ask comes in turn after what it has asked. -/
def StageInTurn (next : Option Exchange → Call → Prop) (errand : Errand) (xs : List Exchange) :
    Stage → Prop
  | .looking => xs = [] ∧ errand.work.AsksInTurn next none
  | .fetching _ rest => rest.AsksInTurn next (lastOf none xs)
  | .landed _ => True

variable {crew : Crew σ} {next : Option Exchange → Call → Prop} {errand : Errand}
variable {xs : List Exchange}

/-- Progress of a reduction that asks in turn. -/
theorem stageInTurn_reached {r : Reduction} (h : r.AsksInTurn next (lastOf none xs))
    (hxs : InTurn next none xs) (crew : Crew σ) (waited : Nat) (w : World σ) :
    InTurn next none (xs ++ (r.leg crew w.volume waited w.tools).exchanges) ∧
      StageInTurn next errand (xs ++ (r.leg crew w.volume waited w.tools).exchanges)
        (Flight.reached errand ((r.proceed crew waited).run w).2
          ((r.proceed crew waited).run w).1).1 := by
  obtain ⟨journal, hrun⟩ := Reduction.proceed_eq_leg crew r waited w
  obtain ⟨hturn, hrest⟩ := h.leg crew w.volume waited w.tools
  refine ⟨hxs.append hturn, ?_⟩
  rw [hrun]
  cases hprogress : (r.leg crew w.volume waited w.tools).progress with
  | waiting waited' rest =>
    change rest.AsksInTurn next (lastOf none _)
    rw [Reduction.lastOf_append]
    exact hrest waited' rest hprogress
  | finished outcome => cases outcome <;> exact trivial

/-- The next part of a flight asks in turn. -/
theorem stageInTurn_next {stage : Stage} (hxs : InTurn next none xs)
    (h : StageInTurn next errand xs stage) (crew : Crew σ) (w : World σ) :
    InTurn next none (xs ++ Flight.exchanges crew errand w stage) ∧
      StageInTurn next errand (xs ++ Flight.exchanges crew errand w stage)
        (Flight.next crew errand w stage).1 := by
  cases stage with
  | landed o =>
    rw [Flight.exchanges, List.append_nil]
    exact ⟨hxs, trivial⟩
  | fetching waited rest => exact stageInTurn_reached h hxs crew waited w
  | looking =>
    obtain ⟨rfl, hwork⟩ := h
    have hvolume := errand.volume_stored? w
    have htools := Work.isApart_tools.stored? errand w
    unfold Flight.exchanges Flight.next
    rcases hstored : errand.stored?.run w with ⟨stored, w₁⟩
    rw [hstored] at hvolume htools
    rcases stored with e | (_ | a)
    · exact ⟨trivial, trivial⟩
    · simp only
      rw [← hvolume, ← htools]
      exact stageInTurn_reached hwork hxs crew 0 w₁
    · exact ⟨trivial, trivial⟩

namespace Machine

variable {m m' : Machine σ} {plan : Nat → Work σ Opening} {f : Nat} {flight' : Flight}

/-- Where a flight comes from: it was there with the same errand and at the same stage, or has just
started. -/
inductive Stems (sends : Errand → Prop) (m : Machine σ) (f : Nat) (flight' : Flight) : Prop
  | stays (flight : Flight) (there : m.flights[f]? = some flight)
      (errand : flight'.errand = flight.errand) (stage : flight'.stage = flight.stage)
  | started (new : m.flights.length ≤ f) (stage : flight'.stage = .looking)
      (sent : sends flight'.errand)

theorem stems_of_flights {sends : Errand → Prop} (h : m'.flights[f]? = some flight')
    (hflights : m'.flights = m.flights) : Stems sends m f flight' :=
  .stays flight' (hflights ▸ h) rfl rfl

theorem stems_of_set {sends : Errand → Prop} {g : Nat} {flight : Flight}
    (hg : m.flights[g]? = some flight) {waiters : List Nat}
    (h : (m.flights.set g { flight with waiters := waiters })[f]? = some flight') :
    Stems sends m f flight' := by
  obtain ⟨hlt, -⟩ := List.getElem?_eq_some_iff.mp hg
  by_cases hfg : g = f
  · subst hfg
    rw [List.getElem?_set_self hlt] at h
    cases h
    exact .stays flight hg rfl rfl
  · rw [List.getElem?_set_ne hfg] at h
    exact .stays flight' h rfl rfl

theorem stems_share {sends : Errand → Prop} {errand : Errand} (hsent : sends errand) (i : Nat)
    (key : FlightKey) (h : (m.share i key errand).flights[f]? = some flight') :
    Stems sends m f flight' := by
  unfold share at h
  split at h
  · rename_i g flight hfound
    obtain ⟨g', -, hg'⟩ := Option.bind_eq_some_iff.mp hfound
    obtain ⟨flight'', hflight, hpair⟩ := Option.map_eq_some_iff.mp hg'
    cases hpair
    simp only at h
    cases hlanded : flight.outcome? with
    | some o =>
      rw [hlanded] at h
      simp only at h
      rw [flights_settle_any] at h
      exact .stays flight' h rfl rfl
    | none =>
      rw [hlanded] at h
      exact stems_of_set hflight h
  · change (m.flights ++ [⟨key, errand, .looking, [i]⟩])[f]? = some flight' at h
    by_cases hlt : f < m.flights.length
    · rw [List.getElem?_append_left hlt] at h
      exact .stays flight' h rfl rfl
    · rw [List.getElem?_append_right (Nat.le_of_not_lt hlt), List.getElem?_singleton] at h
      split at h
      · cases h
        exact .started (Nat.le_of_not_lt hlt) rfl hsent
      · cases h

/-- The openings of a plan send errands of some kind. -/
def Sends (plan : Nat → Work σ Opening) (sends : Errand → Prop) : Prop :=
  ∀ i w owner errand, ((plan i).run w).1 = .ok (.shared owner errand) → sends errand

theorem stems_start {sends : Errand → Prop} (hplan : Sends plan sends) (i : Nat)
    (h : (m.start plan i).flights[f]? = some flight') : Stems sends m f flight' := by
  have hopening := hplan i m.world
  unfold start at h
  simp only [act] at h
  rcases hrun : (plan i).run m.world with ⟨r, w⟩
  rw [hrun] at h hopening
  rcases r with e | (o | ⟨_ | n, o⟩ | ⟨owner, errand⟩)
  · simp only at h
    rw [flights_settle_any] at h
    exact .stays flight' h rfl rfl
  · simp only at h
    rw [flights_settle_any] at h
    exact .stays flight' h rfl rfl
  · simp only at h
    rw [flights_settle_any] at h
    exact .stays flight' h rfl rfl
  · exact .stays flight' h rfl rfl
  · have hsent := stems_share (hopening owner errand rfl) i (owner, errand.key) h
    cases hsent with
    | stays flight there errand stage => exact .stays flight there errand stage
    | started new stage sent => exact .started new stage sent

/-- Beside the parts of flights, jobs leave the flights at their stages. -/
theorem stems_perform {sends : Errand → Prop} (hplan : Sends plan sends) {job : Job}
    (hadvance : ∀ g, job ≠ .advance g)
    (h : (m.perform crew plan job).flights[f]? = some flight') : Stems sends m f flight' := by
  cases job with
  | advance g => exact absurd rfl (hadvance g)
  | enter i => exact stems_start hplan i h
  | begin i =>
    change (m.admission plan i).flights[f]? = some flight' at h
    unfold admission at h
    split at h
    · exact stems_start hplan i h
    · exact .stays flight' h rfl rfl
    · split at h
      · cases stems_start hplan i h with
        | stays flight there errand stage => exact .stays flight there errand stage
        | started new stage sent => exact .started new stage sent
      · exact .stays flight' h rfl rfl
  | tick i | forget g | deliver g i | resume i | cancel i =>
    exact stems_of_flights h (m.perform_of_quiet (by nofun) (by nofun) (by nofun)).2

theorem length_flights_share (m : Machine σ) (i : Nat) (key : FlightKey) (errand : Errand) :
    m.flights.length ≤ (m.share i key errand).flights.length := by
  unfold share
  split
  · rename_i g flight _
    simp only
    cases flight.outcome? with
    | some o =>
      simp only [flights_settle_any]
      exact Nat.le_refl _
    | none => exact Nat.le_of_eq List.length_set.symm
  · change m.flights.length ≤ (m.flights ++ [_]).length
    rw [List.length_append]
    exact Nat.le_add_right _ _

/-- Flights are never taken away. -/
theorem length_flights_start (m : Machine σ) (i : Nat) :
    m.flights.length ≤ (m.start plan i).flights.length := by
  unfold start
  simp only [act]
  rcases (plan i).run m.world with ⟨r, w⟩
  rcases r with e | (o | ⟨_ | n, o⟩ | ⟨owner, errand⟩)
  · simp only [flights_settle_any]
    exact Nat.le_refl _
  · simp only [flights_settle_any]
    exact Nat.le_refl _
  · simp only [flights_settle_any]
    exact Nat.le_refl _
  · exact Nat.le_refl _
  · simp only
    exact length_flights_share { m with world := w, active := m.active + 1, peak := _ } i _ errand

theorem length_flights_perform (m : Machine σ) {job : Job} (hadvance : ∀ g, job ≠ .advance g) :
    m.flights.length ≤ (m.perform crew plan job).flights.length := by
  cases job with
  | advance g => exact absurd rfl (hadvance g)
  | enter i => exact length_flights_start m i
  | begin i =>
    change m.flights.length ≤ (m.admission plan i).flights.length
    unfold admission
    split
    · exact length_flights_start m i
    · exact Nat.le_refl _
    · rename_i n _
      split
      · exact length_flights_start { m with permits := some n } i
      · exact Nat.le_refl _
  | tick i | forget g | deliver g i | resume i | cancel i =>
    exact Nat.le_of_eq
      (congrArg List.length (m.perform_of_quiet (by nofun) (by nofun) (by nofun)).2.symm)

/-- Carrying a flight on is the next part of this flight, and leaves the others where they are. -/
theorem flights_advance (crew : Crew σ) {flight : Flight} (hf : m.flights[f]? = some flight) :
    (m.advance crew f).flights =
      m.flights.set f { flight with stage := (Flight.next crew flight.errand m.world flight.stage).1 } := by
  cases hstage : flight.stage with
  | landed o =>
    obtain ⟨hlt, hget⟩ := List.getElem?_eq_some_iff.mp hf
    have hsame : m.advance crew f = m := by
      unfold advance
      simp only [hf, hstage]
    have hflight : { flight with stage := Stage.landed o } = flight := by rw [← hstage]
    rw [hsame, Flight.next, hflight, ← hget, List.set_getElem_self]
  | looking | fetching waited rest =>
    rw [advance_eq_arrive crew hf (by rw [Flight.outcome?, hstage]), hstage, flights_arrive]

theorem exchangesOn_step (crew : Crew σ) (steps : List (Machine σ × Job)) (s : Machine σ × Job)
    (f : Nat) : exchangesOn crew (steps ++ [s]) f = exchangesOn crew steps f ++
      (s.1.exchanges crew s.2).filterMap fun e => if e.1 = f then some e.2 else none := by
  unfold exchangesOn exchangesIn
  rw [List.flatMap_append, List.filterMap_append, List.flatMap_singleton]

theorem exchangesOn_of_quiet (crew : Crew σ) (steps : List (Machine σ × Job)) (m : Machine σ)
    {job : Job} (f : Nat) (hjob : job ≠ .advance f) :
    exchangesOn crew (steps ++ [(m, job)]) f = exchangesOn crew steps f := by
  have hnone : ((m.exchanges crew job).filterMap fun e => if e.1 = f then some e.2 else none) = [] := by
    cases job with
    | advance g =>
      have hgf : ¬ g = f := fun h => hjob (h ▸ rfl)
      cases hg : m.flights[g]? with
      | none => simp only [exchanges, hg, List.filterMap_nil]
      | some flight => simp [exchanges, hg, List.filterMap_map, hgf]
    | begin i | enter i | tick i | forget g | deliver g i | resume i | cancel i => rfl
  rw [exchangesOn_step, hnone, List.append_nil]

theorem exchangesOn_advance (crew : Crew σ) (steps : List (Machine σ × Job)) {flight : Flight}
    (hf : m.flights[f]? = some flight) :
    exchangesOn crew (steps ++ [(m, .advance f)]) f =
      exchangesOn crew steps f ++ Flight.exchanges crew flight.errand m.world flight.stage := by
  rw [exchangesOn_step]
  simp [exchanges, hf, List.filterMap_map]

/-- What is right of the flights of a run: each asks for its own file, and in turn. -/
structure AreInTurn (crew : Crew σ) (files : List String) (steps : List (Machine σ × Job))
    (m : Machine σ) : Prop where
  flights : ∀ (f : Nat) (flight : Flight), m.flights[f]? = some flight →
    flight.errand.file ∈ files ∧
    InTurn (Comes flight.errand.file) none (exchangesOn crew steps f) ∧
    StageInTurn (Comes flight.errand.file) flight.errand (exchangesOn crew steps f) flight.stage
  others : ∀ f, m.flights.length ≤ f → exchangesOn crew steps f = []

/-- An errand for one of some files, that asks in turn. -/
def IsInTurn (files : List String) (errand : Errand) : Prop :=
  errand.file ∈ files ∧ errand.work.AsksInTurn (Comes errand.file) none

theorem AreInTurn.perform {files : List String} {steps : List (Machine σ × Job)}
    (h : AreInTurn crew files steps m) (hplan : Sends plan (IsInTurn files)) (job : Job) :
    AreInTurn crew files (steps ++ [(m, job)]) (m.perform crew plan job) := by
  by_cases hadvance : ∀ g, job ≠ .advance g
  · constructor
    · intro f flight' hf
      rw [exchangesOn_of_quiet crew steps m f (hadvance f)]
      cases stems_perform hplan hadvance hf with
      | stays flight there errand stage =>
        rw [errand, stage]
        exact h.flights f flight there
      | started new stage sent =>
        rw [h.others f new, stage]
        exact ⟨sent.1, trivial, rfl, sent.2⟩
    · intro f hlength
      rw [exchangesOn_of_quiet crew steps m f (hadvance f)]
      exact h.others f (Nat.le_trans (length_flights_perform m hadvance) hlength)
  · obtain ⟨g, rfl⟩ := not_forall_not.mp hadvance
    change AreInTurn crew files _ (m.advance crew g)
    cases hg : m.flights[g]? with
    | none =>
      have hsame : m.advance crew g = m := by
        unfold advance
        simp only [hg]
      have hexchanges : ∀ f, exchangesOn crew (steps ++ [(m, .advance g)]) f =
          exchangesOn crew steps f := by
        intro f
        rw [exchangesOn_step]
        simp only [exchanges, hg, List.filterMap_nil, List.append_nil]
      rw [hsame]
      exact ⟨fun f flight hf => by rw [hexchanges]; exact h.flights f flight hf,
        fun f hlength => by rw [hexchanges]; exact h.others f hlength⟩
    | some flight =>
      obtain ⟨hlt, -⟩ := List.getElem?_eq_some_iff.mp hg
      have hflights := flights_advance crew hg
      constructor
      · intro f flight' hf
        rw [hflights] at hf
        by_cases hfg : g = f
        · subst hfg
          rw [List.getElem?_set_self hlt] at hf
          cases hf
          obtain ⟨hfile, hturn, hstage⟩ := h.flights g flight hg
          rw [exchangesOn_advance crew steps hg]
          exact ⟨hfile, stageInTurn_next hturn hstage crew m.world⟩
        · rw [List.getElem?_set_ne hfg] at hf
          rw [exchangesOn_of_quiet crew steps m f fun heq => hfg (Job.advance.inj heq)]
          exact h.flights f flight' hf
      · intro f hlength
        rw [hflights, List.length_set] at hlength
        have hfg : g ≠ f := fun heq => absurd hlt (Nat.not_lt.mpr (heq ▸ hlength))
        rw [exchangesOn_of_quiet crew steps m f fun heq => hfg (Job.advance.inj heq)]
        exact h.others f hlength

/-- In every run of requests whose errands ask in turn, each flight asks in turn. -/
theorem Trace.areInTurn {files : List String} {steps : List (Machine σ × Job)}
    (hplan : Sends plan (IsInTurn files)) (htrace : Trace crew plan m steps m')
    (hflights : m.flights = []) : AreInTurn crew files steps m' := by
  induction htrace with
  | none => exact ⟨fun f flight hf => by simp [hflights] at hf, fun _ _ => rfl⟩
  | @step m₁ _ run before job after pending ih =>
    have htaken : AreInTurn crew files _ { m₁ with queue := before ++ after } :=
      ⟨ih.flights, ih.others⟩
    exact htaken.perform hplan job

end Machine
end Concurrent

namespace Host

variable {h : Host} {crew : Crew σ}

open Reduction (Exchange Comes InTurn)
open Concurrent (Machine exchangesOn)

/-- A full compilation opens with an errand for its file. -/
theorem openFull_shared {file owner : String} {errand : Errand} {w w' : World σ}
    (hrun : (h.openFull file).run w = (.ok (.shared owner errand), w')) :
    ∃ i s, errand = h.errandFor file i s := by
  unfold openFull at hrun
  obtain ⟨_, w₁, -, hrun⟩ := Action.of_run_bind_ok hrun
  obtain ⟨s, w₂, -, hrun⟩ := Action.of_run_bind_ok hrun
  unfold Cache.openFetch at hrun
  obtain ⟨i, w₃, -, hrun⟩ := Action.of_run_bind_ok hrun
  cases hrun
  exact ⟨i, s, rfl⟩

/-- What compilations and visits send are errands for their files, which ask in turn. -/
theorem sends_visits (h : Host) (wanted : String → Bool) (files : List String) :
    Machine.Sends (h.visits (σ := σ) wanted files) (Machine.IsInTurn files) := by
  intro i w owner errand hshared
  obtain ⟨file, hfile, hopened⟩ := shared_of_visits hshared
  rcases hrun : (h.openCompile file).run w with ⟨r, w'⟩
  rw [hrun] at hopened
  subst hopened
  unfold openCompile at hrun
  split at hrun
  · obtain ⟨a, w₁, -, hpure⟩ := Action.of_run_bind_ok hrun
    cases hpure
  · obtain ⟨fingerprint, s, rfl⟩ := openFull_shared hrun
    exact ⟨hfile, Reduction.asksInTurn_ofFile _ _ _ _ _⟩

/-- Passes are kept apart. Whatever the transformers answer, however often they make others wait, and
whichever of the pending jobs comes next: the exchanges of a flight are for its own file, and each question
finds the log context of its own pass, and the scratch values that the earlier questions of this pass have
left. The work of a compilation binds these contexts in whatever scopes it is begun, and leaves them as they
were, however it ends. -/
theorem passes_isolated (h : Host) (crew : Crew σ) (wanted : String → Bool) (files : List String)
    (w : World σ) (permits : Option Nat) (givenUp : List Concurrent.Job) :
    (∀ steps m, Machine.Trace crew (h.visits wanted files)
        ((Machine.initial w files.length permits).push givenUp) steps m →
      ∀ f, exchangesOn crew steps f ≠ [] → ∃ flight, m.flights[f]? = some flight ∧
        flight.errand.file ∈ files ∧
        InTurn (Comes flight.errand.file) none (exchangesOn crew steps f)) ∧
    ∀ (file : String) (i : Fingerprint) (t : Transformer) (s : Log.Scopes),
      let routine := Routine.ofFile h.next? h.settings.maxPasses file i t
      routine.under s = (h.reduction file i t).within s.current ∧
      ∀ outcome s', routine.Ends s outcome s' → s' = s := by
  refine ⟨fun steps m htrace f hasked => ?_, fun file i t s => ⟨?_, ?_⟩⟩
  · have hturns := htrace.areInTurn (sends_visits h wanted files) rfl
    cases hf : m.flights[f]? with
    | none => exact absurd (hturns.others f (List.getElem?_eq_none_iff.mp hf)) hasked
    | some flight =>
      obtain ⟨hfile, hturn, -⟩ := hturns.flights f flight hf
      exact ⟨flight, rfl, hfile, hturn⟩
  · exact Routine.under_ofFile h.next? h.settings.maxPasses file i t s
  · exact Routine.isBalanced_ofFile h.next? h.settings.maxPasses file i t s

/-- Where the state of the crew has changed, some flight has asked something. -/
theorem exists_exchangesOn {wanted : String → Bool} {files : List String}
    {steps : List (Machine σ × Concurrent.Job)} {m m' : Machine σ}
    (htrace : Machine.Trace crew (h.visits wanted files) m steps m')
    (hchanged : m'.world.tools ≠ m.world.tools) : ∃ f, exchangesOn crew steps f ≠ [] := by
  cases hall : Concurrent.exchangesIn crew steps with
  | nil =>
    have htools := htrace.tools fun i => keeps_visits Work.isApart_tools h wanted files i
    rw [hall] at htools
    exact absurd htools hchanged
  | cons e rest =>
    refine ⟨e.1, ?_⟩
    unfold exchangesOn
    rw [hall]
    simp

/-! Two files at once -/

namespace Deploys

def smallFiles : List String := ["/p.txt", "/q.txt"]

def smallStart : Machine Nat := (Machine.initial builtWorld smallFiles.length none).push []

def smallEnd : Machine Nat :=
  smallStart.runAll smallCrew (smallHost.visits (fun _ => true) smallFiles) 20

theorem steps_smallEnd : Relation.ReflTransGen
    (Machine.Step smallCrew (smallHost.visits (fun _ => true) smallFiles)) smallStart smallEnd :=
  Machine.steps_runAll _ _ _ _

theorem smallEnd_changed : smallEnd.world.tools ≠ smallStart.world.tools := by decide +kernel

end Deploys

open Deploys in
/-- The two files are worked on together, and something is asked about them. -/
theorem passes_isolated_small : ∃ steps f flight,
    Machine.Trace smallCrew (smallHost.visits (fun _ => true) smallFiles) smallStart steps smallEnd ∧
    exchangesOn smallCrew steps f ≠ [] ∧ smallEnd.flights[f]? = some flight ∧
    InTurn (Comes flight.errand.file) none (exchangesOn smallCrew steps f) := by
  obtain ⟨steps, htrace⟩ := Machine.trace_of_steps steps_smallEnd
  obtain ⟨f, hf⟩ := exists_exchangesOn htrace smallEnd_changed
  unfold smallStart at htrace
  obtain ⟨flight, hflight, -, hturn⟩ :=
    (passes_isolated smallHost smallCrew (fun _ => true) smallFiles builtWorld none []).1
      steps _ htrace f hf
  exact ⟨steps, f, flight, htrace, hf, hflight, hturn⟩

end Host
end AssetCompiler
