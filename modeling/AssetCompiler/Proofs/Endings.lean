import AssetCompiler.Proofs.LegalReduction
import AssetCompiler.Proofs.Standing
import Mathlib.Logic.Hydra
import Mathlib.Tactic.Abel

/-!
Runs end. A flight that is carried on gives way only so often, since its reduction is a tree and each
question makes others wait a fixed number of times. So the requests that have not begun, then the flights
under way, and then the jobs that are pending for the others become less with each step.
-/
namespace AssetCompiler.Concurrent

variable {σ : Type}

/-- A stage that a flight reaches from another one without landing. -/
inductive Stage.Under (crew : Crew σ) : Stage → Stage → Prop
  | begun (waited : Nat) (rest : Reduction) : Under crew (.fetching waited rest) .looking
  | gave {waited waited' : Nat} {rest rest' : Reduction} (w : World σ)
      (gives : ((rest.proceed crew waited).run w).1 = .ok (.waiting waited' rest')) :
      Under crew (.fetching waited' rest') (.fetching waited rest)

namespace Stage

variable {crew : Crew σ}

theorem acc_fetching (rest : Reduction) (waited : Nat) :
    Acc (Under crew) (.fetching waited rest) := by
  induction rest generalizing waited with
  | done outcome =>
    refine Acc.intro _ fun stage hstage => ?_
    cases hstage with
    | gave w gives => cases gives
  | note c e rest ih =>
    refine Acc.intro _ fun stage hstage => ?_
    cases hstage with
    | gave w gives =>
      rw [Reduction.proceed, Action.run_bind_ok (Work.run_note c e w)] at gives
      exact (ih 0).inv (.gave _ gives)
  | read file rest ih =>
    refine Acc.intro _ fun stage hstage => ?_
    cases hstage with
    | gave w gives =>
      rw [Reduction.proceed, Action.run_bind_ok (Work.run_outcome _ w)] at gives
      exact (ih _ 0).inv (.gave _ gives)
  | ask c rest ih =>
    -- The question gives way as often as it pauses, and then it is answered.
    obtain ⟨left, hleft⟩ : ∃ left, crew.pauses c - waited = left := ⟨_, rfl⟩
    induction left generalizing waited with
    | zero =>
      refine Acc.intro _ fun stage hstage => ?_
      cases hstage with
      | gave w gives =>
        rw [Reduction.proceed, if_neg (by omega),
          Action.run_bind_ok (Reduction.run_consult crew c w)] at gives
        exact (ih _ 0).inv (.gave _ gives)
    | succ left ihleft =>
      refine Acc.intro _ fun stage hstage => ?_
      cases hstage with
      | gave w gives =>
        rw [Reduction.proceed, if_pos (by omega)] at gives
        cases gives
        exact ihleft (waited + 1) (by omega)

theorem wellFounded_under (crew : Crew σ) : WellFounded (Under crew) := by
  refine ⟨fun stage => ?_⟩
  cases stage with
  | looking =>
    refine Acc.intro _ fun stage hstage => ?_
    cases hstage with
    | begun waited rest => exact acc_fetching rest waited
  | fetching waited rest => exact acc_fetching rest waited
  | landed outcome =>
    refine Acc.intro _ fun stage hstage => ?_
    cases hstage

end Stage

namespace Machine

/-- The stage of a flight that has not landed. -/
def airborne? (flight : Flight) : Option Stage :=
  match flight.stage with
  | .landed _ => none
  | stage => some stage

/-- The stages of the flights that are under way. -/
def airborne (m : Machine σ) : Multiset Stage := (m.flights.filterMap airborne? : List Stage)

/-- How often a request may still be met by a job of its own. -/
def patience : Request → Nat
  | .busy n _ => n + 2
  | _ => 1

/-- How much work a job may still make, beside flights. -/
def effort (m : Machine σ) : Job → Nat
  | .tick i => patience (m.request i)
  | .deliver _ _ | .cancel _ => 2
  | _ => 1

def efforts (m : Machine σ) : Nat := (m.queue.map m.effort).sum

def opens : Job → Bool
  | .begin _ | .enter _ => true
  | _ => false

def openings (m : Machine σ) : Nat := m.queue.countP opens

/-- There is less to do. -/
def Eased (crew : Crew σ) (m' m : Machine σ) : Prop :=
  Prod.Lex (· < ·) (Prod.Lex (Relation.CutExpand (Stage.Under crew)) (· < ·))
    (m'.openings, m'.airborne, m'.efforts) (m.openings, m.airborne, m.efforts)

theorem wellFounded_eased (crew : Crew σ) : WellFounded (Eased (σ := σ) crew) :=
  InvImage.wf _ (WellFounded.prod_lex Nat.lt_wfRel.wf
    (WellFounded.prod_lex (Stage.wellFounded_under crew).cutExpand Nat.lt_wfRel.wf))

section Easing

variable {crew : Crew σ} {m m' : Machine σ}

theorem Eased.of_openings (h : m'.openings < m.openings) : m'.Eased crew m :=
  Prod.Lex.left _ _ h

theorem Eased.of_airborne (hopenings : m'.openings ≤ m.openings)
    (h : Relation.CutExpand (Stage.Under crew) m'.airborne m.airborne) : m'.Eased crew m := by
  rcases Nat.lt_or_eq_of_le hopenings with hlt | heq
  · exact .of_openings hlt
  · unfold Eased
    rw [heq]
    exact Prod.Lex.right _ (Prod.Lex.left _ _ h)

theorem Eased.of_efforts (hopenings : m'.openings ≤ m.openings) (hairborne : m'.airborne = m.airborne)
    (h : m'.efforts < m.efforts) : m'.Eased crew m := by
  rcases Nat.lt_or_eq_of_le hopenings with hlt | heq
  · exact .of_openings hlt
  · unfold Eased
    rw [heq, hairborne]
    exact Prod.Lex.right _ (Prod.Lex.right _ h)

end Easing

/-! What the steps make less -/

/-- A job has been done beside flights: few jobs have come instead, and no request waits longer for jobs of
its own. -/
structure Eases (m m' : Machine σ) (n : Nat) : Prop where
  flights : m'.flights = m.flights
  queue : m'.queue = [] ∨ ∃ jobs, m'.queue = m.queue ++ jobs ∧ (∀ job ∈ jobs, opens job = false) ∧
    (jobs.map m'.effort).sum < n
  patience : ∀ j, patience (m'.request j) ≤ patience (m.request j)

section Working

variable {crew : Crew σ} {plan : Nat → Work σ Opening} {m m' : Machine σ} {job : Job}
variable {before after : List Job}

theorem patience_pos (r : Request) : 0 < patience r := by
  cases r with
  | busy n o => exact Nat.succ_pos _
  | _ => exact Nat.one_pos

theorem effort_pos (m : Machine σ) (job : Job) : 0 < m.effort job := by
  cases job with
  | tick i => exact patience_pos (m.request i)
  | _ => exact Nat.succ_pos _

theorem effort_le (h : ∀ j, patience (m'.request j) ≤ patience (m.request j)) (job : Job) :
    m'.effort job ≤ m.effort job := by
  cases job with
  | tick i => exact h i
  | _ => exact Nat.le_refl _

theorem openings_le (hqueue : m'.queue = [] ∨ ∃ jobs, m'.queue = before ++ after ++ jobs ∧
      ∀ job ∈ jobs, opens job = false) :
    m'.openings ≤ (before ++ after).countP opens := by
  unfold openings
  rcases hqueue with hnil | ⟨jobs, hjobs, hnone⟩
  · rw [hnil]
    exact Nat.zero_le _
  · have hzero : jobs.countP opens = 0 := by
      rw [List.countP_eq_zero]
      intro job hjob
      rw [hnone job hjob]
      exact Bool.false_ne_true
    rw [hjobs, List.countP_append, hzero]
    exact Nat.le_refl _

theorem countP_pending (hpending : m.queue = before ++ job :: after) :
    m.openings = (before ++ after).countP opens + if opens job then 1 else 0 := by
  unfold openings
  rw [hpending, List.countP_append, List.countP_append, List.countP_cons]
  omega

/-- A job that is done beside flights leaves less to do. -/
theorem Eases.eased (h : Eases { m with queue := before ++ after } m' (m.effort job))
    (hpending : m.queue = before ++ job :: after) : m'.Eased crew m := by
  have hle := effort_le (m := m) h.patience
  have hsum : ∀ l : List Job, (l.map m'.effort).sum ≤ (l.map m.effort).sum := by
    intro l
    exact List.sum_le_sum fun job _ => hle job
  have hopenings : m'.openings ≤ (before ++ after).countP opens :=
    openings_le (h.queue.imp id fun ⟨jobs, hjobs, hnone, _⟩ => ⟨jobs, hjobs, hnone⟩)
  refine .of_efforts ?_ ?_ ?_
  · rw [countP_pending hpending]
    exact Nat.le_trans hopenings (Nat.le_add_right _ _)
  · unfold airborne
    rw [h.flights]
  · have htotal : m.efforts = ((before ++ after).map m.effort).sum + m.effort job := by
      unfold efforts
      rw [hpending]
      simp only [List.map_append, List.map_cons, List.sum_append, List.sum_cons]
      omega
    rw [htotal]
    unfold efforts
    rcases h.queue with hnil | ⟨jobs, hjobs, _, hfew⟩
    · rw [hnil, List.map_nil, List.sum_nil]
      exact Nat.lt_of_lt_of_le (effort_pos m job) (Nat.le_add_left _ _)
    · rw [hjobs, List.map_append, List.sum_append]
      exact Nat.add_lt_add_of_le_of_lt (hsum _) hfew

theorem patience_setRequest {i : Nat} {r : Request} (h : patience r ≤ patience (m.request i))
    (j : Nat) : patience ((m.setRequest i r).request j) ≤ patience (m.request j) := by
  by_cases hji : j = i
  · subst hji
    by_cases hlt : j < m.requests.length
    · rw [request_setRequest_self hlt]
      exact h
    · have hsame : (m.setRequest j r).requests = m.requests :=
        List.set_eq_of_length_le (Nat.le_of_not_lt hlt)
      rw [request_congr hsame]
  · rw [request_setRequest_of_ne m hji]

theorem eases_refl {n : Nat} (hn : 0 < n) : Eases m m n where
  flights := rfl
  queue := .inr ⟨[], (List.append_nil _).symm, List.forall_mem_nil _, hn⟩
  patience _ := Nat.le_refl _

/-- A request goes over into another state, with at most one more job for it. -/
theorem eases_setRequest {i n : Nat} {r : Request} {jobs : List Job}
    (hpatience : patience r ≤ patience (m.request i)) (hopens : ∀ job ∈ jobs, opens job = false)
    (hn : (jobs.map ((m.setRequest i r).push jobs).effort).sum < n) :
    Eases m ((m.setRequest i r).push jobs) n where
  flights := rfl
  queue := .inr ⟨jobs, rfl, hopens, hn⟩
  patience := patience_setRequest hpatience

theorem eases_settle (hfree : m.permits = none) (i : Nat) (o : Except Failure Artifact) {n : Nat}
    (hn : 0 < n) : Eases m (m.settle i o) n where
  flights := by
    unfold Machine.settle
    rw [release_of_free hfree]
    simp only
    split
    · rfl
    · rfl
  queue := by
    unfold Machine.settle
    rw [release_of_free hfree]
    simp only
    split
    · exact .inl rfl
    · exact .inr ⟨[], (List.append_nil _).symm, List.forall_mem_nil _, hn⟩
  patience := by
    intro j
    have hless : patience (.settled o) ≤ patience (m.request i) := patience_pos _
    rw [request_congr (requests_settle m i o hfree)]
    exact patience_setRequest hless j

/-- The jobs of requests that have begun, and removals, leave less to do. -/
theorem eases_perform (hfree : m.permits = none) (hopens : opens job = false)
    (hjob : ∀ f, job ≠ .advance f) :
    Eases m (m.perform crew plan job) (m.effort job) := by
  cases job with
  | begin i => cases hopens
  | enter i => cases hopens
  | advance f => exact absurd rfl (hjob f)
  | tick i =>
    simp only [Machine.perform]
    split
    · exact eases_settle hfree i _ (effort_pos m _)
    · rename_i n o hbusy
      have hless : patience (.busy n o) < patience (m.request i) := by
        rw [hbusy]
        exact Nat.lt_succ_self _
      refine eases_setRequest (Nat.le_of_lt hless) (List.forall_mem_singleton.mpr rfl) ?_
      rw [List.map_singleton, List.sum_singleton]
      by_cases hlt : i < m.requests.length
      · have hrequest : ((m.setRequest i (.busy n o)).push [.tick i]).request i = .busy n o :=
          request_setRequest_self hlt _
        rw [effort, hrequest]
        exact hless
      · have hnone : m.request i = .fresh := by
          unfold request
          rw [List.getElem?_eq_none (Nat.le_of_not_lt hlt)]
          rfl
        cases hnone.symm.trans hbusy
    · exact eases_refl (effort_pos m _)
  | forget f =>
    simp only [Machine.perform]
    split
    · exact ⟨rfl, .inr ⟨[], (List.append_nil _).symm, List.forall_mem_nil _, Nat.one_pos⟩,
        fun _ => Nat.le_refl _⟩
    · exact eases_refl (effort_pos m _)
  | deliver f i =>
    simp only [Machine.perform]
    split
    · split
      · exact eases_setRequest (patience_pos _) (List.forall_mem_singleton.mpr rfl)
          (Nat.lt_succ_self 1)
      · exact eases_refl (effort_pos m _)
    · exact eases_refl (effort_pos m _)
  | resume i =>
    simp only [Machine.perform]
    split
    · exact eases_settle hfree i _ (effort_pos m _)
    · exact eases_refl (effort_pos m _)
  | cancel i =>
    simp only [Machine.perform]
    split
    · exact eases_setRequest (patience_pos _) (List.forall_mem_singleton.mpr rfl)
        (Nat.lt_succ_self 1)
    · have hless : patience (.informed (.error .cancelled)) ≤ patience (m.request i) :=
        patience_pos _
      exact ⟨rfl, .inr ⟨[], (List.append_nil _).symm, List.forall_mem_nil _, Nat.succ_pos 1⟩,
        patience_setRequest hless⟩
    · exact eases_refl (effort_pos m _)

/-- A request that starts makes none begin. -/
theorem Starts.queue {i : Nat} (h : Starts plan m i m') (hfree : m.permits = none) :
    m'.queue = [] ∨ ∃ jobs, m'.queue = m.queue ++ jobs ∧ ∀ job ∈ jobs, opens job = false := by
  have hsettle : ∀ {m₁ : Machine σ} (o : Except Failure Artifact), m₁.permits = none →
      m₁.queue = m.queue → (m₁.settle i o).queue = [] ∨
        ∃ jobs, (m₁.settle i o).queue = m.queue ++ jobs ∧ ∀ job ∈ jobs, opens job = false := by
    intro m₁ o hfree₁ hqueue
    rw [← hqueue]
    exact (eases_settle hfree₁ i o Nat.one_pos).queue.imp id
      fun ⟨jobs, hjobs, hnone, _⟩ => ⟨jobs, hjobs, hnone⟩
  cases h with
  | settled stays => exact hsettle _ hfree rfl
  | busy stays => exact .inr ⟨_, rfl, List.forall_mem_singleton.mpr rfl⟩
  | shared plans boards shares =>
    cases shares with
    | landed listed found outcome => exact hsettle _ hfree rfl
    | joined listed found opened =>
      exact .inr ⟨[], (List.append_nil _).symm, List.forall_mem_nil _⟩
    | started free new => exact .inr ⟨_, rfl, List.forall_mem_singleton.mpr rfl⟩

/-- What is left of a flight that is carried on. -/
structure Sinks (crew : Crew σ) (m : Machine σ) (f : Nat) (flight : Flight) (m' : Machine σ) :
    Prop where
  flights : ∃ flight', m'.flights = m.flights.set f flight' ∧
    ∀ stage, airborne? flight' = some stage → Stage.Under crew stage flight.stage
  queue : m'.queue = [] ∨ ∃ jobs, m'.queue = m.queue ++ jobs ∧ ∀ job ∈ jobs, opens job = false

theorem sinks_land (crew : Crew σ) (m : Machine σ) (f : Nat) (flight : Flight)
    (o : Except Failure Artifact) : Sinks crew m f flight (m.land f flight o) := by
  have hjobs : ∀ job ∈ Job.forget f :: flight.waiters.map (Job.deliver f), opens job = false := by
    refine List.forall_mem_cons.mpr ⟨rfl, fun job hjob => ?_⟩
    obtain ⟨j, _, rfl⟩ := List.mem_map.mp hjob
    rfl
  unfold Machine.land
  simp only
  split
  · exact ⟨⟨_, rfl, nofun⟩, .inl rfl⟩
  · exact ⟨⟨_, rfl, nofun⟩, .inr ⟨_, rfl, hjobs⟩⟩

theorem sinks_follow (crew : Crew σ) (m : Machine σ) (f : Nat) (flight : Flight)
    (progress : Except Failure Reduction.Progress)
    (hunder : ∀ waited rest, progress = .ok (.waiting waited rest) →
      Stage.Under crew (.fetching waited rest) flight.stage) :
    Sinks crew m f flight (m.follow f flight progress) := by
  unfold Machine.follow
  split
  · exact sinks_land crew m f flight _
  · rename_i waited rest
    refine ⟨⟨_, rfl, fun stage hstage => ?_⟩, .inr ⟨_, rfl, List.forall_mem_singleton.mpr rfl⟩⟩
    cases hstage
    exact hunder waited rest rfl
  · exact sinks_land crew m f flight _
  · rename_i a
    have hlanded := sinks_land crew (m.act (flight.errand.deliver a)).2 f flight
      (m.act (flight.errand.deliver a)).1
    exact ⟨hlanded.flights, hlanded.queue⟩

theorem sinks_advance (crew : Crew σ) (m : Machine σ) {f : Nat} {flight : Flight}
    (hf : m.flights[f]? = some flight) (hopen : flight.outcome? = none) :
    Sinks crew m f flight (m.advance crew f) := by
  unfold Machine.advance
  rw [hf]
  simp only
  cases hstage : flight.stage with
  | landed o =>
    rw [Flight.outcome?, hstage] at hopen
    cases hopen
  | fetching waited rest =>
    have hfollowed := sinks_follow crew (m.act (rest.proceed crew waited)).2 f flight
      (m.act (rest.proceed crew waited)).1 fun waited' rest' hgives => hstage ▸ .gave m.world hgives
    exact ⟨hfollowed.flights, hfollowed.queue⟩
  | looking =>
    simp only
    have hflights : (m.act flight.errand.stored?).2.flights = m.flights := rfl
    have hqueue : (m.act flight.errand.stored?).2.queue = m.queue := rfl
    cases hact : m.act flight.errand.stored? with
    | mk found m' =>
      rw [hact] at hflights hqueue
      have hlooked : ∀ {m''}, Sinks crew m' f flight m'' → Sinks crew m f flight m'' := by
        intro m'' h
        refine ⟨?_, ?_⟩
        · rw [← hflights]
          exact h.flights
        · rw [← hqueue]
          exact h.queue
      rcases found with e | (_ | a)
      · exact hlooked (sinks_land crew m' f flight _)
      · have hfollowed := sinks_follow crew (m'.act (flight.errand.work.proceed crew 0)).2 f flight
          (m'.act (flight.errand.work.proceed crew 0)).1
          fun waited rest _ => hstage ▸ .begun waited rest
        exact hlooked ⟨hfollowed.flights, hfollowed.queue⟩
      · exact hlooked (sinks_land crew m' f flight _)

theorem airborne_set {l : List Flight} {f : Nat} {flight : Flight} (flight' : Flight) {stage : Stage}
    (hf : l[f]? = some flight) (hstage : airborne? flight = some stage) :
    (((l.set f flight').filterMap airborne? : List Stage) : Multiset Stage) + {stage} =
      ((l.filterMap airborne? : List Stage) : Multiset Stage) +
        ((airborne? flight').toList : List Stage) := by
  induction l generalizing f with
  | nil => cases hf
  | cons x l ih =>
    cases f with
    | zero =>
      cases hf
      rw [List.set_cons_zero, List.filterMap_cons_some hstage]
      cases hnext : airborne? flight' with
      | none =>
        rw [List.filterMap_cons_none hnext, ← Multiset.cons_coe, Option.toList_none,
          ← Multiset.singleton_add, add_comm]
        exact (add_zero _).symm
      | some stage' =>
        rw [List.filterMap_cons_some hnext, ← Multiset.cons_coe, ← Multiset.cons_coe,
          ← Multiset.singleton_add, ← Multiset.singleton_add, Option.toList_some,
          Multiset.coe_singleton]
        abel
    | succ f =>
      have hrest := ih (f := f) hf
      rw [List.set_cons_succ]
      cases hfirst : airborne? x with
      | none =>
        rw [List.filterMap_cons_none hfirst, List.filterMap_cons_none hfirst]
        exact hrest
      | some first =>
        rw [List.filterMap_cons_some hfirst, List.filterMap_cons_some hfirst, ← Multiset.cons_coe,
          ← Multiset.cons_coe, Multiset.cons_add, Multiset.cons_add, hrest]

theorem airborne?_of_open {flight : Flight} (h : flight.outcome? = none) :
    airborne? flight = some flight.stage := by
  cases hstage : flight.stage with
  | landed o =>
    rw [Flight.outcome?, hstage] at h
    cases h
  | looking => rw [airborne?, hstage]
  | fetching waited rest => rw [airborne?, hstage]

/-- One flight has become another, or is no longer under way. -/
theorem cutExpand_set {l : List Flight} {f : Nat} {flight flight' : Flight} {stage : Stage}
    (hf : l[f]? = some flight) (hstage : airborne? flight = some stage)
    (hunder : ∀ stage', airborne? flight' = some stage' → Stage.Under crew stage' stage) :
    Relation.CutExpand (Stage.Under crew) ((l.set f flight').filterMap airborne? : List Stage)
      (l.filterMap airborne? : List Stage) := by
  refine ⟨((airborne? flight').toList : List Stage), stage, ?_, airborne_set flight' hf hstage⟩
  intro stage' hmem
  exact hunder stage' (Option.mem_toList.mp hmem)

/-- Each step leaves less to do. -/
theorem Tended.eased {aboard : List (Nat × Nat)} {left : List Nat} (h : m.Tended aboard left)
    (hpending : m.queue = before ++ job :: after) :
    Eased crew ({ m with queue := before ++ after }.perform crew plan job) m := by
  have hmem : job ∈ m.queue := by
    rw [hpending]
    exact List.mem_append_right _ (List.mem_cons_self ..)
  have hfree : Machine.permits { m with queue := before ++ after } = none := h.free
  have hlisted : IsListed { m with queue := before ++ after } := h.isListed
  have hstays : ∀ job', effort { m with queue := before ++ after } job' = m.effort job' := fun _ => rfl
  cases hopens : opens job with
  | true =>
    cases job with
    | begin i =>
      have hqueue := (starts plan { m with queue := before ++ after } hlisted i).queue hfree
      refine .of_openings ?_
      rw [perform_begin hfree, countP_pending hpending]
      exact Nat.lt_succ_of_le (openings_le hqueue)
    | enter i => exact absurd hmem (h.enters i)
    | _ => cases hopens
  | false =>
    by_cases hjob : ∃ f flight, job = .advance f ∧ m.flights[f]? = some flight ∧
        flight.outcome? = none
    · obtain ⟨f, flight, rfl, hf, hopen⟩ := hjob
      have hsinks := sinks_advance crew { m with queue := before ++ after } hf hopen
      obtain ⟨flight', hflights, hunder⟩ := hsinks.flights
      refine .of_airborne ?_ ?_
      · rw [countP_pending hpending]
        exact Nat.le_trans (openings_le hsinks.queue) (Nat.le_add_right _ _)
      · have hcut := cutExpand_set hf (airborne?_of_open hopen) hunder
        change Relation.CutExpand _ (((advance crew { m with queue := before ++ after }
          f).flights.filterMap airborne? : List Stage) : Multiset Stage) _
        rw [hflights]
        exact hcut
    · by_cases hadvance : ∃ f, job = .advance f
      · obtain ⟨f, rfl⟩ := hadvance
        have hsame : advance crew { m with queue := before ++ after } f =
            { m with queue := before ++ after } :=
          advance_of_not_open fun flight hf hopen => hjob ⟨f, flight, rfl, hf, hopen⟩
        change Eased crew (advance crew { m with queue := before ++ after } f) m
        rw [hsame]
        exact Eases.eased (eases_refl (effort_pos m _)) hpending
      · exact (eases_perform hfree hopens fun f hf => hadvance ⟨f, hf⟩).eased hpending

end Working

/-- No run goes on for ever. -/
theorem Tended.ends {crew : Crew σ} {plan : Nat → Work σ Opening} {m : Machine σ}
    {aboard : List (Nat × Nat)} {left : List Nat} (h : m.Tended aboard left) :
    Acc (fun m' m => Step crew plan m m') m := by
  induction (wellFounded_eased crew).apply m generalizing aboard left with
  | intro m _ ih =>
    refine Acc.intro m fun m' hstep => ?_
    cases hstep with
    | perform before job after pending => exact ih _ (h.eased pending) (h.perform pending)

end Machine
end AssetCompiler.Concurrent
