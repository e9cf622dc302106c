import AssetCompiler.Concurrent
import AssetCompiler.Proofs.QuietWork
import Mathlib.Data.Multiset.DershowitzManna
import Mathlib.SetTheory.Ordinal.Family

/-!
Machines come to rest. What is still to be done has a weight that every job makes smaller: first the requests that
are still to be admitted, then the questions that flights may still ask, then the pauses of requests under way, then
the jobs themselves. A reduction can go on in infinitely many ways, so the weight of a flight is an ordinal, and
those of several flights form a multiset.
-/
namespace AssetCompiler

namespace Reduction

variable {σ : Type}

/-- How far a reduction is from its end, whatever is answered. Each pause before an answer counts. -/
noncomputable def rank (crew : Crew σ) : Reduction → Ordinal.{0}
  | .done _ => 0
  | .note _ _ rest => Order.succ (rest.rank crew)
  | .read _ rest => ⨆ text, Order.succ ((rest text).rank crew)
  | .ask c rest => (⨆ reply, Order.succ ((rest reply).rank crew)) + crew.pauses c

/-- The same for a reduction whose first question has given way so often. -/
noncomputable def rankAt (crew : Crew σ) (waited : Nat) : Reduction → Ordinal.{0}
  | .ask c rest => (⨆ reply, Order.succ ((rest reply).rank crew)) + (crew.pauses c - waited : Nat)
  | r => r.rank crew

theorem rankAt_zero (crew : Crew σ) (r : Reduction) : r.rankAt crew 0 = r.rank crew := by
  cases r <;> rfl

/-- A reduction that has gone on and waits is nearer to its end. -/
theorem rankAt_lt_of_proceed {crew : Crew σ} {r rest : Reduction} {waited waited' : Nat} {w w' : World σ}
    (h : (r.proceed crew waited).run w = (.ok (.waiting waited' rest), w')) :
    rest.rankAt crew waited' < r.rankAt crew waited := by
  induction r generalizing waited w with
  | done outcome => cases h
  | note context event r ih =>
    rw [proceed, Action.run_bind_ok (Work.run_note context event w)] at h
    have hlt := ih h
    rw [rankAt_zero] at hlt
    exact hlt.trans (Order.lt_succ _)
  | read file r ih =>
    rw [proceed, Action.run_bind_ok (Work.run_outcome _ w)] at h
    have hlt := ih _ h
    rw [rankAt_zero] at hlt
    exact hlt.trans ((Order.lt_succ _).trans_le (Ordinal.le_iSup _ _))
  | ask c r ih =>
    unfold proceed at h
    split at h
    · rename_i hmore
      cases h
      unfold rankAt
      simp only
      have hless : ((crew.pauses c - (waited + 1) : Nat) : Ordinal.{0}) < (crew.pauses c - waited : Nat) :=
        Nat.cast_lt.mpr (by omega)
      exact (add_lt_add_iff_left _).mpr hless
    · obtain ⟨reply, w₁, -, hrest⟩ := Action.of_run_bind_ok h
      have hlt := ih reply hrest
      rw [rankAt_zero] at hlt
      calc rest.rankAt crew waited' < Order.succ ((r reply).rank crew) := hlt.trans (Order.lt_succ _)
        _ ≤ ⨆ reply, Order.succ ((r reply).rank crew) := Ordinal.le_iSup (fun reply => _) reply
        _ ≤ _ := le_self_add

end Reduction

namespace Concurrent

open Reduction

variable {σ : Type}

/-- How far a flight is from its end. -/
noncomputable def Flight.rank (crew : Crew σ) (f : Flight) : Ordinal.{0} :=
  match f.stage with
  | .landed _ => 0
  | .fetching waited rest => Order.succ (rest.rankAt crew waited)
  | .looking => Order.succ (Order.succ (f.errand.work.rank crew))

/-- The pauses that a request still takes. -/
def Request.left : Request → Nat
  | .busy n _ => n + 1
  | _ => 0

/-- What a job counts for the admission of requests. -/
def Job.admits : Job → Nat
  | .begin _ => 3
  | .enter _ => 1
  | _ => 0

/-- What a job counts beside the others. -/
def Job.cost : Job → Nat
  | .deliver _ _ | .cancel _ => 2
  | _ => 1

namespace Machine

/-- What is still to be admitted. -/
def admissions (m : Machine σ) : Nat := (m.queue.map Job.admits).sum + 2 * m.parked.length

noncomputable def ranks (crew : Crew σ) (m : Machine σ) : Multiset Ordinal.{0} :=
  m.flights.map (Flight.rank crew)

def left (m : Machine σ) : Nat := (m.requests.map Request.left).sum

def chores (m : Machine σ) : Nat := (m.queue.map Job.cost).sum

/-- A machine with less to do: less to be admitted, or as much and flights that are nearer to their end, or as near
and fewer pauses, or as many and fewer jobs. -/
def Lighter (crew : Crew σ) : Machine σ → Machine σ → Prop :=
  InvImage (Prod.Lex (· < ·) (Prod.Lex Multiset.IsDershowitzMannaLT (Prod.Lex (· < ·) (· < ·))))
    fun m => (m.admissions, m.ranks crew, m.left, m.chores)

theorem wellFounded_lighter (crew : Crew σ) : WellFounded (Lighter crew) :=
  InvImage.wf _ <| WellFounded.prod_lex wellFounded_lt <|
    WellFounded.prod_lex Multiset.wellFounded_isDershowitzMannaLT <|
      WellFounded.prod_lex wellFounded_lt wellFounded_lt

variable {crew : Crew σ} {m m' : Machine σ}

theorem lighter_of_admissions (h : m'.admissions < m.admissions) : Lighter crew m' m :=
  Prod.Lex.left _ _ h

theorem lighter_of_ranks (ha : m'.admissions ≤ m.admissions)
    (h : Multiset.IsDershowitzMannaLT (m'.ranks crew) (m.ranks crew)) : Lighter crew m' m :=
  Prod.Lex.right' _ ha (Prod.Lex.left _ _ h)

theorem lighter_of_left (ha : m'.admissions ≤ m.admissions) (hf : m'.flights = m.flights)
    (h : m'.left < m.left) : Lighter crew m' m := by
  have hr : m'.ranks crew = m.ranks crew := by
    unfold ranks
    rw [hf]
  refine Prod.Lex.right' _ ha ?_
  rw [hr]
  exact Prod.Lex.right _ (Prod.Lex.left _ _ h)

theorem lighter_of_chores (ha : m'.admissions ≤ m.admissions) (hf : m'.flights = m.flights)
    (hl : m'.left ≤ m.left) (h : m'.chores < m.chores) : Lighter crew m' m := by
  have hr : m'.ranks crew = m.ranks crew := by
    unfold ranks
    rw [hf]
  refine Prod.Lex.right' _ ha ?_
  rw [hr]
  exact Prod.Lex.right _ (Prod.Lex.right' _ hl h)

/-! What the parts of jobs add -/

section Sums

theorem sum_map_set {α : Type} {l : List α} {i : Nat} {a b : α} (g : α → Nat) (h : l[i]? = some b) :
    ((l.set i a).map g).sum + g b = (l.map g).sum + g a := by
  induction l generalizing i with
  | nil => cases h
  | cons x rest ih =>
    cases i with
    | zero =>
      cases h
      simp only [List.set_cons_zero, List.map_cons, List.sum_cons]
      omega
    | succ i =>
      have hrest := ih (i := i) h
      simp only [List.set_cons_succ, List.map_cons, List.sum_cons]
      omega

theorem sum_map_set_le {α : Type} (l : List α) (i : Nat) {a : α} (g : α → Nat) (h : g a = 0) :
    ((l.set i a).map g).sum ≤ (l.map g).sum := by
  cases hi : l[i]? with
  | none => rw [List.set_eq_of_length_le (List.getElem?_eq_none_iff.mp hi)]
  | some b =>
    have hset := sum_map_set g hi (a := a)
    omega

/-- One smaller member makes a multiset smaller. -/
theorem isDershowitzMannaLT_set {α β : Type*} [Preorder β] {l : List α} {i : Nat} {a b : α} (g : α → β)
    (h : l[i]? = some b) (hlt : g a < g b) :
    Multiset.IsDershowitzMannaLT (((l.set i a).map g : List β) : Multiset β) (l.map g : List β) := by
  induction l generalizing i with
  | nil => cases h
  | cons x rest ih =>
    cases i with
    | zero =>
      cases h
      refine ⟨(rest.map g : List β), {g a}, {g b}, Multiset.singleton_ne_zero _, ?_, ?_, ?_⟩
      · rw [add_comm]
        rfl
      · rw [add_comm]
        rfl
      · intro y hy
        rw [Multiset.mem_singleton] at hy
        exact ⟨g b, Multiset.mem_singleton_self _, hy ▸ hlt⟩
    | succ i =>
      obtain ⟨X, Y, Z, hZ, hleft, hright, hless⟩ := ih (i := i) h
      refine ⟨g x ::ₘ X, Y, Z, hZ, ?_, ?_, hless⟩
      · rw [Multiset.cons_add, ← hleft]
        rfl
      · rw [Multiset.cons_add, ← hright]
        rfl

end Sums

theorem admissions_push (m : Machine σ) (jobs : List Job) :
    (m.push jobs).admissions = m.admissions + (jobs.map Job.admits).sum := by
  simp only [admissions, push, List.map_append, List.sum_append]
  omega

theorem chores_push (m : Machine σ) (jobs : List Job) :
    (m.push jobs).chores = m.chores + (jobs.map Job.cost).sum := by
  simp only [chores, push, List.map_append, List.sum_append]

theorem halt_le (m : Machine σ) : m.halt.admissions ≤ m.admissions ∧ m.halt.chores ≤ m.chores := by
  simp [admissions, chores, halt]

/-- What a request that ends leaves to be done: nothing more, unless another one is admitted for it. -/
structure Relieved (m m' : Machine σ) : Prop where
  flights : m'.flights = m.flights
  left : m'.left ≤ m.left
  less : m'.admissions < m.admissions ∨ m'.admissions ≤ m.admissions ∧ m'.chores ≤ m.chores

theorem Relieved.admissions_le (h : Relieved m m') : m'.admissions ≤ m.admissions :=
  h.less.elim Nat.le_of_lt And.left

/-- A job whose request ends has made the machine lighter. -/
theorem Relieved.lighter {m₀ : Machine σ} (h : Relieved m m') (hf : m.flights = m₀.flights)
    (hl : m.left ≤ m₀.left) (ha : m.admissions ≤ m₀.admissions) (hc : m.chores < m₀.chores) :
    Lighter crew m' m₀ := by
  rcases h.less with hless | ⟨hle, hchores⟩
  · exact lighter_of_admissions (hless.trans_le ha)
  · exact lighter_of_chores (hle.trans ha) (h.flights.trans hf) (h.left.trans hl) (hchores.trans_lt hc)

theorem relieved_release (m : Machine σ) : Relieved m m.release := by
  unfold release
  split
  · exact ⟨rfl, le_rfl, .inr ⟨le_rfl, le_rfl⟩⟩
  · split
    · exact ⟨rfl, le_rfl, .inr ⟨le_rfl, le_rfl⟩⟩
    · rename_i j rest hparked
      refine ⟨rfl, le_rfl, .inl ?_⟩
      rw [admissions_push]
      simp only [admissions, hparked, List.length_cons, List.map_cons, List.map_nil, List.sum_cons,
        List.sum_nil, Job.admits]
      omega

theorem relieved_settle (m : Machine σ) (i : Nat) (outcome : Except Failure Artifact) :
    Relieved m (m.settle i outcome) := by
  have hreleased := relieved_release ({ m with active := m.active - 1 }.setRequest i (.settled outcome))
  have hleft : ({ m with active := m.active - 1 }.setRequest i (.settled outcome)).left ≤ m.left :=
    sum_map_set_le m.requests i Request.left rfl
  have hsettled : Relieved m ({ m with active := m.active - 1 }.setRequest i (.settled outcome)).release :=
    ⟨hreleased.flights, hreleased.left.trans hleft, hreleased.less⟩
  unfold settle
  split
  · obtain ⟨ha, hc⟩ := halt_le ({ m with active := m.active - 1 }.setRequest i (.settled outcome)).release
    refine ⟨hsettled.flights, hsettled.left, ?_⟩
    rcases hsettled.less with hless | ⟨hle, hchores⟩
    · exact .inl (ha.trans_lt hless)
    · exact .inr ⟨ha.trans hle, hc.trans hchores⟩
  · exact hsettled

/-- A request that shares a flight is no longer to be admitted. -/
theorem admissions_share_le (m : Machine σ) (i : Nat) (key : FlightKey) (errand : Errand) :
    (m.share i key errand).admissions ≤ m.admissions := by
  unfold share
  split
  · split
    · exact (relieved_settle _ _ _).admissions_le
    · exact le_rfl
  · exact (admissions_push _ _).le

theorem admissions_start_le (plan : Nat → Work σ Opening) (m : Machine σ) (i : Nat) :
    (m.start plan i).admissions ≤ m.admissions := by
  unfold start act
  simp only
  rcases (plan i).run m.world with ⟨e | opening, w⟩
  · exact (relieved_settle _ _ _).admissions_le
  · cases opening with
    | settled outcome => exact (relieved_settle _ _ _).admissions_le
    | shared owner errand => exact admissions_share_le _ _ _ _
    | busy pauses outcome =>
      cases pauses with
      | zero => exact (relieved_settle _ _ _).admissions_le
      | succ n => exact (admissions_push _ _).le

theorem admissions_admission_le (plan : Nat → Work σ Opening) (m : Machine σ) (i : Nat) :
    (m.admission plan i).admissions ≤ m.admissions + 2 := by
  have hparks : ({ m with parked := m.parked ++ [i] }.setRequest i .parked).admissions =
      m.admissions + 2 := by
    simp only [admissions, setRequest, List.length_append, List.length_singleton]
    omega
  unfold admission
  split
  · exact (admissions_start_le plan m i).trans (Nat.le_add_right _ _)
  · exact hparks.le
  · split
    · exact (admissions_start_le plan _ i).trans (Nat.le_add_right _ _)
    · exact hparks.le

theorem admissions_land_le (m : Machine σ) (f : Nat) (flight : Flight) (outcome : Except Failure Artifact) :
    (m.land f flight outcome).admissions ≤ m.admissions := by
  have hpush : ((m.setFlight f { flight with stage := .landed outcome }).push
      (.forget f :: flight.waiters.map (.deliver f))).admissions ≤ m.admissions := by
    rw [admissions_push]
    have hnone : ((Job.forget f :: flight.waiters.map (.deliver f)).map Job.admits).sum = 0 := by
      refine List.sum_eq_zero fun n hn => ?_
      simp only [List.map_cons, List.map_map, List.mem_cons, List.mem_map, Function.comp_apply] at hn
      rcases hn with rfl | ⟨i, -, rfl⟩ <;> rfl
    rw [hnone]
    exact le_rfl
  unfold land
  split
  · exact (halt_le _).1.trans hpush
  · exact hpush

theorem flights_land (m : Machine σ) (f : Nat) (flight : Flight) (outcome : Except Failure Artifact) :
    (m.land f flight outcome).flights = m.flights.set f { flight with stage := .landed outcome } := by
  unfold land
  split <;> rfl

/-- A flight that lands is at its end. -/
theorem lighter_land {m m₀ : Machine σ} {f : Nat} {flight : Flight} (outcome : Except Failure Artifact)
    (ha : m.admissions ≤ m₀.admissions) (hf : m.flights = m₀.flights) (hflight : m₀.flights[f]? = some flight)
    (hopen : ∀ o, flight.stage ≠ .landed o) : Lighter crew (m.land f flight outcome) m₀ := by
  refine lighter_of_ranks ((admissions_land_le _ _ _ _).trans ha) ?_
  unfold ranks
  rw [flights_land, hf]
  refine isDershowitzMannaLT_set _ hflight ?_
  change (0 : Ordinal.{0}) < flight.rank crew
  unfold Flight.rank
  cases hs : flight.stage with
  | landed o => exact (hopen o hs).elim
  | looking => exact Order.bot_lt_succ _
  | fetching waited rest => exact Order.bot_lt_succ _

/-- So is one whose reduction is finished; one that waits is nearer to it. -/
theorem lighter_follow {m m₀ : Machine σ} {f : Nat} {flight : Flight}
    {progress : Except Failure Reduction.Progress} (ha : m.admissions ≤ m₀.admissions)
    (hf : m.flights = m₀.flights) (hflight : m₀.flights[f]? = some flight)
    (hopen : ∀ o, flight.stage ≠ .landed o)
    (hwaits : ∀ waited rest, progress = .ok (.waiting waited rest) →
      Order.succ (rest.rankAt crew waited) < flight.rank crew) :
    Lighter crew (m.follow f flight progress) m₀ := by
  unfold follow
  split
  · exact lighter_land _ ha hf hflight hopen
  · rename_i waited rest
    refine lighter_of_ranks ((admissions_push _ _).trans_le ha) ?_
    have hflights : ((m.setFlight f { flight with stage := .fetching waited rest }).push [.advance f]).flights =
        m₀.flights.set f { flight with stage := .fetching waited rest } := by
      rw [← hf]
      rfl
    unfold ranks
    rw [hflights]
    exact isDershowitzMannaLT_set _ hflight (hwaits waited rest rfl)
  · exact lighter_land _ ha hf hflight hopen
  · exact lighter_land _ ha hf hflight hopen

/-- The next part of a flight brings it nearer to its end. -/
theorem lighter_advance {m m₀ : Machine σ} {f : Nat} (ha : m.admissions ≤ m₀.admissions)
    (hf : m.flights = m₀.flights) (hl : m.left ≤ m₀.left) (hc : m.chores < m₀.chores) :
    Lighter crew (m.advance crew f) m₀ := by
  unfold advance
  cases hflight : m.flights[f]? with
  | none => exact lighter_of_chores ha hf hl hc
  | some flight =>
    simp only
    rw [hf] at hflight
    cases hstage : flight.stage with
    | landed o => exact lighter_of_chores ha hf hl hc
    | fetching waited rest =>
      refine lighter_follow ha hf hflight (fun o ho => by rw [hstage] at ho; cases ho) ?_
      intro waited' rest' hwaits
      unfold Flight.rank
      rw [hstage]
      exact Order.succ_lt_succ (rankAt_lt_of_proceed (Prod.ext hwaits rfl))
    | looking =>
      have hopen : ∀ o, flight.stage ≠ .landed o := fun o ho => by rw [hstage] at ho; cases ho
      unfold act
      simp only
      rcases flight.errand.stored?.run m.world with ⟨_ | _ | _, w⟩
      · exact lighter_land _ ha hf hflight hopen
      · refine lighter_follow ha hf hflight hopen ?_
        intro waited rest hwaits
        have hlt := rankAt_lt_of_proceed (Prod.ext hwaits rfl)
        rw [rankAt_zero] at hlt
        unfold Flight.rank
        rw [hstage]
        exact (Order.succ_lt_succ hlt).trans (Order.lt_succ _)
      · exact lighter_land _ ha hf hflight hopen

/-- A pending job that is performed leaves less to be done. -/
theorem lighter_perform (crew : Crew σ) (plan : Nat → Work σ Opening) {m m₀ : Machine σ} (job : Job)
    (ha : m.admissions + job.admits = m₀.admissions) (hf : m.flights = m₀.flights) (hl : m.left = m₀.left)
    (hc : m.chores + job.cost = m₀.chores) : Lighter crew (m.perform crew plan job) m₀ := by
  have hle : m.admissions ≤ m₀.admissions := by omega
  have hpos : 1 ≤ job.cost := by cases job <;> simp [Job.cost]
  have hless : m.chores < m₀.chores := by omega
  have hidle : Lighter crew m m₀ := lighter_of_chores hle hf hl.le hless
  have hsettles : ∀ i outcome, Lighter crew (m.settle i outcome) m₀ := fun i outcome =>
    (relieved_settle m i outcome).lighter hf hl.le hle hless
  -- a request that will be resumed
  have hresumes : ∀ i outcome, 2 ≤ job.cost →
      Lighter crew ((m.setRequest i (.informed outcome)).push [.resume i]) m₀ := by
    intro i outcome htwo
    refine lighter_of_chores ((admissions_push _ _).trans_le hle) hf
      ((sum_map_set_le m.requests i Request.left rfl).trans hl.le) ?_
    rw [chores_push]
    change m.chores + 1 < m₀.chores
    omega
  cases job with
  | begin i =>
    have hadmits := admissions_admission_le plan m i
    simp only [Job.admits] at ha
    have hless : (m.admission plan i).admissions < m₀.admissions := by omega
    exact lighter_of_admissions hless
  | enter i =>
    have hadmits := admissions_start_le plan m i
    simp only [Job.admits] at ha
    have hless : (m.start plan i).admissions < m₀.admissions := by omega
    exact lighter_of_admissions hless
  | tick i =>
    unfold perform
    simp only
    split
    · exact hsettles _ _
    · rename_i n outcome hbusy
      refine lighter_of_left ((admissions_push _ _).trans_le hle) hf ?_
      have hi : m.requests[i]? = some (.busy (n + 1) outcome) := by
        unfold request at hbusy
        cases hr : m.requests[i]? with
        | none =>
          rw [hr] at hbusy
          cases hbusy
        | some r =>
          rw [hr] at hbusy
          exact congrArg some hbusy
      have hset : ((m.setRequest i (.busy n outcome)).push [.tick i]).left + (n + 2) = m.left + (n + 1) :=
        sum_map_set Request.left hi
      omega
    · exact hidle
  | advance f => exact lighter_advance hle hf hl.le hless
  | forget f =>
    unfold perform
    simp only
    split
    · exact lighter_of_chores hle hf hl.le hless
    · exact hidle
  | deliver f i =>
    unfold perform
    simp only
    split
    · split
      · exact hresumes _ _ le_rfl
      · exact hidle
    · exact hidle
  | resume i =>
    unfold perform
    simp only
    split
    · exact hsettles _ _
    · exact hidle
  | cancel i =>
    unfold perform
    simp only
    split
    · exact hresumes _ _ le_rfl
    · exact lighter_of_chores hle hf ((sum_map_set_le m.requests i Request.left rfl).trans hl.le) hless
    · exact hidle

/-- Every step leaves less to be done. -/
theorem lighter_step {plan : Nat → Work σ Opening} (h : Step crew plan m m') : Lighter crew m' m := by
  obtain ⟨before, job, after, hqueue⟩ := h
  refine lighter_perform crew plan job ?_ rfl rfl ?_
  · simp only [admissions, hqueue, List.map_append, List.map_cons, List.sum_append, List.sum_cons]
    omega
  · simp only [chores, hqueue, List.map_append, List.map_cons, List.sum_append, List.sum_cons]
    omega

/-- Whatever job is performed at each step, there is no endless run. -/
theorem wellFounded_step (crew : Crew σ) (plan : Nat → Work σ Opening) :
    WellFounded fun m' m => Step crew plan m m' :=
  Subrelation.wf lighter_step (wellFounded_lighter crew)

theorem exists_not_step (crew : Crew σ) (plan : Nat → Work σ Opening) (run : Nat → Machine σ) :
    ∃ n, ¬ Step crew plan (run n) (run (n + 1)) := by
  by_contra hendless
  have hnever : ∀ m n, run n ≠ m := by
    intro m
    induction m using (wellFounded_step crew plan).induction with
    | _ m ih =>
      rintro n rfl
      exact ih _ (not_not.mp fun hstep => hendless ⟨n, hstep⟩) (n + 1) rfl
  exact hnever _ 0 rfl

theorem push_nil (m : Machine σ) : m.push [] = m := by
  unfold push
  rw [List.append_nil]

theorem runToRest_of_nil (crew : Crew σ) (plan : Nat → Work σ Opening) {m : Machine σ}
    (hqueue : m.queue = []) : m.runToRest crew plan = m := by
  unfold runToRest
  rw [@WellFounded.extrinsicFix_eq_apply _ _ (fun m => ⟨m⟩) _ _ (wellFounded_step crew plan)]
  split
  · rfl
  · rename_i job rest hpending
    cases hqueue.symm.trans hpending

theorem runToRest_of_cons (crew : Crew σ) (plan : Nat → Work σ Opening) {m : Machine σ} {job : Job}
    {rest : List Job} (hqueue : m.queue = job :: rest) : m.runToRest crew plan =
      ({ m with queue := rest }.perform crew plan job).runToRest crew plan := by
  conv => lhs; unfold runToRest
  rw [@WellFounded.extrinsicFix_eq_apply _ _ (fun m => ⟨m⟩) _ _ (wellFounded_step crew plan)]
  split
  · rename_i hempty
    cases hqueue.symm.trans hempty
  · rename_i job' rest' hpending
    cases hqueue.symm.trans hpending
    rfl

/-- Performing the jobs that have waited longest is one way to go, and comes to an end. -/
theorem steps_runToRest (crew : Crew σ) (plan : Nat → Work σ Opening) (m : Machine σ) :
    Relation.ReflTransGen (Step crew plan) m (m.runToRest crew plan) ∧
      (m.runToRest crew plan).queue = [] := by
  induction m using (wellFounded_step crew plan).induction with
  | _ m ih =>
    cases hqueue : m.queue with
    | nil =>
      rw [runToRest_of_nil crew plan hqueue]
      exact ⟨.refl, hqueue⟩
    | cons job rest =>
      rw [runToRest_of_cons crew plan hqueue]
      have hstep : Step crew plan m ({ m with queue := rest }.perform crew plan job) :=
        .perform m [] job rest hqueue
      obtain ⟨hsteps, hrest⟩ := ih _ hstep
      exact ⟨.head hstep hsteps, hrest⟩

end Machine

/-- Requests that are worked on together come to what is harvested from a machine at rest. -/
theorem run_runTogether (crew : Crew σ) (plans : List (Work σ Opening)) (permits : Option Nat)
    (extra : List Job) (w : World σ) : (runTogether crew plans permits extra).run w =
      ((((Machine.initial w plans.length permits).push extra).runToRest crew
        (numbered plans)).harvest).run w := by
  unfold runTogether
  rw [Action.run_bind_ok (Action.run_get w)]

end Concurrent
end AssetCompiler
