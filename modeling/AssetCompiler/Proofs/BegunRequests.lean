import AssetCompiler.Proofs.Consultations
import AssetCompiler.Proofs.StartingOrder

/-!
Requests that have begun. What the first part of a request brings about stays, if what is done later keeps it:
it holds for every request that has begun, whether the request was settled at once or shares a flight. Unlike
what a flight means for those who wait for it, this is told of each request alone.
-/
namespace AssetCompiler.Concurrent

variable {σ : Type}

namespace Watch

/-- A watch over what has come since a world. -/
def since (W : Watch σ) (w₀ : World σ) : Watch σ :=
  { W with fine := fun w => W.fine w ∧ W.later w₀ w }

variable {W : Watch σ} {crew : Crew σ} {plan : Nat → Work σ Opening}

theorem Rules.since (rules : W.Rules crew plan) (w₀ : World σ) : (W.since w₀).Rules crew plan where
  stays := rules.stays
  goes := rules.goes
  start := rules.start
  opens w i h := by
    obtain ⟨hfine, hlater, hopens⟩ := rules.opens w i h.1
    exact ⟨⟨hfine, rules.goes _ _ _ h.2 hlater⟩, hlater, hopens⟩
  notes w journal h := by
    obtain ⟨hfine, hlater⟩ := rules.notes w journal h.1
    exact ⟨⟨hfine, rules.goes _ _ _ h.2 hlater⟩, hlater⟩
  carries w j key errand stage h hmeant := by
    obtain ⟨hfine, hlater, hnext⟩ := rules.carries w j key errand stage h.1 hmeant
    exact ⟨⟨hfine, rules.goes _ _ _ h.2 hlater⟩, hlater, hnext⟩
  keepsMeant := rules.keepsMeant
  keepsTold := rules.keepsTold
  tells w i j key errand o h := rules.tells w i j key errand o h.1

end Watch

namespace Machine

variable {W : Watch σ} {crew : Crew σ} {plan : Nat → Work σ Opening} {m m' : Machine σ}
variable {limit count : Nat} {before after : List Job} {job : Job}

theorem Guarded.since (rules : W.Rules crew plan) (h : Guarded W m) : Guarded (W.since m.world) m where
  world := ⟨h.world, rules.stays _⟩
  flights := h.flights
  requests := h.requests
  table := h.table

/-- No job takes back what is done. -/
theorem Guarded.later_perform (rules : W.Rules crew plan) (h : Guarded W m) (horder : m.InOrder W job)
    (hcancels : ∀ i, job = .cancel i → W.told m.world i (.error .cancelled)) :
    W.later m.world (m.perform crew plan job).world :=
  ((h.since rules).perform (rules.since m.world) horder hcancels).world.2

/-! Which requests have begun -/

theorem request_start_of_ne (plan : Nat → Work σ Opening) (hlisted : m.IsListed) {i j : Nat} (hj : j ≠ i) :
    (m.start plan i).request j = m.request j := by
  have hset : ∀ (m₁ : Machine σ) {m₂ : Machine σ} {r : Request}, m₁.requests = m.requests →
      m₂.requests = m₁.requests.set i r → m₂.request j = m.request j := by
    intro m₁ m₂ r hsame hrequests
    rw [hsame] at hrequests
    rw [request_congr (m := m.setRequest i r) hrequests, request_setRequest_of_ne m hj]
  have hstarts := starts plan m hlisted i
  generalize m.start plan i = m' at hstarts
  cases hstarts with
  | settled stays => exact hset (m.counted ((plan i).run m.world).2) rfl (settle_requests _ i _).1
  | busy stays => exact hset (m.counted ((plan i).run m.world).2) rfl rfl
  | shared plans boards shares =>
    cases shares with
    | landed => exact hset (m.counted ((plan i).run m.world).2) rfl (settle_requests _ i _).1
    | joined => exact hset (m.counted ((plan i).run m.world).2) rfl rfl
    | started => exact hset (m.counted ((plan i).run m.world).2) rfl rfl

theorem request_admission_of_ne (plan : Nat → Work σ Opening) (hlisted : m.IsListed) {i j : Nat}
    (hj : j ≠ i) : (m.admission plan i).request j = m.request j := by
  rcases admission_cases plan m i with ⟨permits, -, hstarts⟩ | hparks
  · rw [hstarts]
    exact request_start_of_ne (m := { m with permits := permits }) plan hlisted hj
  · rw [hparks]
    exact request_setRequest_of_ne m hj _

variable (m') in
/-- A job that goes on with a request changes this one only. -/
theorem hasBegun_of_set {i : Nat} {r : Request} (hbegan : (m.request i).hasBegun = true)
    (hrequests : m'.requests = m.requests.set i r) {j : Nat} (hj : (m'.request j).hasBegun = true) :
    (m.request j).hasBegun = true := by
  by_cases hji : j = i
  · rw [hji]
    exact hbegan
  · rwa [request_congr (m := m.setRequest i r) hrequests, request_setRequest_of_ne m hji] at hj

/-- Requests begin in the jobs that are there for it. -/
theorem hasBegun_perform (hlisted : m.IsListed) {j : Nat}
    (hj : ((m.perform crew plan job).request j).hasBegun = true) :
    (m.request j).hasBegun = true ∨ job.starts? = some j := by
  cases job with
  | begin i =>
    by_cases hji : j = i
    · exact .inr (congrArg some hji.symm)
    · exact .inl (request_admission_of_ne plan hlisted hji ▸ hj)
  | enter i =>
    by_cases hji : j = i
    · exact .inr (congrArg some hji.symm)
    · exact .inl (request_start_of_ne plan hlisted hji ▸ hj)
  | advance f => exact .inl (by rwa [← request_congr (flown_advance crew m f).requests j])
  | forget f =>
    unfold Machine.perform at hj
    simp only at hj
    split at hj
    · exact .inl hj
    · exact .inl hj
  | tick i =>
    unfold Machine.perform at hj
    simp only at hj
    split at hj
    · rename_i hstate
      exact .inl (hasBegun_of_set _ (by rw [hstate]; rfl) (settle_requests m i _).1 hj)
    · rename_i hstate
      exact .inl (hasBegun_of_set ((m.setRequest i _).push _) (by rw [hstate]; rfl) rfl hj)
    · exact .inl hj
  | deliver f i =>
    unfold Machine.perform at hj
    simp only at hj
    split at hj
    · rename_i hstate _
      split at hj
      · exact .inl (hasBegun_of_set ((m.setRequest i _).push _) (by rw [hstate]; rfl) rfl hj)
      · exact .inl hj
    · exact .inl hj
  | resume i =>
    unfold Machine.perform at hj
    simp only at hj
    split at hj
    · rename_i hstate
      exact .inl (hasBegun_of_set _ (by rw [hstate]; rfl) (settle_requests m i _).1 hj)
    · exact .inl hj
  | cancel i =>
    unfold Machine.perform at hj
    simp only at hj
    split at hj
    · rename_i hstate
      exact .inl (hasBegun_of_set ((m.setRequest i _).push _) (by rw [hstate]; rfl) rfl hj)
    · rename_i hstate
      exact .inl (hasBegun_of_set (m.setRequest i _) (by rw [hstate]; rfl) rfl hj)
    · exact .inl hj

/-- Boarding a flight writes to the journal only. -/
theorem world_share (m : Machine σ) (i : Nat) (key : FlightKey) (errand : Errand) :
    ∃ journal, (m.share i key errand).world = { m.world with journal := journal } := by
  unfold Machine.share
  split
  · rename_i f flight _
    refine ⟨⟨Log.Context.none, .joining errand.file errand.key⟩ :: m.world.journal, ?_⟩
    simp only
    cases flight.outcome? with
    | some o => exact world_settle_any _ i o
    | none => rfl
  · exact ⟨m.world.journal, rfl⟩

/-- A request starts in the world that its first part leaves. -/
theorem world_start (plan : Nat → Work σ Opening) (m : Machine σ) (i : Nat) :
    ∃ journal, (m.start plan i).world = { ((plan i).run m.world).2 with journal := journal } := by
  unfold Machine.start
  simp only [act]
  rcases (plan i).run m.world with ⟨opening, w⟩
  rcases opening with e | (o | ⟨_ | n, o⟩ | ⟨owner, errand⟩)
  · exact ⟨w.journal, world_settle_any _ i _⟩
  · exact ⟨w.journal, world_settle_any _ i _⟩
  · exact ⟨w.journal, world_settle_any _ i _⟩
  · exact ⟨w.journal, rfl⟩
  · exact world_share _ i _ errand

theorem hasBegun_park (m : Machine σ) (i : Nat) : ((m.park i).request i).hasBegun = false := by
  change (((m.requests.set i .parked)[i]?).getD .fresh).hasBegun = false
  rw [List.getElem?_set_self']
  cases m.requests[i]? <;> rfl

/-! All through a run -/

/-- Nobody is given up in an orderly run. -/
theorem IsOrderly.ne_cancel (h : m.IsOrderly limit count) (hpending : m.queue = before ++ job :: after)
    (i : Nat) : job ≠ .cancel i := by
  rintro rfl
  rcases h with ⟨-, hempty, -⟩ | hkeeps
  · rw [hempty] at hpending
    simp at hpending
  · obtain ⟨-, -, hsuits⟩ := hkeeps.attends.suits hpending rfl
    cases hsuits

/-- What the first part of a request brings about is there for those that have begun. -/
def HasOpened (P : World σ → Nat → Prop) (m : Machine σ) : Prop :=
  ∀ i, (m.request i).hasBegun = true → P m.world i

section Opening

variable {P : World σ → Nat → Prop} (hopens : ∀ w i, W.fine w → P ((plan i).run w).2 i)
variable (hlater : ∀ w w' i, W.later w w' → P w i → P w' i)

include hopens hlater

theorem Guarded.opened_start (rules : W.Rules crew plan) (h : Guarded W m) (i : Nat) :
    P (m.start plan i).world i := by
  obtain ⟨journal, hworld⟩ := world_start plan m i
  obtain ⟨hfine, -, -⟩ := rules.opens m.world i h.world
  rw [hworld]
  exact hlater _ _ i (rules.notes _ journal hfine).2 (hopens m.world i h.world)

theorem HasOpened.perform (h : m.HasOpened P) (rules : W.Rules crew plan) (hguarded : Guarded W m)
    (horder : m.InOrder W job)
    (hcancels : ∀ i, job = .cancel i → W.told m.world i (.error .cancelled)) :
    (m.perform crew plan job).HasOpened P := by
  intro j hj
  rcases hasBegun_perform hguarded.isListed hj with hbegan | hstarts
  · exact hlater _ _ j (hguarded.later_perform rules horder hcancels) (h j hbegan)
  · cases job with
    | begin i =>
      obtain rfl : i = j := Option.some.inj hstarts
      unfold Machine.perform at hj ⊢
      simp only at hj ⊢
      rcases admission_cases plan m i with ⟨permits, -, hadmitted⟩ | hparks
      · have hgranted : Guarded W { m with permits := permits } := hguarded.congr rfl rfl rfl rfl
        rw [hadmitted]
        exact hgranted.opened_start hopens hlater rules i
      · rw [hparks, hasBegun_park] at hj
        cases hj
    | enter i =>
      obtain rfl : i = j := Option.some.inj hstarts
      exact hguarded.opened_start hopens hlater rules i
    | _ => cases hstarts

/-- A run that nobody is given up in and in which anybody may be before anybody. -/
theorem Guarded.orderly_steps (rules : W.Rules crew plan) (hbefore : ∀ j i, W.before j i)
    (h : Guarded W m) (hopened : m.HasOpened P) (horderly : m.IsOrderly limit count)
    (hsteps : Relation.ReflTransGen (Step crew plan) m m') : Guarded W m' ∧ m'.HasOpened P := by
  induction hsteps with
  | refl => exact ⟨h, hopened⟩
  | @tail m₁ _ hearlier hstep ih =>
    obtain ⟨hguarded, hopened'⟩ := ih
    obtain ⟨before, job, after, hpending⟩ := hstep
    have hcancel := (horderly.steps hearlier).ne_cancel hpending
    have htaken : Guarded W { m₁ with queue := before ++ after } := hguarded.congr rfl rfl rfl rfl
    have horder : InOrder W { m₁ with queue := before ++ after } job :=
      fun i _ _ _ j _ _ => hbefore j i
    have hcancels : ∀ i, job = .cancel i → W.told m₁.world i (.error .cancelled) :=
      fun i hi => absurd hi (hcancel i)
    exact ⟨htaken.perform rules horder hcancels,
      HasOpened.perform hopens hlater hopened' rules htaken horder hcancels⟩

end Opening

end Machine
end AssetCompiler.Concurrent
