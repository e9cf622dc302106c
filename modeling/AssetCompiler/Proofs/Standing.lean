import AssetCompiler.Proofs.Boarding

/-!
How requests stand. A request that has boarded a flight is tended to until it is settled: while the flight
is under way it is listed there, and once the flight has landed it is told the outcome. What stands in the
table is still under way or about to be removed.
-/
namespace AssetCompiler.Concurrent.Machine

variable {σ : Type}

/-- What a request is settled with after it has boarded a flight: the outcome of the flight, unless it
was given up. -/
def Gets (m : Machine σ) (left : List Nat) (f j : Nat) (o : Except Failure Artifact) : Prop :=
  (∃ flight, m.flights[f]? = some flight ∧ flight.outcome? = some o) ∨
    (o = .error .cancelled ∧ j ∈ left)

/-- How a request stands, with what is due for it. `aboard` lists who has boarded which flight, `left`
who was given up. -/
inductive Status (m : Machine σ) (aboard : List (Nat × Nat)) (left : List Nat) (j : Nat) : Prop
  | fresh (state : m.request j = .fresh) (due : m.Due (.begin j)) (ashore : ∀ f, (j, f) ∉ aboard)
  | busy {n : Nat} {o : Except Failure Artifact} (state : m.request j = .busy n o)
      (due : m.Due (.tick j)) (ashore : ∀ f, (j, f) ∉ aboard)
  | alone {o : Except Failure Artifact} (state : m.request j = .settled o)
      (ashore : ∀ f, (j, f) ∉ aboard)
  | waiting {f : Nat} {flight : Flight} (state : m.request j = .waiting f)
      (only : ∀ g, (j, g) ∈ aboard ↔ g = f) (found : m.flights[f]? = some flight)
      (tended : (flight.outcome? = none ∧ j ∈ flight.waiters) ∨ m.Due (.deliver f j))
  | informed {f : Nat} {o : Except Failure Artifact} (state : m.request j = .informed o)
      (only : ∀ g, (j, g) ∈ aboard ↔ g = f) (due : m.Due (.resume j)) (gets : m.Gets left f j o)
  | settled {f : Nat} {o : Except Failure Artifact} (state : m.request j = .settled o)
      (only : ∀ g, (j, g) ∈ aboard ↔ g = f) (gets : m.Gets left f j o)

theorem Gets.goes {m m' : Machine σ} {left left' : List Nat} {f j : Nat}
    {o : Except Failure Artifact} (h : m.Gets left f j o) (hgoes : Goes m m')
    (hleft : j ∈ left → j ∈ left') : m'.Gets left' f j o := by
  rcases h with ⟨flight, hf, ho⟩ | ⟨ho, hj⟩
  · obtain ⟨flight', hf', _, hkeeps, _⟩ := hgoes.flights f flight hf
    exact .inl ⟨flight', hf', hkeeps o ho⟩
  · exact .inr ⟨ho, hleft hj⟩

/-- A request that a step leaves alone stands as it stood. -/
theorem Status.goes {m m' : Machine σ} {aboard aboard' : List (Nat × Nat)} {left left' : List Nat}
    {j : Nat} (h : m.Status aboard left j) (hgoes : Goes m m') (hsame : m'.request j = m.request j)
    (haboard : ∀ f, (j, f) ∈ aboard' ↔ (j, f) ∈ aboard) (hleft : j ∈ left → j ∈ left') :
    m'.Status aboard' left' j := by
  cases h with
  | fresh state due ashore =>
    exact .fresh (hsame.trans state) (hgoes.due _ due) fun f h => ashore f ((haboard f).mp h)
  | busy state due ashore =>
    exact .busy (hsame.trans state) (hgoes.due _ due) fun f h => ashore f ((haboard f).mp h)
  | alone state ashore =>
    exact .alone (hsame.trans state) fun f h => ashore f ((haboard f).mp h)
  | @waiting f flight state only found tended =>
    obtain ⟨flight', hf', _, hkeeps, hwaits⟩ := hgoes.flights f flight found
    refine .waiting (hsame.trans state) (fun g => (haboard g).trans (only g)) hf' ?_
    rcases tended with ⟨hopen, hj⟩ | hdue
    · rcases hwaits hopen with ⟨hopen', hall⟩ | ⟨_, htold⟩
      · exact .inl ⟨hopen', hall j hj⟩
      · exact .inr (htold j hj)
    · exact .inr (hgoes.due _ hdue)
  | informed state only due gets =>
    exact .informed (hsame.trans state) (fun g => (haboard g).trans (only g)) (hgoes.due _ due)
      (gets.goes hgoes hleft)
  | settled state only gets =>
    exact .settled (hsame.trans state) (fun g => (haboard g).trans (only g))
      (gets.goes hgoes hleft)

section Standing

variable {m : Machine σ} {aboard : List (Nat × Nat)} {left : List Nat} {j : Nat}

/-- A request that has not got beyond its beginning has boarded nothing. -/
theorem Status.ashore (h : m.Status aboard left j)
    (hstate : m.request j = .fresh ∨ ∃ n o, m.request j = .busy n o) (f : Nat) :
    (j, f) ∉ aboard := by
  have hno : ∀ r, m.request j = r → r = .fresh ∨ ∃ n o, r = .busy n o := by
    rintro r rfl
    exact hstate
  cases h with
  | fresh _ _ ashore => exact ashore f
  | busy _ _ ashore => exact ashore f
  | alone _ ashore => exact ashore f
  | waiting state => rcases hno _ state with h | ⟨n, o, h⟩ <;> cases h
  | informed state => rcases hno _ state with h | ⟨n, o, h⟩ <;> cases h
  | settled state => rcases hno _ state with h | ⟨n, o, h⟩ <;> cases h

theorem Status.of_waiting {f : Nat} (h : m.Status aboard left j) (hstate : m.request j = .waiting f) :
    (∀ g, (j, g) ∈ aboard ↔ g = f) ∧ ∃ flight, m.flights[f]? = some flight := by
  cases h with
  | waiting state only found =>
    cases state.symm.trans hstate
    exact ⟨only, _, found⟩
  | fresh state => cases state.symm.trans hstate
  | busy state => cases state.symm.trans hstate
  | alone state => cases state.symm.trans hstate
  | informed state => cases state.symm.trans hstate
  | settled state => cases state.symm.trans hstate

theorem Status.of_informed {o : Except Failure Artifact} (h : m.Status aboard left j)
    (hstate : m.request j = .informed o) :
    ∃ f, (∀ g, (j, g) ∈ aboard ↔ g = f) ∧ m.Due (.resume j) ∧ m.Gets left f j o := by
  cases h with
  | informed state only due gets =>
    cases state.symm.trans hstate
    exact ⟨_, only, due, gets⟩
  | fresh state => cases state.symm.trans hstate
  | busy state => cases state.symm.trans hstate
  | alone state => cases state.symm.trans hstate
  | waiting state => cases state.symm.trans hstate
  | settled state => cases state.symm.trans hstate

end Standing

/-- A job that a request does not wait for is of no consequence to it. -/
def Idle (m : Machine σ) : Job → Prop
  | .begin i => m.request i ≠ .fresh
  | .tick i => ∀ n o, m.request i ≠ .busy n o
  | .deliver f i => m.request i ≠ .waiting f
  | .resume i => ∀ o, m.request i ≠ .informed o
  | _ => True

/-- Taking a job from the queue changes nothing for a request that does not wait for it. -/
theorem Status.taken {m : Machine σ} {aboard : List (Nat × Nat)} {left : List Nat} {j : Nat}
    (h : m.Status aboard left j) {before after : List Job} {job : Job}
    (hpending : m.queue = before ++ job :: after)
    (hidle : job.request? = some j → m.Idle job) :
    Status { m with queue := before ++ after } aboard left j := by
  cases h with
  | fresh state due ashore =>
    refine .fresh state (due.taken hpending ?_) ashore
    rintro rfl
    exact hidle rfl state
  | busy state due ashore =>
    refine .busy state (due.taken hpending ?_) ashore
    rintro rfl
    exact hidle rfl _ _ state
  | alone state ashore => exact .alone state ashore
  | waiting state only found tended =>
    refine .waiting state only found (tended.imp id fun due => due.taken hpending ?_)
    rintro rfl
    exact hidle rfl state
  | informed state only due gets =>
    refine .informed state only (due.taken hpending ?_) gets
    rintro rfl
    exact hidle rfl _ state
  | settled state only gets => exact .settled state only gets

/-- What is tended to in every state of a run without permits. -/
structure Tended (m : Machine σ) (aboard : List (Nat × Nat)) (left : List Nat) : Prop where
  free : m.permits = none
  enters : ∀ i, .enter i ∉ m.queue
  begins : ∀ i, .begin i ∈ m.queue → m.request i = .fresh
  once : ∀ i, m.queue.count (.begin i) ≤ 1
  status : ∀ j < m.requests.length, m.Status aboard left j
  delivers : ∀ f j, .deliver f j ∈ m.queue → ∃ flight, m.flights[f]? = some flight ∧
    flight.outcome? ≠ none
  carried : ∀ (f : Nat) (flight : Flight), m.flights[f]? = some flight → flight.outcome? = none →
    m.Due (.advance f)
  entries : ∀ key f, m.table.find? key = some f → ∃ flight, m.flights[f]? = some flight ∧
    flight.key = key ∧ (flight.outcome? = none ∨ m.Due (.forget f))

namespace Tended

variable {crew : Crew σ} {plan : Nat → Work σ Opening} {m : Machine σ}
variable {aboard : List (Nat × Nat)} {left : List Nat} {before after : List Job} {job : Job}

theorem isListed (h : m.Tended aboard left) : m.IsListed := by
  intro key f hf
  obtain ⟨flight, hflight, _⟩ := h.entries key f hf
  exact ⟨flight, hflight⟩

end Tended

theorem mem_boards_iff {aboard : List (Nat × Nat)} {i f : Nat} (h : ∀ g, (i, g) ∉ aboard) (g : Nat) :
    (i, g) ∈ aboard ++ [(i, f)] ↔ g = f := by
  rw [List.mem_append, List.mem_singleton]
  constructor
  · intro hmem
    exact (Prod.mk.inj (hmem.resolve_left (h g))).2
  · rintro rfl
    exact .inr rfl

section Standing

variable {plan : Nat → Work σ Opening} {m m' : Machine σ} {i f : Nat} {key : FlightKey}
variable {errand : Errand} {aboard : List (Nat × Nat)} {left : List Nat}

/-- How a request stands that has boarded a flight. -/
theorem Shares.status (h : Shares m i key errand f m') (hfree : m.permits = none)
    (hi : i < m.requests.length) (hashore : ∀ g, (i, g) ∉ aboard) :
    m'.Status (aboard ++ [(i, f)]) left i := by
  have hgoes := h.goes hfree
  cases h with
  | @landed flight o listed found outcome =>
    obtain ⟨flight', hf', _, hkeeps, _⟩ := hgoes.flights f flight found
    exact .settled (request_settle_self _ o hfree hi) (mem_boards_iff hashore)
      (.inl ⟨flight', hf', hkeeps o outcome⟩)
  | @joined flight listed found opened =>
    obtain ⟨hlt, _⟩ := List.getElem?_eq_some_iff.mp found
    refine .waiting (request_setRequest_self hi _) (mem_boards_iff hashore)
      (List.getElem?_set_self hlt) (.inl ⟨opened, ?_⟩)
    exact List.mem_append_right _ (List.mem_singleton_self i)
  | started free new =>
    subst new
    exact .waiting (request_setRequest_self hi _) (mem_boards_iff hashore)
      List.getElem?_concat_length (.inl ⟨rfl, List.mem_singleton_self i⟩)

/-- How a request stands that has begun. -/
theorem Starts.status (h : Starts plan m i m') (hfree : m.permits = none)
    (hi : i < m.requests.length) (hashore : ∀ g, (i, g) ∉ aboard) :
    m'.Status (aboard ++ (m.boards? plan (.begin i)).toList) left i := by
  cases h with
  | @settled o stays =>
    rw [stays, Option.toList_none, List.append_nil]
    exact .alone (request_settle_self _ o hfree hi) hashore
  | busy stays =>
    rw [stays, Option.toList_none, List.append_nil]
    refine .busy (request_setRequest_self hi _) (.inr ?_) hashore
    exact List.mem_append_right _ (List.mem_singleton_self _)
  | shared plans boards shares =>
    rw [boards]
    exact shares.status hfree hi hashore

end Standing

namespace Tended

variable {crew : Crew σ} {plan : Nat → Work σ Opening} {m : Machine σ}
variable {aboard : List (Nat × Nat)} {left : List Nat} {before after : List Job} {job : Job}

/-- How the request of a job stands after it. -/
theorem status_own (h : m.Tended aboard left) (hpending : m.queue = before ++ job :: after) {i : Nat}
    (hi : i < m.requests.length) (hjob : job.request? = some i) :
    Status ({ m with queue := before ++ after }.perform crew plan job)
      (aboard ++ (boards? plan { m with queue := before ++ after } job).toList)
      (left ++ (givesUp? job).toList) i := by
  have hmem : job ∈ m.queue := by
    rw [hpending]
    exact List.mem_append_right _ (List.mem_cons_self ..)
  have hstatus := h.status i hi
  have hleft : i ∈ left → i ∈ left ++ (givesUp? job).toList := List.mem_append_left _
  have htaken := fun hidle => hstatus.taken hpending fun _ => hidle
  generalize hm : ({ m with queue := before ++ after } : Machine σ) = m₁ at htaken ⊢
  have hrequest : ∀ j, m₁.request j = m.request j := by
    rintro j
    rw [← hm]
    rfl
  have hflights : m₁.flights = m.flights := by
    rw [← hm]
  have hfree : m₁.permits = none := by
    rw [← hm]
    exact h.free
  have hi₁ : i < m₁.requests.length := by
    rw [← hm]
    exact hi
  cases job with
  | begin k =>
    cases hjob
    have hlisted : m₁.IsListed := by
      rw [← hm]
      exact h.isListed
    rw [perform_begin hfree]
    simp only [givesUp?, Option.toList_none, List.append_nil]
    exact (starts plan m₁ hlisted i).status hfree hi₁ (hstatus.ashore (.inl (h.begins i hmem)))
  | enter k => exact absurd hmem (h.enters k)
  | tick k =>
    cases hjob
    simp only [boards?, givesUp?, Option.toList_none, List.append_nil, Machine.perform]
    split
    · rename_i o hbusy
      have hashore := hstatus.ashore (.inr ⟨_, _, (hrequest i).symm.trans hbusy⟩)
      exact .alone (request_settle_self _ o hfree hi₁) hashore
    · rename_i n o hbusy
      have hashore := hstatus.ashore (.inr ⟨_, _, (hrequest i).symm.trans hbusy⟩)
      refine .busy (request_setRequest_self hi₁ _) (.inr ?_) hashore
      exact List.mem_append_right _ (List.mem_singleton_self _)
    · rename_i hzero hsucc
      refine htaken fun n o hbusy => ?_
      rw [← hrequest] at hbusy
      cases n with
      | zero => exact hzero o hbusy
      | succ n => exact hsucc n o hbusy
  | advance f => cases hjob
  | forget f => cases hjob
  | deliver f k =>
    cases hjob
    simp only [boards?, givesUp?, Option.toList_none, List.append_nil, Machine.perform]
    by_cases hwaiting : m.request i = .waiting f
    · obtain ⟨flight, hf, hlanded⟩ := h.delivers f i hmem
      obtain ⟨o, ho⟩ := Option.ne_none_iff_exists'.mp hlanded
      obtain ⟨honly, _⟩ := hstatus.of_waiting hwaiting
      simp only [hrequest, hwaiting, hflights, hf, Option.bind_some, ho, if_true]
      refine .informed (request_setRequest_self hi₁ _) honly (.inr ?_) (.inl ⟨flight, ?_, ho⟩)
      · exact List.mem_append_right _ (List.mem_singleton_self _)
      · exact hflights ▸ hf
    · split
      · rename_i f' o hstate _
        have hne : f' ≠ f := by
          rintro rfl
          exact hwaiting ((hrequest i).symm.trans hstate)
        rw [if_neg hne]
        exact htaken hwaiting
      · exact htaken hwaiting
  | resume k =>
    cases hjob
    simp only [boards?, givesUp?, Option.toList_none, List.append_nil, Machine.perform]
    split
    · rename_i o hinformed
      obtain ⟨f, honly, _, hgets⟩ := hstatus.of_informed ((hrequest i).symm.trans hinformed)
      have hgets' : m₁.Gets left f i o := by
        unfold Gets
        rw [hflights]
        exact hgets
      exact .settled (request_settle_self _ o hfree hi₁) honly
        (hgets'.goes (Goes.settle m₁ hfree i o) id)
    · rename_i hstate
      exact htaken fun o hinformed => hstate o ((hrequest i).trans hinformed)
  | cancel k =>
    cases hjob
    simp only [boards?, givesUp?, Option.toList_none, List.append_nil, Machine.perform]
    have hgivenUp : i ∈ left ++ (some i).toList :=
      List.mem_append_right _ (List.mem_singleton_self i)
    split
    · rename_i f hwaiting
      obtain ⟨honly, _⟩ := hstatus.of_waiting ((hrequest i).symm.trans hwaiting)
      refine .informed (request_setRequest_self hi₁ _) honly (.inr ?_) (.inr ⟨rfl, hgivenUp⟩)
      exact List.mem_append_right _ (List.mem_singleton_self _)
    · rename_i o hinformed
      obtain ⟨f, honly, hdue, _⟩ := hstatus.of_informed ((hrequest i).symm.trans hinformed)
      have hdue' : m₁.Due (.resume i) := hm ▸ hdue.taken hpending (fun heq => by cases heq)
      exact .informed (request_setRequest_self hi₁ _) honly hdue' (.inr ⟨rfl, hgivenUp⟩)
    · exact (htaken trivial).goes (Goes.refl m₁) rfl (fun _ => Iff.rfl) (List.mem_append_left _)

/-- An entry of the table stands for a flight that is under way or is to be removed. -/
theorem entries_perform (h : m.Tended aboard left) (hpending : m.queue = before ++ job :: after)
    (key : FlightKey) (f : Nat)
    (hf : ({ m with queue := before ++ after }.perform crew plan job).table.find? key = some f) :
    ∃ flight, ({ m with queue := before ++ after }.perform crew plan job).flights[f]? = some flight ∧
      flight.key = key ∧ (flight.outcome? = none ∨
        Due ({ m with queue := before ++ after }.perform crew plan job) (.forget f)) := by
  have hfree : Machine.permits { m with queue := before ++ after } = none := h.free
  have hlisted : IsListed { m with queue := before ++ after } := h.isListed
  have hgoes : Goes { m with queue := before ++ after }
      ({ m with queue := before ++ after }.perform crew plan job) := Goes.perform hfree hlisted job
  have hold : m.table.find? key = some f → job ≠ .forget f →
      ∃ flight, ({ m with queue := before ++ after }.perform crew plan job).flights[f]? = some flight ∧
        flight.key = key ∧ (flight.outcome? = none ∨
          Due ({ m with queue := before ++ after }.perform crew plan job) (.forget f)) := by
    intro hf hne
    obtain ⟨flight, hflight, hkey, hstands⟩ := h.entries key f hf
    obtain ⟨flight', hflight', hkey', _, hwaits⟩ := hgoes.flights f flight hflight
    refine ⟨flight', hflight', hkey'.trans hkey, ?_⟩
    rcases hstands with hopen | hdue
    · exact (hwaits hopen).imp And.left And.left
    · exact .inr (hgoes.due _ (hdue.taken hpending hne.symm))
  by_cases hjob : ∃ g, job = .forget g
  · obtain ⟨g, rfl⟩ := hjob
    have htable : m.table.find? key = some f ∧ g ≠ f := by
      simp only [Machine.perform] at hf
      split at hf
      · rename_i flight hflight
        change (m.table.erase flight.key).find? key = some f at hf
        rw [Keyed.find?_erase] at hf
        split at hf
        · cases hf
        · rename_i hkey
          refine ⟨hf, ?_⟩
          rintro rfl
          obtain ⟨flight', hflight', hkey', _⟩ := h.entries key g hf
          cases hflight.symm.trans hflight'
          exact hkey hkey'.symm
      · rename_i hnone
        obtain ⟨flight, hflight, _⟩ := h.entries key f hf
        refine ⟨hf, ?_⟩
        rintro rfl
        cases hnone.symm.trans hflight
    exact hold htable.1 (by simpa using htable.2)
  · have hother : ∀ g, job ≠ .forget g := fun g hg => hjob ⟨g, hg⟩
    have henters : Enters { m with queue := before ++ after }
        ({ m with queue := before ++ after }.perform crew plan job) :=
      enters_perform hfree hlisted hother
    rcases henters with htable | ⟨flight, hopen, hflight, htable⟩
    · rw [htable] at hf
      exact hold hf (hother f)
    · rw [htable, Keyed.find?_set] at hf
      split at hf
      · rename_i hkey
        cases hf
        exact ⟨flight, hflight, hkey.symm, .inl hopen⟩
      · exact hold hf (hother f)

theorem request?_of_boards? {job : Job} {j f : Nat} (h : m.boards? plan job = some (j, f)) :
    job.request? = some j := by
  have hfirst : ∀ {i : Nat} {opening : Except Failure Opening},
      m.boarding i opening = some (j, f) → i = j := by
    intro i opening hboards
    unfold boarding at hboards
    split at hboards
    · cases hboards
      rfl
    · cases hboards
  cases job with
  | begin i => exact congrArg some (hfirst h)
  | enter i => exact congrArg some (hfirst h)
  | _ => cases h

/-- Any pending job may be performed. -/
theorem perform (h : m.Tended aboard left) (hpending : m.queue = before ++ job :: after) :
    Tended ({ m with queue := before ++ after }.perform crew plan job)
      (aboard ++ (boards? plan { m with queue := before ++ after } job).toList)
      (left ++ (givesUp? job).toList) := by
  have hfree : Machine.permits { m with queue := before ++ after } = none := h.free
  have hlisted : IsListed { m with queue := before ++ after } := h.isListed
  have hgoes : Goes { m with queue := before ++ after }
      ({ m with queue := before ++ after }.perform crew plan job) := Goes.perform hfree hlisted job
  have hqueue : (before ++ after).Sublist m.queue := by
    rw [hpending]
    exact (List.sublist_cons_self job after).append_left before
  constructor
  · exact hgoes.permits.trans h.free
  · exact fun i hi => h.enters i (hqueue.subset (hgoes.enters i hi))
  · intro i hi
    have hcount := Nat.lt_of_lt_of_le (List.count_pos_iff.mpr hi) (hgoes.begins i)
    have hstill : .begin i ∈ before ++ after := List.count_pos_iff.mp hcount
    have hfresh := h.begins i (hqueue.subset hstill)
    by_cases hjob : job.request? = some i
    · refine request_perform_of_fresh hfresh hjob ?_ ?_
      · rintro rfl
        have honce := h.once i
        rw [hpending, List.count_append, List.count_cons_self] at honce
        change 0 < (before ++ after).count _ at hcount
        rw [List.count_append] at hcount
        omega
      · rintro rfl
        refine h.enters i ?_
        rw [hpending]
        exact List.mem_append_right _ (List.mem_cons_self ..)
    · exact (request_perform hfree hlisted hjob).trans hfresh
  · exact fun i => Nat.le_trans (hgoes.begins i) (Nat.le_trans (hqueue.count_le _) (h.once i))
  · intro j hj
    rw [hgoes.length] at hj
    by_cases hjob : job.request? = some j
    · exact h.status_own hpending hj hjob
    · have htaken := (h.status j hj).taken hpending fun hsame => absurd hsame hjob
      refine htaken.goes hgoes (request_perform hfree hlisted hjob) ?_
        (List.mem_append_left _)
      intro f
      rw [List.mem_append]
      refine ⟨fun hmem => hmem.resolve_right fun hboards => hjob ?_, .inl⟩
      exact request?_of_boards? (Option.mem_toList.mp hboards)
  · intro f j hmem
    rcases hgoes.delivers f j hmem with hmem' | hlanded
    · obtain ⟨flight, hf, hlanded⟩ := h.delivers f j (hqueue.subset hmem')
      obtain ⟨o, ho⟩ := Option.ne_none_iff_exists'.mp hlanded
      obtain ⟨flight', hf', _, hkeeps, _⟩ := hgoes.flights f flight hf
      refine ⟨flight', hf', ?_⟩
      rw [hkeeps o ho]
      exact nofun
    · exact hlanded
  · intro f flight' hf' hopen'
    rcases hgoes.opened f flight' hf' hopen' with ⟨flight, hf, hopen⟩ | hdue
    · by_cases hjob : job = .advance f
      · subst hjob
        exact (flown_advance crew _ f).carried flight' hf' hopen'
      · exact hgoes.due _ ((h.carried f flight hf hopen).taken hpending (Ne.symm hjob))
    · exact hdue
  · exact h.entries_perform hpending

end Tended

end AssetCompiler.Concurrent.Machine
