import AssetCompiler.Fingerprinting

/-!
How actions run. An action that fails leaves the state as it had made it, so a run is a pair of an
outcome and a state, and two actions in a row are opened by the outcome of the first. The laws hold
for actions on a volume and for actions on a world alike.
-/
namespace AssetCompiler

namespace Action

variable {S α β : Type}

@[simp] theorem run_pure (a : α) (s : S) :
    (pure a : ExceptT Failure (StateM S) α).run s = (.ok a, s) := rfl

@[simp] theorem run_throw (e : Failure) (s : S) :
    (throw e : ExceptT Failure (StateM S) α).run s = (.error e, s) := rfl

@[simp] theorem run_get (s : S) :
    (get : ExceptT Failure (StateM S) S).run s = (.ok s, s) := rfl

@[simp] theorem run_set (s s' : S) :
    (set s' : ExceptT Failure (StateM S) PUnit).run s = (.ok ⟨⟩, s') := rfl

@[simp] theorem run_modify (f : S → S) (s : S) :
    (modify f : ExceptT Failure (StateM S) PUnit).run s = (.ok ⟨⟩, f s) := rfl

theorem run_bind (x : ExceptT Failure (StateM S) α) (f : α → ExceptT Failure (StateM S) β)
    (s : S) :
    (x >>= f).run s = match x.run s with
      | (.ok a, s') => (f a).run s'
      | (.error e, s') => (.error e, s') := by
  change (match x.run s with | (r, s') => ((ExceptT.bindCont f r) s' : Id _)) = _
  cases h : x.run s with
  | mk r s' => cases r <;> rfl

theorem run_bind_ok {x : ExceptT Failure (StateM S) α} {f : α → ExceptT Failure (StateM S) β}
    {s s' : S} {a : α} (h : x.run s = (.ok a, s')) : (x >>= f).run s = (f a).run s' := by
  rw [run_bind, h]

theorem run_bind_error {x : ExceptT Failure (StateM S) α} {f : α → ExceptT Failure (StateM S) β}
    {s s' : S} {e : Failure} (h : x.run s = (.error e, s')) :
    (x >>= f).run s = (.error e, s') := by
  rw [run_bind, h]

/-- A sequence succeeds only through a success of its first part. -/
theorem of_run_bind_ok {x : ExceptT Failure (StateM S) α}
    {f : α → ExceptT Failure (StateM S) β} {s s'' : S} {b : β}
    (h : (x >>= f).run s = (.ok b, s'')) :
    ∃ a s', x.run s = (.ok a, s') ∧ (f a).run s' = (.ok b, s'') := by
  rw [run_bind] at h
  cases hx : x.run s with
  | mk r s' =>
    rw [hx] at h
    cases r with
    | ok a => exact ⟨a, s', rfl, h⟩
    | error e => cases h

end Action

@[simp] theorem Filing.run_look {α : Type} (f : Volume → Except Failure α) (v : Volume) :
    (Filing.look f).run v = (f v, v) := by
  unfold Filing.look
  change (Filing.lift (f v)).run v = _
  cases f v <;> rfl

theorem Filing.run_lift {α : Type} (r : Except Failure α) (v : Volume) : (Filing.lift r).run v = (r, v) := by
  cases r <;> rfl

/-- A change that fails is none. -/
theorem Filing.run_change (f : Volume → Except Failure Volume) (v : Volume) :
    (Filing.change f).run v = match f v with
      | .ok v' => (.ok (), v')
      | .error e => (.error e, v) := by
  unfold Filing.change
  cases h : f v with
  | ok v' =>
    rw [Action.run_bind_ok (Action.run_get v), h]
    rfl
  | error e =>
    rw [Action.run_bind_ok (Action.run_get v), h]
    rfl

theorem Filing.run_tryCatch {α : Type} (x : Filing α) (handle : Failure → Filing α)
    (v : Volume) :
    (tryCatch x handle).run v = match x.run v with
      | (.ok a, v') => (.ok a, v')
      | (.error e, v') => (handle e).run v' := by
  rw [ExceptT.run_tryCatch]
  change (StateT.bind x.run _ v : Id _) = _
  unfold StateT.bind
  cases x.run v with
  | mk r v' => cases r <;> rfl

/-- A failed action is cleaned up after, and its failure stays. -/
theorem Filing.run_onFailure {α : Type} (action : Filing α) (cleanUp : Filing Unit) (v : Volume) :
    (Filing.onFailure action cleanUp).run v = match action.run v with
      | (.ok a, v') => (.ok a, v')
      | (.error e, v') => (.error e, (cleanUp.run v').2) := by
  unfold Filing.onFailure
  rw [Filing.run_tryCatch]
  rcases action.run v with ⟨r, v'⟩
  cases r with
  | ok a => rfl
  | error e =>
    simp only
    rw [Action.run_bind, Filing.run_tryCatch]
    rcases cleanUp.run v' with ⟨r', v''⟩
    cases r' <;> rfl

namespace Work

variable {σ α : Type}

@[simp] theorem run_note (c : Log.Context) (e : Log.Event) (w : World σ) :
    (note c e).run w = (.ok (), { w with journal := ⟨c, e⟩ :: w.journal }) := rfl

@[simp] theorem run_report (e : Log.Event) (w : World σ) :
    (report e).run w = (.ok (), { w with journal := ⟨Log.Context.none, e⟩ :: w.journal }) := rfl

@[simp] theorem run_filing (action : Filing α) (w : World σ) :
    (filing action).run w =
      ((action.run w.volume).1, { w with volume := (action.run w.volume).2 }) := rfl

@[simp] theorem run_look (f : Volume → Except Failure α) (w : World σ) :
    (look f).run w = (f w.volume, w) := by
  unfold look
  rw [run_filing, Filing.run_look]

@[simp] theorem run_lift (r : Except Failure α) (w : World σ) :
    (lift r : Work σ α).run w = (r, w) := by
  cases r <;> rfl

@[simp] theorem run_outcome (x : Work σ α) (w : World σ) :
    (outcome x).run w = (.ok (x.run w).1, (x.run w).2) := rfl

/-- The value of an action that succeeds, and the world after it. -/
def left [Inhabited α] (x : Work σ α) (w : World σ) : α × World σ :=
  ((x.run w).1.toOption.getD default, (x.run w).2)

/-- An action that succeeds is run to its value. -/
theorem run_eq_left [Inhabited α] {x : Work σ α} {w : World σ}
    (h : (x.run w).1.isOk = true) : x.run w = (.ok (left x w).1, (left x w).2) := by
  unfold left
  rcases hrun : x.run w with ⟨r, w'⟩
  rw [hrun] at h
  cases r with
  | error e => cases h
  | ok a => rfl

end Work

/-- A sequence of results succeeds only through a success of its first part. -/
theorem of_bind_eq_ok {α β ε : Type} {r : Except ε α} {f : α → Except ε β} {b : β}
    (h : (r >>= f) = .ok b) : ∃ a, r = .ok a ∧ f a = .ok b := by
  cases r with
  | error e => cases h
  | ok a => exact ⟨a, rfl, h⟩

theorem eq_ok_of_toOption {α ε : Type} {r : Except ε α} {a : α} (h : r.toOption = some a) :
    r = .ok a := by
  cases r with
  | error e => cases h
  | ok b => exact congrArg Except.ok (Option.some.inj h)

end AssetCompiler
