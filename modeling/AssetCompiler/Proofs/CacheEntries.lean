import AssetCompiler.Proofs.QuietWork

/-!
What caches hold. An entry that a cache holds under a key is what every look-up finds, whenever it is
asked. Storing a result makes the cache hold it, and whatever a cache holds under other keys it goes
on holding.
-/
namespace AssetCompiler

namespace Store

/-- The store has an entry under a key, whenever it is asked. -/
def Holds (v : Volume) (s : Store) (key : String) (e : Entry) : Prop :=
  ∀ now, (s.get now key).run v = (.ok (.found e), v)

theorem holds_iff {v : Volume} {s : Store} {key : String} {e : Entry} :
    s.Holds v key e ↔ ∀ now, ((s.get now key).run v).1 = .ok (.found e) := by
  constructor
  · intro h now
    rw [h now]
  · intro h now
    exact Prod.ext (h now) (run_get_volume now key s v)

theorem Holds.unique {v : Volume} {s : Store} {key : String} {e e' : Entry}
    (h : s.Holds v key e) (h' : s.Holds v key e') : e = e' := by
  have heq := (h default).symm.trans (h' default)
  exact Lookup.found.inj (Except.ok.inj (Prod.mk.inj heq).1)

variable {s : Store} {place : Place} {key : String} {e : Entry} {v v' : Volume}
variable {r : Except Failure Unit}

theorem Stores.holds (h : Stores s place key e v r v') (hr : r = .ok ()) : s.Holds v' key e :=
  h.found hr

/-- What is held under a key that is told apart stays as it is. -/
theorem Stores.holds_other (h : Stores s place key e v r v') {key' : String} {e' : Entry}
    (hcase : (∃ f, r = .error f) ∨ s.slotOf key' ≠ s.slotOf key) (hheld : s.Holds v key' e') :
    s.Holds v' key' e' := by
  rw [holds_iff] at hheld ⊢
  intro now
  rw [h.other now key' hcase, hheld now]

/-- A key that has an entry keeps one, whatever is stored. -/
theorem Stores.holds_some (h : Stores s place key e v r v') {key' : String}
    (hheld : ∃ e', s.Holds v key' e') : ∃ e', s.Holds v' key' e' := by
  obtain ⟨e', hheld⟩ := hheld
  cases r with
  | error f => exact ⟨e', h.holds_other (Or.inl ⟨f, rfl⟩) hheld⟩
  | ok u =>
    by_cases hslot : s.slotOf key' = s.slotOf key
    · refine ⟨e, fun now => ?_⟩
      rw [get_eq_of_slotOf now hslot]
      exact h.found rfl now
    · exact ⟨e', h.holds_other (Or.inr hslot) hheld⟩

end Store

variable {σ : Type}

theorem Cache.run_lookup_of_holds {c : Cache} {key : String} {e : Entry} {w : World σ}
    (h : c.store.Holds w.volume key e) : (c.lookup key).run w = (.ok (some e), w) := by
  have hget : (Work.filing (c.store.get w.now key)).run w = (.ok (.found e), w) := by
    rw [Work.run_filing, h w.now]
  unfold Cache.lookup
  rw [Action.run_bind_ok (Action.run_get w), Action.run_bind_ok hget]
  rfl

theorem Errand.run_stored?_of_holds {e : Errand} {entry : Entry} {w : World σ}
    (h : e.cache.store.Holds w.volume e.key entry) :
    (e.stored?).run w = (.ok (some entry.toArtifact),
      { w with journal := ⟨Log.Context.none, .cacheHit e.file e.cache.space⟩ :: w.journal }) := by
  unfold Errand.stored?
  rw [Action.run_bind_ok (Cache.run_lookup_of_holds h)]
  rfl

/-- A result without content is not stored. -/
theorem Errand.run_deliver_empty (e : Errand) {a : Artifact} (h : a.isPrecompiled = false)
    (w : World σ) : (e.deliver a).run w = (.ok a, w) := by
  have hkeep : (e.cache.keep e.key a).run w = (.ok (), w) := by
    unfold Cache.keep
    rw [h]
    rfl
  unfold Errand.deliver
  rw [Action.run_bind_ok hkeep]
  rfl

/-- A result with content is put into the store, whatever that comes to. -/
theorem Errand.run_deliver_put (e : Errand) {a : Artifact} (h : a.isPrecompiled = true)
    (w : World σ) :
    (e.deliver a).run w =
      (((e.cache.store.put e.key (Entry.ofArtifact w.now e.key e.cache.space a)).run w.volume).1.map
        fun _ => a,
      { w with volume := ((e.cache.store.put e.key
        (Entry.ofArtifact w.now e.key e.cache.space a)).run w.volume).2 }) := by
  have hkeep : (e.cache.keep e.key a).run w =
      (((e.cache.store.put e.key (Entry.ofArtifact w.now e.key e.cache.space a)).run w.volume).1,
      { w with volume := ((e.cache.store.put e.key
        (Entry.ofArtifact w.now e.key e.cache.space a)).run w.volume).2 }) := by
    unfold Cache.keep
    rw [if_pos h, Action.run_bind_ok (Action.run_get w), Work.run_filing]
  unfold Errand.deliver
  rw [Action.run_bind, hkeep]
  cases ((e.cache.store.put e.key (Entry.ofArtifact w.now e.key e.cache.space a)).run w.volume).1 with
  | ok u => rfl
  | error f => rfl

/-- A result with content is stored, or the errand fails. -/
theorem Errand.run_deliver (e : Errand) {a : Artifact} (h : a.isPrecompiled = true) {w : World σ}
    {place : Store.Place} (hat : e.cache.store.At w.volume place) (hnow : w.now.IsDate) :
    ∃ r v', (e.deliver a).run w = (r.map fun _ => a, { w with volume := v' }) ∧
      Store.Stores e.cache.store place e.key
        (Entry.ofArtifact w.now e.key e.cache.space a) w.volume r v' := by
  obtain ⟨r, v', hrun, hstores⟩ := Store.run_put hat e.key
    (show (Entry.ofArtifact w.now e.key e.cache.space a).createdAt.IsDate from hnow)
  refine ⟨r, v', ?_, hstores⟩
  rw [e.run_deliver_put h, hrun]

end AssetCompiler
