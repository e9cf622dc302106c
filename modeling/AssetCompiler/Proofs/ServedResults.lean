import AssetCompiler.Proofs.CacheEntries
import AssetCompiler.Proofs.LegalReduction

/-!
What stores serve. A store serves a result under a key if it finds an entry with the result there,
whenever it is asked. An errand serves its result from then on, and a result that is served stays.
-/
namespace AssetCompiler

namespace Store

/-- A store finds a result under a key, whenever it is asked. -/
def Serves (v : Volume) (s : Store) (key : String) (a : Artifact) : Prop :=
  ∀ now, ∃ e, (s.get now key).run v = (.ok (.found e), v) ∧ e.toArtifact = a

theorem Serves.unique {v : Volume} {s : Store} {key : String} {a b : Artifact}
    (h : s.Serves v key a) (h' : s.Serves v key b) : a = b := by
  obtain ⟨e, hget, rfl⟩ := h default
  obtain ⟨e', hget', rfl⟩ := h' default
  rw [hget] at hget'
  cases hget'
  rfl

/-- The time of creation is the only part of an entry that the time of reading can enter. -/
theorem readFields_at {now : Instant} {fields : List (String × Json)} {e : Entry}
    (h : Entry.readFields now fields = .ok e) (now' : Instant) :
    ∃ e', Entry.readFields now' fields = .ok e' ∧ e'.toArtifact = e.toArtifact := by
  obtain ⟨f₅, createdAt, h₅, hcreated, rfl⟩ := Reading.apply_eq_ok.mp h
  obtain ⟨f₄, dependencies, h₄, _, rfl⟩ := Reading.apply_eq_ok.mp h₅
  obtain ⟨f₃, mediaType, h₃, _, rfl⟩ := Reading.apply_eq_ok.mp h₄
  obtain ⟨f₂, code, h₂, _, rfl⟩ := Reading.apply_eq_ok.mp h₃
  obtain ⟨f₁, space, h₁, _, rfl⟩ := Reading.apply_eq_ok.mp h₂
  obtain ⟨f₀, key, h₀, _, rfl⟩ := Reading.apply_eq_ok.mp h₁
  cases h₀
  obtain ⟨createdAt', hcreated'⟩ : ∃ t, Schema.optional "created_at" now' Schema.time fields =
      .ok t := by
    unfold Schema.optional at hcreated ⊢
    split at hcreated
    · exact ⟨createdAt, hcreated⟩
    · exact ⟨now', rfl⟩
  refine ⟨⟨key, space, code, mediaType, dependencies, createdAt'⟩, ?_, rfl⟩
  exact Reading.apply_eq_ok.mpr ⟨_, createdAt', h₅, hcreated', rfl⟩

theorem readEntry_at {now : Instant} {text : List Char} {e : Entry}
    (h : readEntry now text = .ok (.found e)) (now' : Instant) :
    ∃ e', readEntry now' text = .ok (.found e') ∧ e'.toArtifact = e.toArtifact := by
  unfold readEntry at h ⊢
  cases hjson : Json.read? text with
  | none =>
    rw [hjson] at h
    cases h
  | some v =>
    rw [hjson] at h
    cases v with
    | obj fields =>
      simp only at h ⊢
      cases hread : (Entry.readFields now fields).checked Entry.modelName with
      | error f =>
        rw [hread] at h
        cases h
      | ok e₁ =>
        rw [hread] at h
        cases h
        obtain ⟨e', hread', heq⟩ := readFields_at (Reading.checked_eq_ok.mp hread) now'
        exact ⟨e', by rw [Reading.checked_eq_ok.mpr hread'], heq⟩
    | _ => cases h

/-- A look-up finds nothing, for a reason that has no time, or reads a text at its time. -/
theorem get_cases (s : Store) (key : String) (v : Volume) :
    (∃ r, (∀ e, r ≠ .ok (.found e)) ∧ ∀ now, ((s.get now key).run v).1 = r) ∨
      ∃ text, ∀ now, ((s.get now key).run v).1 = readEntry now text := by
  cases s with
  | folder root space =>
    simp only [get, getFile, Filing.run_look, bind, Except.bind]
    rcases v.isThere (entryPath root key) with f | (_ | _)
    · exact .inl ⟨.error f, by simp, fun _ => rfl⟩
    · exact .inl ⟨.ok .absent, by simp, fun _ => rfl⟩
    · simp only [if_true, readFile]
      cases v.readText (entryPath root key) with
      | ok text => exact .inr ⟨text, fun _ => rfl⟩
      | error f =>
        cases f with
        | file issue path => exact .inl ⟨.ok (.unreadable _), by simp, fun _ => rfl⟩
        | _ => exact .inl ⟨.error _, by simp, fun _ => rfl⟩
  | table database space isOpen =>
    cases isOpen with
    | false => exact .inl ⟨.error (.database .closed), by simp, fun _ => rfl⟩
    | true =>
      simp only [run_get_table]
      cases (rowsOf v database).find? (isRow space key) with
      | none => exact .inl ⟨.ok .absent, by simp, fun _ => rfl⟩
      | some row => exact .inr ⟨_, fun _ => rfl⟩

/-- An entry is found in a file that can be read. -/
theorem readText_of_found {now : Instant} {root : Path} {key : String} {v : Volume} {e : Entry}
    (h : ((getFile now root key).run v).1 = .ok (.found e)) :
    ∃ text, v.readText (entryPath root key) = .ok text ∧ readEntry now text = .ok (.found e) := by
  simp only [getFile, Filing.run_look, bind, Except.bind] at h
  rcases hthere : v.isThere (entryPath root key) with f | (_ | _)
  · simp [hthere] at h
  · simp [hthere, pure, Except.pure] at h
  · simp only [hthere, if_true, readFile] at h
    cases hread : v.readText (entryPath root key) with
    | ok text => exact ⟨text, rfl, by simpa [hread] using h⟩
    | error f => cases f <;> simp [hread] at h

/-- What is found once is served. -/
theorem serves_of_found {now : Instant} {s : Store} {key : String} {v : Volume} {e : Entry}
    (h : ((s.get now key).run v).1 = .ok (.found e)) : s.Serves v key e.toArtifact := by
  intro now'
  obtain ⟨r, hno, hget⟩ | ⟨text, hget⟩ := s.get_cases key v
  · exact absurd ((hget now).symm.trans h) (hno e)
  · obtain ⟨e', hentry, hsame⟩ := readEntry_at ((hget now).symm.trans h) now'
    exact ⟨e', Prod.ext ((hget now').trans hentry) (run_get_volume now' key s v), hsame⟩

theorem Serves.congr {v v' : Volume} {s s' : Store} {key key' : String} {a : Artifact}
    (h : s.Serves v key a)
    (hsame : ∀ now, ((s'.get now key').run v').1 = ((s.get now key).run v).1) :
    s'.Serves v' key' a := by
  obtain ⟨e, hget, rfl⟩ := h default
  exact serves_of_found ((hsame default).trans (congrArg Prod.fst hget))

/-- A store finds nothing that it could serve under a key. -/
def Lacks (v : Volume) (s : Store) (key : String) : Prop :=
  ∀ now, ((s.get now key).run v).1 = .ok .absent ∨
    ∃ cause, ((s.get now key).run v).1 = .ok (.unreadable cause)

theorem Lacks.congr {v v' : Volume} {s s' : Store} {key key' : String} (h : s.Lacks v key)
    (hsame : ∀ now, ((s'.get now key').run v').1 = ((s.get now key).run v).1) :
    s'.Lacks v' key' := by
  intro now
  rw [hsame]
  exact h now

/-- A look-up fails, or not, whenever it is made. -/
theorem get_error_at {now : Instant} {s : Store} {key : String} {v : Volume} {f : Failure}
    (h : ((s.get now key).run v).1 = .error f) (now' : Instant) :
    ((s.get now' key).run v).1 = .error f := by
  obtain ⟨r, -, hget⟩ | ⟨text, hget⟩ := s.get_cases key v
  · rw [hget] at h ⊢
    exact h
  · rw [hget] at h ⊢
    unfold readEntry at h ⊢
    split at h
    · cases h
    · split at h <;> cases h
    · exact h

/-- A look-up in vain is in vain whenever it is made. -/
theorem lacks_of_get (now : Instant) {s : Store} {key : String} {v : Volume}
    (h : ((s.get now key).run v).1 = .ok .absent ∨
      ∃ cause, ((s.get now key).run v).1 = .ok (.unreadable cause)) : s.Lacks v key := by
  intro now'
  have hno : ∀ r, ((s.get now key).run v).1 = r → (∀ f, r ≠ .error f) ∧ ∀ e, r ≠ .ok (.found e) := by
    rintro r rfl
    rcases h with h | ⟨cause, h⟩
    · exact ⟨by rw [h]; exact nofun, by rw [h]; exact nofun⟩
    · exact ⟨by rw [h]; exact nofun, by rw [h]; exact nofun⟩
  cases hget : ((s.get now' key).run v).1 with
  | error f => exact absurd rfl ((hno _ (get_error_at hget now)).1 f)
  | ok answer =>
    cases answer with
    | absent => exact .inl rfl
    | unreadable cause => exact .inr ⟨cause, rfl⟩
    | found e =>
      obtain ⟨e', hget', _⟩ := serves_of_found hget now
      exact absurd rfl ((hno _ (congrArg Prod.fst hget')).2 e')

theorem Stores.serves {s : Store} {place : Place} {key : String} {e : Entry} {v v' : Volume}
    {r : Except Failure Unit} (h : Stores s place key e v r v') (hr : r = .ok ()) :
    s.Serves v' key e.toArtifact :=
  fun now => ⟨e, h.found hr now, rfl⟩

end Store

variable {σ : Type}

/-- Looking up writes to the journal at most. -/
theorem Cache.run_lookup (c : Cache) (key : String) (w : World σ) :
    ∃ r journal, (c.lookup key).run w = (r, { w with journal := journal }) := by
  have hget : (Work.filing (c.store.get w.now key)).run w =
      (((c.store.get w.now key).run w.volume).1, w) := by
    rw [Work.run_filing, Store.run_get_volume]
  unfold Cache.lookup
  rw [Action.run_bind_ok (Action.run_get w), Action.run_bind, hget]
  cases ((c.store.get w.now key).run w.volume).1 with
  | error f => exact ⟨_, w.journal, rfl⟩
  | ok answer =>
    cases answer with
    | found e => exact ⟨_, w.journal, rfl⟩
    | absent => exact ⟨_, w.journal, rfl⟩
    | unreadable cause =>
      simp only
      cases c.store with
      | folder root space => exact ⟨_, _, rfl⟩
      | table database space isOpen => exact ⟨_, _, rfl⟩

theorem Cache.run_lookup_of_serves {c : Cache} {key : String} {a : Artifact} {w : World σ}
    (h : c.store.Serves w.volume key a) :
    ∃ entry, (c.lookup key).run w = (.ok (some entry), w) ∧ entry.toArtifact = a := by
  obtain ⟨entry, hget, rfl⟩ := h w.now
  have hfiling : (Work.filing (c.store.get w.now key)).run w = (.ok (.found entry), w) := by
    rw [Work.run_filing, hget]
  refine ⟨entry, ?_, rfl⟩
  unfold Cache.lookup
  rw [Action.run_bind_ok (Action.run_get w), Action.run_bind_ok hfiling]
  rfl

/-- A key under which there is nothing to serve is looked up in vain. -/
theorem Cache.run_lookup_of_lacks {c : Cache} {key : String} {w : World σ}
    (h : c.store.Lacks w.volume key) : ((c.lookup key).run w).1 = .ok none := by
  have hfiling : ∀ answer, ((c.store.get w.now key).run w.volume).1 = .ok answer →
      (Work.filing (c.store.get w.now key)).run w = (.ok answer, w) := by
    intro answer hanswer
    rw [Work.run_filing, Store.run_get_volume, hanswer]
  unfold Cache.lookup
  rw [Action.run_bind_ok (Action.run_get w)]
  rcases h w.now with habsent | ⟨cause, hcause⟩
  · rw [Action.run_bind_ok (hfiling _ habsent)]
    rfl
  · rw [Action.run_bind_ok (hfiling _ hcause)]
    cases c.store with
    | folder root space => rfl
    | table database space isOpen => rfl

/-- What is looked up in vain is not there to be served. -/
theorem Cache.lacks_of_lookup {c : Cache} {key : String} {w : World σ}
    (h : ((c.lookup key).run w).1 = .ok none) : c.store.Lacks w.volume key := by
  refine Store.lacks_of_get w.now ?_
  unfold Cache.lookup at h
  rw [Action.run_bind_ok (Action.run_get w), Action.run_bind, Work.run_filing] at h
  cases hget : ((c.store.get w.now key).run w.volume).1 with
  | error f =>
    rw [hget] at h
    cases h
  | ok answer =>
    cases answer with
    | found e =>
      rw [hget] at h
      cases h
    | absent => exact .inl rfl
    | unreadable cause => exact .inr ⟨cause, rfl⟩

theorem Errand.run_stored?_of_serves {e : Errand} {a : Artifact} {w : World σ}
    (h : e.cache.store.Serves w.volume e.key a) :
    (e.stored?).run w = (.ok (some a),
      { w with journal := ⟨Log.Context.none, .cacheHit e.file e.cache.space⟩ :: w.journal }) := by
  obtain ⟨entry, hlookup, rfl⟩ := Cache.run_lookup_of_serves h
  unfold Errand.stored?
  rw [Action.run_bind_ok hlookup]
  rfl

theorem Errand.run_stored?_of_lacks {e : Errand} {w : World σ}
    (h : e.cache.store.Lacks w.volume e.key) : ((e.stored?).run w).1 = .ok none := by
  have hlookup : (e.cache.lookup e.key).run w = (.ok none, ((e.cache.lookup e.key).run w).2) :=
    Prod.ext (Cache.run_lookup_of_lacks h) rfl
  unfold Errand.stored?
  rw [Action.run_bind_ok hlookup]
  rfl

theorem Errand.lacks_of_stored? {e : Errand} {w : World σ} (h : ((e.stored?).run w).1 = .ok none) :
    e.cache.store.Lacks w.volume e.key := by
  refine Cache.lacks_of_lookup ?_
  unfold Errand.stored? at h
  rw [Action.run_bind] at h
  rcases hlookup : (e.cache.lookup e.key).run w with ⟨found, w'⟩
  rw [hlookup] at h
  rcases found with f | (_ | entry)
  · cases h
  · rfl
  · cases h

/-- An errand whose result is served asks nobody. -/
theorem Errand.run_of_serves (crew : Crew σ) {e : Errand} {a : Artifact} {w : World σ}
    (h : e.cache.store.Serves w.volume e.key a) :
    (e.run crew).run w = (.ok a,
      { w with journal := ⟨Log.Context.none, .cacheHit e.file e.cache.space⟩ :: w.journal }) := by
  unfold Errand.run
  rw [Action.run_bind_ok (Errand.run_stored?_of_serves h)]
  rfl

theorem Cache.serves_of_lookup {c : Cache} {key : String} {entry : Entry} {w w' : World σ}
    (h : (c.lookup key).run w = (.ok (some entry), w')) :
    c.store.Serves w.volume key entry.toArtifact := by
  unfold Cache.lookup at h
  rw [Action.run_bind_ok (Action.run_get w)] at h
  obtain ⟨answer, w₁, hget, hrest⟩ := Action.of_run_bind_ok h
  rw [Work.run_filing] at hget
  cases answer with
  | found e =>
    cases hrest
    exact Store.serves_of_found (congrArg Prod.fst hget)
  | absent => cases hrest
  | unreadable cause =>
    simp only at hrest
    cases hstore : c.store with
    | folder root space =>
      rw [hstore] at hrest
      cases hrest
    | table database space isOpen =>
      rw [hstore] at hrest
      cases hrest

theorem Errand.serves_of_stored? {e : Errand} {a : Artifact} {w w' : World σ}
    (h : (e.stored?).run w = (.ok (some a), w')) : e.cache.store.Serves w.volume e.key a := by
  unfold Errand.stored? at h
  obtain ⟨found, w₁, hlookup, hrest⟩ := Action.of_run_bind_ok h
  cases found with
  | none => cases hrest
  | some entry =>
    cases hrest
    exact Cache.serves_of_lookup hlookup

/-- A result as reductions make it. -/
def Artifact.IsWhole (a : Artifact) : Prop :=
  ∃ code mediaType dependencies, a = Artifact.ofContent code mediaType dependencies

theorem Artifact.IsWhole.isPrecompiled {a : Artifact} (h : a.IsWhole) : a.isPrecompiled = true := by
  obtain ⟨code, mediaType, dependencies, rfl⟩ := h
  rfl

theorem Artifact.IsWhole.toArtifact_ofArtifact {a : Artifact} (h : a.IsWhole) (now : Instant)
    (key space : String) : (Entry.ofArtifact now key space a).toArtifact = a := by
  obtain ⟨code, mediaType, dependencies, rfl⟩ := h
  exact Entry.toArtifact_ofArtifact now key space rfl (nodup_firstOccurrences dependencies)

/-- Whatever the passes yield is whole. -/
theorem Reduction.isWhole_of_yields {crew : Crew σ} {next? : Option String → Option Transformer}
    {file : String} {limit : Int} {left index : Nat} {i : Fingerprint} {t : Transformer}
    {known : List Json} {chain : List (Option String)} {w : World σ} {a : Artifact} {s : σ}
    (h : Yields crew (passes next? file limit left index i t known chain) w a s) : a.IsWhole := by
  induction left generalizing index i t known chain w with
  | zero => cases ((yields_done crew _ w a s).mp h).1
  | succ left ih =>
    rw [yields_passes_succ] at h
    obtain ⟨code, _, hend⟩ := h
    rcases hend with ⟨s', _, ds, _, _, ha⟩ | ⟨o, items, s', _, hend⟩
    · exact ⟨_, _, _, ha⟩
    · rcases hend with ⟨m, ds, _, _, _, ha, _⟩ | ⟨_, t', _, hlater⟩
      · exact ⟨_, _, _, ha⟩
      · exact ih hlater

theorem Host.isWhole_of_run_reduction {h : Host} {crew : Crew σ} {file : String} {i : Fingerprint}
    {t : Transformer} {w w' : World σ} {a : Artifact}
    (hrun : ((h.reduction file i t).run crew).run w = (.ok a, w')) : a.IsWhole :=
  Reduction.isWhole_of_yields (s := w'.tools) ⟨w', hrun, rfl⟩

/-- What running an errand comes to. The volume stays as it is, or something is stored under a key
for which nothing was served, or could not be stored and the errand fails; and a result is served
from then on. -/
structure Errand.Runs (e : Errand) (place : Store.Place) (w : World σ)
    (r : Except Failure Artifact) (w' : World σ) : Prop where
  setting : (w'.environment, w'.desks, w'.now) = (w.environment, w.desks, w.now)
  volume : w'.volume = w.volume ∨ (∃ entry stored,
    Store.Stores e.cache.store place e.key entry w.volume stored w'.volume ∧
      (stored = .ok () → ∃ a, r = .ok a)) ∧ ∀ a, ¬ e.cache.store.Serves w.volume e.key a
  serves : ∀ a, r = .ok a → e.cache.store.Serves w'.volume e.key a

theorem Errand.runs (crew : Crew σ) {e : Errand} {place : Store.Place} {w : World σ}
    (hat : e.cache.store.At w.volume place) (hnow : w.now.IsDate)
    (hwhole : ∀ a w₁ w₂, (e.work.run crew).run w₁ = (.ok a, w₂) → a.IsWhole) :
    e.Runs place w ((e.run crew).run w).1 ((e.run crew).run w).2 := by
  have hquiet : ∀ {w₁ : World σ}, Work.knowledge w₁ = Work.knowledge w →
      w₁.volume = w.volume ∧ (w₁.environment, w₁.desks, w₁.now) =
        (w.environment, w.desks, w.now) := by
    intro w₁ h
    simp only [Work.knowledge, Work.surroundings, Prod.mk.injEq] at h
    obtain ⟨⟨hvolume, henvironment, hdate⟩, hdesks⟩ := h
    exact ⟨hvolume, by rw [henvironment, hdesks, hdate]⟩
  have hlooked := e.keeps_stored? w
  unfold Errand.run
  rw [Action.run_bind]
  rcases hstored : (e.stored?).run w with ⟨found, w₁⟩
  rw [hstored] at hlooked
  obtain ⟨hvolume₁, hsetting₁⟩ := hquiet hlooked
  rcases found with f | (_ | a)
  · exact ⟨hsetting₁, Or.inl hvolume₁, nofun⟩
  · have hnone : ∀ a, ¬ e.cache.store.Serves w.volume e.key a := by
      intro a hserves
      rw [Errand.run_stored?_of_serves hserves] at hstored
      cases hstored
    have hworked := (e.work.keeps_run crew w₁).trans hlooked
    simp only
    rw [Action.run_bind]
    rcases hwork : (e.work.run crew).run w₁ with ⟨outcome, w₂⟩
    rw [hwork] at hworked
    obtain ⟨hvolume₂, hsetting₂⟩ := hquiet hworked
    cases outcome with
    | error f => exact ⟨hsetting₂, Or.inl hvolume₂, nofun⟩
    | ok a =>
      have ha := hwhole a w₁ w₂ hwork
      have hnow₂ : w₂.now.IsDate := by
        have hsame : w₂.now = w.now := congrArg (fun x => x.2.2) hsetting₂
        rw [hsame]
        exact hnow
      obtain ⟨stored, v', hrun, hstores⟩ :=
        e.run_deliver ha.isPrecompiled (hvolume₂ ▸ hat) hnow₂
      simp only [hrun]
      rw [hvolume₂] at hstores
      refine ⟨hsetting₂, Or.inr ⟨⟨_, _, hstores, fun h => ⟨a, by rw [h]; rfl⟩⟩, hnone⟩, ?_⟩
      intro b hb
      cases stored with
      | error f => cases hb
      | ok u =>
        cases hb
        have hserves := hstores.serves rfl
        rw [ha.toArtifact_ofArtifact] at hserves
        exact hserves
  · refine ⟨hsetting₁, Or.inl hvolume₁, ?_⟩
    intro b hb
    cases hb
    change e.cache.store.Serves w₁.volume e.key a
    rw [hvolume₁]
    exact Errand.serves_of_stored? hstored

end AssetCompiler
