import AssetCompiler.Errand
import AssetCompiler.Proofs.Action
import AssetCompiler.Proofs.Stores

/-!
What work leaves alone. Looking something up, fingerprinting and reducing change neither the files nor
the time; a reduction does not even change what fingerprinters remember. Only storing a result writes.
-/
namespace AssetCompiler

variable {σ α β γ : Type}

namespace Work

/-- An action leaves a part of the world as it is, whether it succeeds or not. -/
def Keeps (part : World σ → γ) (x : Work σ α) : Prop := ∀ w, part (x.run w).2 = part w

variable {part : World σ → γ}

theorem keeps_pure (a : α) : Keeps part (pure a : Work σ α) := fun _ => rfl

theorem keeps_throw (e : Failure) : Keeps part (throw e : Work σ α) := fun _ => rfl

theorem keeps_get : Keeps part (get : Work σ (World σ)) := fun _ => rfl

theorem keeps_look (f : Volume → Except Failure α) : Keeps part (look f) := by
  intro w
  rw [run_look]

theorem keeps_lift (r : Except Failure α) : Keeps part (lift r) := by
  intro w
  rw [run_lift]

theorem Keeps.bind {x : Work σ α} {f : α → Work σ β} (hx : Keeps part x)
    (hf : ∀ a, Keeps part (f a)) : Keeps part (x >>= f) := by
  intro w
  rw [Action.run_bind]
  have hw := hx w
  cases hrun : x.run w with
  | mk r w' =>
    rw [hrun] at hw
    cases r with
    | ok a => exact (hf a w').trans hw
    | error e => exact hw

theorem Keeps.outcome {x : Work σ α} (hx : Keeps part x) : Keeps part (Work.outcome x) := by
  intro w
  rw [run_outcome]
  exact hx w

/-- Files, environment and time. -/
def surroundings (w : World σ) : Volume × List (String × String) × Instant :=
  (w.volume, w.environment, w.now)

/-- Files, environment and time, and what fingerprinters remember. -/
def knowledge (w : World σ) :
    (Volume × List (String × String) × Instant) × Keyed Nat Fingerprinter :=
  (surroundings w, w.desks)

theorem Keeps.surroundings {x : Work σ α} (hx : Keeps knowledge x) : Keeps surroundings x :=
  fun w => congrArg Prod.fst (hx w)

theorem keeps_note (c : Log.Context) (e : Log.Event) : Keeps knowledge (note c e : Work σ Unit) :=
  fun _ => rfl

theorem keeps_report (e : Log.Event) : Keeps knowledge (report e : Work σ Unit) := fun _ => rfl

/-- A filing action that changes nothing keeps everything. -/
theorem keeps_filing {action : Filing α} (h : ∀ v, (action.run v).2 = v) :
    Keeps part (filing action) := by
  intro w
  rw [run_filing, h]

/-- All that fingerprinting changes is what the fingerprinter remembers that is asked. -/
theorem keeps_fingerprint_of {n : Nat} (h : ∀ f : Fingerprinter, Keeps part (setDesk n f)) (p : Path) :
    Keeps part (fingerprint n p : Work σ _) := by
  unfold fingerprint
  refine (keeps_look _).bind fun real => (keeps_look _).bind fun found => ?_
  obtain ⟨l, node⟩ := found
  simp only
  cases contentOf node with
  | none => exact keeps_throw _
  | some content =>
    obtain ⟨bytes, mtime⟩ := content
    refine Keeps.bind (fun _ => rfl) fun f => ?_
    cases f.known? real.text bytes.length mtime with
    | some i => exact keeps_pure i
    | none => exact (h _).bind fun _ => keeps_pure _

theorem keeps_fingerprint (n : Nat) (p : Path) : Keeps surroundings (fingerprint n p : Work σ _) :=
  keeps_fingerprint_of (fun _ _ => rfl) p

/-- One fingerprinter is asked, and the others remember what they did. -/
theorem keeps_fingerprint_desk {n n' : Nat} (h : n' ≠ n) (p : Path) :
    Keeps (fun w => Keyed.find? n' w.desks) (fingerprint n p : Work σ _) :=
  keeps_fingerprint_of (fun f w => Keyed.find?_set_of_ne h f w.desks) p

end Work

theorem Store.run_get_volume (now : Instant) (key : String) (s : Store) (v : Volume) :
    ((s.get now key).run v).2 = v := by
  cases s with
  | folder root space =>
    change ((getFile now root key).run v).2 = v
    rw [getFile, Filing.run_look]
  | table database space isOpen =>
    cases isOpen with
    | true => rw [run_get_table]
    | false => rfl

open Work

theorem Cache.keeps_lookup (c : Cache) (key : String) : Keeps knowledge (c.lookup key : Work σ _) := by
  unfold Cache.lookup
  refine keeps_get.bind fun w => (keeps_filing fun v => ?_).bind fun answer => ?_
  · exact Store.run_get_volume w.now key c.store v
  · cases answer with
    | found e => exact keeps_pure _
    | absent => exact keeps_pure _
    | unreadable cause =>
      simp only
      cases c.store with
      | folder root space => exact (keeps_report _).bind fun _ => keeps_pure _
      | table database space isOpen => exact (keeps_report _).bind fun _ => keeps_pure _

theorem Cache.keeps_get (c : Cache) (p : Path) : Keeps surroundings (c.get p : Work σ _) := by
  unfold Cache.get
  refine (keeps_fingerprint _ _).bind fun i => ?_
  exact (c.keeps_lookup _).surroundings.bind fun _ => keeps_pure _

theorem Cache.keeps_openFetch (c : Cache) (owner file : String) (work : Fingerprint → Reduction) :
    Keeps surroundings (c.openFetch owner file work : Work σ _) := by
  unfold Cache.openFetch
  exact (keeps_fingerprint _ _).bind fun i => keeps_pure _

theorem Errand.keeps_stored? (e : Errand) : Keeps knowledge (e.stored? : Work σ _) := by
  unfold Errand.stored?
  refine (e.cache.keeps_lookup _).bind fun found => ?_
  cases found with
  | none => exact keeps_pure _
  | some entry => exact (keeps_report _).bind fun _ => keeps_pure _

namespace Reduction

theorem keeps_readSource (file : String) : Keeps knowledge (readSource file : Work σ _) :=
  (keeps_look _).bind fun _ => keeps_pure _

theorem keeps_consult (crew : Crew σ) (c : Call) : Keeps knowledge (consult crew c) := fun _ => rfl

/-- A reduction writes no files. -/
theorem keeps_run (crew : Crew σ) (r : Reduction) : Keeps knowledge (r.run crew) := by
  induction r with
  | done outcome => exact keeps_lift _
  | note c e rest ih => exact (keeps_note c e).bind fun _ => ih
  | read file rest ih => exact (keeps_readSource file).outcome.bind fun r => ih r
  | ask c rest ih => exact (keeps_consult crew c).bind fun reply => ih reply

theorem keeps_proceed (crew : Crew σ) (r : Reduction) (waited : Nat) :
    Keeps knowledge (r.proceed crew waited) := by
  induction r generalizing waited with
  | done outcome => exact keeps_pure _
  | note c e rest ih => exact (keeps_note c e).bind fun _ => ih 0
  | read file rest ih => exact (keeps_readSource file).outcome.bind fun r => ih r 0
  | ask c rest ih =>
    rw [proceed]
    split
    · exact keeps_pure _
    · exact (keeps_consult crew c).bind fun reply => ih reply 0

end Reduction
end AssetCompiler
