import AssetCompiler.Proofs.Fingerprints
import AssetCompiler.Proofs.ServedResults

/-!
What files and stores refuse. Whatever goes wrong in looking at files, in opening a store, in looking a
result up and in storing one, it is no compile failure, no fault of a configuration and no signal.
-/
namespace AssetCompiler

/-- Neither a compile failure nor a fault of a configuration nor a signal. -/
structure Failure.IsPlain (e : Failure) : Prop where
  compile : e.isCompileFailure = false
  configuration : ∀ issue, e ≠ .configuration issue
  signal : e.isSignal = false

/-- Whatever has failed, it was plain. -/
def FailsPlainly {α : Type} (r : Except Failure α) : Prop := ∀ e, r = .error e → e.IsPlain

section Results

variable {α β : Type}

theorem failsPlainly_ok (a : α) : FailsPlainly (.ok a : Except Failure α) := nofun

theorem failsPlainly_error {e : Failure} (h : e.IsPlain) :
    FailsPlainly (.error e : Except Failure α) := by
  rintro _ ⟨⟩
  exact h

theorem FailsPlainly.bind {r : Except Failure α} {f : α → Except Failure β} (hr : FailsPlainly r)
    (hf : ∀ a, FailsPlainly (f a)) : FailsPlainly (r >>= f) := by
  cases r with
  | ok a => exact hf a
  | error e => exact failsPlainly_error (hr e rfl)

theorem FailsPlainly.map {r : Except Failure α} (hr : FailsPlainly r) (f : α → β) :
    FailsPlainly (r.map f) := by
  cases r with
  | ok a => exact failsPlainly_ok _
  | error e => exact failsPlainly_error (hr e rfl)

end Results

namespace Volume

variable (v : Volume) (p : Path)

theorem failsPlainly_about {α : Type} (r : Except FileIssue α) : FailsPlainly (about p r) := by
  unfold about
  split
  · exact failsPlainly_error ⟨rfl, nofun, rfl⟩
  · split
    · exact failsPlainly_ok _
    · exact failsPlainly_error ⟨rfl, nofun, rfl⟩

theorem failsPlainly_isThere : FailsPlainly (v.isThere p) := by
  refine FailsPlainly.map ?_ _
  unfold probe
  split
  · exact failsPlainly_ok _
  · split
    · exact failsPlainly_ok _
    · exact failsPlainly_error ⟨rfl, nofun, rfl⟩
    · exact failsPlainly_ok _

theorem failsPlainly_realPath : FailsPlainly (v.realPath p) := by
  unfold realPath
  split
  · exact failsPlainly_error ⟨rfl, nofun, rfl⟩
  · simp only
    split
    · exact failsPlainly_error ⟨rfl, nofun, rfl⟩
    · exact failsPlainly_ok _

theorem failsPlainly_readText : FailsPlainly (v.readText p) := by
  unfold readText
  refine (failsPlainly_about p _).bind fun bytes => ?_
  split
  · exact failsPlainly_ok _
  · exact failsPlainly_error ⟨rfl, nofun, rfl⟩

theorem failsPlainly_readTextLossy : FailsPlainly (v.readTextLossy p) :=
  (failsPlainly_about p _).bind fun _ => failsPlainly_ok _

theorem failsPlainly_write (bytes : List UInt8) : FailsPlainly (v.write p bytes) :=
  (failsPlainly_about p _).map _

theorem failsPlainly_rename (source goal : Path) : FailsPlainly (v.rename source goal) := by
  unfold rename
  split
  · split <;> first | exact failsPlainly_ok _ | exact failsPlainly_error ⟨rfl, nofun, rfl⟩
  · exact failsPlainly_error ⟨rfl, nofun, rfl⟩
  · exact failsPlainly_error ⟨rfl, nofun, rfl⟩

theorem failsPlainly_orThere (e : FileIssue) : FailsPlainly (v.orThere p e) := by
  unfold orThere
  split
  · exact failsPlainly_ok _
  · exact failsPlainly_error ⟨rfl, nofun, rfl⟩

theorem failsPlainly_makeChain (ps : List Path) : FailsPlainly (v.makeChain ps) := by
  induction ps generalizing v with
  | nil => exact failsPlainly_ok _
  | cons p parents ih =>
    rw [makeChain]
    split
    · exact failsPlainly_ok _
    · split
      · exact failsPlainly_error ⟨rfl, fun _ heq => (by cases heq), rfl⟩
      · split
        · rename_i e hchain
          exact failsPlainly_error (ih v e hchain)
        · split
          · exact failsPlainly_ok _
          · exact failsPlainly_orThere _ p _
    · exact failsPlainly_orThere v p _

theorem failsPlainly_makeDirectories : FailsPlainly (v.makeDirectories p) := by
  unfold makeDirectories
  split
  · exact failsPlainly_error ⟨rfl, nofun, rfl⟩
  · exact failsPlainly_makeChain v _

end Volume

/-! Actions on files -/

namespace Filing

variable {α β : Type}

/-- An action that fails plainly on every volume. -/
def IsPlain (action : Filing α) : Prop := ∀ v, FailsPlainly (action.run v).1

theorem isPlain_pure (a : α) : IsPlain (pure a) := fun _ => failsPlainly_ok a

theorem isPlain_throw {e : Failure} (h : e.IsPlain) :
    IsPlain (throw e : Filing α) := fun _ => failsPlainly_error h

theorem isPlain_get : IsPlain (get : Filing Volume) := fun _ => failsPlainly_ok _

theorem isPlain_set (v : Volume) : IsPlain (set v : Filing PUnit) := fun _ => failsPlainly_ok _

theorem IsPlain.bind {x : Filing α} {f : α → Filing β} (hx : IsPlain x) (hf : ∀ a, IsPlain (f a)) :
    IsPlain (x >>= f) := by
  intro v
  rw [Action.run_bind]
  have hplain := hx v
  rcases hrun : x.run v with ⟨r, v'⟩
  rw [hrun] at hplain
  cases r with
  | ok a => exact hf a v'
  | error e => exact failsPlainly_error (hplain e rfl)

theorem isPlain_look {f : Volume → Except Failure α} (h : ∀ v, FailsPlainly (f v)) :
    IsPlain (look f) := by
  intro v
  rw [run_look]
  exact h v

theorem isPlain_change {f : Volume → Except Failure Volume} (h : ∀ v, FailsPlainly (f v)) :
    IsPlain (change f) := by
  intro v
  rw [run_change]
  split
  · exact failsPlainly_ok _
  · rename_i e he
    exact failsPlainly_error (h v e he)

theorem IsPlain.onFailure {action : Filing α} (h : IsPlain action) (cleanUp : Filing Unit) :
    IsPlain (onFailure action cleanUp) := by
  intro v
  rw [run_onFailure]
  have hplain := h v
  rcases hrun : action.run v with ⟨r, v'⟩
  rw [hrun] at hplain
  cases r with
  | ok a => exact failsPlainly_ok _
  | error e => exact failsPlainly_error (hplain e rfl)

end Filing

/-! Stores -/

namespace Store

open Filing

theorem failsPlainly_readEntry (now : Instant) (text : List Char) :
    FailsPlainly (readEntry now text) := by
  unfold readEntry
  split
  · exact failsPlainly_ok _
  · split
    · exact failsPlainly_ok _
    · exact failsPlainly_ok _
  · exact failsPlainly_error ⟨rfl, nofun, rfl⟩

theorem failsPlainly_readFile (now : Instant) (v : Volume) (p : Path) :
    FailsPlainly (readFile now v p) := by
  unfold readFile
  split
  · exact failsPlainly_readEntry now _
  · exact failsPlainly_ok _
  · rename_i e _ hread
    exact failsPlainly_error (v.failsPlainly_readText p e hread)

theorem isPlain_requireOpen (isOpen : Bool) : IsPlain (requireOpen isOpen) := by
  cases isOpen with
  | false => exact isPlain_throw ⟨rfl, nofun, rfl⟩
  | true => exact isPlain_pure ()

theorem isPlain_expandHome (home : Option String) (p : Path) : IsPlain (expandHome home p) := by
  unfold expandHome
  split
  · exact isPlain_pure _
  · exact isPlain_throw ⟨rfl, nofun, rfl⟩

theorem isPlain_openTable (database : Path) (space : String) :
    IsPlain (openTable database space) := by
  refine (isPlain_change fun v => v.failsPlainly_makeDirectories _).bind fun _ => ?_
  refine Filing.isPlain_get.bind fun v => ?_
  have hset : ∀ v' : Volume, IsPlain (do set v'; return table database space true) :=
    fun v' => (isPlain_set v').bind fun _ => isPlain_pure _
  split
  · exact isPlain_pure _
  · split
    · exact hset _
    · exact isPlain_throw ⟨rfl, nofun, rfl⟩
  · exact isPlain_throw ⟨rfl, nofun, rfl⟩
  · split
    · exact hset _
    · exact isPlain_throw ⟨rfl, nofun, rfl⟩

/-- Opening a store fails plainly. -/
theorem isPlain_openAs (home : Option String) (backend : Backend) (cacheRoot : Path)
    (space : String) : IsPlain (openAs home backend cacheRoot space) := by
  cases backend with
  | json =>
    refine (isPlain_expandHome home cacheRoot).bind fun directory => ?_
    exact (isPlain_change fun v => v.failsPlainly_makeDirectories _).bind fun _ => isPlain_pure _
  | sqlite =>
    exact (isPlain_expandHome home _).bind fun database => isPlain_openTable database space
  | unknown name => exact isPlain_throw ⟨rfl, nofun, rfl⟩

/-- A look-up fails plainly. -/
theorem isPlain_get (now : Instant) (key : String) (s : Store) : IsPlain (s.get now key) := by
  cases s with
  | folder root space =>
    intro v
    change FailsPlainly ((getFile now root key).run v).1
    rw [getFile, run_look]
    refine FailsPlainly.bind (v.failsPlainly_isThere _) fun found => ?_
    generalize entryPath root key = p
    split
    · exact failsPlainly_readFile now v p
    · exact failsPlainly_ok _
  | table database space isOpen =>
    unfold get
    refine IsPlain.bind (isPlain_requireOpen isOpen) fun _ => isPlain_look fun v => ?_
    split
    · exact failsPlainly_ok _
    · exact failsPlainly_readEntry now _

theorem isPlain_putFile (root : Path) (key : String) (e : Entry) : IsPlain (putFile root key e) := by
  refine (isPlain_change fun v => v.failsPlainly_makeDirectories root).bind fun _ => ?_
  refine Filing.isPlain_get.bind fun v => ?_
  refine (isPlain_change fun v => v.failsPlainly_write _ _).bind fun _ => ?_
  refine IsPlain.onFailure ((isPlain_change fun v => v.failsPlainly_write _ _).bind fun _ => ?_) _
  refine isPlain_change fun v => ?_
  split
  · exact failsPlainly_error ⟨rfl, nofun, rfl⟩
  · exact v.failsPlainly_rename _ _

theorem isPlain_withRows (database : Path) (f : List Row → List Row) :
    IsPlain (withRows database f) := by
  refine Filing.isPlain_get.bind fun v => ?_
  split
  · exact isPlain_set _
  · exact isPlain_throw ⟨rfl, nofun, rfl⟩

/-- Storing fails plainly. -/
theorem isPlain_put (key : String) (e : Entry) (s : Store) : IsPlain (s.put key e) := by
  cases s with
  | folder root space => exact isPlain_putFile root key e
  | table database space isOpen =>
    exact (isPlain_requireOpen isOpen).bind fun _ => isPlain_withRows database _

end Store

section Work

variable {σ : Type}

/-- Looking for a stored result fails plainly. -/
theorem Errand.failsPlainly_stored? (e : Errand) (w : World σ) :
    FailsPlainly ((e.stored?).run w).1 := by
  intro f hf
  unfold Errand.stored? at hf
  rw [Action.run_bind] at hf
  rcases hlookup : (e.cache.lookup e.key).run w with ⟨found, w'⟩
  rw [hlookup] at hf
  rcases found with f' | (_ | entry)
  · cases hf
    refine Store.isPlain_get w.now e.key e.cache.store w.volume f ?_
    unfold Cache.lookup at hlookup
    rw [Action.run_bind_ok (Action.run_get w), Action.run_bind, Work.run_filing] at hlookup
    cases hget : ((e.cache.store.get w.now e.key).run w.volume).1 with
    | error f' =>
      rw [hget] at hlookup
      cases hlookup
      rfl
    | ok answer =>
      rw [hget] at hlookup
      cases answer with
      | found entry => cases hlookup
      | absent => cases hlookup
      | unreadable cause =>
        simp only at hlookup
        cases hstore : e.cache.store with
        | folder root space =>
          rw [hstore] at hlookup
          cases hlookup
        | table database space isOpen =>
          rw [hstore] at hlookup
          cases hlookup
  · cases hf
  · cases hf

/-- Storing a result and handing it on fails plainly. -/
theorem Errand.failsPlainly_deliver (e : Errand) (a : Artifact) (w : World σ) :
    FailsPlainly ((e.deliver a).run w).1 := by
  intro f hf
  cases hcontent : a.isPrecompiled with
  | false =>
    rw [e.run_deliver_empty hcontent] at hf
    cases hf
  | true =>
    rw [e.run_deliver_put hcontent] at hf
    have hput := Store.isPlain_put e.key (Entry.ofArtifact w.now e.key e.cache.space a) e.cache.store
      w.volume
    exact hput.map _ f hf

theorem Reduction.failsPlainly_readSource (file : String) (w : World σ) :
    FailsPlainly ((readSource file).run w).1 := by
  intro e he
  unfold readSource at he
  rw [Action.run_bind, Work.run_look] at he
  cases hread : w.volume.readTextLossy (Path.ofText file) with
  | ok text =>
    rw [hread] at he
    cases he
  | error e' =>
    rw [hread] at he
    cases he
    exact w.volume.failsPlainly_readTextLossy _ _ hread

/-- A fingerprint is refused plainly. -/
theorem Volume.failsPlainly_inspect (v : Volume) (p : Path) : FailsPlainly (v.inspect p) := by
  unfold inspect
  refine (v.failsPlainly_realPath p).bind fun real => (failsPlainly_about real _).bind fun found => ?_
  obtain ⟨l, node⟩ := found
  simp only
  split
  · exact failsPlainly_error ⟨rfl, nofun, rfl⟩
  · exact failsPlainly_ok _

end Work

end AssetCompiler
