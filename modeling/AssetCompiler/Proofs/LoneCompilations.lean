import AssetCompiler.Proofs.AtomicStoring
import AssetCompiler.Proofs.NamedFiles
import AssetCompiler.Proofs.Openings
import AssetCompiler.Proofs.SeparateStores
import AssetCompiler.Proofs.SteadyReductions
import AssetCompiler.Proofs.Transparency

/-!
Compilations of files one beside the other. What comes of the compilation of a file depends on what the store of
its slot answers at first and on what transformers make of the file. Others may have been compiled in the
meantime, in any number and any order: if files that share a place show the same, then what has been stored for
others makes no difference, neither to the end of a compilation nor to what is stored.
-/
namespace AssetCompiler

variable {σ : Type}

/-! Ends that differ in the name of a file that was being written at most -/

/-- Outcomes that are the same but for the name of a file that was being written. -/
def EndAlike {α : Type} (o o' : Except Failure α) : Prop :=
  o'.mapError Failure.withoutSource = o.mapError Failure.withoutSource

namespace EndAlike

variable {α β : Type} {o o' o'' : Except Failure α}

theorem refl (o : Except Failure α) : EndAlike o o := rfl

theorem symm (h : EndAlike o o') : EndAlike o' o := Eq.symm h

theorem trans (h : EndAlike o o') (h' : EndAlike o' o'') : EndAlike o o'' := Eq.trans h' h

theorem ok_iff (h : EndAlike o o') (a : α) : o' = .ok a ↔ o = .ok a := by
  unfold EndAlike at h
  cases o with
  | ok b =>
    cases o' with
    | ok b' => rw [Except.ok.inj h]
    | error e => cases h
  | error e =>
    cases o' with
    | ok b => cases h
    | error e' => exact ⟨nofun, nofun⟩

theorem map (h : EndAlike o o') (f : α → β) : EndAlike (o.map f) (o'.map f) := by
  unfold EndAlike at h ⊢
  cases o with
  | ok a =>
    cases o' with
    | ok a' =>
      cases h
      rfl
    | error e => cases h
  | error e =>
    cases o' with
    | ok a => cases h
    | error e' =>
      cases h' : e.withoutSource
      all_goals exact congrArg Except.error (Except.error.inj h)

theorem isSignal (h : EndAlike o o') {e : Failure} (he : o' = .error e)
    (hquiet : ∀ e, o = .error e → e.isSignal = false) : e.isSignal = false := by
  have hsame : ∀ e : Failure, e.withoutSource.isSignal = e.isSignal := by
    intro e
    cases e <;> rfl
  subst he
  cases o with
  | ok a => cases h
  | error e' =>
    rw [← hsame e, Except.error.inj h, hsame]
    exact hquiet e' rfl

end EndAlike

namespace Store

/-! What stores answer -/

/-- What a store has under a key: a result, or a failure to look, or nothing. -/
def answer? (s : Store) (v : Volume) (key : String) : Option (Except Failure Artifact) :=
  match ((s.get default key).run v).1 with
  | .error e => some (.error e)
  | .ok (.found e) => some (.ok e.toArtifact)
  | .ok _ => none

section Answering

variable {s s' : Store} {v v' : Volume} {key key' : String}

theorem answer?_congr (h : ∀ now, ((s'.get now key').run v').1 = ((s.get now key).run v).1) :
    s'.answer? v' key' = s.answer? v key := by
  unfold answer?
  rw [h]

theorem answer?_eq_ok {a : Artifact} : s.answer? v key = some (.ok a) ↔ s.Serves v key a := by
  constructor
  · intro h
    unfold answer? at h
    cases hget : ((s.get default key).run v).1 with
    | error e =>
      rw [hget] at h
      cases h
    | ok found =>
      rw [hget] at h
      cases found with
      | found e =>
        cases h
        exact serves_of_found hget
      | absent => cases h
      | unreadable cause => cases h
  · intro h
    obtain ⟨e, hget, rfl⟩ := h default
    unfold answer?
    rw [hget]

theorem answer?_eq_none : s.answer? v key = none ↔ s.Lacks v key := by
  constructor
  · intro h
    refine lacks_of_get default ?_
    unfold answer? at h
    cases hget : ((s.get default key).run v).1 with
    | error e =>
      rw [hget] at h
      cases h
    | ok found =>
      rw [hget] at h
      cases found with
      | found e => cases h
      | absent => exact .inl rfl
      | unreadable cause => exact .inr ⟨cause, rfl⟩
  · intro h
    unfold answer?
    rcases h default with hget | ⟨cause, hget⟩
    · rw [hget]
    · rw [hget]

theorem get_of_answer?_error {e : Failure} (h : s.answer? v key = some (.error e)) (now : Instant) :
    ((s.get now key).run v).1 = .error e := by
  unfold answer? at h
  cases hget : ((s.get default key).run v).1 with
  | error e' =>
    rw [hget] at h
    cases h
    exact get_error_at hget now
  | ok found =>
    rw [hget] at h
    cases found <;> cases h

/-- A look-up in a store raises no signal. -/
theorem isSignal_answer? {e : Failure} (h : s.answer? v key = some (.error e)) :
    e.isSignal = false :=
  (isPlain_get default key s v e (get_of_answer?_error h default)).signal

end Answering

/-! How storing ends -/

/-- There is a name for a file that is to be written. -/
def Place.IsFree (v : Volume) : Place → Prop
  | .folder d => ∃ name, IsTemporary name ∧ v.nodeAt? (d ++ [name]) = none
  | .rows _ _ => True

/-- Storing takes no name away that a file can be written under, be it in the same place or in another one. -/
theorem Place.IsFree.put {s : Store} {place place' : Place} {v : Volume} (h : place'.IsFree v)
    (hat : s.At v place) (hfree : place.IsFree v) (key : String) (e : Entry) :
    place'.IsFree ((s.put key e).run v).2 := by
  cases place' with
  | rows l space => trivial
  | folder d' =>
    obtain ⟨name, hname, habsent⟩ := h
    refine ⟨name, hname, ?_⟩
    cases s with
    | folder root space =>
      cases place with
      | rows l space' => exact hat.elim
      | folder d =>
        have hother : d' ++ [name] ≠ d ++ [fileName key] := by
          intro heq
          exact hname.ne_fileName key (List.cons.inj (List.append_inj_right' heq rfl)).1
        exact (hat.directoryAt.nodeAt?_put hfree space e hother).trans habsent
    | table database space isOpen =>
      cases place with
      | folder d => exact hat.elim
      | rows l space' =>
        obtain ⟨rfl, -, htable⟩ := hat
        obtain ⟨v', hrun, hadvances, -⟩ :=
          htable.run_withRows (putRow ⟨space, key, Json.write .compact e.toJson⟩)
        have hother : d' ++ [name] ≠ l := by
          rintro rfl
          obtain ⟨-, rows, mtime, hnode⟩ := htable
          cases habsent.symm.trans hnode
        have hput : ((table database space true).put key e).run v = (.ok (), v') := hrun
        rw [hput]
        exact (hadvances.node_of_not hother).trans habsent

/-- Storing under a key ends alike whatever has been stored in the meantime. -/
theorem put_endAlike {s : Store} {place : Place} {own : Location → Prop} {v v' : Volume}
    (hat : s.At v place) (hat' : s.At v' place) (hfree : place.IsFree v) (hfree' : place.IsFree v')
    (hadvances : Volume.Advances own v v') (key : String) (e e' : Entry) :
    EndAlike ((s.put key e).run v).1 ((s.put key e').run v').1 := by
  cases s with
  | folder root space =>
    cases place with
    | rows l space' => exact hat.elim
    | folder d =>
      have hdirectory : v'.nodeAt? (d ++ [fileName key]) = some .directory ↔
          v.nodeAt? (d ++ [fileName key]) = some .directory := by
        rcases hadvances.node (d ++ [fileName key]) with hsame | ⟨-, hleaf, hleaf', -⟩
        · rw [hsame]
        · exact ⟨fun h => absurd h hleaf'.1, fun h => absurd h hleaf.1⟩
      have houtcome : ∀ {u : Volume} (e : Entry), FolderAt u root d → (Place.folder d).IsFree u →
          (((folder root space).put key e).run u).1.mapError Failure.withoutSource =
            putOutcome root key (u.nodeAt? (d ++ [fileName key])) := fun e hu hfree =>
        hu.directoryAt.put_outcome
          (Volume.makeDirectories_of_isDirectory hu.zero ⟨d, hu.located, hu.directory⟩) hfree space key e
      unfold EndAlike
      rw [houtcome e hat hfree, houtcome e' hat' hfree']
      unfold putOutcome
      simp only [hdirectory]
  | table database space isOpen =>
    cases place with
    | folder d => exact hat.elim
    | rows l space' =>
      have hput : ∀ {v : Volume} (e : Entry), (table database space isOpen).At v (.rows l space') →
          (((table database space isOpen).put key e).run v).1 = .ok () := by
        rintro v e ⟨rfl, rfl, htable⟩
        obtain ⟨v', hrun, -⟩ := htable.run_withRows (putRow ⟨space', key, Json.write .compact e.toJson⟩)
        exact congrArg Prod.fst hrun
      rw [hput e hat, hput e' hat']
      exact .refl _

end Store

/-! Errands -/

namespace Errand

variable {e : Errand} {w : World σ}

/-- What the store answers is what an errand finds. -/
theorem run_stored?_answer {answer : Except Failure Artifact}
    (h : e.cache.store.answer? w.volume e.key = some answer) :
    ∃ journal, (e.stored?).run w = (answer.map some, { w with journal := journal }) := by
  cases answer with
  | ok a => exact ⟨_, run_stored?_of_serves (Store.answer?_eq_ok.mp h)⟩
  | error f =>
    have hget : (Work.filing (e.cache.store.get w.now e.key)).run w = (.error f, w) := by
      rw [Work.run_filing, Store.run_get_volume, Store.get_of_answer?_error h]
    refine ⟨w.journal, Action.run_bind_error ?_⟩
    unfold Cache.lookup
    rw [Action.run_bind_ok (Action.run_get w)]
    exact Action.run_bind_error hget

end Errand

namespace Host

/-! Files that do not get in each other's way -/

/-- A file can be looked at, and neither what it leads to nor what is opened for it is where the host stores. -/
structure IsApart (h : Host) (d : Location) (v : Volume) (file : String) : Prop where
  seen : ∃ real bytes mtime, v.inspect (Path.ofText file) = .ok (real, bytes, mtime) ∧
    ∀ l, v.locate true real = .ok l → ¬ h.Owns d l
  opened : ∃ l node, v.stat (Path.ofText file) = .ok (l, node) ∧ ¬ h.Owns d l

section Apart

variable {h : Host} {d : Location} {v v' : Volume} {file : String}

theorem IsApart.inspect (hapart : h.IsApart d v file) (hadvances : Volume.Advances (h.Owns d) v v') :
    v'.inspect (Path.ofText file) = v.inspect (Path.ofText file) := by
  obtain ⟨real, bytes, mtime, hsight, hown⟩ := hapart.seen
  rw [hsight]
  exact hadvances.inspect hsight hown

theorem IsApart.read (hapart : h.IsApart d v file) (hadvances : Volume.Advances (h.Owns d) v v') :
    v'.readTextLossy (Path.ofText file) = v.readTextLossy (Path.ofText file) := by
  obtain ⟨l, node, hstat, hown⟩ := hapart.opened
  obtain ⟨hlocate, hnode⟩ := Volume.stat_eq_ok_iff.mp hstat
  have hstat' : v'.stat (Path.ofText file) = .ok (l, node) :=
    Volume.stat_eq_ok_iff.mpr ⟨hadvances.grows.locate hlocate, (hadvances.node_of_not hown).trans hnode⟩
  unfold Volume.readTextLossy Volume.read
  rw [hstat, hstat']

theorem IsApart.print (hapart : h.IsApart d v file) {w w' : World σ}
    (hadvances : Volume.Advances (h.Owns d) v w.volume)
    (hadvances' : Volume.Advances (h.Owns d) v w'.volume) (hdesks : w'.desks = w.desks) :
    h.print w' file = h.print w file := by
  obtain ⟨real, bytes, mtime, hsight, -⟩ := hapart.seen
  have hdesk : w'.fingerprinter h.desk = w.fingerprinter h.desk := by
    rw [World.fingerprinter, hdesks, World.fingerprinter]
  unfold Host.print
  rw [Work.fingerprint_fst ((hapart.inspect hadvances).trans hsight),
    Work.fingerprint_fst ((hapart.inspect hadvances').trans hsight), hdesk]

end Apart

/-- A host, and files that it can compile one beside the other: its slots store in places of their own, the
files are apart from them, and those of them that share a place show the same under the same types. -/
structure IsReadyFor (h : Host) (q : Path) (d : Location) (w : World σ) (files : List String) : Prop where
  tidy : h.IsTidy
  stands : h.Stands q d w.volume
  places : h.HasOwnPlaces d
  free : ∀ name s, h.registry.slot? name = some s →
    (Store.placeOf h.settings.backend d s.transformer.space).IsFree w.volume
  date : w.now.IsDate
  here : AreProper w.volume.here
  apart : ∀ file ∈ files, h.IsApart d w.volume file
  alike : ∀ file ∈ files, ∀ file' ∈ files, ∀ s i i', h.Picks w file s i → h.Picks w file' s i' →
    s.cache.store.slotOf i'.cacheKey = s.cache.store.slotOf i.cacheKey →
    i'.cacheKey = i.cacheKey ∧ i'.mediaType = i.mediaType ∧
      MediaType.ofPath (Path.ofText file') = MediaType.ofPath (Path.ofText file) ∧
      ∀ code, Reduction.Source w.volume file' i' code ↔ Reduction.Source w.volume file i code

/-- What transformers make of a file. -/
def reduced (h : Host) (crew : Crew σ) (w : World σ) (file : String) (s : Slot Cache) (i : Fingerprint) :
    Except Failure Artifact :=
  ((h.reduction file i s.transformer).course crew w.volume w.tools).outcome

/-- What a full compilation of a file comes to. -/
def made (h : Host) (crew : Crew σ) (w : World σ) (file : String) : Except Failure Artifact :=
  ((h.compileFull crew file).run w).1

/-- How it ends to store a result under a key. -/
def put (w : World σ) (s : Slot Cache) (key : String) (a : Artifact) : Except Failure Unit × Volume :=
  (s.cache.store.put key (Entry.ofArtifact w.now key s.cache.space a)).run w.volume

section Making

variable {h : Host} {crew : Crew σ} {w : World σ} {file : String} {s : Slot Cache} {i : Fingerprint}

theorem reduced_isWhole {a : Artifact} (hreduced : h.reduced crew w file s i = .ok a) : a.IsWhole := by
  obtain ⟨journal, hrun⟩ := Reduction.run_eq_course crew (h.reduction file i s.transformer) w
  unfold reduced at hreduced
  rw [hreduced] at hrun
  exact isWhole_of_run_reduction hrun

variable (crew) in
/-- The ways in which the compilation of a file can end for which a slot is picked. -/
theorem Picks.run_compileFull (htidy : h.IsTidy) (hpicks : h.Picks w file s i) :
    ∃ journal tools, (h.compileFull crew file).run w =
      match s.cache.store.answer? w.volume i.cacheKey with
      | some answer => (answer, { ((Work.fingerprint h.desk (Path.ofText file)).run w).2 with
          journal := journal, tools := tools })
      | none =>
        match h.reduced crew w file s i with
        | .error e => (.error e, { ((Work.fingerprint h.desk (Path.ofText file)).run w).2 with
            journal := journal, tools := tools })
        | .ok a => ((put w s i.cacheKey a).1.map fun _ => a,
            { ((Work.fingerprint h.desk (Path.ofText file)).run w).2 with
              journal := journal, tools := tools, volume := (put w s i.cacheKey a).2 }) := by
  obtain ⟨journal₁, hopen⟩ := run_openFull_opening htidy w file
  have hkept := Work.keeps_fingerprint h.desk (Path.ofText file) w
  have htools := Work.isApart_tools.fingerprint h.desk (Path.ofText file) w
  rw [hpicks.opening] at hopen
  generalize ((Work.fingerprint h.desk (Path.ofText file)).run w).2 = w₁ at hopen hkept htools ⊢
  simp only [Work.surroundings, Prod.mk.injEq] at hkept
  obtain ⟨hvolume, -, hnow⟩ := hkept
  have hrun : (h.compileFull crew file).run w =
      ((h.errandFor file i s).run crew).run { w₁ with journal := journal₁ } := Action.run_bind_ok hopen
  have hanswers : (h.errandFor file i s).cache.store.answer? w₁.volume (h.errandFor file i s).key =
      s.cache.store.answer? w.volume i.cacheKey := by
    rw [hvolume]
    rfl
  rw [hrun]
  unfold Errand.run
  cases hanswer : s.cache.store.answer? w.volume i.cacheKey with
  | some answer =>
    obtain ⟨journal₂, hstored⟩ := Errand.run_stored?_answer (e := h.errandFor file i s)
      (w := { w₁ with journal := journal₁ }) (hanswers.trans hanswer)
    refine ⟨journal₂, w₁.tools, ?_⟩
    cases answer with
    | ok a =>
      rw [Action.run_bind_ok hstored]
      rfl
    | error f => exact Action.run_bind_error hstored
  | none =>
    obtain ⟨journal₂, hstored⟩ := (h.errandFor file i s).run_stored?
      (w := { w₁ with journal := journal₁ }) (Store.answer?_eq_none.mp (hanswers.trans hanswer))
    obtain ⟨journal₃, hwork⟩ := Reduction.run_eq_course crew (h.errandFor file i s).work
      { w₁ with journal := journal₂ }
    have hcourse : (h.errandFor file i s).work.course crew w₁.volume w₁.tools =
        (h.reduction file i s.transformer).course crew w.volume w.tools := by
      rw [hvolume, htools]
      rfl
    simp only [hcourse] at hwork
    rw [Action.run_bind_ok hstored]
    simp only
    cases hreduced : h.reduced crew w file s i with
    | error e =>
      unfold reduced at hreduced
      rw [hreduced] at hwork
      exact ⟨journal₃, ((h.reduction file i s.transformer).course crew w.volume w.tools).tools,
        Action.run_bind_error hwork⟩
    | ok a =>
      have hwhole := (reduced_isWhole hreduced).isPrecompiled
      unfold reduced at hreduced
      rw [hreduced] at hwork
      refine ⟨journal₃, ((h.reduction file i s.transformer).course crew w.volume w.tools).tools, ?_⟩
      rw [Action.run_bind_ok hwork, Errand.run_deliver_put _ hwhole]
      unfold put
      rw [← hvolume, ← hnow]
      rfl

theorem Picks.made_eq (htidy : h.IsTidy) (hpicks : h.Picks w file s i) :
    h.made crew w file = match s.cache.store.answer? w.volume i.cacheKey with
      | some answer => answer
      | none => (h.reduced crew w file s i).bind fun a => (put w s i.cacheKey a).1.map fun _ => a := by
  obtain ⟨journal, tools, hrun⟩ : ∃ journal tools, (h.compileFull crew file).run w = _ :=
    hpicks.run_compileFull crew htidy
  unfold made
  rw [hrun]
  cases s.cache.store.answer? w.volume i.cacheKey with
  | some answer => rfl
  | none => cases h.reduced crew w file s i <;> rfl

/-- A compilation that opens with a failure ends with it. -/
theorem run_compileFull_of_error (crew : Crew σ) (htidy : h.IsTidy) {e : Failure}
    (hopening : h.opening w file = .error e) : ∃ journal, (h.compileFull crew file).run w =
      (.error e, { ((Work.fingerprint h.desk (Path.ofText file)).run w).2 with journal := journal }) := by
  obtain ⟨journal, hopen⟩ := run_openFull_opening htidy w file
  rw [hopening] at hopen
  exact ⟨journal, Action.run_bind_error hopen⟩

theorem made_of_error (crew : Crew σ) (htidy : h.IsTidy) {e : Failure}
    (hopening : h.opening w file = .error e) : h.made crew w file = .error e :=
  (run_compileFull_of_error crew htidy hopening).elim fun _ hrun => congrArg Prod.fst hrun

end Making

/-! Files that share a place -/

section Sharing

variable {h : Host} {crew : Crew σ} {q : Path} {d : Location} {w : World σ} {files : List String}
variable {file file' : String} {s : Slot Cache} {i i' : Fingerprint}

theorem made_ok_iff (htidy : h.IsTidy) (hpicks : h.Picks w file s i) {a : Artifact} :
    h.made crew w file = .ok a ↔ s.cache.store.answer? w.volume i.cacheKey = some (.ok a) ∨
      s.cache.store.answer? w.volume i.cacheKey = none ∧ h.reduced crew w file s i = .ok a ∧
        (put w s i.cacheKey a).1 = .ok () := by
  rw [hpicks.made_eq htidy]
  cases s.cache.store.answer? w.volume i.cacheKey with
  | some answer => simp
  | none =>
    simp only [reduceCtorEq, false_or, true_and]
    cases h.reduced crew w file s i with
    | error e => simp [Except.bind]
    | ok b =>
      simp only [Except.bind, Except.ok.injEq]
      constructor
      · intro hmap
        cases hput : (put w s i.cacheKey b).1 with
        | error e =>
          rw [hput] at hmap
          cases hmap
        | ok u =>
          rw [hput] at hmap
          cases hmap
          exact ⟨rfl, hput⟩
      · rintro ⟨rfl, hput⟩
        rw [hput]
        rfl

/-- What is made of one of two files that share a place is made of the other one. -/
theorem IsReadyFor.made_alike (ready : h.IsReadyFor q d w files) (hsteady : crew.IsSteady)
    (hfile : file ∈ files) (hfile' : file' ∈ files) (hpicks : h.Picks w file s i)
    (hpicks' : h.Picks w file' s i')
    (hslot : s.cache.store.slotOf i'.cacheKey = s.cache.store.slotOf i.cacheKey) (a : Artifact) :
    h.made crew w file' = .ok a ↔ h.made crew w file = .ok a := by
  obtain ⟨hkey, hmedia, htype, hsource⟩ := ready.alike file hfile file' hfile' s i i' hpicks hpicks' hslot
  have hreduced : h.reduced crew w file' s i' = .ok a ↔ h.reduced crew w file s i = .ok a :=
    Reduction.outcome_passes_alike hsteady htype hmedia hsource s.transformer a
  rw [made_ok_iff ready.tidy hpicks, made_ok_iff ready.tidy hpicks', hkey, hreduced]

/-- A full compilation raises no signal if transformers raise none. -/
theorem IsReadyFor.isSignal_made (ready : h.IsReadyFor q d w files) (hquiet : crew.RaisesNoSignal)
    (hfile : file ∈ files) {e : Failure} (hmade : h.made crew w file = .error e) : e.isSignal = false := by
  rcases h.opening_cases w file with ⟨e', herror, hcause⟩ | ⟨s, i, hpicks, -⟩
  · obtain rfl := Except.error.inj ((made_of_error crew ready.tidy herror).symm.trans hmade)
    rcases hcause with hprint | rfl
    · obtain ⟨real, bytes, mtime, hsight, -⟩ := (ready.apart file hfile).seen
      unfold print at hprint
      rw [Work.fingerprint_fst hsight] at hprint
      cases hprint
    · rfl
  · rw [hpicks.made_eq ready.tidy] at hmade
    cases hanswer : s.cache.store.answer? w.volume i.cacheKey with
    | some answer =>
      rw [hanswer] at hmade
      subst hmade
      exact Store.isSignal_answer? hanswer
    | none =>
      rw [hanswer] at hmade
      cases hreduced : h.reduced crew w file s i with
      | error e' =>
        rw [hreduced] at hmade
        cases hmade
        exact Reduction.isSignal_outcome_passes hquiet h.next? h.settings.maxPasses file i s.transformer
          w.volume w.tools hreduced
      | ok a =>
        rw [hreduced] at hmade
        cases hput : (put w s i.cacheKey a).1 with
        | error e' =>
          simp only [Except.bind, hput] at hmade
          cases hmade
          exact (Store.isPlain_put _ _ _ _ _ hput).signal
        | ok u =>
          simp only [Except.bind, hput] at hmade
          cases hmade

end Sharing

/-! What becomes of a world while files are compiled -/

/-- Results that are there stay. -/
def ServesOn (h : Host) (v v' : Volume) : Prop :=
  ∀ name s key a, h.registry.slot? name = some s → s.cache.store.answer? v key = some (.ok a) →
    s.cache.store.answer? v' key = some (.ok a)

/-- What has become of a world while some of the files were compiled: the stores answer as they did, or serve
what is made of a file. -/
structure Since (h : Host) (crew : Crew σ) (q : Path) (d : Location) (files : List String)
    (w₀ w : World σ) : Prop where
  stands : h.Stands q d w.volume
  free : ∀ name s, h.registry.slot? name = some s →
    (Store.placeOf h.settings.backend d s.transformer.space).IsFree w.volume
  now : w.now = w₀.now
  advances : Volume.Advances (h.Owns d) w₀.volume w.volume
  prints : ∀ file ∈ files, h.print w file = h.print w₀ file
  answers : ∀ name s key, h.registry.slot? name = some s →
    s.cache.store.answer? w.volume key = s.cache.store.answer? w₀.volume key ∨
    s.cache.store.answer? w₀.volume key = none ∧ ∃ file ∈ files, ∃ i a, h.Picks w₀ file s i ∧
      s.cache.store.slotOf i.cacheKey = s.cache.store.slotOf key ∧ h.made crew w₀ file = .ok a ∧
      s.cache.store.answer? w.volume key = some (.ok a)

theorem servesOn_refl (h : Host) (v : Volume) : h.ServesOn v v := fun _ _ _ _ _ ha => ha

theorem ServesOn.trans {h : Host} {v v' v'' : Volume} (hserves : h.ServesOn v v')
    (hserves' : h.ServesOn v' v'') : h.ServesOn v v'' :=
  fun name s key a hs ha => hserves' name s key a hs (hserves name s key a hs ha)

section Going

variable {h : Host} {crew : Crew σ} {q : Path} {d : Location} {files : List String} {w₀ w w' : World σ}
variable {file : String} {s : Slot Cache} {i : Fingerprint}

theorem IsReadyFor.since (ready : h.IsReadyFor q d w₀ files) (crew : Crew σ) :
    h.Since crew q d files w₀ w₀ where
  stands := ready.stands
  free := ready.free
  now := rfl
  advances := Volume.Advances.refl _ _
  prints _ _ := rfl
  answers _ _ _ _ := .inl rfl

/-- Another setting of the journal, of the crew and of what fingerprinters remember. -/
theorem Since.congr (hsince : h.Since crew q d files w₀ w) (hvolume : w'.volume = w.volume)
    (hnow : w'.now = w.now) (hprints : ∀ file ∈ files, h.print w' file = h.print w file) :
    h.Since crew q d files w₀ w' where
  stands := hvolume ▸ hsince.stands
  free := hvolume ▸ hsince.free
  now := hnow.trans hsince.now
  advances := hvolume ▸ hsince.advances
  prints file hfile := (hprints file hfile).trans (hsince.prints file hfile)
  answers := hvolume ▸ hsince.answers

theorem Since.congr_desks (hsince : h.Since crew q d files w₀ w) (hvolume : w'.volume = w.volume)
    (hnow : w'.now = w.now) (hdesks : w'.desks = w.desks) : h.Since crew q d files w₀ w' :=
  hsince.congr hvolume hnow fun _ _ => Work.run_fingerprint_congr hdesks hvolume

/-- Taking a fingerprint is nothing to the other ones. -/
theorem Since.looked (hsince : h.Since crew q d files w₀ w) (hhere : AreProper w₀.volume.here)
    (file : String) {w' : World σ}
    (hvolume : w'.volume = ((Work.fingerprint h.desk (Path.ofText file)).run w).2.volume)
    (hnow : w'.now = ((Work.fingerprint h.desk (Path.ofText file)).run w).2.now)
    (hdesks : w'.desks = ((Work.fingerprint h.desk (Path.ofText file)).run w).2.desks) :
    h.Since crew q d files w₀ w' := by
  have hkept := Work.keeps_fingerprint h.desk (Path.ofText file) w
  simp only [Work.surroundings, Prod.mk.injEq] at hkept
  refine hsince.congr (hvolume.trans hkept.1) (hnow.trans hkept.2.2) fun file' _ => ?_
  have hproper : AreProper w.volume.here := by
    rw [hsince.advances.here]
    exact hhere
  exact (Work.run_fingerprint_congr hdesks hvolume).trans
    (Work.fingerprint_other hproper (Path.areProper_ofText _) (Path.areProper_ofText _))

theorem Since.picks (hsince : h.Since crew q d files w₀ w) (hfile : file ∈ files) :
    h.Picks w file s i ↔ h.Picks w₀ file s i := by
  unfold Picks
  rw [hsince.prints file hfile]

theorem Since.lacks (hsince : h.Since crew q d files w₀ w) {name key : String}
    (hs : h.registry.slot? name = some s) (hnone : s.cache.store.answer? w.volume key = none) :
    s.cache.store.answer? w₀.volume key = none := by
  rcases hsince.answers name s key hs with hsame | ⟨hlacks, -⟩
  · exact hsame.symm.trans hnone
  · exact hlacks

/-- What is answered for a file is what is made of it. -/
theorem Since.answered (hsince : h.Since crew q d files w₀ w) (ready : h.IsReadyFor q d w₀ files)
    (hsteady : crew.IsSteady) (hfile : file ∈ files) (hpicks : h.Picks w₀ file s i)
    {answer : Except Failure Artifact}
    (hanswer : s.cache.store.answer? w.volume i.cacheKey = some answer) :
    h.made crew w₀ file = answer := by
  rcases hsince.answers s.id s i.cacheKey (hpicks.slot? ready.tidy) with
    hsame | ⟨-, file', hfile', i', a, hpicks', hslot, hmade, hserves⟩
  · rw [hpicks.made_eq ready.tidy, ← hsame, hanswer]
  · cases hanswer.symm.trans hserves
    exact (ready.made_alike hsteady hfile' hfile hpicks' hpicks hslot.symm a).mpr hmade

/-- Transformers make of a file what they would have made at first. -/
theorem Since.reduced (hsince : h.Since crew q d files w₀ w) (ready : h.IsReadyFor q d w₀ files)
    (hsteady : crew.IsSteady) (hfile : file ∈ files) (s : Slot Cache) (i : Fingerprint) :
    h.reduced crew w file s i = h.reduced crew w₀ file s i :=
  (Reduction.readsOnly_passes h.next? h.settings.maxPasses _ 0 i s.transformer [] []).outcome_congr hsteady
    ((ready.apart file hfile).read hsince.advances) _ _

theorem Since.put_endAlike (hsince : h.Since crew q d files w₀ w) (ready : h.IsReadyFor q d w₀ files)
    {name : String} (hs : h.registry.slot? name = some s) (key : String) (a : Artifact) :
    EndAlike (put w₀ s key a).1 (put w s key a).1 :=
  Store.put_endAlike (ready.stands.places name s hs) (hsince.stands.places name s hs)
    (ready.free name s hs) (hsince.free name s hs) hsince.advances key _ _

/-- What is made of a file is stored. -/
theorem Since.stored (hsince : h.Since crew q d files w₀ w) (ready : h.IsReadyFor q d w₀ files)
    (hsteady : crew.IsSteady) (hfile : file ∈ files) (hpicks : h.Picks w₀ file s i)
    (hlacks : s.cache.store.answer? w₀.volume i.cacheKey = none) {a : Artifact}
    (hreduced : h.reduced crew w₀ file s i = .ok a) :
    EndAlike (h.made crew w₀ file) ((put w s i.cacheKey a).1.map fun _ => a) ∧
      h.Since crew q d files w₀ { w with volume := (put w s i.cacheKey a).2 } ∧
      h.ServesOn w.volume (put w s i.cacheKey a).2 ∧
      ((put w s i.cacheKey a).1 = .ok () →
        s.cache.store.answer? (put w s i.cacheKey a).2 i.cacheKey = some (.ok a)) := by
  have hs := hpicks.slot? ready.tidy
  have hend : EndAlike (h.made crew w₀ file) ((put w s i.cacheKey a).1.map fun _ => a) := by
    rw [hpicks.made_eq ready.tidy, hlacks, hreduced]
    exact (hsince.put_endAlike ready hs i.cacheKey a).map _
  have hdate : w.now.IsDate := hsince.now ▸ ready.date
  obtain ⟨stored, v', hput, hstores⟩ := Store.run_put (hsince.stands.places s.id s hs) i.cacheKey
    (show (Entry.ofArtifact w.now i.cacheKey s.cache.space a).createdAt.IsDate from hdate)
  have hrun : put w s i.cacheKey a = (stored, v') := hput
  rw [hrun] at hend ⊢
  have hserved : stored = .ok () → s.cache.store.answer? v' i.cacheKey = some (.ok a) := by
    intro hstored
    have hserves := hstores.serves hstored
    rw [(reduced_isWhole hreduced).toArtifact_ofArtifact] at hserves
    exact Store.answer?_eq_ok.mpr hserves
  -- only what is answered under keys at the same place can change
  have hanswers : ∀ name' s' key', h.registry.slot? name' = some s' →
      s'.cache.store.answer? v' key' = s'.cache.store.answer? w.volume key' ∨
      stored = .ok () ∧ s' = s ∧ s.cache.store.slotOf i.cacheKey = s.cache.store.slotOf key' := by
    intro name' s' key' hs'
    rcases hsince.stands.answers hs hstores hs' key' with hsame | ⟨hstored, hplace, hslot, -⟩
    · exact .inl (Store.answer?_congr hsame)
    · obtain rfl := ready.places name' s.id s' s hs' hs hplace
      obtain rfl := Option.some.inj (hs'.symm.trans hs)
      exact .inr ⟨hstored, rfl, hslot.symm⟩
  have hplaced : ∀ (v : Volume) (key' : String),
      s.cache.store.slotOf i.cacheKey = s.cache.store.slotOf key' →
      s.cache.store.answer? v key' = s.cache.store.answer? v i.cacheKey := by
    intro v key' hslot
    refine Store.answer?_congr fun now => ?_
    rw [Store.get_eq_of_slotOf now hslot.symm]
  have hfree : ∀ name' s', h.registry.slot? name' = some s' →
      (Store.placeOf h.settings.backend d s'.transformer.space).IsFree v' := by
    intro name' s' hs'
    have hkept := (hsince.free name' s' hs').put (hsince.stands.places s.id s hs) (hsince.free s.id s hs)
      i.cacheKey (Entry.ofArtifact w.now i.cacheKey s.cache.space a)
    rwa [hput] at hkept
  refine ⟨hend, ⟨hsince.stands.stores hstores, hfree, hsince.now, ?_, ?_, ?_⟩, ?_, hserved⟩
  · exact hsince.advances.trans (hstores.advances.mono fun l hl => ⟨s.id, s, hs, hl⟩)
  · intro file' hfile'
    rw [← hsince.prints file' hfile']
    refine (ready.apart file' hfile').print hsince.advances ?_ rfl
    exact hsince.advances.trans (hstores.advances.mono fun l hl => ⟨s.id, s, hs, hl⟩)
  · intro name' s' key' hs'
    change s'.cache.store.answer? v' key' = _ ∨ _ ∧ ∃ file ∈ files, ∃ i a, _ ∧ _ ∧ _ ∧
      s'.cache.store.answer? v' key' = _
    rcases hanswers name' s' key' hs' with hsame | ⟨hstored, rfl, hslot⟩
    · rw [hsame]
      exact hsince.answers name' s' key' hs'
    · have hmade : h.made crew w₀ file = .ok a := by
        refine (hend.symm.ok_iff a).mpr ?_
        rw [hstored]
        rfl
      exact .inr ⟨(hplaced _ _ hslot).trans hlacks, file, hfile, i, a, hpicks, hslot, hmade,
        (hplaced _ _ hslot).trans (hserved hstored)⟩
  · intro name' s' key' b hs' hb
    rcases hanswers name' s' key' hs' with hsame | ⟨hstored, rfl, hslot⟩
    · exact hsame.trans hb
    · -- what was served there before is what is stored now
      have hmade : h.made crew w₀ file = .ok a := by
        refine (hend.symm.ok_iff a).mpr ?_
        rw [hstored]
        rfl
      have hbefore := hsince.answered ready hsteady hfile hpicks ((hplaced _ _ hslot).symm.trans hb)
      cases hmade.symm.trans hbefore
      exact (hplaced _ _ hslot).trans (hserved hstored)

/-- A full compilation of one of the files ends as it would have ended at first. -/
theorem Since.compileFull (hsince : h.Since crew q d files w₀ w) (ready : h.IsReadyFor q d w₀ files)
    (hsteady : crew.IsSteady) (hfile : file ∈ files) :
    EndAlike (h.made crew w₀ file) ((h.compileFull crew file).run w).1 ∧
      h.Since crew q d files w₀ ((h.compileFull crew file).run w).2 ∧
      h.ServesOn w.volume ((h.compileFull crew file).run w).2.volume ∧
      ∀ a s i, ((h.compileFull crew file).run w).1 = .ok a → h.Picks w₀ file s i →
        s.cache.store.answer? ((h.compileFull crew file).run w).2.volume i.cacheKey = some (.ok a) := by
  have hkept := Work.keeps_fingerprint h.desk (Path.ofText file) w
  have hlooked : h.Since crew q d files w₀ ((Work.fingerprint h.desk (Path.ofText file)).run w).2 :=
    hsince.looked ready.here file rfl rfl rfl
  have hopening : h.opening w₀ file = h.opening w file := opening_congr (hsince.prints file hfile).symm
  have hfails : ∀ e, h.opening w file = .error e → ∃ journal, (h.compileFull crew file).run w = _ :=
    fun e => run_compileFull_of_error crew ready.tidy
  have hruns : ∀ s i, h.Picks w file s i → ∃ journal tools, (h.compileFull crew file).run w = _ :=
    fun s i hpicks => hpicks.run_compileFull crew ready.tidy
  generalize ((Work.fingerprint h.desk (Path.ofText file)).run w).2 = w₁ at hkept hlooked hfails hruns
  simp only [Work.surroundings, Prod.mk.injEq] at hkept
  obtain ⟨hvolume, -, hnow⟩ := hkept
  have hquiet : ∀ journal tools, h.Since crew q d files w₀ { w₁ with journal := journal, tools := tools } :=
    fun _ _ => hlooked.congr_desks rfl rfl rfl
  have hstays : h.ServesOn w.volume w₁.volume := hvolume.symm ▸ servesOn_refl h w.volume
  rcases h.opening_cases w file with ⟨e, herror, -⟩ | ⟨s, i, hpicks, -⟩
  · obtain ⟨journal, hrun⟩ := hfails e herror
    rw [hrun, made_of_error crew ready.tidy (hopening.trans herror)]
    refine ⟨.refl _, hquiet journal w₁.tools, hstays, fun _ _ _ hok _ => ?_⟩
    cases hok
  · have hpicks₀ := (hsince.picks hfile).mp hpicks
    have hpicked : ∀ {s' i'}, h.Picks w₀ file s' i' → s' = s ∧ i' = i := hpicks₀.unique
    obtain ⟨journal, tools, hrun⟩ := hruns s i hpicks
    cases hanswer : s.cache.store.answer? w.volume i.cacheKey with
    | some answer =>
      rw [hanswer] at hrun
      rw [hrun, hsince.answered ready hsteady hfile hpicks₀ hanswer]
      refine ⟨.refl _, hquiet journal tools, hstays, fun a s' i' ha hpicks' => ?_⟩
      obtain ⟨rfl, rfl⟩ := hpicked hpicks'
      change s'.cache.store.answer? w₁.volume _ = _
      rw [hvolume, hanswer]
      exact congrArg some ha
    | none =>
      have hlacks := hsince.lacks (hpicks₀.slot? ready.tidy) hanswer
      have hreduced := hsince.reduced ready hsteady hfile s i
      rw [hanswer] at hrun
      simp only at hrun
      cases hmade : h.reduced crew w file s i with
      | error e =>
        rw [hmade] at hrun hreduced
        rw [hrun, hpicks₀.made_eq ready.tidy, hlacks, ← hreduced]
        refine ⟨.refl _, hquiet journal tools, hstays, fun _ _ _ hok _ => ?_⟩
        cases hok
      | ok a =>
        rw [hmade] at hrun hreduced
        simp only at hrun
        have hput : put w s i.cacheKey a = put w₁ s i.cacheKey a := by
          unfold put
          rw [hvolume, hnow]
        obtain ⟨hend, hstored, hserves, hserved⟩ :=
          (hquiet journal tools).stored ready hsteady hfile hpicks₀ hlacks hreduced.symm
        rw [hrun, hput]
        refine ⟨hend, hstored, hstays.trans hserves, fun b s' i' hb hpicks' => ?_⟩
        obtain ⟨rfl, rfl⟩ := hpicked hpicks'
        cases hdone : (put w₁ s' i'.cacheKey a).1 with
        | error e =>
          rw [hdone] at hb
          cases hb
        | ok u =>
          rw [hdone] at hb
          cases hb
          exact hserved hdone

end Going

end Host
end AssetCompiler
