import AssetCompiler.Proofs.Deployments
import AssetCompiler.Proofs.GuardedRuns
import AssetCompiler.Proofs.StoreFailures

/-!
The files that compile failures name. A reduction names the file it was made for. Requests for files with
one key share a flight, and whatever comes of it names the file of the request that started it. So a failure
names the file that was asked for, or another one among those asked for together whose key in the same cache
is the same.
-/
namespace AssetCompiler

/-- If this is a compile failure, then it is about the file. -/
def Failure.IsAbout (file : String) (e : Failure) : Prop :=
  e.isCompileFailure = true → e.file? = some file

theorem Failure.isAbout_of_plain {e : Failure} (h : e.isCompileFailure = false) (file : String) :
    e.IsAbout file := by
  intro hkind
  cases h.symm.trans hkind

/-- Whatever has failed is about a file. -/
def FailsAbout {α : Type} (file : String) (r : Except Failure α) : Prop :=
  ∀ e, r = .error e → e.IsAbout file

theorem FailsPlainly.about {α : Type} {r : Except Failure α} (h : FailsPlainly r) (file : String) :
    FailsAbout file r := fun e he => Failure.isAbout_of_plain (h e he).compile file

theorem failsAbout_ok {α : Type} (file : String) (a : α) :
    FailsAbout file (.ok a : Except Failure α) := nofun

theorem failsAbout_error {α : Type} {file : String} {e : Failure} (h : e.IsAbout file) :
    FailsAbout file (.error e : Except Failure α) := by
  rintro _ ⟨⟩
  exact h

theorem Reading.failsPlainly_checked {α : Type} (r : Reading α) (model : String) :
    FailsPlainly (r.checked model) := by
  unfold Reading.checked
  split
  · exact failsPlainly_ok _
  · exact failsPlainly_error ⟨rfl, nofun, rfl⟩

/-- A crew that raises no compile failures of its own. -/
def Crew.RaisesNoCompileFailure {σ : Type} (crew : Crew σ) : Prop :=
  ∀ c s e, (crew.respond c s).1.outcome = .error e → e.isCompileFailure = false

/-- A stand-in names the file that it is called for. -/
theorem Crew.RaisesNoCompileFailure.answer {σ : Type} {crew : Crew σ}
    (h : crew.RaisesNoCompileFailure) (c : Call) (s : σ) :
    FailsAbout c.file (crew.answer c s).1.outcome := by
  unfold Crew.answer
  split
  · rename_i outcome hown
    unfold Call.ownAnswer? at hown
    split at hown <;> cases hown
    · exact failsAbout_ok _ _
    · exact failsAbout_ok _ _
    · exact failsAbout_ok _ _
    · exact failsAbout_ok _ _
    · exact failsAbout_error fun _ => rfl
  · exact fun e he => Failure.isAbout_of_plain (h c s e he) c.file

/-! Reductions -/

namespace Reduction

/-- However its questions are answered, a reduction fails about one file. -/
def IsAbout (file : String) : Reduction → Prop
  | .done outcome => FailsAbout file outcome
  | .note _ _ rest => rest.IsAbout file
  | .read _ rest => ∀ r, FailsPlainly r → (rest r).IsAbout file
  | .ask c rest => c.file = file ∧ ∀ reply, FailsAbout file reply.outcome → (rest reply).IsAbout file

/-- Progress of a reduction that fails about one file. -/
def Progress.IsAbout (file : String) : Progress → Prop
  | .finished outcome => FailsAbout file outcome
  | .waiting _ rest => rest.IsAbout file

variable {σ : Type} {crew : Crew σ} {file : String} {f : Frame} {q : Question}
variable {scratch : List (String × Json)}

/-- Going on with a reduction keeps what it fails about. -/
theorem IsAbout.proceed (hcrew : crew.RaisesNoCompileFailure) {r : Reduction} (h : r.IsAbout file)
    (waited : Nat) (w : World σ) :
    ∃ progress, ((r.proceed crew waited).run w).1 = .ok progress ∧ progress.IsAbout file := by
  induction r generalizing waited w with
  | done outcome => exact ⟨_, rfl, h⟩
  | note c e rest ih => exact ih h 0 _
  | read path rest ih =>
    obtain ⟨progress, hrun, habout⟩ := ih _ (h _ (failsPlainly_readSource path w)) 0
      ((readSource path).run w).2
    refine ⟨progress, ?_, habout⟩
    rw [Reduction.proceed, Action.run_bind_ok (Work.run_outcome _ w)]
    exact hrun
  | ask c rest ih =>
    rw [Reduction.proceed]
    split
    · exact ⟨_, rfl, h⟩
    · have hreply := hcrew.answer c w.tools
      rw [h.1] at hreply
      exact ih _ (h.2 _ hreply) 0 _

theorem IsAbout.asking {rest : Json → List (String × Json) → Reduction} (hfile : f.file = file)
    (h : ∀ v scratch, (rest v scratch).IsAbout file) : (f.asking q scratch rest).IsAbout file := by
  refine ⟨hfile, fun reply hreply => ?_⟩
  simp only
  split
  · rename_i e houtcome
    refine failsAbout_error ?_
    unfold blame
    split
    · exact hreply e houtcome
    · exact fun _ => congrArg some hfile
  · exact h _ reply.scratch

theorem IsAbout.withSource {i : Fingerprint} {path : String} {rest : String → Reduction}
    (h : ∀ code, (rest code).IsAbout file) : (withSource i path rest).IsAbout file := by
  unfold Reduction.withSource
  split
  · exact h _
  · intro r hr
    cases r with
    | ok code => exact h code
    | error e => exact failsAbout_error (Failure.isAbout_of_plain (hr e rfl).compile file)

theorem IsAbout.withDependencies {known : List Json}
    {rest : List Json → List (String × Json) → Reduction} (hfile : f.file = file)
    (h : ∀ items scratch, (rest items scratch).IsAbout file) :
    (f.withDependencies known scratch rest).IsAbout file := by
  unfold Frame.withDependencies
  split
  · refine IsAbout.asking hfile fun v scratch => ?_
    cases hitems : itemsOf v with
    | ok items => exact h items scratch
    | error e =>
      refine failsAbout_error (Failure.isAbout_of_plain ?_ file)
      unfold itemsOf at hitems
      split at hitems <;> cases hitems
      rfl
  · exact h known scratch

theorem IsAbout.withOutput {rest : Output → Reduction} (hfile : f.file = file)
    (h : ∀ o, (rest o).IsAbout file) : (f.withOutput scratch rest).IsAbout file := by
  refine IsAbout.asking hfile fun v _ => ?_
  split
  · exact h _
  · rename_i e hread
    refine failsAbout_error ?_
    have hplain := Reading.failsPlainly_checked _ _ e hread
    unfold blame
    split
    · exact Failure.isAbout_of_plain hplain.compile file
    · exact fun _ => congrArg some hfile

theorem isAbout_finish (code mediaType : String) (dependencies : List Json) :
    (finish code mediaType dependencies).IsAbout file :=
  (Reading.failsPlainly_checked _ _).about file

/-- The passes for a file fail about this file. -/
theorem isAbout_passes (next? : Option String → Option Transformer) (limit : Int)
    (left index : Nat) (i : Fingerprint) (t : Transformer) (known : List Json)
    (chain : List (Option String)) :
    (passes next? file limit left index i t known chain).IsAbout file := by
  induction left generalizing index i t known chain with
  | zero => exact failsAbout_error fun _ => rfl
  | succ left ih =>
    rw [passes]
    refine IsAbout.withSource fun code => IsAbout.asking rfl fun accepted scratch => ?_
    split
    · refine IsAbout.withDependencies rfl fun items scratch => IsAbout.withOutput rfl fun o => ?_
      split
      · exact isAbout_finish _ _ _
      · unfold IsAbout
        split
        · exact failsAbout_error fun _ => rfl
        · exact ih _ _ _ _ _
    · exact isAbout_finish _ _ _

end Reduction

/-! Files that stay as they are -/

namespace Volume

variable {v v' : Volume}

/-- What a path stands for depends on links only. -/
theorem Grows.expandWith (grows : Grows v v') (atLink : Location → List Step → Option Location)
    (stand : Location) (steps : List Step) :
    v'.expandWith atLink stand steps = v.expandWith atLink stand steps := by
  fun_induction Volume.expandWith v atLink stand steps with
  | case1 stand => rfl
  | case2 stand link rest ih =>
    rw [Volume.expandWith]
    exact ih
  | case3 stand rest ih =>
    rw [Volume.expandWith]
    exact ih
  | case4 stand name rest hname target hnode hmet =>
    rw [Volume.expandWith.eq_4 _ _ _ _ _ hname, (grows.link _ target).mpr hnode]
    simp only [hmet, if_true]
  | case5 stand name rest hname target hnode hmet t =>
    rw [Volume.expandWith.eq_4 _ _ _ _ _ hname, (grows.link _ target).mpr hnode]
    simp only [hmet]
    rfl
  | case6 stand name rest hname hnode ih =>
    rw [Volume.expandWith.eq_4 _ _ _ _ _ hname]
    split
    · rename_i target hlink
      exact absurd ((grows.link _ target).mp hlink) (hnode target)
    · exact ih

theorem Grows.expand (grows : Grows v v') (links : Nat) (stand : Location) (steps : List Step) :
    v'.expand links stand steps = v.expand links stand steps := by
  induction links generalizing stand steps with
  | zero => exact grows.expandWith _ stand steps
  | succ links ih =>
    have hnext : v'.expand links = v.expand links := by
      funext stand steps
      exact ih stand steps
    change v'.expandWith _ stand steps = v.expandWith _ stand steps
    rw [hnext]
    exact grows.expandWith _ stand steps

/-- A file that is not among what changes is seen as before. -/
theorem Advances.inspect {own : Location → Prop} (h : Advances own v v') {p real : Path}
    {bytes : List UInt8} {mtime : Int} (hsight : v.inspect p = .ok (real, bytes, mtime))
    (hown : ∀ l, v.locate true real = .ok l → ¬ own l) :
    v'.inspect p = .ok (real, bytes, mtime) := by
  obtain ⟨hreal, hzero, l, node, hstat, hcontent⟩ := inspect_ok.mp hsight
  obtain ⟨hlocate, hnode⟩ := stat_eq_ok_iff.mp hstat
  have hstat' : v'.stat real = .ok (l, node) :=
    stat_eq_ok_iff.mpr ⟨h.grows.locate hlocate, (h.node_of_not (hown l hlocate)).trans hnode⟩
  have hstart : v'.start p = v.start p := by
    unfold start
    rw [h.here]
  refine inspect_ok.mpr ⟨?_, hzero, l, node, hstat', hcontent⟩
  unfold realPath at hreal ⊢
  rw [hstart, h.grows.expand]
  split at hreal
  · cases hreal
  · rename_i hp
    rw [if_neg hp]
    simp only at hreal ⊢
    split at hreal
    · cases hreal
    · cases hreal
      rw [hstat']

end Volume

/-! Requests for files -/

namespace Host

open Concurrent

variable {σ : Type}

/-- The key that a compilation of a file asks for in this state of the files: that of its present content,
in the cache of the slot that is picked for it. -/
def Asks (h : Host) (options : ClassifyOptions) (v : Volume) (file : String) (key : FlightKey) :
    Prop :=
  ∃ real bytes mtime s isFallback, v.inspect (Path.ofText file) = .ok (real, bytes, mtime) ∧
    h.registry.select? (Path.ofText file) (Fingerprint.classify bytes real options) =
      some (s, isFallback) ∧
    key = (s.id, (Fingerprint.classify bytes real options).cacheKey)

/-- A failure names a file, or another one of those asked for that asks for the same key. -/
def Names (h : Host) (options : ClassifyOptions) (v : Volume) (files : List String) (file : String)
    (e : Failure) : Prop :=
  ∃ file' ∈ files, e.file? = some file' ∧
    (file' = file ∨ ∃ key, h.Asks options v file key ∧ h.Asks options v file' key)

/-- Files that are compiled together. -/
def plan (h : Host) (files : List String) (i : Nat) : Work σ Opening :=
  ((files.map h.openCompile)[i]?).getD (throw .cancelled)

theorem plan_of_getElem? {h : Host} {files : List String} {i : Nat} {file : String}
    (hmode : h.readOnly = false) (hi : files[i]? = some file) :
    (h.plan files i : Work σ Opening) = h.openFull file := by
  unfold plan openCompile
  rw [List.getElem?_map, hi, hmode]
  rfl

theorem plan_of_none {h : Host} {files : List String} {i : Nat} (hi : files[i]? = none) :
    (h.plan files i : Work σ Opening) = throw .cancelled := by
  unfold plan
  rw [List.getElem?_map, hi]
  rfl

/-- A file that can be read, is told by its size and time, and is none that the host stores results in. -/
def IsSource (h : Host) (d : Location) (past : List Volume) (v : Volume) (file : String) : Prop :=
  ∃ real bytes mtime, v.inspect (Path.ofText file) = .ok (real, bytes, mtime) ∧
    Volume.IsTold past real bytes mtime ∧ ∀ l, v.locate true real = .ok l → ¬ h.Owns d l

/-- A host stores below the directory of its caches. -/
theorem owns_below {h : Host} {d l : Location} (howns : h.Owns d l) :
    ∃ name rest, l = d ++ name :: rest := by
  obtain ⟨name, s, -, hplace⟩ := howns
  cases hbackend : h.settings.backend with
  | sqlite =>
    rw [hbackend] at hplace
    exact ⟨_, [], hplace⟩
  | json =>
    rw [hbackend] at hplace
    obtain ⟨file, rfl⟩ := hplace
    exact ⟨_, [file], by rw [List.append_assoc]; rfl⟩
  | unknown text =>
    rw [hbackend] at hplace
    obtain ⟨file, rfl⟩ := hplace
    exact ⟨_, [file], by rw [List.append_assoc]; rfl⟩

section Together

variable {h : Host} {crew : Crew σ} {options : ClassifyOptions} {q : Path} {d : Location}
variable {past : List Volume} {v₀ : Volume} {files : List String}

/-- A world in which the files are as they were. -/
structure Stays (h : Host) (options : ClassifyOptions) (q : Path) (d : Location) (past : List Volume)
    (v₀ : Volume) (w : World σ) : Prop where
  stands : h.Stands q d w.volume
  date : w.now.IsDate
  advances : Volume.Advances (h.Owns d) v₀ w.volume
  recalls : ∃ past', w.Recalls h.desk options past' ∧
    ∀ v ∈ past', v ∈ past ∨ Volume.Advances (h.Owns d) v₀ v

/-- What a stage of a flight may still fail about. -/
def StageAbout (file : String) (errand : Errand) : Stage → Prop
  | .looking => errand.work.IsAbout file
  | .fetching _ rest => rest.IsAbout file
  | .landed outcome => FailsAbout file outcome

/-- A flight is for the key of the file that was asked for first, and fails about this file. -/
structure Fetches (h : Host) (options : ClassifyOptions) (v₀ : Volume) (files : List String)
    (starter : Nat) (key : FlightKey) (errand : Errand) (stage : Stage) : Prop where
  slot : ∃ name s, h.registry.slot? name = some s ∧ errand.cache = s.cache
  file : ∃ file, files[starter]? = some file ∧ h.Asks options v₀ file key ∧
    StageAbout file errand stage

/-- What is watched when files are compiled together. -/
def naming (h : Host) (options : ClassifyOptions) (q : Path) (d : Location) (past : List Volume)
    (v₀ : Volume) (files : List String) : Watch σ where
  fine := h.Stays options q d past v₀
  later _ _ := True
  wants i key := ∃ file, files[i]? = some file ∧ h.Asks options v₀ file key
  meant _ := h.Fetches options v₀ files
  told _ i outcome := ∀ e, outcome = .error e → e.isCompileFailure = true →
    ∃ file, files[i]? = some file ∧ h.Names options v₀ files file e
  before _ _ := True

/-- A file is seen in all states of the run alike, and told from all that was seen before. -/
theorem IsSource.stays {file : String} (hsource : h.IsSource d past v₀ file) : ∃ real bytes mtime,
    v₀.inspect (Path.ofText file) = .ok (real, bytes, mtime) ∧
    (∀ v, Volume.Advances (h.Owns d) v₀ v →
      v.inspect (Path.ofText file) = .ok (real, bytes, mtime)) ∧
    ∀ past', (∀ v ∈ past', v ∈ past ∨ Volume.Advances (h.Owns d) v₀ v) →
      Volume.IsTold past' real bytes mtime := by
  obtain ⟨real, bytes, mtime, hsight, htold, hown⟩ := hsource
  refine ⟨real, bytes, mtime, hsight, fun v hadv => hadv.inspect hsight hown, ?_⟩
  intro past' hpast v hv file' bytes' hsight' hlength
  rcases hpast v hv with hmem | hadv
  · exact htold v hmem file' bytes' hsight' hlength
  · exact (Volume.inspect_unique (hadv.inspect hsight hown) hsight').1

/-- Another setting of the journal and of what fingerprinters remember. -/
theorem Stays.congr {w w' : World σ} (hstays : h.Stays options q d past v₀ w)
    (hvolume : w'.volume = w.volume) (hnow : w'.now = w.now)
    (hrecalls : ∃ past', w'.Recalls h.desk options past' ∧
      ∀ v ∈ past', v ∈ past ∨ Volume.Advances (h.Owns d) v₀ v) :
    h.Stays options q d past v₀ w' where
  stands := hvolume ▸ hstays.stands
  date := hnow ▸ hstays.date
  advances := hvolume ▸ hstays.advances
  recalls := hrecalls

theorem Stays.congr_desks {w w' : World σ} (hstays : h.Stays options q d past v₀ w)
    (hvolume : w'.volume = w.volume) (hnow : w'.now = w.now) (hdesks : w'.desks = w.desks) :
    h.Stays options q d past v₀ w' := by
  obtain ⟨past', hrecalls, hpast⟩ := hstays.recalls
  exact hstays.congr hvolume hnow ⟨past', hrecalls.mono hdesks fun v hv => hv, hpast⟩

/-- The first part of a compilation of one of the files. -/
theorem Stays.opens {w : World σ} (hstays : h.Stays options q d past v₀ w) (htidy : h.IsTidy)
    (hhere : ∀ v ∈ v₀ :: past, AreProper v.here) {i : Nat} {file : String}
    (hi : files[i]? = some file) (hsource : h.IsSource d past v₀ file) :
    h.Stays options q d past v₀ ((h.openFull file).run w).2 ∧
      (naming h options q d past v₀ files).Opens ((h.openFull file).run w).2 i
        ((h.openFull file).run w).1 := by
  obtain ⟨real, bytes, mtime, hsight₀, hsight, htold⟩ := hsource.stays
  obtain ⟨past', hrecalls, hpast⟩ := hstays.recalls
  have hproper : ∀ v ∈ w.volume :: past', AreProper v.here := by
    intro v hv
    have hadvanced : ∀ {v}, Volume.Advances (h.Owns d) v₀ v → AreProper v.here := fun hadv => by
      rw [hadv.here]
      exact hhere v₀ (List.mem_cons_self ..)
    rcases List.mem_cons.mp hv with rfl | hv
    · exact hadvanced hstays.advances
    · rcases hpast v hv with hmem | hadv
      · exact hhere v (List.mem_cons_of_mem _ hmem)
      · exact hadvanced hadv
  obtain ⟨print, w', hsees, hlooks, hrun⟩ :=
    run_openFull htidy hrecalls hproper (hsight w.volume hstays.advances)
  have hprint := hsees.right (htold past' hpast)
  have hsetting := hlooks.setting
  simp only [Prod.mk.injEq] at hsetting
  obtain ⟨hvolume, -, hnow, -⟩ := hsetting
  rw [hrun]
  refine ⟨hstays.congr hvolume hnow ⟨_, hlooks.recalls, ?_⟩, ?_⟩
  · intro v hv
    rcases List.mem_cons.mp hv with rfl | hv
    · exact .inr hstays.advances
    · exact hpast v hv
  · cases hselect : h.registry.select? (Path.ofText file) print with
    | none =>
      intro e he _
      cases he
      exact ⟨file, hi, file, List.mem_of_getElem? hi, rfl, .inl rfl⟩
    | some found =>
      obtain ⟨s, isFallback⟩ := found
      have hasks : h.Asks options v₀ file (s.id, print.cacheKey) :=
        ⟨real, bytes, mtime, s, isFallback, hsight₀, hprint ▸ hselect, by rw [hprint]⟩
      exact ⟨⟨file, hi, hasks⟩, ⟨s.id, s, htidy.slot?_of_select? hselect, rfl⟩,
        file, hi, hasks, Reduction.isAbout_passes _ _ _ _ _ _ _ _⟩

/-- A result is stored, or handed on only. -/
theorem Stays.deliver {w : World σ} (hstays : h.Stays options q d past v₀ w) {errand : Errand}
    (hslot : ∃ name s, h.registry.slot? name = some s ∧ errand.cache = s.cache) (a : Artifact) :
    h.Stays options q d past v₀ ((errand.deliver a).run w).2 := by
  cases hcontent : a.isPrecompiled with
  | false =>
    rw [errand.run_deliver_empty hcontent]
    exact hstays
  | true =>
    obtain ⟨name, s, hs, hcache⟩ := hslot
    have hat := hstays.stands.places name s hs
    rw [← hcache] at hat
    obtain ⟨r, v', hrun, hstores⟩ := errand.run_deliver hcontent hat hstays.date
    rw [hrun]
    rw [hcache] at hstores
    refine ⟨hstays.stands.stores hstores, hstays.date, ?_, ?_⟩
    · exact hstays.advances.trans (hstores.advances.mono fun l hl => ⟨name, s, hs, hl⟩)
    · obtain ⟨past', hrecalls, hpast⟩ := hstays.recalls
      exact ⟨past', hrecalls.mono rfl fun v hv => hv, hpast⟩

theorem Stays.reached {w : World σ} (hstays : h.Stays options q d past v₀ w) {file : String}
    {errand : Errand} (hslot : ∃ name s, h.registry.slot? name = some s ∧ errand.cache = s.cache)
    {progress : Reduction.Progress} (habout : progress.IsAbout file) :
    h.Stays options q d past v₀ (Flight.reached errand w (.ok progress)).2 ∧
      StageAbout file errand (Flight.reached errand w (.ok progress)).1 := by
  cases progress with
  | waiting waited rest => exact ⟨hstays, habout⟩
  | finished outcome =>
    cases outcome with
    | error e => exact ⟨hstays, habout⟩
    | ok a => exact ⟨hstays.deliver hslot a, (errand.failsPlainly_deliver a w).about file⟩

/-- Going on with a reduction writes nothing. -/
theorem Stays.proceed {w : World σ} (hstays : h.Stays options q d past v₀ w) (crew : Crew σ)
    (r : Reduction) (waited : Nat) :
    h.Stays options q d past v₀ ((r.proceed crew waited).run w).2 := by
  have hkept := r.keeps_proceed crew waited w
  simp only [Work.knowledge, Work.surroundings, Prod.mk.injEq] at hkept
  obtain ⟨⟨hvolume, -, hnow⟩, hdesks⟩ := hkept
  exact hstays.congr_desks hvolume hnow hdesks

theorem Stays.fetched {w : World σ} (hstays : h.Stays options q d past v₀ w) {file : String}
    {errand : Errand} (hslot : ∃ name s, h.registry.slot? name = some s ∧ errand.cache = s.cache)
    (hcrew : crew.RaisesNoCompileFailure) {r : Reduction} (habout : r.IsAbout file) (waited : Nat) :
    let stage := Flight.reached errand ((r.proceed crew waited).run w).2
      ((r.proceed crew waited).run w).1
    h.Stays options q d past v₀ stage.2 ∧ StageAbout file errand stage.1 := by
  obtain ⟨progress, hrun, hprogress⟩ := habout.proceed hcrew waited w
  intro stage
  have hstage : stage = Flight.reached errand ((r.proceed crew waited).run w).2 (.ok progress) := by
    rw [← hrun]
  rw [hstage]
  exact (hstays.proceed crew r waited).reached hslot hprogress

/-- The next part of a flight. -/
theorem Stays.next {w : World σ} (hstays : h.Stays options q d past v₀ w) {file : String}
    {errand : Errand} {stage : Stage}
    (hslot : ∃ name s, h.registry.slot? name = some s ∧ errand.cache = s.cache)
    (hcrew : crew.RaisesNoCompileFailure) (habout : StageAbout file errand stage) :
    h.Stays options q d past v₀ (Flight.next crew errand w stage).2 ∧
      StageAbout file errand (Flight.next crew errand w stage).1 := by
  cases stage with
  | landed outcome => exact ⟨hstays, habout⟩
  | fetching waited rest => exact hstays.fetched hslot hcrew habout waited
  | looking =>
    have hlooked : h.Stays options q d past v₀ ((errand.stored?).run w).2 := by
      have hkept := errand.keeps_stored? w
      simp only [Work.knowledge, Work.surroundings, Prod.mk.injEq] at hkept
      obtain ⟨⟨hvolume, -, hnow⟩, hdesks⟩ := hkept
      exact hstays.congr_desks hvolume hnow hdesks
    have hplain := errand.failsPlainly_stored? w
    unfold Flight.next
    rcases hstored : (errand.stored?).run w with ⟨found, w'⟩
    rw [hstored] at hlooked hplain
    rcases found with e | (_ | a)
    · exact ⟨hlooked, failsAbout_error (Failure.isAbout_of_plain (hplain e rfl).compile file)⟩
    · exact hlooked.fetched hslot hcrew habout 0
    · exact ⟨hlooked, failsAbout_ok file a⟩

theorem naming_rules (hmode : h.readOnly = false) (hcrew : crew.RaisesNoCompileFailure)
    (htidy : h.IsTidy) (hhere : ∀ v ∈ v₀ :: past, AreProper v.here)
    (hsources : ∀ file ∈ files, h.IsSource d past v₀ file) :
    (naming h options q d past v₀ files).Rules crew (h.plan files) where
  stays _ := trivial
  goes _ _ _ _ _ := trivial
  start _ := trivial
  opens w i hstays := by
    cases hi : files[i]? with
    | none =>
      rw [plan_of_none hi]
      refine ⟨hstays, trivial, ?_⟩
      intro e he hkind
      cases he
      cases hkind
    | some file =>
      rw [plan_of_getElem? hmode hi]
      exact (hstays.opens htidy hhere hi (hsources file (List.mem_of_getElem? hi))).imp_right
        fun hopens => And.intro trivial hopens
  notes w journal hstays := ⟨hstays.congr_desks rfl rfl rfl, trivial⟩
  carries w j key errand stage hstays hmeant := by
    obtain ⟨file, hj, hasks, habout⟩ := hmeant.file
    obtain ⟨hnext, hstage⟩ := hstays.next hmeant.slot hcrew habout
    exact ⟨hnext, trivial, hmeant.slot, file, hj, hasks, hstage⟩
  keepsMeant _ _ _ _ _ _ _ hmeant := hmeant
  keepsTold _ _ _ _ _ htold := htold
  tells w i j key errand outcome _ hwants _ hmeant := by
    intro e he hkind
    obtain ⟨file, hi, hasks⟩ := hwants
    obtain ⟨file', hj, hasks', habout⟩ := hmeant.file
    exact ⟨file, hi, file', List.mem_of_getElem? hj, habout e he hkind, .inr ⟨key, hasks, hasks'⟩⟩

theorem naming_cancels (w : World σ) (i : Nat) :
    (naming h options q d past v₀ files).told w i (.error .cancelled) := by
  intro e he hkind
  cases he
  cases hkind

/-- Compile failures of files that are compiled together name the file that was asked for, or another one
of them that asks for the same key: whatever the order of the steps, whoever is given up and however many
may be under way. -/
theorem together_names {w : World σ} {permits : Option Nat} {jobs : List Job} {m : Machine σ}
    (hmode : h.readOnly = false) (hcrew : crew.RaisesNoCompileFailure) (htidy : h.IsTidy)
    (hstands : h.Stands q d w.volume) (hnow : w.now.IsDate)
    (hrecalls : w.Recalls h.desk options past) (hhere : ∀ v ∈ w.volume :: past, AreProper v.here)
    (hsources : ∀ file ∈ files, h.IsSource d past w.volume file)
    (hsteps : Relation.ReflTransGen (Machine.Step crew (h.plan files))
      ((Machine.initial w files.length permits).push jobs) m)
    {i : Nat} {e : Failure} (hsettled : m.request i = .settled (.error e))
    (hkind : e.isCompileFailure = true) :
    ∃ file, files[i]? = some file ∧ h.Names options w.volume files file e := by
  have hstays : h.Stays options q d past w.volume w :=
    ⟨hstands, hnow, Volume.Advances.refl _ _, past, hrecalls, fun v hv => .inl hv⟩
  have hrules : (naming h options q d past w.volume files).Rules crew (h.plan files) :=
    naming_rules hmode hcrew htidy hhere hsources
  have hguarded : m.Guarded (naming h options q d past w.volume files) :=
    (Machine.Guarded.initial hstays files.length permits jobs).steps hrules (fun _ _ => trivial)
      naming_cancels hsteps
  have htold := hguarded.requests i
  rw [hsettled] at htold
  exact htold e rfl hkind

end Together

/-! Two files with the same content, and a transformer that fails on it -/

open Deploys

/-- Transformations fail with an exception. -/
def failingCrew : Crew Nat where
  respond c n :=
    match c.question with
    | .accepts => (⟨.ok (.bool true), []⟩, n)
    | .dependencies => (⟨.ok (.arr []), []⟩, n)
    | .transform => (⟨.error (.raised "ValueError" "bad input"), []⟩, n)
  pauses _ := 0

def twinStart : World Nat :=
  { smallWorld with volume := ⟨[(["p.txt"], .file [97] 5), (["r.txt"], .file [97] 6)], [], 0⟩ }

def twinHost : Host := (Work.left smallBuild twinStart).1

def twinWorld : World Nat := (Work.left smallBuild twinStart).2

def twins : List String := ["/p.txt", "/r.txt"]

def twinEnd : Machine Nat :=
  ((Machine.initial twinWorld twins.length none).push []).runAll failingCrew (twinHost.plan twins) 20

theorem steps_twinEnd : Relation.ReflTransGen (Machine.Step failingCrew (twinHost.plan twins))
    ((Machine.initial twinWorld twins.length none).push []) twinEnd :=
  Machine.steps_runAll _ _ _ _

/-- The file that a settled compile failure names. -/
def namedBy? : Request → Option String
  | .settled (.error e) => if e.isCompileFailure then e.file? else none
  | _ => none

theorem of_namedBy? {r : Request} {file : String} (h : namedBy? r = some file) :
    ∃ e, r = .settled (.error e) ∧ e.isCompileFailure = true ∧ e.file? = some file := by
  unfold namedBy? at h
  split at h
  · rename_i e
    split at h
    · rename_i hkind
      exact ⟨e, rfl, hkind, h⟩
    · cases h
  · cases h

/-- The files, and where they lie. -/
def twinFiles : List (String × Path × List UInt8 × Int) :=
  [("/p.txt", ⟨"/", ["p.txt"]⟩, [97], 5), ("/r.txt", ⟨"/", ["r.txt"]⟩, [97], 6)]

/-- The host is built and sees the files. The failure of the second request names the first file. -/
theorem twinRuns : (smallBuild.run twinStart).1.isOk = true ∧
    Volume.sees smallRoot ["cache"] twinFiles twinWorld.volume = true ∧
    (∀ name ∈ ["p.txt", "r.txt"],
      (twinWorld.volume.locate true ⟨"/", [name]⟩).toOption = some [name]) ∧
    namedBy? (twinEnd.request 1) = some "/p.txt" := by
  decide +kernel

theorem namedBy?_twinEnd : namedBy? (twinEnd.request 1) = some "/p.txt" := twinRuns.2.2.2

theorem isSeen_twinWorld : Volume.IsSeen smallRoot ["cache"] twinFiles twinWorld.volume :=
  .of_sees twinRuns.2.1

theorem failingCrew_raises : failingCrew.RaisesNoCompileFailure := by
  intro c n e he
  unfold failingCrew at he
  simp only at he
  split at he <;> cases he
  rfl

theorem twinBuild_run : smallBuild.run twinStart = (.ok twinHost, twinWorld) :=
  Work.run_eq_left twinRuns.1

theorem twinHost_isBuilt : twinHost.IsBuilt smallRoot smallRoot
    [(MediaType.plainText, smallTransformer)] 0 none none smallSettings :=
  (build_ok twinBuild_run (expandHome?_smallRoot _)).1

theorem twinWorld_setting : setting twinWorld = setting twinStart :=
  (build_ok twinBuild_run (expandHome?_smallRoot _)).2.2.1

theorem twinHost_stands : twinHost.Stands smallRoot ["cache"] twinWorld.volume :=
  stands_of_build twinBuild_run (expandHome?_smallRoot _) isSeen_twinWorld.isRoot

/-- A file beside the directory of the caches. -/
theorem isSource_of_beside {name : String} (bytes : List UInt8) (mtime : Int)
    (hname : name ≠ "cache")
    (hsight : twinWorld.volume.inspect (Path.ofText ("/" ++ name)) = .ok (⟨"/", [name]⟩, bytes, mtime))
    (hthere : (twinWorld.volume.locate true ⟨"/", [name]⟩).toOption = some [name]) :
    twinHost.IsSource ["cache"] [] twinWorld.volume ("/" ++ name) := by
  refine ⟨⟨"/", [name]⟩, bytes, mtime, hsight, List.forall_mem_nil _, ?_⟩
  intro l hl howns
  obtain ⟨first, rest, heq⟩ := owns_below howns
  rw [hl] at hthere
  cases Option.some.inj hthere
  exact hname (List.cons.inj heq).1

theorem isSource_twins : ∀ file ∈ twins, twinHost.IsSource ["cache"] [] twinWorld.volume file := by
  have hp : twinHost.IsSource ["cache"] [] twinWorld.volume ("/" ++ "p.txt") :=
    isSource_of_beside [97] 5 (by decide)
      (isSeen_twinWorld.inspects ("/p.txt", _, _, _) List.mem_cons_self)
      (twinRuns.2.2.1 _ List.mem_cons_self)
  have hr : twinHost.IsSource ["cache"] [] twinWorld.volume ("/" ++ "r.txt") :=
    isSource_of_beside [97] 6 (by decide)
      (isSeen_twinWorld.inspects ("/r.txt", _, _, _) (List.mem_cons_of_mem _ List.mem_cons_self))
      (twinRuns.2.2.1 _ (List.mem_cons_of_mem _ List.mem_cons_self))
  exact List.forall_mem_cons.mpr ⟨hp, List.forall_mem_singleton.mpr hr⟩

theorem together_names_twins : ∃ e, twinEnd.request 1 = .settled (.error e) ∧
    e.isCompileFailure = true ∧
    ∃ file, twins[1]? = some file ∧ twinHost.Names .standard twinWorld.volume twins file e := by
  obtain ⟨e, hsettled, hkind, -⟩ := of_namedBy? namedBy?_twinEnd
  have hsetting := twinWorld_setting
  simp only [setting, Prod.mk.injEq] at hsetting
  obtain ⟨-, hdesks, hnow, -⟩ := hsetting
  refine ⟨e, hsettled, hkind, ?_⟩
  refine together_names (q := smallRoot) ?_ failingCrew_raises
    twinHost_isBuilt.isTidy twinHost_stands ?_ (World.recalls_fresh ?_) ?_ isSource_twins
    steps_twinEnd hsettled hkind
  · exact twinHost_isBuilt.readOnly
  · rw [hnow]
    exact smallWorld_isDate
  · rw [twinHost_isBuilt.desk, hdesks]
    rfl
  · intro v hv
    rw [List.mem_singleton.mp hv, isSeen_twinWorld.here]
    exact fun _ hname => absurd hname List.not_mem_nil

/-- The failure of the second file names the first. -/
theorem not_names_own : twinHost.readOnly = false ∧ failingCrew.RaisesNoCompileFailure ∧
    (∀ file ∈ twins, twinHost.IsSource ["cache"] [] twinWorld.volume file) ∧
    ∃ m e, Relation.ReflTransGen (Machine.Step failingCrew (twinHost.plan twins))
      ((Machine.initial twinWorld twins.length none).push []) m ∧ m.request 1 = .settled (.error e) ∧
      e.isCompileFailure = true ∧ twins[1]? = some "/r.txt" ∧ e.file? = some "/p.txt" := by
  obtain ⟨e, hsettled, hkind, hfile⟩ := of_namedBy? namedBy?_twinEnd
  exact ⟨twinHost_isBuilt.readOnly, failingCrew_raises, isSource_twins, twinEnd, e, steps_twinEnd, hsettled,
    hkind, rfl, hfile⟩

end Host

end AssetCompiler
