import AssetCompiler.Proofs.AgreeingWalks
import AssetCompiler.Proofs.LaterRuns
import AssetCompiler.Proofs.LogFiles

/-!
What a run over a directory is for. It ends well just if all its files compile. Then a later run for one of them
prints what was compiled, whether it only reads or could compile itself; otherwise the files that a run leaves
for later ones are as they were.
-/
namespace AssetCompiler

open Volume

theorem Volume.Spares.trans {q : Path} {d : Location} {v v' v'' : Volume} (h : Spares q d v v')
    (h' : Spares q d v' v'') : Spares q d v v'' :=
  ⟨h'.root, fun rest => (h'.node rest).trans (h.node rest), h'.here⟩

namespace MediaMap

/-- Plain text is always served. -/
theorem ne_nil_of_build {σ : Type} {ts : List Transformer} {passthrough : Transformer} {w w' : World σ}
    {map : Keyed String Transformer} (hrun : (build ts true passthrough).run w = (.ok map, w')) : map ≠ [] := by
  obtain ⟨map', journal, hagain, -, hfind⟩ := run_build ts passthrough w
  cases hrun.symm.trans hagain
  have hplain := hfind MediaType.plainText
  rw [if_pos rfl] at hplain
  intro hnil
  rw [hnil] at hplain
  change none = _ at hplain
  cases hlast : lastServing ts MediaType.plainText <;> rw [hlast] at hplain <;> cases hplain

end MediaMap

namespace Host

variable {σ : Type} {h : Host} {crew : Crew σ} {wanted : String → Bool} {root q : Path} {d : Location}
variable {w w' : World σ}

/-- Files can still be visited when others have spared the caches. -/
theorem MayVisit.spared (hmay : h.MayVisit q d w) (hspares : Volume.Spares q d w.volume w'.volume)
    (hkept : (w'.desks, w'.now) = (w.desks, w.now)) : h.MayVisit q d w' := by
  simp only [Prod.mk.injEq] at hkept
  obtain ⟨hdesks, hnow⟩ := hkept
  exact {
    mode := hmay.mode
    limit := hmay.limit
    tidy := hmay.tidy
    stands := (hmay.stands.leaves_of_spares hspares).stands
    distinct := by
      unfold Work.Distinct
      rw [hdesks]
      exact hmay.distinct
    here := hspares.here
    date := by
      rw [hnow]
      exact hmay.date }

end Host

namespace CommandLine

variable {σ τ : Type}

/-! Runs and what they find -/

/-- A run of the program: what it is given, and what it makes of that. -/
structure Launch (σ : Type) where
  surroundings : Surroundings σ
  words : List String
  invocation : Invocation
  log : Log.Setup
  settings : Settings
  root : Path
  start : World σ

namespace Launch

variable (c : Launch σ)

/-- The world once the log is open. -/
def opened : World σ := ((openLog c.invocation.verbose).run c.start).2

/-- The end of the run. -/
def ended : Except Failure Ending × World σ := (run c.surroundings c.words).run c.start

/-- The run reads its words, opens its log, and finds its settings and its directory of caches. -/
structure Opens : Prop where
  parses : parse c.words = .ok c.invocation
  logs : ((openLog c.invocation.verbose).run c.start).1 = .ok c.log
  loads : (loadSettings c.invocation.cacheDir).run c.opened = (.ok c.settings, c.opened)
  expands : c.settings.cacheRoot.expandHome? (c.opened.environment.lookup "HOME") = some c.root
  plain : c.root.expandHome? (c.opened.environment.lookup "HOME") = some c.root

variable {c}

theorem Opens.run_openLog (h : c.Opens) :
    (openLog c.invocation.verbose).run c.start = (.ok c.log, c.opened) :=
  Prod.ext h.logs rfl

end Launch

/-- A run over a directory, with the host that it builds and the location of its caches. -/
structure Precompilation (σ : Type) extends Launch σ where
  place : Location
  directory : Path
  classPaths : List String
  excludes : List String
  host : Host

namespace Precompilation

section Stages

variable (r : Precompilation σ)

/-- The world in which the host is built. -/
def built : World σ := ((begin r.surroundings r.invocation).run r.opened).2

/-- The world in which the visits begin. -/
def drained : World σ := ((drain r.surroundings r.invocation.verbose r.log).run r.built).2

/-- How the task ends. -/
def finished : Except Failure (Nat × String) × World σ :=
  (finish r.surroundings (.tree r.host r.directory r.excludes)).run r.drained

/-- A file that is below the directory, and not excluded. -/
def Wants (p : Path) : Prop :=
  p ∈ r.drained.volume.files r.directory ∧ isWanted r.excludes p.text = true

/-- Nobody interrupts the visits, and all wanted files compile. -/
def Compiles : Prop :=
  r.host.AllCompile r.surroundings.crew (isWanted r.excludes) r.directory r.drained

def EndsWell : Prop := ∃ output errors, r.ended.1 = .ok ⟨0, output, errors⟩

/-- What was remembered of a file under its size and its time is right. -/
def RemembersRightly (real : Path) (bytes : List UInt8) (mtime : Int) : Prop :=
  ∀ i, r.host.Knows r.drained real bytes.length mtime i →
    i = Fingerprint.classify bytes real r.settings.classifyOptions

/-- The run builds a full host. There are no links among the caches, and no directories where a run leaves its
files. -/
structure Starts : Prop extends r.Opens where
  task : r.invocation.task = .compileAll r.directory r.classPaths r.excludes
  mode : r.settings.readOnly = false
  builds : ((begin r.surroundings r.invocation).run r.opened).1 =
    .ok (.tree r.host r.directory r.excludes)
  rooted : r.built.volume.IsRoot r.root r.place
  free : ∀ name ∈ stateFiles, r.built.volume.nodeAt? (r.place ++ [name]) ≠ some .directory
  unlinked : ∀ name ∈ stateFiles, ∀ target, r.start.volume.nodeAt? (r.place ++ [name]) ≠ some (.link target)
  here : AreProper r.opened.volume.here
  date : r.opened.now.IsDate

/-- Besides, the files of its log lie outside the caches. -/
structure Begins : Prop extends r.Starts where
  outside : LogsOutside r.log r.place r.built.volume

/-- A later run for a file of the directory: it has the settings of the first one, and its classes unless it only
reads. In between others have spared the caches. -/
structure Precedes (c : Launch τ) (p : Path) (readOnly asJson : Bool) : Prop extends c.Opens where
  settings : c.settings = r.settings
  root : c.root = r.root
  task : ∃ classPaths, c.invocation.task = .compile p classPaths readOnly asJson ∧
    (readOnly = false → classPaths = r.classPaths ∧ c.surroundings.catalogue = r.surroundings.catalogue)
  spares : Volume.Spares r.root r.place r.ended.2.volume c.opened.volume
  there : c.opened.volume.isFile p = .ok true

end Stages

variable {r : Precompilation σ} {c : Launch τ}

namespace Begins

theorem run_begin (h : r.Begins) : (begin r.surroundings r.invocation).run r.opened =
    (.ok (.tree r.host r.directory r.excludes), r.built) :=
  Prod.ext h.builds rfl

/-- The directory is there, and the host is built before its task is reported. -/
theorem run_buildHost (h : r.Begins) : r.opened.volume.isDirectory r.directory = .ok true ∧ ∃ w journal,
    (buildHost r.surroundings r.invocation.cacheDir r.classPaths false).run r.opened = (.ok r.host, w) ∧
    r.built = { w with journal := journal } := by
  have hbegin := h.run_begin
  unfold begin at hbegin
  rw [h.task] at hbegin
  simp only at hbegin
  obtain ⟨there, w, hlook, hbegin⟩ := Action.of_run_bind_ok hbegin
  rw [Work.run_look] at hlook
  obtain ⟨hthere, rfl⟩ := Prod.mk.inj hlook
  cases there with
  | false =>
    obtain ⟨_, _, -, hend⟩ := Action.of_run_bind_ok hbegin
    cases hend
  | true =>
    obtain ⟨host, w, hbuild, hbegin⟩ := Action.of_run_bind_ok hbegin
    obtain ⟨_, w', hreport, hend⟩ := Action.of_run_bind_ok hbegin
    obtain ⟨hprogress, hworld⟩ := Prod.mk.inj hend
    cases hprogress
    cases hreport
    exact ⟨hthere, w, _, hbuild, hworld.symm⟩

/-- What the host is built of, and what it finds. -/
structure Built (r : Precompilation σ) (n : Nat) (types : List (String × Transformer)) : Prop where
  host : r.host.IsBuilt r.root r.root types n none none r.settings
  staff : IsStaff r.surroundings.catalogue r.settings r.classPaths types
  consistent : Registry.IsConsistent (Registry.registered types none)
  options : (r.built.fingerprinter r.host.desk).options = r.settings.classifyOptions
  furnishes : Furnishes (r.root.child Store.databaseName) r.opened.volume r.built.volume
  zero : hasZero r.root = false
  plain : r.root.expandHome? (r.built.environment.lookup "HOME") = some r.root

theorem exists_built (h : r.Begins) : ∃ n types, Built r n types := by
  obtain ⟨-, w, journal, hrun, hworld⟩ := h.run_buildHost
  obtain ⟨n, w₁, types, journal', hprepares, hstaff, hbuild⟩ := of_buildHost h.loads h.expands h.mode hrun
  have hkept := hprepares.kept
  simp only [Prod.mk.injEq] at hkept
  obtain ⟨hvolume, henvironment, -⟩ := hkept
  have hplain : r.root.expandHome?
      (({ w₁ with journal := journal' } : World σ).environment.lookup "HOME") = some r.root := by
    rw [henvironment]
    exact h.plain
  obtain ⟨hbuilt, -, hsetting, -⟩ := Host.build_ok hbuild hplain
  simp only [Host.setting, Prod.mk.injEq] at hsetting
  obtain ⟨hsame, hdesks, -, -⟩ := hsetting
  have hslots : Registry.registered types none ≠ [] := by
    obtain ⟨ts, -, hmapped⟩ := hstaff.mapped
    obtain ⟨_, hmap⟩ := hmapped σ w
    have htypes := MediaMap.ne_nil_of_build hmap
    unfold Registry.registered
    simpa using htypes
  obtain ⟨hfurnishes, hzero⟩ := Host.build_furnishes hbuild hplain hslots
  obtain ⟨f, hf, hoptions, -⟩ := hprepares.desk
  refine ⟨n, types, hbuilt, hstaff, hstaff.isConsistent hbuild, ?_, ?_, hzero, ?_⟩
  · rw [hworld]
    unfold World.fingerprinter
    rw [hbuilt.desk]
    change ((Keyed.find? n w.desks).getD (.fresh .standard)).options = _
    rw [hdesks, hf]
    exact hoptions
  · rw [hworld, ← hvolume]
    exact hfurnishes
  · rw [hworld]
    change r.root.expandHome? (w.environment.lookup "HOME") = some r.root
    rw [hsame]
    exact hplain

/-- The first lines of the log leave the caches alone. -/
theorem drains (h : r.Begins) : Volume.Spares r.root r.place r.built.volume r.drained.volume ∧
    LogsOutside r.log r.place r.drained.volume ∧ Grows r.built.volume r.drained.volume ∧
    (r.drained.environment, r.drained.desks, r.drained.now) =
      (r.built.environment, r.built.desks, r.built.now) ∧
    ∃ early, (drain r.surroundings r.invocation.verbose r.log).run r.built = (.ok early, r.drained) := by
  obtain ⟨n, types, hbuilt⟩ := h.exists_built
  have hhere : AreProper r.built.volume.here := hbuilt.furnishes.grows.here ▸ h.here
  obtain ⟨early, records, hdrain⟩ := run_drain_emitAll r.surroundings r.invocation.verbose r.log r.built
  obtain ⟨own, hreplaces, -⟩ := h.outside.replaces h.rooted.directory r.built.now records
  have hworld : r.drained = _ := congrArg Prod.snd hdrain
  refine ⟨?_, ?_, ?_, ?_, early, Prod.ext (by rw [hdrain]) rfl⟩
  · rw [hworld]
    exact h.outside.spares h.rooted hhere r.built.now records
  · rw [hworld]
    exact h.outside.replaced hreplaces
  · rw [hworld]
    exact hreplaces.grows
  · rw [hworld]

/-- The directory is still there when the visits begin. -/
theorem there (h : r.Begins) : r.drained.volume.isDirectory r.directory = .ok true := by
  obtain ⟨hthere, -⟩ := h.run_buildHost
  obtain ⟨n, types, hbuilt⟩ := h.exists_built
  obtain ⟨-, -, hgrows, -⟩ := h.drains
  exact isDirectory_of_grows (hbuilt.furnishes.grows.trans hgrows) hthere

theorem mayFinish (h : r.Begins) : MayFinish r.host r.root r.place r.directory r.drained := by
  obtain ⟨-, w, journal, hrun, hworld⟩ := h.run_buildHost
  obtain ⟨n, types, hbuilt⟩ := h.exists_built
  obtain ⟨hspares, -, -, hkept, -⟩ := h.drains
  simp only [Prod.mk.injEq] at hkept
  obtain ⟨henvironment, hdesks, hnow⟩ := hkept
  have hvisits : r.host.MayVisit r.root r.place w := by
    refine mayVisit_of_buildHost h.loads h.expands h.plain h.mode hrun ?_ h.here h.date
    have hroot := h.rooted
    rw [hworld] at hroot
    exact hroot
  exact {
    visits := by
      refine hvisits.spared ?_ ?_
      · rw [hworld] at hspares
        exact hspares
      · rw [hdesks, hnow, hworld]
    directory := h.there
    zero := hbuilt.zero
    cache := by rw [hbuilt.host.settings]
    plain := by
      rw [henvironment]
      exact hbuilt.plain
    free := by
      intro name hname
      rw [hspares.node]
      exact h.free name hname }

/-! The end of the run -/

/-- When all wanted files compile, then the run ends well, and a later one finds what it has left. -/
theorem leaves (h : r.Begins) (hall : r.Compiles) : r.EndsWell ∧
    ((visited r.surroundings r.host r.directory r.excludes r.drained).fingerprinter
      r.host.desk).memory.keys.Nodup ∧
    ∃ v, Leaves r.host r.root r.place
        ((visited r.surroundings r.host r.directory r.excludes r.drained).fingerprinter r.host.desk)
        (visited r.surroundings r.host r.directory r.excludes r.drained).volume v ∧
      Volume.Spares r.root r.place v r.ended.2.volume := by
  obtain ⟨hdrained, houtside, -, -, early, hdrain⟩ := h.drains
  obtain ⟨w, hfinish, hkeys, hleaves, hreplaces⟩ := h.mayFinish.run_finish hall
  have hspares : LogSpares r.log r.root r.place w.volume :=
    (houtside.replaced hreplaces).spares hleaves.stores.stands.root (hreplaces.here ▸ hdrained.here)
  obtain ⟨late, w', hlate, hrun⟩ := run_of_finish h.parses h.run_openLog h.run_begin hdrain hfinish
  obtain ⟨_, w'', hlate', hspared, -⟩ := hspares.drain r.surroundings r.invocation.verbose
  cases hlate.symm.trans hlate'
  have hended : r.ended = _ := hrun
  unfold EndsWell
  rw [hended]
  exact ⟨⟨_, _, rfl⟩, hkeys, w.volume, hleaves, hspared⟩

/-- When a wanted file fails, then the run does not end well, and the files of earlier runs are as they
were. -/
theorem restores (h : r.Begins) (hfails : ¬ r.Compiles) : ¬ r.EndsWell ∧
    ∀ name ∈ stateFiles, r.ended.2.volume.nodeAt? (r.place ++ [name]) =
      r.start.volume.nodeAt? (r.place ++ [name]) := by
  obtain ⟨n, types, hbuilt⟩ := h.exists_built
  obtain ⟨hspares, houtside, -, -, early, hdrain⟩ := h.drains
  obtain ⟨e, w, hfinish, hreplaces⟩ := h.mayFinish.run_finish_of_failure hfails
  have hroot := hspares.root.grows hreplaces.grows
  have hhere : AreProper w.volume.here := hreplaces.here ▸ hspares.here
  have hlate := (houtside.replaced hreplaces).spares hroot hhere
  obtain ⟨result, w', hrun, hends, hspared⟩ :=
    run_of_finish_error h.parses h.run_openLog h.run_begin hdrain hfinish hlate hroot hhere
  have hended : r.ended = (result, w') := hrun
  refine ⟨?_, fun name hname => ?_⟩
  · rintro ⟨output, errors, hwell⟩
    rw [hended] at hwell
    exact hends output errors hwell
  · have hname' : r.place ++ [Store.databaseName] ≠ r.place ++ [name] := by
      intro heq
      have : Store.databaseName = name := (List.cons.inj (List.append_cancel_left heq)).1
      subst this
      exact absurd hname (by decide)
    have hdatabase : r.built.volume.locate true (r.root.child Store.databaseName) ≠ .ok (r.place ++ [name]) := by
      rw [h.rooted.locate true Store.isName_databaseName]
      split
      · exact nofun
      · intro heq
        exact hname' (Except.ok.inj heq)
    rw [hended, hspared.node, hreplaces.node_of_not (not_owns_stateFile hname), hspares.node,
      hbuilt.furnishes.same (h.free name hname) hdatabase]
    exact h.outside.keeps h.run_openLog hbuilt.furnishes.grows (h.unlinked name hname) (h.free name hname)

/-- A file that was remembered rightly, or not at all, is seen for what it is. -/
theorem classify_of_picks (h : r.Begins) {file : String} {real : Path} {bytes : List UInt8} {mtime : Int}
    (hsees : r.host.SeesOutside r.place r.drained.volume file real bytes mtime)
    (hright : r.RemembersRightly real bytes mtime) {s : Slot Cache} {i : Fingerprint}
    (hpicks : r.host.Picks r.drained file s i) :
    i = Fingerprint.classify bytes real r.settings.classifyOptions := by
  obtain ⟨n, types, hbuilt⟩ := h.exists_built
  obtain ⟨-, -, -, hkept, -⟩ := h.drains
  simp only [Prod.mk.injEq] at hkept
  have hoptions : (r.drained.fingerprinter r.host.desk).options = r.settings.classifyOptions := by
    have hbefore := hbuilt.options
    unfold World.fingerprinter at hbefore ⊢
    rw [hkept.2.1]
    exact hbefore
  have hprint := (Work.fingerprint_fst (n := r.host.desk) hsees.seen).symm.trans hpicks.1
  cases hknown : (r.drained.fingerprinter r.host.desk).known? real.text bytes.length mtime with
  | none =>
    rw [hknown, hoptions] at hprint
    exact (Except.ok.inj hprint).symm
  | some i' =>
    rw [hknown] at hprint
    obtain rfl : i' = i := Except.ok.inj hprint
    exact hright i' hknown

/-- A later run builds a host that goes on where the first one has ended. -/
theorem continues (h : r.Begins) {n : Nat} {types : List (String × Transformer)} (hbuilt : Built r n types)
    {p : Path} {readOnly asJson : Bool} (hprecedes : r.Precedes c p readOnly asJson) {f : Fingerprinter}
    (hkeys : f.memory.keys.Nodup) (hfinds : Finds r.host r.root r.place f c.opened.volume) :
    ∃ classPaths b w, c.invocation.task = .compile p classPaths readOnly asJson ∧
      (buildHost c.surroundings c.invocation.cacheDir classPaths readOnly).run c.opened = (.ok b, w) ∧
      Continues r.host r.settings f b c.opened w ∧ (readOnly = true → b.readOnly = true) := by
  obtain ⟨classPaths, htask, hsame⟩ := hprecedes.task
  have hloads := hprecedes.loads
  have hexpand := hprecedes.expands
  have hplain := hprecedes.plain
  rw [hprecedes.settings] at hloads hexpand
  rw [hprecedes.root] at hexpand hplain
  cases readOnly with
  | true =>
    obtain ⟨b, w, hbuild, hcontinues, hmode⟩ := continues_readOnly classPaths hbuilt.host hfinds hkeys
      hloads hexpand hplain
    exact ⟨classPaths, b, w, htask, hbuild, hcontinues, fun _ => hmode⟩
  | false =>
    obtain ⟨rfl, hcatalogue⟩ := hsame rfl
    obtain ⟨b, w, hbuild, hcontinues⟩ := continues_full hbuilt.host hbuilt.consistent hfinds hkeys h.mode
      hloads hexpand hplain (hcatalogue ▸ hbuilt.staff)
    exact ⟨r.classPaths, b, w, htask, hbuild, hcontinues, nofun⟩

/-- When all wanted files have compiled, then later runs print one result for each, in both modes. -/
theorem serves (h : r.Begins) (hall : r.Compiles) {p : Path} (hwants : r.Wants p) {real : Path}
    {bytes : List UInt8} {mtime : Int}
    (hsees : r.host.SeesOutside r.place r.drained.volume p.text real bytes mtime) : ∃ a, ∀ (τ : Type)
    (c : Launch τ) (readOnly asJson : Bool) (mtime' : Int), r.Precedes c p readOnly asJson →
      c.opened.volume.inspect (Path.ofText p.text) = .ok (real, bytes, mtime') →
      (mtime' = mtime ∨ r.RemembersRightly real bytes mtime) →
      ∃ errors, c.ended.1 = .ok ⟨0, printed asJson a, errors⟩ := by
  obtain ⟨n, types, hbuilt⟩ := h.exists_built
  obtain ⟨-, hkeys, v, hleaves, hspares⟩ := h.leaves hall
  obtain ⟨-, hfills⟩ := h.mayFinish.visits.fills r.surroundings.crew (isWanted r.excludes) r.directory
  obtain ⟨s, i, hpicks, ⟨a, hserves⟩, hknows⟩ := hfills hall p hwants.1 hwants.2 real bytes mtime hsees
  obtain ⟨isFallback, hselect⟩ := hpicks.2
  have hslot := h.mayFinish.visits.tidy.slot?_of_select? hselect
  refine ⟨a, fun τ c readOnly asJson mtime' hprecedes hsight htime => ?_⟩
  have hspared := hspares.trans hprecedes.spares
  have hfinds := hleaves.finds.spared hspared
  have hkept := hleaves.stores.trans (hleaves.stores.stands.leaves_of_spares hspared)
  obtain ⟨classPaths, b, w, htask, hbuild, hcontinues, -⟩ := h.continues hbuilt hprecedes hkeys hfinds
  have hprint := hcontinues.print hsight hknows
    (htime.imp_right fun hright => h.classify_of_picks hsees hright hpicks)
  have hserves' := hserves.congr fun now => hkept.same s.id s hslot now i.cacheKey
  obtain ⟨w', hcompile⟩ := hcontinues.compiles hprint hselect hserves' c.surroundings.crew
  obtain ⟨errors, w'', hrun⟩ := run_of_compile hprecedes.parses htask hprecedes.run_openLog hprecedes.there hbuild
    hcompile
  exact ⟨errors, congrArg Prod.fst hrun⟩

end Begins

/-! Small runs -/

section Small

open Host.Deploys (smallWorld smallRoot smallTransformer smallWorld_isDate)

/-- The visits of some files after so many jobs. -/
def machineWithin (r : Precompilation σ) (paths : List Path) (fuel : Nat) : Concurrent.Machine σ :=
  (Concurrent.Machine.initial r.drained paths.length (some r.host.settings.scanLimit.toNat)).runAll
    r.surroundings.crew (r.host.visits (isWanted r.excludes) (paths.map Path.text)) fuel

/-- The end of the task when its visits come to rest within so many jobs. -/
def finishedWithin (r : Precompilation σ) (paths : List Path) (fuel : Nat) :
    Except Failure (Nat × String) × World σ :=
  (do
    let _ ← Walk.finish r.directory paths (r.machineWithin paths fuel)
    let _ ← r.host.save
    let root ← r.host.root
    Work.saveMemory r.host.desk (memoryFile root)
    return (0, "Compiled " ++ r.directory.text ++ " into " ++ root.text ++ "\n") : Work σ (Nat × String)).run
    r.drained

/-- One class of transformers, which answer for the code. -/
def sheets (transform : String → Except Failure Output) : Surroundings Nat where
  catalogue := [⟨"styles", false, none, [("Sheets", .transformers (.ok smallTransformer))]⟩]
  crew := Host.codeCrew transform
  origin _ := ""

def sheetPath : Path := ⟨"/", ["d", "x.txt"]⟩

/-- The ways from a location to what is below it. -/
def below (l : Location) (v : Volume) : List Location :=
  v.nodes.filterMap fun e =>
    if l.isPrefixOf e.1 && l.length < e.1.length then some (e.1.drop l.length) else none

/-- What is computed of a run for the directory. -/
structure VisitsPlainly (r : Precompilation Nat) : Prop extends r.Starts where
  files : r.drained.volume.files r.directory = [sheetPath]
  finishes : r.finished = r.finishedWithin [sheetPath] 60

section Plainly

variable {s : Surroundings Nat} {given : List (String × String)} {left : Keyed Location Node}

end Plainly

/-- A failure of the task is noted, and what is noted goes to the log. -/
theorem ended_of_fatal (hopens : r.Opens) {w : World σ} {e : Failure} (hquiet : e.isSignal = false)
    (hbuilds : ((begin r.surroundings r.invocation).run r.opened).1 = .ok (.tree r.host r.directory r.excludes))
    (hfinished : r.finished = (.error e, w)) :
    r.ended.2 = ((drain r.surroundings r.invocation.verbose r.log).run
      { w with journal := ⟨Log.Context.none, .fatal e⟩ :: w.journal }).2 := by
  have hbegin : (begin r.surroundings r.invocation).run r.opened =
      (.ok (.tree r.host r.directory r.excludes), r.built) := Prod.ext hbuilds rfl
  obtain ⟨early, w', hdrain⟩ := run_drain r.surroundings r.invocation.verbose r.log r.built
  obtain rfl : r.drained = w' := congrArg Prod.snd hdrain
  have hperform := run_perform_of_begin hbegin hdrain
  rw [show (finish r.surroundings (.tree r.host r.directory r.excludes)).run r.drained = _ from hfinished]
    at hperform
  have hconclude : (conclude (.error e) : Work σ (Nat × String)).run w =
      (.ok (1, ""), { w with journal := ⟨Log.Context.none, .fatal e⟩ :: w.journal }) := by
    unfold conclude
    split
    · rename_i hsame
      cases hsame
    · rename_i hsame
      cases hsame
      cases hquiet
    · rename_i hsame
      cases hsame
      cases hquiet
    · rename_i hsame
      cases hsame
      rfl
  obtain ⟨late, w'', hlate⟩ := run_drain r.surroundings r.invocation.verbose r.log
    { w with journal := ⟨Log.Context.none, .fatal e⟩ :: w.journal }
  have hended : r.ended = (.ok ⟨1, "", early ++ late⟩, w'') := by
    refine (run_of_perform hopens.parses hopens.run_openLog hperform).trans ?_
    rw [Action.run_bind_ok hconclude]
    exact Action.run_bind_ok hlate
  rw [hended, hlate]

/-- What a run for the directory ends in when the file fails, as it is computed. -/
def failedEnd (r : Precompilation Nat) : Option (World Nat) :=
  match r.finishedWithin [sheetPath] 60 with
  | (.error e, w) =>
    if e.isSignal then none
    else some ((drain r.surroundings r.invocation.verbose r.log).run
      { w with journal := ⟨Log.Context.none, .fatal e⟩ :: w.journal }).2
  | _ => none

theorem VisitsPlainly.ended {r : Precompilation Nat} (h : VisitsPlainly r) {w : World Nat}
    (hend : failedEnd r = some w) : r.ended.2 = w := by
  unfold failedEnd at hend
  split at hend
  · rename_i e w' hfinished
    split at hend
    · cases hend
    · rename_i hquiet
      exact (ended_of_fatal h.toOpens (Bool.not_eq_true _ ▸ hquiet) h.builds
        (h.finishes.trans hfinished)).trans (Option.some.inj hend)
  · cases hend

end Small
end Precompilation
end CommandLine
end AssetCompiler
