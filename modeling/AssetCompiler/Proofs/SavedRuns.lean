import AssetCompiler.Proofs.CommandHosts
import AssetCompiler.Proofs.ConfinedFolders

/-!
Runs that save. Once all wanted files are compiled, the registrations of the host and what its fingerprinter
remembers are written beside the caches, each as a whole; a run in which a file fails leaves both files as they
were.
-/
namespace AssetCompiler

/-! What opening stores changes -/

namespace Volume

/-- Directories are made where nothing was, and else only what a path leads to is changed. -/
structure Furnishes (database : Path) (v v' : Volume) : Prop where
  grows : Grows v v'
  node : ∀ l, v'.nodeAt? l = v.nodeAt? l ∨ (v.nodeAt? l = none ∧ v'.nodeAt? l = some .directory) ∨
    v'.locate true database = .ok l

namespace Furnishes

variable {database : Path} {v v' v'' : Volume}

theorem refl (database : Path) (v : Volume) : Furnishes database v v :=
  ⟨(Opens.refl v).grows, fun _ => .inl rfl⟩

theorem trans (h : Furnishes database v v') (h' : Furnishes database v' v'') :
    Furnishes database v v'' := by
  refine ⟨h.grows.trans h'.grows, fun l => ?_⟩
  rcases h'.node l with hsame' | ⟨hnone', hmade'⟩ | hlocate'
  · rw [hsame']
    rcases h.node l with hsame | hmade | hlocate
    · exact .inl hsame
    · exact .inr (.inl hmade)
    · exact .inr (.inr (h'.grows.locate hlocate))
  · rcases h.node l with hsame | ⟨-, hmade⟩ | hlocate
    · exact .inr (.inl ⟨hsame ▸ hnone', hmade'⟩)
    · rw [hnone'] at hmade
      cases hmade
    · exact .inr (.inr (h'.grows.locate hlocate))
  · exact .inr (.inr hlocate')

theorem of_makeDirectories {p : Path} (h : v.makeDirectories p = .ok v') : Furnishes database v v' := by
  refine ⟨(makeDirectories_ok h).2.1.grows, fun l => ?_⟩
  by_cases hsame : v'.nodeAt? l = v.nodeAt? l
  · exact .inl hsame
  · exact .inr (.inl (made_of_makeDirectories h hsame))

/-- Where no directory has come, and the path does not lead, there is what was there. -/
theorem same (h : Furnishes database v v') {l : Location} (hfree : v'.nodeAt? l ≠ some .directory)
    (helsewhere : v'.locate true database ≠ .ok l) : v'.nodeAt? l = v.nodeAt? l := by
  rcases h.node l with hsame | ⟨-, hmade⟩ | hlocate
  · exact hsame
  · exact absurd hmade hfree
  · exact absurd hlocate helsewhere

end Furnishes

/-- Part of a path without a zero in it has none either. -/
theorem hasZero_of_child {p : Path} {name : String} (hname : IsName name)
    (h : hasZero (p.child name) = false) : hasZero p = false := by
  rw [hasZero_eq_false_iff] at h ⊢
  obtain ⟨root, parts⟩ := p
  rw [hname.child] at h
  have htext : (⟨root, parts ++ [name]⟩ : Path).text = root ++ "/".intercalate (parts ++ [name]) := by
    simp [Path.text]
  rw [htext, String.toList_append, List.mem_append, not_or] at h
  intro hmem
  unfold Path.text at hmem
  split at hmem
  · exact absurd hmem (by decide)
  · rw [String.toList_append, List.mem_append] at hmem
    rcases hmem with hmem | hmem
    · exact h.1 hmem
    · rcases Path.mem_intercalate hmem with hslash | ⟨part, hpart, hmem⟩
      · exact absurd hslash (by decide)
      · exact h.2 (Path.mem_intercalate_of_mem (List.mem_append_left _ hpart) hmem)

end Volume

namespace Store

open Volume

variable {v v' : Volume} {s : Store} {q : Path} {space : String}

theorem openFolder_furnishes {directory : Path} (database : Path)
    (h : (openFolder directory space).run v = (.ok s, v')) :
    Furnishes database v v' ∧ hasZero (directory.child (safeName space)) = false := by
  obtain ⟨u, v₁, hmade, hpure⟩ := Action.of_run_bind_ok h
  cases hpure
  rw [Filing.makeDirectories, Filing.run_change] at hmade
  split at hmade
  · rename_i v₂ hdone
    cases hmade
    exact ⟨.of_makeDirectories hdone, (makeDirectories_ok hdone).1⟩
  · cases hmade

theorem openTable_furnishes {database : Path} (h : (openTable database space).run v = (.ok s, v')) :
    Furnishes database v v' ∧ hasZero database.parent = false := by
  obtain ⟨-, v₁, l, hmade, hlocate, htable⟩ := openTable_cases h
  refine ⟨?_, (makeDirectories_ok hmade).1⟩
  have hfirst : Furnishes database v v₁ := .of_makeDirectories hmade
  rcases htable with ⟨rfl, -⟩ | ⟨rfl, hwas⟩
  · exact hfirst
  · have hgrows := (opens_put_table hwas).grows
    refine hfirst.trans ⟨hgrows, fun l' => ?_⟩
    by_cases hl : l' = l
    · subst hl
      exact .inr (.inr (hgrows.locate hlocate))
    · rw [nodeAt?_tick, nodeAt?_put_of_ne _ _ hl]
      exact .inl rfl

/-- Opening a store furnishes the directory of the caches. -/
theorem openAs_furnishes {home : Option String} {backend : Backend} {cacheRoot : Path}
    (h : (openAs home backend cacheRoot space).run v = (.ok s, v'))
    (hroot : cacheRoot.expandHome? home = some q) (hname : IsName (safeName space)) :
    Furnishes (q.child databaseName) v v' ∧ hasZero q = false := by
  cases backend with
  | json =>
    obtain ⟨q', v₁, hexpand, hopen⟩ := Action.of_run_bind_ok h
    obtain ⟨hq, rfl⟩ := run_expandHome hexpand
    cases hroot.symm.trans hq
    obtain ⟨hfurnishes, hzero⟩ := openFolder_furnishes (q.child databaseName) hopen
    exact ⟨hfurnishes, hasZero_of_child hname hzero⟩
  | sqlite =>
    obtain ⟨q', v₁, hexpand, hopen⟩ := Action.of_run_bind_ok h
    obtain ⟨hq, rfl⟩ := run_expandHome hexpand
    rw [Path.expandHome?_child isName_databaseName startsWith_databaseName, hroot] at hq
    cases hq
    obtain ⟨hfurnishes, hzero⟩ := openTable_furnishes hopen
    have hparent : (q.child databaseName).parent = q := by
      rw [isName_databaseName.child]
      simp [Path.parent]
    exact ⟨hfurnishes, hparent ▸ hzero⟩
  | unknown name => cases h

end Store

/-- Building a host that has slots furnishes the directory of its caches. -/
theorem Host.build_furnishes {σ : Type} {h : Host} {root q : Path} {types : List (String × Transformer)}
    {desk : Nat} {mode : Option Bool} {fallback : Option Transformer} {given : Settings} {w w' : World σ}
    (hrun : (build root types desk mode fallback given).run w = (.ok h, w'))
    (hexpand : root.expandHome? (w.environment.lookup "HOME") = some q)
    (hslots : Registry.registered types fallback ≠ []) :
    Volume.Furnishes (q.child Store.databaseName) w.volume w'.volume ∧ Volume.hasZero q = false := by
  obtain ⟨hsettings, hdesk, -, hregistry⟩ := of_run_build hrun
  have hmakes : Registry.Makes (fun t => Cache.ofTransformer t desk { given with cacheRoot := root })
      (Cache.named given.backend q desk)
      (fun w w' : World σ => Volume.Furnishes (q.child Store.databaseName) w.volume w'.volume ∧
        w'.environment = w.environment)
      (fun _ _ => Volume.hasZero q = false) (Registry.registered types fallback) w := by
    constructor
    · exact fun w => ⟨.refl _ _, rfl⟩
    · exact fun w w' w'' h h' => ⟨h.1.trans h'.1, h'.2.trans h.2⟩
    · exact fun w entry => ⟨.refl _ _, rfl⟩
    · exact fun w w' k h hk => hk
    · intro t _ w₁ k w₂ hreached hmake
      obtain ⟨v', hopen, hk, rfl⟩ := run_ofTransformer hmake
      rw [hreached.2] at hopen
      obtain ⟨hfurnishes, hzero⟩ := Store.openAs_furnishes hopen hexpand (Store.isName_space t)
      refine ⟨⟨hfurnishes, rfl⟩, ?_, hzero⟩
      obtain ⟨store, desk'⟩ := k
      cases hk
      rw [Cache.named, (Store.openAs_ok hopen hexpand).2.1]
      rfl
  obtain ⟨hworld, hfor, hcaches⟩ := Registry.build_ok hmakes hregistry
  obtain ⟨t, ht⟩ := List.exists_mem_of_ne_nil _ hslots
  obtain ⟨s, hs⟩ := hfor.slot?_of_mem ht
  exact ⟨hworld.1, hcaches _ s hs⟩

/-! Both files -/

namespace CommandLine

open Volume

variable {σ : Type} {s : Surroundings σ} {h : Host} {q : Path} {d : Location} {w : World σ}

/-- The names of the files that a run leaves for later ones. -/
def stateFiles : List String := [Host.fileName, "fingerprints.json"]

theorem not_owns_stateFile {name : String} (hname : name ∈ stateFiles) : ¬ h.Owns d (d ++ [name]) := by
  intro howns
  obtain ⟨id, s, -, howns⟩ := howns
  cases hplace : Store.placeOf h.settings.backend d s.transformer.space with
  | folder l =>
    rw [hplace] at howns
    obtain ⟨file, hfile⟩ := howns
    have hl : ∃ folder, l = d ++ [folder] := by
      cases hbackend : h.settings.backend <;> rw [hbackend] at hplace <;> cases hplace <;> exact ⟨_, rfl⟩
    obtain ⟨folder, rfl⟩ := hl
    have hlength := congrArg List.length hfile
    simp at hlength
  | rows l space =>
    rw [hplace] at howns
    obtain rfl : d ++ [name] = l := howns
    have hdatabase : d ++ [Store.databaseName] = d ++ [name] := by
      cases hbackend : h.settings.backend with
      | sqlite =>
        rw [hbackend] at hplace
        exact (Store.Place.rows.inj hplace).1
      | _ =>
        rw [hbackend] at hplace
        cases hplace
    have hsame : Store.databaseName = name := (List.cons.inj (List.append_cancel_left hdatabase)).1
    subst hsame
    exact absurd hname (by decide)

/-- Over a file or nothing, what a fingerprinter remembers is written as a whole, and nothing else is changed. -/
theorem saveMemory_returns (hroot : w.volume.IsRoot q d) (hzero : hasZero q = false)
    (hplain : q.expandHome? (w.environment.lookup "HOME") = some q)
    (hnode : w.volume.nodeAt? (d ++ ["fingerprints.json"]) ≠ some .directory) {n : Nat} {f : Fingerprinter}
    (hf : Keyed.find? n w.desks = some f) :
    ∃ v, (Work.saveMemory n (memoryFile q)).run w = (.ok (), { w with volume := v }) ∧
      f.IsSaved (memoryFile q) v ∧ Replaces (fun l => l = d ++ ["fingerprints.json"]) w.volume v := by
  have hshort : ¬ nameLimit < ("fingerprints.json" : String).utf8ByteSize := by decide
  have hfileZero : hasZero (q.child "fingerprints.json") = false :=
    hasZero_child hzero isName_memory (by decide)
  have hmade := Host.run_makeRoot (w := w) isName_memory (makeDirectories_of_isDirectory hzero hroot.isDirectory)
  obtain ⟨v, hwrite⟩ := Host.write_over hroot isName_memory hshort hfileZero hnode
    (Text.Utf8.ofString (Json.write .line f.toJson))
  have hwritten : (Work.writeText (memoryFile q) (Json.write .line f.toJson)).run w =
      (.ok (), { w with volume := v }) := by
    rw [Work.writeText, Work.run_filing, Filing.write, Filing.run_change, memoryFile, hwrite]
  have hrun : (Work.saveMemory n (memoryFile q)).run w = (.ok (), { w with volume := v }) := by
    unfold Work.saveMemory
    rw [Action.run_bind_ok (Work.run_expandHome (expandHome?_memoryFile hplain)), memoryFile,
      Action.run_bind_ok hmade, Action.run_bind_ok (Work.run_desk hf)]
    exact hwritten
  obtain ⟨-, -, rfl⟩ := Host.write_in_root hroot isName_memory hshort hwrite
  have hleaf : IsLeaf (w.volume.nodeAt? (d ++ ["fingerprints.json"])) :=
    ⟨hnode, hroot.unlinked ["fingerprints.json"]⟩
  have hreplaces := (Store.advances_file (Text.Utf8.ofString (Json.write .line f.toJson)) hleaf).replaces
  refine ⟨_, hrun, ⟨hfileZero, d ++ ["fingerprints.json"], w.volume.writeTime, ?_⟩, hreplaces⟩
  have hlocate := (hroot.grows hreplaces.grows).locate true isName_memory
  rw [if_neg hshort] at hlocate
  exact stat_eq_ok_iff.mpr ⟨hlocate, nodeAt?_put_self _ _ ne_root_of_append⟩

/-- What a run leaves for later ones when it has saved. -/
structure Leaves (h : Host) (q : Path) (d : Location) (f : Fingerprinter) (v v' : Volume) : Prop where
  host : h.IsSaved q d v'
  memory : f.IsSaved (memoryFile q) v'
  stores : h.Leaves q d v v'
  replaces : Replaces (fun l => d <+: l) v v'

/-- Over files or nothing, both files are written. -/
theorem run_saves (hstands : h.Stands q d w.volume) (hzero : hasZero q = false)
    (hcache : h.settings.cacheRoot = q) (hplain : q.expandHome? (w.environment.lookup "HOME") = some q)
    (hfree : ∀ name ∈ stateFiles, w.volume.nodeAt? (d ++ [name]) ≠ some .directory) (hnow : w.now.IsDate)
    {f : Fingerprinter} (hf : Keyed.find? h.desk w.desks = some f) : ∃ w',
    (do
      let _ ← h.save
      let root ← h.root
      Work.saveMemory h.desk (memoryFile root)
      return root : Work σ Path).run w = (.ok q, w') ∧ Leaves h q d f w.volume w'.volume := by
  have hexpand : h.settings.cacheRoot.expandHome? (w.environment.lookup "HOME") = some q := hcache ▸ hplain
  have hfileZero : hasZero (q.child Host.fileName) = false :=
    hasZero_child hzero Host.isName_fileName (by decide)
  obtain ⟨p, w₁, hsave⟩ := Host.save_returns hstands.root hexpand hzero hfileZero (hfree _ (by decide))
  obtain ⟨hsaves, hsetting⟩ := Host.save_ok hsave hexpand hstands.root hnow
  simp only [Host.setting, Prod.mk.injEq] at hsetting
  obtain ⟨henvironment, hdesks, -, -⟩ := hsetting
  have hapart : d ++ [Host.fileName] ≠ d ++ ["fingerprints.json"] := by
    intro hsame
    exact absurd (List.cons.inj (List.append_cancel_left hsame)).1 (by decide)
  have hnode : w₁.volume.nodeAt? (d ++ ["fingerprints.json"]) ≠ some .directory := by
    rw [hsaves.node _ hapart.symm]
    exact hfree _ (by decide)
  have hleaves := hstands.leaves_of_saves hsaves
  obtain ⟨v, hmemory, hsaved, hreplaces⟩ := saveMemory_returns (w := w₁) (n := h.desk) (f := f)
    hsaves.saved.root hzero (henvironment ▸ hplain) hnode (hdesks ▸ hf)
  have hroot := hsaves.saved.root.grows hreplaces.grows
  have hnodes : ∀ l, l ≠ d ++ ["fingerprints.json"] → v.nodeAt? l = w₁.volume.nodeAt? l :=
    fun l hl => hreplaces.node_of_not hl
  refine ⟨{ w₁ with volume := v }, ?_, ⟨?_, hsaved, ?_, ?_⟩⟩
  · rw [Action.run_bind_ok hsave, Action.run_bind_ok (Host.run_root (henvironment ▸ hexpand)),
      Action.run_bind_ok hmemory]
    rfl
  · obtain ⟨now, mtime, hdate, hwritten⟩ := hsaves.saved.written
    exact ⟨hroot, hzero, hfileZero, now, mtime, hdate, (hnodes _ hapart).trans hwritten⟩
  · exact hleaves.trans (hleaves.stands.leaves_of_written (by decide) hroot hnode hnodes)
  · refine ((hsaves.replaces hstands.root).mono ?_).trans (hreplaces.mono ?_)
    · rintro _ rfl
      exact List.prefix_append d _
    · rintro _ rfl
      exact List.prefix_append d _

/-! Runs over a directory -/

section Finishing

variable {directory : Path} {excludes : List String}

/-- A full host that has prepared for a directory, beside which the files of a run can be written. -/
structure MayFinish (h : Host) (q : Path) (d : Location) (directory : Path) (w : World σ) : Prop where
  visits : h.MayVisit q d w
  directory : w.volume.isDirectory directory = .ok true
  zero : hasZero q = false
  cache : h.settings.cacheRoot = q
  plain : q.expandHome? (w.environment.lookup "HOME") = some q
  free : ∀ name ∈ stateFiles, w.volume.nodeAt? (d ++ [name]) ≠ some .directory

/-- The world that the visits for a run leave. -/
def visited (s : Surroundings σ) (h : Host) (directory : Path) (excludes : List String) (w : World σ) : World σ :=
  (h.visitsAtRest s.crew (isWanted excludes) directory w).world

/-- When all wanted files compile, then both files are written, and nothing is changed but below the directory of
the caches. -/
theorem MayFinish.run_finish (hmay : MayFinish h q d directory w)
    (hall : h.AllCompile s.crew (isWanted excludes) directory w) : ∃ w',
    (finish s (.tree h directory excludes)).run w =
      (.ok (0, "Compiled " ++ directory.text ++ " into " ++ q.text ++ "\n"), w') ∧
    ((visited s h directory excludes w).fingerprinter h.desk).memory.keys.Nodup ∧
    Leaves h q d ((visited s h directory excludes w).fingerprinter h.desk)
      (visited s h directory excludes w).volume w'.volume ∧
    Replaces (fun l => d <+: l) w.volume w'.volume := by
  obtain ⟨r, journal, hwalk, hr⟩ := hmay.visits.run_compileAll s.crew (isWanted excludes) hmay.directory
  obtain ⟨hvisiting, -⟩ := hmay.visits.fills s.crew (isWanted excludes) directory
  rw [hr.mpr hall] at hwalk
  unfold visited
  generalize (h.visitsAtRest s.crew (isWanted excludes) directory w).world = rest at hwalk hvisiting ⊢
  obtain ⟨f, hf, hkeys⟩ := hvisiting.distinct
  have hdesk : rest.fingerprinter h.desk = f := by
    unfold World.fingerprinter
    rw [hf]
    rfl
  rw [hdesk]
  have hsetting := hvisiting.setting
  simp only [Prod.mk.injEq] at hsetting
  obtain ⟨henvironment, hnow⟩ := hsetting
  have hfree : ∀ name ∈ stateFiles, rest.volume.nodeAt? (d ++ [name]) ≠ some .directory := by
    intro name hname
    rw [hvisiting.advances.node_of_not (not_owns_stateFile hname)]
    exact hmay.free name hname
  obtain ⟨w', hsaves, hleaves⟩ := run_saves (w := { rest with journal := journal }) hvisiting.stands hmay.zero
    hmay.cache (henvironment ▸ hmay.plain) hfree (hnow ▸ hmay.visits.date) hf
  have hbelow : ∀ l, h.Owns d l → d <+: l := by
    intro l howns
    obtain ⟨name, rest, rfl⟩ := Host.owns_below howns
    exact List.prefix_append d _
  refine ⟨w', ?_, hkeys, hleaves, (hvisiting.advances.replaces.mono hbelow).trans hleaves.replaces⟩
  have hfinish : (finish s (.tree h directory excludes)) = (do
      h.compileAll s.crew directory (isWanted excludes)
      let root ← (do
        let _ ← h.save
        let root ← h.root
        Work.saveMemory h.desk (memoryFile root)
        return root : Work σ Path)
      return (0, "Compiled " ++ directory.text ++ " into " ++ root.text ++ "\n")) := by
    simp only [finish, bind_assoc, pure_bind]
  rw [hfinish, Action.run_bind_ok hwalk, Action.run_bind_ok hsaves]
  rfl

/-- When a wanted file fails, or somebody interrupts the run, then nothing is written but by the visits. -/
theorem MayFinish.run_finish_of_failure (hmay : MayFinish h q d directory w)
    (hfails : ¬ h.AllCompile s.crew (isWanted excludes) directory w) : ∃ e w',
    (finish s (.tree h directory excludes)).run w = (.error e, w') ∧
      Replaces (h.Owns d) w.volume w'.volume := by
  obtain ⟨r, journal, hwalk, hr⟩ := hmay.visits.run_compileAll s.crew (isWanted excludes) hmay.directory
  obtain ⟨hvisiting, -⟩ := hmay.visits.fills s.crew (isWanted excludes) directory
  cases r with
  | ok u => exact absurd (hr.mp rfl) hfails
  | error e =>
    have hrun : (finish s (.tree h directory excludes)).run w = (.error e, _) := Action.run_bind_error hwalk
    exact ⟨e, _, hrun, hvisiting.advances.replaces⟩

end Finishing

/-! From the task to the end of a run -/

/-- A log that leaves the directory of the caches alone, whatever it is given to write. -/
def LogSpares (log : Log.Setup) (q : Path) (d : Location) (v : Volume) : Prop :=
  ∀ time records, Volume.Spares q d v ((log.emitAll time records).run v).2

/-- Without a file a log leaves everything alone. -/
theorem emitAll_of_sink_eq_none {log : Log.Setup} (hsink : log.sink = none) (time : Instant)
    (records : List Log.Record) (v : Volume) : ((log.emitAll time records).run v).2 = v := by
  have hemit : ∀ r, ((log.emit time r).run v).2 = v := by
    intro r
    unfold Log.Setup.emit
    split
    · rfl
    · rw [hsink]
      rfl
  induction records with
  | nil => rfl
  | cons r rest ih =>
    obtain ⟨line, v₁, hfirst⟩ := log.run_emit time r v
    obtain ⟨lines, v₂, hrest⟩ := log.run_emitAll time rest v₁
    obtain rfl : v₁ = v := by
      rw [← hemit r, hfirst]
    rw [hrest] at ih
    rw [Log.Setup.emitAll, Action.run_bind_ok hfirst, Action.run_bind_ok hrest]
    exact ih

theorem run_drain_emitAll (s : Surroundings σ) (verbose : Bool) (log : Log.Setup) (w : World σ) :
    ∃ lines records, (drain s verbose log).run w =
      (.ok lines, { w with journal := [], volume := ((log.emitAll w.now records).run w.volume).2 }) := by
  obtain ⟨lines, v, hrun⟩ := log.run_emitAll w.now (w.journal.reverse.map (recordOf s verbose)) w.volume
  refine ⟨lines, w.journal.reverse.map (recordOf s verbose), ?_⟩
  unfold drain
  rw [Action.run_bind_ok (Action.run_get w), Action.run_bind_ok (Action.run_set w _), Work.run_filing]
  simp only [hrun]

/-- What is noted is drained where the log leaves the caches alone. -/
theorem LogSpares.drain {log : Log.Setup} (hspares : LogSpares log q d w.volume) (s : Surroundings σ)
    (verbose : Bool) : ∃ lines w', (drain s verbose log).run w = (.ok lines, w') ∧
      Volume.Spares q d w.volume w'.volume ∧
      (w'.environment, w'.desks, w'.now) = (w.environment, w.desks, w.now) := by
  obtain ⟨lines, records, hrun⟩ := run_drain_emitAll s verbose log w
  exact ⟨lines, _, hrun, hspares w.now records, rfl⟩

section Ending

variable {words : List String} {i : Invocation} {log : Log.Setup} {p : Progress} {early : List String}
variable {w₁ w₂ w₃ w₄ : World σ}

/-- Once the first part of a task is done, the result is that of the second. -/
theorem run_perform_of_begin (hbegin : (begin s i).run w₁ = (.ok p, w₂))
    (hdrain : (drain s i.verbose log).run w₂ = (.ok early, w₃)) : (perform s i log).run w₁ =
      (.ok (early, ((finish s p).run w₃).1), ((finish s p).run w₃).2) := by
  have hbegun : (Work.outcome (begin s i)).run w₁ = (.ok (.ok p), w₂) := by
    rw [Work.run_outcome, hbegin]
  unfold perform
  rw [Action.run_bind_ok hbegun, Action.run_bind_ok hdrain, Action.run_bind_ok (Work.run_outcome _ _)]
  rfl

/-- What is left of a run after the second part of its task. -/
theorem run_of_perform (hwords : parse words = .ok i) (hlog : (openLog i.verbose).run w = (.ok log, w₁))
    {result : Except Failure (Nat × String)} (hperform : (perform s i log).run w₁ = (.ok (early, result), w₄)) :
    (run s words).run w = (do
      let (code, output) ← conclude result
      let late ← drain s i.verbose log
      return ⟨code, output, early ++ late⟩ : Work σ Ending).run w₄ := by
  unfold run
  rw [hwords]
  simp only
  rw [runInvocation_eq, Action.run_bind_ok hlog, Action.run_bind_ok hperform]

/-- A run whose task ends well ends with the code of its task. -/
theorem run_of_finish (hwords : parse words = .ok i) (hlog : (openLog i.verbose).run w = (.ok log, w₁))
    (hbegin : (begin s i).run w₁ = (.ok p, w₂)) (hdrain : (drain s i.verbose log).run w₂ = (.ok early, w₃))
    {code : Nat} {output : String} (hfinish : (finish s p).run w₃ = (.ok (code, output), w₄)) :
    ∃ late w', (drain s i.verbose log).run w₄ = (.ok late, w') ∧
      (run s words).run w = (.ok ⟨code, output, early ++ late⟩, w') := by
  have hperform := run_perform_of_begin hbegin hdrain
  rw [hfinish] at hperform
  obtain ⟨late, w', hlate⟩ := run_drain s i.verbose log w₄
  refine ⟨late, w', hlate, ?_⟩
  rw [run_of_perform hwords hlog hperform]
  exact Action.run_bind_ok hlate

/-- After a failure the code is not the one of success, and all that is left to do is to drain what is noted. -/
theorem run_conclude_error (s : Surroundings σ) (verbose : Bool) (log : Log.Setup) (early : List String)
    (e : Failure) (w : World σ) : ∃ r w',
    (do
      let (code, output) ← conclude (.error e)
      let late ← drain s verbose log
      return ⟨code, output, early ++ late⟩ : Work σ Ending).run w = (r, w') ∧
    (∀ output errors, r ≠ .ok ⟨0, output, errors⟩) ∧
    (w' = w ∨ ∃ journal late, (drain s verbose log).run { w with journal := journal } = (.ok late, w')) := by
  have hnoted : ∀ (code : Nat) (event : Log.Event), code ≠ 0 → ∃ r w',
      (do
        let (code, output) ← (do Work.report event; return (code, "") : Work σ (Nat × String))
        let late ← drain s verbose log
        return ⟨code, output, early ++ late⟩ : Work σ Ending).run w = (r, w') ∧
      (∀ output errors, r ≠ .ok ⟨0, output, errors⟩) ∧
      (w' = w ∨ ∃ journal late,
        (drain s verbose log).run { w with journal := journal } = (.ok late, w')) := by
    intro code event hcode
    obtain ⟨late, w', hlate⟩ := run_drain s verbose log { w with journal := ⟨Log.Context.none, event⟩ :: w.journal }
    refine ⟨.ok ⟨code, "", early ++ late⟩, w', Action.run_bind_ok hlate, ?_, .inr ⟨_, late, hlate⟩⟩
    intro output errors hsame
    cases hsame
    exact hcode rfl
  unfold conclude
  split
  · rename_i hsame
    cases hsame
  · exact hnoted 130 .interrupted (by decide)
  · exact ⟨.error .cancelled, w, rfl, nofun, .inl rfl⟩
  · exact hnoted 1 (.fatal _) (by decide)

/-- A run whose task fails does not end well. -/
theorem run_of_finish_error (hwords : parse words = .ok i) (hlog : (openLog i.verbose).run w = (.ok log, w₁))
    (hbegin : (begin s i).run w₁ = (.ok p, w₂)) (hdrain : (drain s i.verbose log).run w₂ = (.ok early, w₃))
    {e : Failure} (hfinish : (finish s p).run w₃ = (.error e, w₄)) (hspares : LogSpares log q d w₄.volume)
    (hroot : w₄.volume.IsRoot q d) (hhere : AreProper w₄.volume.here) : ∃ r w',
    (run s words).run w = (r, w') ∧ (∀ output errors, r ≠ .ok ⟨0, output, errors⟩) ∧
      Volume.Spares q d w₄.volume w'.volume := by
  have hperform := run_perform_of_begin hbegin hdrain
  rw [hfinish] at hperform
  obtain ⟨r, w', hrun, hcode, hrest⟩ := run_conclude_error s i.verbose log early e w₄
  refine ⟨r, w', (run_of_perform hwords hlog hperform).trans hrun, hcode, ?_⟩
  rcases hrest with rfl | ⟨journal, late, hlate⟩
  · exact ⟨hroot, fun _ => rfl, hhere⟩
  · obtain ⟨_, _, hlate', hspared, -⟩ :=
      LogSpares.drain (w := { w₄ with journal := journal }) hspares s i.verbose
    cases hlate.symm.trans hlate'
    exact hspared

end Ending

end CommandLine
end AssetCompiler
