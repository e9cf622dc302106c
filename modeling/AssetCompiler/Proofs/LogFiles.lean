import AssetCompiler.Proofs.SavedRuns

/-!
Log files. A log writes to its file, and moves the older ones that lie beside it; whatever comes of that, it
changes nothing else. So a log that lies outside the directory of the caches leaves it alone.
-/
namespace AssetCompiler

open Volume

namespace Log

namespace Sink

variable {s : Sink} {v v' : Volume} {l : Location} {name : String}

/-- The name of the file, or of an older one. -/
def Names (s : Sink) (name : String) : Prop :=
  name = s.file.name ∨ ∃ n, name = s.file.name ++ "." ++ Text.decimal n

/-- The path of a name in the directory of the file. -/
def beside (s : Sink) (name : String) : Path := ⟨s.file.root, s.file.parts.dropLast ++ [name]⟩

/-- The locations of the files, with that of their directory. -/
def Owns (s : Sink) (l l' : Location) : Prop := ∃ name, s.Names name ∧ l' = l ++ [name]

/-- The file and the older ones lie in a directory, in which no directory and no link has one of their names. -/
structure LiesIn (s : Sink) (v : Volume) (l : Location) : Prop where
  named : s.file.parts ≠ []
  proper : s.file.name ≠ ".."
  located : v.locate true s.file.parent = .ok l
  directory : v.nodeAt? l = some .directory
  leaves : ∀ name, s.Names name → IsLeaf (v.nodeAt? (l ++ [name]))

/-- Whether the files lie in a directory, as it is computed. -/
def lies (s : Sink) (l : Location) (v : Volume) : Bool :=
  !s.file.parts.isEmpty && s.file.name != ".." && (v.locate true s.file.parent).toOption == some l &&
  v.nodeAt? l == some .directory &&
  v.nodes.all fun e =>
    e.1.dropLast != l || !s.file.name.toList.isPrefixOf (e.1.getLastD "").toList || e.2.isFile

namespace LiesIn

theorem replaced {own : Location → Prop} (h : s.LiesIn v l) (hreplaces : Replaces own v v') : s.LiesIn v' l where
  named := h.named
  proper := h.proper
  located := hreplaces.grows.locate h.located
  directory := hreplaces.grows.directory l h.directory
  leaves := fun name hname => hreplaces.isLeaf (h.leaves name hname)

theorem file_eq (h : s.LiesIn v l) : s.file = s.beside s.file.name := by
  have hparts : s.file.parts = s.file.parts.dropLast ++ [s.file.name] := by
    unfold Path.name
    rw [List.getLastD_eq_getLast?, List.getLast?_eq_getLast_of_ne_nil h.named]
    exact (List.dropLast_append_getLast h.named).symm
  unfold beside
  rw [← hparts]

theorem ne_dots (h : s.LiesIn v l) (hname : s.Names name) : name ≠ ".." := by
  rcases hname with rfl | ⟨n, rfl⟩
  · exact h.proper
  · intro heq
    obtain ⟨c, cs, hdigits, -⟩ := Json.head_decimal n
    have hlast : '.' ∈ (Text.decimal n).toList := by
      have hchars := congrArg (fun s : String => s.toList.getLast?) heq
      simp only [String.toList_append, hdigits, List.getLast?_append_cons] at hchars
      rw [hdigits]
      exact List.mem_of_getLast? hchars
    exact absurd (Text.isDigit_of_mem_decimal hlast) (by decide)

theorem locate (h : s.LiesIn v l) (follow : Bool) (hname : s.Names name) : v.locate follow (s.beside name) =
    if nameLimit < name.utf8ByteSize then .error .nameTooLong else .ok (l ++ [name]) :=
  locate_concat follow h.located h.directory (h.ne_dots hname) (h.leaves name hname).2

/-- A file is written, removed or moved among the files only. -/
theorem write (h : s.LiesIn v l) (hname : s.Names name) {bytes : List UInt8}
    (hwrite : v.write (s.beside name) bytes = .ok v') : Replaces (s.Owns l) v v' := by
  obtain ⟨-, l', htarget, rfl⟩ := write_eq_ok_iff.mp hwrite
  have hlocate := (target_eq_ok_iff.mp htarget).1
  rw [h.locate true hname] at hlocate
  split at hlocate
  · cases hlocate
  · cases hlocate
    refine (Store.advances_file bytes (h.leaves name hname)).replaces.mono fun l' hl' => ?_
    exact ⟨name, hname, hl'⟩

theorem unlink (h : s.LiesIn v l) (hname : s.Names name) (hunlink : v.unlink (s.beside name) = .ok v') :
    Replaces (s.Owns l) v v' := by
  obtain ⟨-, l', -, hlocate, -, -, rfl⟩ := unlink_eq_ok_iff.mp hunlink
  rw [h.locate false hname] at hlocate
  split at hlocate
  · cases hlocate
  · cases hlocate
    exact (Advances.drop ⟨name, hname, rfl⟩ (h.leaves name hname)).replaces

theorem rename (h : s.LiesIn v l) {goal : String} (hname : s.Names name) (hgoal : s.Names goal)
    (hrename : v.rename (s.beside name) (s.beside goal) = .ok v') : Replaces (s.Owns l) v v' := by
  obtain ⟨l₁, l₂, node, hfrom, hto, hnode, -, -, rfl⟩ := rename_eq_ok_iff.mp hrename
  rw [h.locate false hname] at hfrom
  rw [h.locate false hgoal] at hto
  split at hfrom
  · cases hfrom
  · split at hto
    · cases hto
    · cases hfrom
      cases hto
      exact Replaces.move ⟨name, hname, rfl⟩ ⟨goal, hgoal, rfl⟩ hnode (h.leaves name hname)
        (h.leaves goal hgoal)

end LiesIn

/-! Actions that keep to the files -/

/-- Whatever comes of it, an action changes nothing but the files of a log. -/
def Confines (s : Sink) (l : Location) {α : Type} (x : Filing α) : Prop :=
  ∀ v, s.LiesIn v l → Replaces (s.Owns l) v (x.run v).2

section Confining

variable {α β : Type} {x : Filing α}

theorem confines_pure (a : α) : s.Confines l (pure a) := fun v _ => .refl _ v

theorem confines_look (f : Volume → Except Failure α) : s.Confines l (Filing.look f) := by
  intro v _
  rw [Filing.run_look]
  exact .refl _ v

theorem confines_change {f : Volume → Except Failure Volume}
    (hf : ∀ v v', s.LiesIn v l → f v = .ok v' → Replaces (s.Owns l) v v') :
    s.Confines l (Filing.change f) := by
  intro v h
  rw [Filing.run_change]
  cases hv : f v with
  | ok v' => exact hf v v' h hv
  | error e => exact .refl _ v

theorem Confines.bind {f : α → Filing β} (hx : s.Confines l x) (hf : ∀ a, s.Confines l (f a)) :
    s.Confines l (x >>= f) := by
  intro v h
  have hfirst := hx v h
  rw [Action.run_bind]
  generalize x.run v = run at hfirst ⊢
  obtain ⟨r, v₁⟩ := run
  cases r with
  | error e => exact hfirst
  | ok a => exact hfirst.trans (hf a v₁ (h.replaced hfirst))

theorem Confines.tryCatch {handle : Failure → Filing α} (hx : s.Confines l x)
    (hhandle : ∀ e, s.Confines l (handle e)) : s.Confines l (tryCatch x handle) := by
  intro v h
  have hfirst := hx v h
  rw [Filing.run_tryCatch]
  generalize x.run v = run at hfirst ⊢
  obtain ⟨r, v₁⟩ := run
  cases r with
  | ok a => exact hfirst
  | error e => exact hfirst.trans (hhandle e v₁ (h.replaced hfirst))

end Confining

theorem confines_append (text : List UInt8) : s.Confines l (s.append text) := by
  have hwrites : ∀ old, s.Confines l (Filing.write s.file (old ++ text)) := by
    refine fun old => confines_change fun v v' h hwrite => ?_
    rw [h.file_eq] at hwrite
    exact h.write (.inl rfl) hwrite
  refine Confines.bind (confines_look _) fun there => ?_
  cases there with
  | true => exact Confines.bind (confines_look _) hwrites
  | false => exact Confines.bind (confines_pure _) hwrites

theorem confines_move {goal : String} (hname : s.Names name) (hgoal : s.Names goal) :
    s.Confines l (move (s.beside name) (s.beside goal)) := by
  have hrename : s.Confines l (Filing.change fun v => v.rename (s.beside name) (s.beside goal)) :=
    confines_change fun v v' h => h.rename hname hgoal
  refine Confines.bind (confines_look _) fun there => ?_
  cases there with
  | false => exact confines_pure _
  | true =>
    refine Confines.bind (confines_look _) fun occupied => ?_
    cases occupied with
    | false => exact hrename
    | true => exact Confines.bind (confines_change fun v v' h => h.unlink hgoal) fun _ => hrename

theorem confines_shift (n : Nat) : s.Confines l (s.shift n) := by
  induction n with
  | zero => exact confines_pure _
  | succ n ih => exact Confines.bind (confines_move (.inr ⟨_, rfl⟩) (.inr ⟨_, rfl⟩)) fun _ => ih

theorem confines_rollOver : s.Confines l s.rollOver := by
  intro v h
  have hlast : s.Confines l (move s.file (s.older 1)) := by
    rw [h.file_eq]
    exact confines_move (.inl rfl) (.inr ⟨_, rfl⟩)
  unfold rollOver
  split
  · exact Confines.bind (confines_shift _) (fun _ => Confines.bind hlast fun _ => confines_append []) v h
  · exact confines_append [] v h

theorem confines_write (line : String) : s.Confines l (s.write line) := by
  refine Confines.bind (Confines.bind (confines_look _) fun _ => confines_pure _) fun full => ?_
  cases full with
  | true => exact Confines.bind confines_rollOver fun _ => confines_append _
  | false => exact confines_append _

/-- What has been added is written to the file. -/
theorem append_ok {text : List UInt8} (hrun : (s.append text).run v = (.ok (), v')) :
    ∃ bytes, v.write s.file bytes = .ok v' := by
  obtain ⟨there, v₁, hlook, hrun⟩ := Action.of_run_bind_ok hrun
  rw [exists?, Filing.run_look] at hlook
  obtain rfl : v = v₁ := congrArg Prod.snd hlook
  have hwrote : ∀ bytes, (Filing.write s.file bytes).run v = (.ok (), v') → v.write s.file bytes = .ok v' := by
    intro bytes hwrite
    rw [Filing.write, Filing.run_change] at hwrite
    split at hwrite
    · rename_i hdone
      cases hwrite
      exact hdone
    · cases hwrite
  cases there with
  | false =>
    obtain ⟨old, v₂, hnone, hrun⟩ := Action.of_run_bind_ok hrun
    cases hnone
    exact ⟨_, hwrote _ hrun⟩
  | true =>
    obtain ⟨old, v₂, hread, hrun⟩ := Action.of_run_bind_ok hrun
    rw [Filing.run_look] at hread
    obtain rfl : v = v₂ := congrArg Prod.snd hread
    exact ⟨_, hwrote _ hrun⟩

end Sink

namespace Setup

variable {log : Setup} {s : Sink} {l : Location}

theorem confines_emit (hsink : log.sink = some s) (time : Instant) (r : Record) :
    s.Confines l (log.emit time r) := by
  unfold emit
  split
  · exact Sink.confines_pure _
  · rw [hsink]
    exact Sink.Confines.bind (Sink.Confines.tryCatch (Sink.confines_write _) fun _ => Sink.confines_pure _)
      fun _ => Sink.confines_pure _

theorem confines_emitAll (hsink : log.sink = some s) (time : Instant) (records : List Record) :
    s.Confines l (log.emitAll time records) := by
  induction records with
  | nil => exact Sink.confines_pure _
  | cons r rest ih =>
    exact Sink.Confines.bind (confines_emit hsink time r) fun _ => Sink.Confines.bind ih fun _ =>
      Sink.confines_pure _

/-- A log that has opened has changed nothing, or has made directories and written its file. -/
theorem create_ok {home : Option String} {level format rotation : String} {file : Option Path} {retention : Int}
    {v v' : Volume} (hrun : (create home level format file rotation retention).run v = (.ok log, v')) :
    v' = v ∨ ∃ s p v₁ bytes, log.sink = some s ∧ v.makeDirectories p = .ok v₁ ∧
      v₁.write s.file bytes = .ok v' := by
  obtain ⟨n, v₀, hlevel, hrun⟩ := Action.of_run_bind_ok hrun
  rw [Filing.run_lift] at hlevel
  obtain rfl : v = v₀ := congrArg Prod.snd hlevel
  cases file with
  | none =>
    cases hrun
    exact .inl rfl
  | some p =>
    cases hexpand : p.expandHome? home with
    | none =>
      simp only [hexpand] at hrun
      cases hrun
    | some p =>
      simp only [hexpand] at hrun
      obtain ⟨_, v₁, hmake, hrun⟩ := Action.of_run_bind_ok hrun
      rw [Filing.makeDirectories, Filing.run_change] at hmake
      obtain ⟨bytes, v₂, hparse, hrun⟩ := Action.of_run_bind_ok hrun
      rw [Filing.run_lift] at hparse
      obtain rfl : v₁ = v₂ := congrArg Prod.snd hparse
      rw [Action.run_bind_ok (Action.run_get v₁)] at hrun
      obtain ⟨_, v₃, happend, hrun⟩ := Action.of_run_bind_ok hrun
      obtain ⟨written, hwrite⟩ := Sink.append_ok happend
      cases hrun
      split at hmake
      · rename_i hmade
        cases hmake
        exact .inr ⟨_, _, _, written, rfl, hmade, hwrite⟩
      · cases hmake

end Setup
end Log

namespace CommandLine

variable {σ : Type} {log : Log.Setup} {q : Path} {d : Location} {v v' : Volume}

theorem openLog_ok {verbose : Bool} {w w' : World σ} (hopen : (openLog verbose).run w = (.ok log, w')) :
    w'.volume = w.volume ∨ ∃ s p v₁ bytes, log.sink = some s ∧ w.volume.makeDirectories p = .ok v₁ ∧
      v₁.write s.file bytes = .ok w'.volume := by
  obtain ⟨settings, w₁, hload, hcreate⟩ := Action.of_run_bind_ok hopen
  have hsame : w₁ = w := by
    unfold loadSettings Work.loadSettings at hload
    rw [Action.run_bind_ok (Action.run_get w), Work.run_lift] at hload
    exact (congrArg Prod.snd hload).symm
  subst hsame
  obtain ⟨environment, w₂, henvironment, hcreate⟩ := Action.of_run_bind_ok hcreate
  cases henvironment
  rw [Work.run_filing] at hcreate
  obtain ⟨hlog, rfl⟩ := Prod.mk.inj hcreate
  exact Log.Setup.create_ok (Prod.ext hlog rfl)

/-- A log without a file, or one whose files lie outside the directory of the caches. -/
def LogsOutside (log : Log.Setup) (d : Location) (v : Volume) : Prop :=
  ∀ s, log.sink = some s → ∃ l, s.LiesIn v l ∧ ¬ d <+: l

namespace LogsOutside

theorem replaced {own : Location → Prop} (h : LogsOutside log d v) (hreplaces : Replaces own v v') :
    LogsOutside log d v' := by
  intro s hsink
  obtain ⟨l, hlies, houtside⟩ := h s hsink
  exact ⟨l, hlies.replaced hreplaces, houtside⟩

/-- Files outside the directory of the caches have no location in it. -/
theorem not_owns {s : Log.Sink} {l : Location} (hlies : s.LiesIn v l) (houtside : ¬ d <+: l)
    (hdirectory : v.nodeAt? d = some .directory) (rest : Location) : ¬ s.Owns l (d ++ rest) := by
  rintro ⟨name, hname, heq⟩
  have hprefix : d <+: l ++ [name] := heq ▸ List.prefix_append d rest
  rcases List.prefix_concat_iff.mp hprefix with rfl | hprefix
  · exact (hlies.leaves name hname).1 hdirectory
  · exact houtside hprefix

/-- Whatever it is given to write, such a log replaces no files but its own. -/
theorem replaces (h : LogsOutside log d v) (hdirectory : v.nodeAt? d = some .directory) (time : Instant)
    (records : List Log.Record) : ∃ own, Replaces own v ((log.emitAll time records).run v).2 ∧
      ∀ rest, ¬ own (d ++ rest) := by
  cases hsink : log.sink with
  | none =>
    rw [emitAll_of_sink_eq_none hsink]
    exact ⟨fun _ => False, .refl _ v, fun _ => id⟩
  | some s =>
    obtain ⟨l, hlies, houtside⟩ := h s hsink
    exact ⟨s.Owns l, Log.Setup.confines_emitAll hsink time records v hlies,
      not_owns hlies houtside hdirectory⟩

theorem spares (h : LogsOutside log d v) (hroot : v.IsRoot q d) (hhere : AreProper v.here) :
    LogSpares log q d v := by
  intro time records
  obtain ⟨own, hreplaces, hnot⟩ := h.replaces hroot.directory time records
  exact ⟨hroot.grows hreplaces.grows, fun rest => hreplaces.node_of_not (hnot rest), hreplaces.here ▸ hhere⟩

/-- Opening such a log changes no file of the caches. -/
theorem keeps {verbose : Bool} {w w' : World σ} (hopen : (openLog verbose).run w = (.ok log, w'))
    (hgrows : Grows w'.volume v) (h : LogsOutside log d v) {name : String}
    (hunlinked : ∀ target, w.volume.nodeAt? (d ++ [name]) ≠ some (.link target))
    (hfree : v.nodeAt? (d ++ [name]) ≠ some .directory) :
    w'.volume.nodeAt? (d ++ [name]) = w.volume.nodeAt? (d ++ [name]) := by
  rcases openLog_ok hopen with hsame | ⟨s, p, v₁, bytes, hsink, hmade, hwrite⟩
  · rw [hsame]
  obtain ⟨l, hlies, houtside⟩ := h s hsink
  have hmade' : v₁.nodeAt? (d ++ [name]) = w.volume.nodeAt? (d ++ [name]) ∨
      v₁.nodeAt? (d ++ [name]) = some .directory := by
    by_cases hsame : v₁.nodeAt? (d ++ [name]) = w.volume.nodeAt? (d ++ [name])
    · exact .inl hsame
    · exact .inr (made_of_makeDirectories hmade hsame).2
  obtain ⟨-, goal, htarget, hput⟩ := write_eq_ok_iff.mp hwrite
  obtain ⟨hlocate, -, hgoal⟩ := target_eq_ok_iff.mp htarget
  by_cases hsame : goal = d ++ [name]
  · -- The log would be written to the file, but it is written outside.
    exfalso
    subst hsame
    have hleaf : IsLeaf (v₁.nodeAt? (d ++ [name])) := by
      refine ⟨hgoal, fun target hlink => ?_⟩
      rcases hmade' with hwas | hdirectory
      · exact hunlinked target (hwas ▸ hlink)
      · exact hgoal hdirectory
    have hgrown := (Store.advances_file bytes hleaf).grows.trans (hput ▸ hgrows)
    have hlater := hgrown.locate hlocate
    rw [hlies.file_eq, hlies.locate true (.inl rfl)] at hlater
    split at hlater
    · cases hlater
    · obtain ⟨rfl, -⟩ := List.append_inj' (Except.ok.inj hlater) rfl
      exact houtside (List.prefix_refl _)
  · rw [← hput, nodeAt?_tick, nodeAt?_put_of_ne _ _ (Ne.symm hsame)]
    refine hmade'.resolve_right fun hdirectory => hfree (hgrows.directory _ ?_)
    rw [← hput, nodeAt?_tick, nodeAt?_put_of_ne _ _ (Ne.symm hsame)]
    exact hdirectory

end LogsOutside
end CommandLine
end AssetCompiler
