import AssetCompiler.Proofs.SparedStores
import AssetCompiler.Proofs.StoreMaps

/-!
A directory of caches that many hosts share. Whoever stores there, every entry below the directory was
made for some space and some key, and it lies where a store of this space keeps this key. So what a store
finds was made for a space that has its place there, and for a key that it cannot tell from the one that
it was asked for.
-/
namespace AssetCompiler.Store

open Volume

theorem Lacks.not_serves {s : Store} {v : Volume} {key : String} {a : Artifact} (h : s.Lacks v key) :
    ¬ s.Serves v key a := by
  intro hserves
  obtain ⟨e, hget, -⟩ := hserves default
  rcases h default with habsent | ⟨cause, hcause⟩
  · rw [hget] at habsent
    cases habsent
  · rw [hget] at hcause
    cases hcause

/-- All entries below the directory of the caches were made, and each lies where it belongs. -/
structure Accounts (made : String → String → Entry → Prop) (d : Location) (v : Volume) : Prop where
  file : ∀ name key bytes mtime,
    v.nodeAt? (d ++ [name] ++ [fileName key]) = some (.file bytes mtime) →
    ∃ space key' e, made space key' e ∧ safeName space = name ∧ fileName key' = fileName key ∧
      bytes = Text.Utf8.ofString (Json.write .pages e.toJson)
  rows : ∀ name rows mtime, v.nodeAt? (d ++ [name]) = some (.table rows mtime) → ∀ r ∈ rows,
    ∃ e, made r.space r.key e ∧ r.data = Json.write .compact e.toJson

namespace Accounts

variable {made : String → String → Entry → Prop} {v v' : Volume} {q : Path} {d : Location}

theorem mono {made' : String → String → Entry → Prop} (h : Accounts made d v)
    (hmore : ∀ space key e, made space key e → made' space key e) : Accounts made' d v where
  file := fun name key bytes mtime hnode => by
    obtain ⟨space, key', e, hmade, hrest⟩ := h.file name key bytes mtime hnode
    exact ⟨space, key', e, hmore space key' e hmade, hrest⟩
  rows := fun name rows mtime hnode r hr => by
    obtain ⟨e, hmade, hdata⟩ := h.rows name rows mtime hnode r hr
    exact ⟨e, hmore r.space r.key e hmade, hdata⟩

/-- Where there is nothing, there is nothing to account for. -/
theorem of_empty (hempty : ∀ name rest, v.nodeAt? (d ++ name :: rest) = none) :
    Accounts made d v where
  file := fun name key bytes mtime hnode => by
    rw [← List.append_cons, hempty] at hnode
    cases hnode
  rows := fun name rows mtime hnode => by
    rw [hempty] at hnode
    cases hnode

theorem spares (h : Accounts made d v) (hspares : Spares q d v v') : Accounts made d v' where
  file := fun name key bytes mtime hnode => by
    rw [List.append_assoc, hspares.node, ← List.append_assoc] at hnode
    exact h.file name key bytes mtime hnode
  rows := fun name rows mtime hnode => by
    rw [hspares.node] at hnode
    exact h.rows name rows mtime hnode

/-- Opening a store makes no entry. -/
theorem opens (h : Accounts made d v) (hopens : Opens v v') : Accounts made d v' where
  file := fun name key bytes mtime hnode => by
    rcases hopens.node (d ++ [name] ++ [fileName key]) with hsame | ⟨_, hmade | ⟨mtime', hmade⟩⟩
    · exact h.file name key bytes mtime (hsame ▸ hnode)
    · rw [hmade] at hnode
      cases hnode
    · rw [hmade] at hnode
      cases hnode
  rows := fun name rows mtime hnode r hr => by
    rcases hopens.node (d ++ [name]) with hsame | ⟨_, hmade | ⟨mtime', hmade⟩⟩
    · exact h.rows name rows mtime (hsame ▸ hnode) r hr
    · rw [hmade] at hnode
      cases hnode
    · rw [hmade] at hnode
      cases hnode
      cases hr

/-! Storing -/

section Storing

variable {root : Path} {space key : String} {e : Entry} {r : Except Failure Unit}

/-- The entry of a key in a space, beside those that were made before. -/
def With (made : String → String → Entry → Prop) (space key : String) (e : Entry) :
    String → String → Entry → Prop :=
  fun space' key' e' => made space' key' e' ∨ space' = space ∧ key' = key ∧ e' = e

theorem putFile (h : Accounts made d v) (hfolder : FolderAt v root (d ++ [safeName space]))
    (hrun : (Store.putFile root key e).run v = (r, v')) :
    Accounts (With made space key e) d v' := by
  obtain ⟨temporary, r', v'', ht, hrun', hputs⟩ := hfolder.run_putFile key e
  obtain ⟨rfl, rfl⟩ := Prod.mk.inj (hrun'.symm.trans hrun)
  have hbefore : Accounts (With made space key e) d v := h.mono fun _ _ _ => Or.inl
  refine ⟨fun name key' bytes mtime hnode => ?_, fun name rows mtime hnode => ?_⟩
  · -- The file is the one that was written, or it was there before.
    by_cases hfile : name = safeName space ∧ fileName key' = fileName key
    · obtain ⟨rfl, hkey⟩ := hfile
      rw [hkey] at hnode ⊢
      cases r' with
      | error f =>
        rw [hputs.failed f rfl] at hnode
        obtain ⟨space', key'', e', hrest⟩ := hbefore.file _ key bytes mtime hnode
        exact ⟨space', key'', e', hrest⟩
      | ok u =>
        obtain ⟨-, -, mtime', hwritten⟩ := hputs.stored rfl
        have hbytes := (Node.file.inj (Option.some.inj (hwritten.symm.trans hnode))).1
        exact ⟨space, key, e, Or.inr ⟨rfl, rfl, rfl⟩, rfl, rfl, hbytes.symm⟩
    · refine hbefore.file name key' bytes mtime ?_
      rw [← hputs.advances.node_of_not, hnode]
      rintro (heq | heq)
      · obtain ⟨-, hname⟩ := List.append_inj' heq rfl
        exact ht.ne_fileName key' (List.cons.inj hname).1.symm
      · obtain ⟨hspace, hname⟩ := List.append_inj' heq rfl
        exact hfile ⟨(List.cons.inj (List.append_cancel_left hspace)).1, (List.cons.inj hname).1⟩
  · refine hbefore.rows name rows mtime ?_
    rw [← hputs.advances.node_of_not, hnode]
    have hdeeper : ∀ name', d ++ [name] ≠ d ++ [safeName space] ++ [name'] := by
      intro name' heq
      have hlength := congrArg List.length heq
      simp at hlength
    exact not_or_intro (hdeeper _) (hdeeper _)

theorem putRow {database : Path} (h : Accounts made d v)
    (htable : TableAt v database (d ++ [databaseName]))
    (hrun : (withRows database (Store.putRow ⟨space, key, Json.write .compact e.toJson⟩)).run v =
      (r, v')) : Accounts (With made space key e) d v' := by
  obtain ⟨v'', hrun', hadvances, htable', hrows⟩ := htable.run_withRows
    (Store.putRow ⟨space, key, Json.write .compact e.toJson⟩)
  obtain ⟨-, rfl⟩ := Prod.mk.inj (hrun'.symm.trans hrun)
  have hbefore : Accounts (With made space key e) d v := h.mono fun _ _ _ => Or.inl
  refine ⟨fun name key' bytes mtime hnode => ?_, fun name rows mtime hnode r₀ hr₀ => ?_⟩
  · refine hbefore.file name key' bytes mtime ?_
    rw [← hadvances.node_of_not, hnode]
    intro heq
    have hlength := congrArg List.length heq
    simp at hlength
  · by_cases hname : name = databaseName
    · subst hname
      obtain ⟨hlocate, rows₀, mtime₀, hnode₀⟩ := htable
      rw [TableAt.rowsOf_eq htable'.1 hnode, TableAt.rowsOf_eq hlocate hnode₀] at hrows
      rw [hrows, Store.putRow, List.mem_append, List.mem_filter, List.mem_singleton] at hr₀
      rcases hr₀ with ⟨hold, -⟩ | rfl
      · exact hbefore.rows _ rows₀ mtime₀ hnode₀ r₀ hold
      · exact ⟨e, Or.inr ⟨rfl, rfl, rfl⟩, rfl⟩
    · refine hbefore.rows name rows mtime ?_ r₀ hr₀
      rw [← hadvances.node_of_not, hnode]
      intro heq
      exact hname (List.cons.inj (List.append_cancel_left heq)).1

/-- What a store of a space stores under a key was made for these. -/
theorem put {backend : Backend} {s : Store} (h : Accounts made d v)
    (hnamed : named backend q space = some s) (hat : s.At v (placeOf backend d space))
    (hrun : (s.put key e).run v = (r, v')) : Accounts (With made space key e) d v' := by
  cases backend with
  | json =>
    cases hnamed
    exact h.putFile hat hrun
  | sqlite =>
    cases hnamed
    exact h.putRow hat.2.2 hrun
  | unknown name => cases hnamed

end Storing

/-! Finding -/

section Finding

variable {root : Path} {space name key : String}

theorem lacks_or_serves_file (h : Accounts made d v)
    (hdates : ∀ space key e, made space key e → e.createdAt.IsDate)
    (hfolder : FolderAt v root (d ++ [name])) (hshort : IsShort (fileName key)) :
    (folder root space).Lacks v key ∨ ∃ space' key' e, made space' key' e ∧
      safeName space' = name ∧ fileName key' = fileName key ∧
      (folder root space).Serves v key e.toArtifact := by
  cases hnode : v.nodeAt? (d ++ [name] ++ [fileName key]) with
  | none => exact Or.inl (hfolder.lacks hshort.short (Or.inl hnode))
  | some node =>
    cases node with
    | directory => exact Or.inl (hfolder.lacks hshort.short (Or.inr (Or.inl hnode)))
    | table rows mtime =>
      exact Or.inl (hfolder.lacks hshort.short (Or.inr (Or.inr ⟨rows, mtime, hnode⟩)))
    | link target => exact absurd hnode (hfolder.unlinked _ target)
    | file bytes mtime =>
      obtain ⟨space', key', e, hmade, hspace, hkey, hbytes⟩ := h.file name key bytes mtime hnode
      rw [hbytes] at hnode
      refine Or.inr ⟨space', key', e, hmade, hspace, hkey, fun now => ⟨e, ?_, rfl⟩⟩
      exact hfolder.getFile_found now (hdates _ _ _ hmade) (hfolder.hasZero_short hshort)
        hshort.short hnode

theorem lacks_or_serves_row {database : Path} (h : Accounts made d v)
    (hdates : ∀ space key e, made space key e → e.createdAt.IsDate)
    (htable : TableAt v database (d ++ [databaseName])) (space key : String) :
    (table database space true).Lacks v key ∨ ∃ e, made space key e ∧
      (table database space true).Serves v key e.toArtifact := by
  obtain ⟨hlocate, rows, mtime, hnode⟩ := htable
  have hrows := TableAt.rowsOf_eq hlocate hnode
  cases hfind : rows.find? (isRow space key) with
  | none =>
    refine Or.inl fun now => Or.inl ?_
    rw [run_get_table, hrows, hfind]
  | some r =>
    have hrow := List.find?_some hfind
    simp only [isRow, Bool.and_eq_true, beq_iff_eq] at hrow
    obtain ⟨rfl, rfl⟩ := hrow
    obtain ⟨e, hmade, hdata⟩ := h.rows _ rows mtime hnode r (List.mem_of_find?_eq_some hfind)
    refine Or.inr ⟨e, hmade, fun now => ⟨e, ?_, rfl⟩⟩
    rw [run_get_table, hrows, hfind]
    simp only [hdata, readEntry_written now .compact (hdates _ _ _ hmade)]

/-- A store has nothing to serve under a key, or it serves what was made for a space in its place and for
a key in the same slot. -/
theorem lacks_or_serves {backend : Backend} {s : Store} (h : Accounts made d v)
    (hdates : ∀ space key e, made space key e → e.createdAt.IsDate)
    (hnamed : named backend q space = some s) (hat : s.At v (placeOf backend d space))
    (hshort : IsShort (fileName key)) :
    s.Lacks v key ∨ ∃ space' key' e, made space' key' e ∧
      placeOf backend d space' = placeOf backend d space ∧ s.slotOf key' = s.slotOf key ∧
      s.Serves v key e.toArtifact := by
  cases backend with
  | json =>
    cases hnamed
    refine (h.lacks_or_serves_file hdates hat hshort).imp_right ?_
    rintro ⟨space', key', e, hmade, hspace, hkey, hserves⟩
    refine ⟨space', key', e, hmade, ?_, hkey, hserves⟩
    simp only [placeOf, hspace]
  | sqlite =>
    cases hnamed
    refine (h.lacks_or_serves_row hdates hat.2.2 space key).imp_right ?_
    rintro ⟨e, hmade, hserves⟩
    exact ⟨space, key, e, hmade, rfl, rfl, hserves⟩
  | unknown name => cases hnamed

end Finding
end Accounts
end AssetCompiler.Store
