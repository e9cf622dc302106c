import AssetCompiler.Proofs.CacheKeys
import AssetCompiler.Proofs.Compilations

/-!
Changes that spare the stores. What a store answers follows from a few nodes below the directory of
the caches: as long as these are as they were, so are the answers. A store that was opened in an empty
directory has nothing to serve.
-/
namespace AssetCompiler

open Volume

/-- What others may do to a volume: nothing below the directory of the caches. -/
structure Volume.Spares (q : Path) (d : Location) (v v' : Volume) : Prop where
  root : v'.IsRoot q d
  node : ∀ rest, v'.nodeAt? (d ++ rest) = v.nodeAt? (d ++ rest)
  here : AreProper v'.here

namespace Store

/-- The locations whose nodes decide what a store answers. -/
def Place.Rests : Place → Location → Prop
  | .folder l, l' => l' = l ∨ ∃ name, l' = l ++ [name]
  | .rows l _, l' => l' = l

theorem rests_below {backend : Backend} {d : Location} {space : String} {l : Location}
    (h : (placeOf backend d space).Rests l) : ∃ name rest, l = d ++ name :: rest := by
  have hfolder : (Place.folder (d ++ [safeName space])).Rests l →
      ∃ name rest, l = d ++ name :: rest := by
    rintro (rfl | ⟨name, rfl⟩)
    · exact ⟨_, [], rfl⟩
    · exact ⟨safeName space, [name], by simp⟩
  cases backend with
  | json => exact hfolder h
  | sqlite =>
    obtain rfl : l = d ++ [databaseName] := h
    exact ⟨_, [], rfl⟩
  | unknown name => exact hfolder h

variable {v v' : Volume} {backend : Backend} {q : Path} {d : Location} {space : String} {s : Store}

/-- A store whose nodes are as they were lies where it lay, and answers as it answered. -/
theorem at_of_nodes (hroot : v.IsRoot q d) (hroot' : v'.IsRoot q d)
    (hspace : IsName (safeName space)) (hnamed : named backend q space = some s)
    (hat : s.At v (placeOf backend d space))
    (hnode : ∀ l, (placeOf backend d space).Rests l → v'.nodeAt? l = v.nodeAt? l) :
    s.At v' (placeOf backend d space) ∧
      ∀ now key, ((s.get now key).run v').1 = ((s.get now key).run v).1 := by
  cases backend with
  | json =>
    cases hnamed
    have hfolder : FolderAt v (q.child (safeName space)) (d ++ [safeName space]) := hat
    have hfolder' : FolderAt v' (q.child (safeName space)) (d ++ [safeName space]) := by
      refine ⟨hfolder.zero, ?_, ?_, ?_⟩
      · rw [hroot'.locate true hspace, ← hroot.locate true hspace]
        exact hfolder.located
      · rw [hnode _ (Or.inl rfl)]
        exact hfolder.directory
      · intro name target
        rw [List.append_assoc]
        exact hroot'.unlinked _ target
    exact ⟨hfolder', fun now key =>
      hfolder.getFile_congr hfolder' now key (hnode _ (Or.inr ⟨_, rfl⟩))⟩
  | sqlite =>
    cases hnamed
    obtain ⟨hopen, hrows, hlocate, rows, mtime, htable⟩ := hat
    have hlocate' : v'.locate true (q.child databaseName) = .ok (d ++ [databaseName]) := by
      rw [hroot'.locate true isName_databaseName, ← hroot.locate true isName_databaseName]
      exact hlocate
    have htable' : v'.nodeAt? (d ++ [databaseName]) = some (.table rows mtime) := by
      rw [hnode _ rfl, htable]
    refine ⟨⟨hopen, hrows, hlocate', rows, mtime, htable'⟩, fun now key => ?_⟩
    rw [run_get_table, run_get_table, TableAt.rowsOf_eq hlocate' htable',
      TableAt.rowsOf_eq hlocate htable]
  | unknown name => cases hnamed

/-! Empty stores -/

/-- No table is the text of an entry. -/
theorem read?_tableBytes : Json.read? (Text.unifyLineEnds
    (String.toList "SQLite format 3" ++ [Char.ofNat 0])) = none := by
  decide

theorem decode_tableBytes : Text.Utf8.decode tableBytes =
    .ok (String.toList "SQLite format 3" ++ [Char.ofNat 0]) := by
  decide +kernel

/-- A file that is not there, a directory and a table are no entries. -/
theorem FolderAt.lacks {root : Path} {l : Location} (hfolder : FolderAt v root l) {key : String}
    (hshort : ¬ nameLimit < (fileName key).utf8ByteSize)
    (hnode : v.nodeAt? (l ++ [fileName key]) = none ∨
      v.nodeAt? (l ++ [fileName key]) = some .directory ∨
      ∃ rows mtime, v.nodeAt? (l ++ [fileName key]) = some (.table rows mtime)) :
    (folder root space).Lacks v key := by
  have hlocate := hfolder.locate true (isName_fileName key)
  rw [if_neg hshort] at hlocate
  intro now
  change ((getFile now root key).run v).1 = .ok .absent ∨
    ∃ cause, ((getFile now root key).run v).1 = .ok (.unreadable cause)
  unfold getFile entryPath
  rw [← fileName, Filing.run_look]
  cases hzero : hasZero (root.child (fileName key)) with
  | true =>
    have hthere : v.isThere (root.child (fileName key)) = .ok false := by
      unfold isThere probe
      rw [hzero]
      rfl
    rw [hthere]
    exact Or.inl rfl
  | false =>
    have hthere : ∀ n, v.nodeAt? (l ++ [fileName key]) = some n →
        v.isThere (root.child (fileName key)) = .ok true := by
      intro n hn
      unfold isThere probe
      rw [hzero, stat_eq_ok_iff.mpr ⟨hlocate, hn⟩]
      rfl
    rcases hnode with hnone | hdirectory | ⟨rows, mtime, htable⟩
    · have hstat : v.stat (root.child (fileName key)) = .error .notFound := by
        unfold stat
        rw [hlocate]
        simp only [hnone]
      have habsent : v.isThere (root.child (fileName key)) = .ok false := by
        unfold isThere probe
        rw [hzero, hstat]
        rfl
      rw [habsent]
      exact Or.inl rfl
    · rw [hthere _ hdirectory]
      refine Or.inr ⟨.file .isDirectory (root.child (fileName key)).text, ?_⟩
      simp only [bind, Except.bind, if_true, readFile, readText, Volume.read,
        stat_eq_ok_iff.mpr ⟨hlocate, hdirectory⟩, about, hzero, Bool.false_eq_true, if_false]
    · rw [hthere _ htable]
      refine Or.inr ⟨.malformedJson, ?_⟩
      simp only [bind, Except.bind, if_true, readFile, readText, Volume.read,
        stat_eq_ok_iff.mpr ⟨hlocate, htable⟩, about, hzero, Bool.false_eq_true, if_false,
        decode_tableBytes, pure, Except.pure, readEntry, read?_tableBytes]

/-- A store that was opened in an empty directory has nothing to serve. -/
theorem lacks_of_opens (hempty : ∀ name rest, v.nodeAt? (d ++ name :: rest) = none)
    (hopens : Opens v v') (hnamed : named backend q space = some s)
    (hat : s.At v' (placeOf backend d space)) {key : String}
    (hshort : ¬ nameLimit < (fileName key).utf8ByteSize) : s.Lacks v' key := by
  cases backend with
  | json =>
    cases hnamed
    have hfolder : FolderAt v' (q.child (safeName space)) (d ++ [safeName space]) := hat
    refine hfolder.lacks hshort ?_
    have hnone := hempty (safeName space) [fileName key]
    rw [List.append_cons] at hnone
    rcases hopens.node (d ++ [safeName space] ++ [fileName key]) with hsame | ⟨_, his⟩
    · exact Or.inl (hsame.trans hnone)
    · exact Or.inr (his.imp id fun ⟨mtime, h⟩ => ⟨[], mtime, h⟩)
  | sqlite =>
    cases hnamed
    obtain ⟨_, _, hlocate, rows, mtime, htable⟩ := hat
    obtain rfl : rows = [] := by
      rcases hopens.node (d ++ [databaseName]) with hsame | ⟨_, hdirectory | ⟨mtime', his⟩⟩
      · rw [htable, hempty databaseName []] at hsame
        cases hsame
      · rw [htable] at hdirectory
        cases hdirectory
      · rw [htable] at his
        cases his
        rfl
    intro now
    left
    rw [run_get_table, TableAt.rowsOf_eq hlocate htable]
    rfl
  | unknown name => cases hnamed

end Store

/-! Hosts -/

namespace Host

variable {h : Host} {q : Path} {d : Location} {v v' v'' : Volume}

/-- The stores of a host lie where they lay, and answer as they answered. -/
structure Leaves (h : Host) (q : Path) (d : Location) (v v' : Volume) : Prop where
  stands : h.Stands q d v'
  same : ∀ name s, h.registry.slot? name = some s → ∀ now key,
    ((s.cache.store.get now key).run v').1 = ((s.cache.store.get now key).run v).1

theorem Leaves.refl (hstands : h.Stands q d v) : h.Leaves q d v v :=
  ⟨hstands, fun _ _ _ _ _ => rfl⟩

theorem Leaves.trans (hleaves : h.Leaves q d v v') (hleaves' : h.Leaves q d v' v'') :
    h.Leaves q d v v'' :=
  ⟨hleaves'.stands, fun name s hs now key =>
    (hleaves'.same name s hs now key).trans (hleaves.same name s hs now key)⟩

theorem Leaves.keeps (hleaves : h.Leaves q d v v') : h.Keeps q d v v' where
  stands := hleaves.stands
  serves := fun name s _ _ hs hserves =>
    hserves.congr fun now => hleaves.same name s hs now _

/-- A change elsewhere leaves the stores. -/
theorem Stands.leaves (hstands : h.Stands q d v)
    (hroot : v'.IsRoot q d)
    (hnode : ∀ name s, h.registry.slot? name = some s → ∀ l,
      (Store.placeOf h.settings.backend d s.transformer.space).Rests l →
      v'.nodeAt? l = v.nodeAt? l) : h.Leaves q d v v' := by
  have hslot : ∀ name s, h.registry.slot? name = some s →
      s.cache.store.At v' (Store.placeOf h.settings.backend d s.transformer.space) ∧
        ∀ now key, ((s.cache.store.get now key).run v').1 =
          ((s.cache.store.get now key).run v).1 := by
    intro name s hs
    exact Store.at_of_nodes hstands.root hroot (Store.isName_space s.transformer)
      (hstands.named name s hs) (hstands.places name s hs) (hnode name s hs)
  exact ⟨⟨hroot, hstands.named, fun name s hs => (hslot name s hs).1⟩,
    fun name s hs => (hslot name s hs).2⟩

theorem Stands.leaves_of_spares (hstands : h.Stands q d v) (hspares : Volume.Spares q d v v') :
    h.Leaves q d v v' := by
  refine hstands.leaves hspares.root ?_
  intro name s hs l hl
  obtain ⟨name', rest, rfl⟩ := Store.rests_below hl
  exact hspares.node _

end Host
end AssetCompiler
