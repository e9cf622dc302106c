import AssetCompiler.Proofs.CacheRoots
import AssetCompiler.Proofs.LikeVolumes
import AssetCompiler.Proofs.QuietWork

/-!
Stores that are kept apart. Each store has its place, and an operation changes nothing that is seen at
other places. So of a sequence of operations with several stores, in any order, each store answers those
that it is asked for as if there were no others. Two spaces have one place if the names of their folders
are the same.
-/
namespace AssetCompiler.Store

open Volume

variable {v v' w : Volume} {s t : Store} {place place' : Place}

/-- A store has its place on a volume, where all its operations can be performed. -/
def ReadyAt (v : Volume) : Store → Place → Prop
  | folder root _, .folder d => IsTidyFolder v root d
  | table database space isOpen, .rows l space' =>
    isOpen = true ∧ space' = space ∧ TableAt v database l
  | _, _ => False

/-- What is seen at a place is the same on two volumes. -/
def Place.Same (v v' : Volume) : Place → Prop
  | .folder d => SameFiles d v v'
  | .rows l space =>
    (rowsAt v' l).filter (·.space == space) = (rowsAt v l).filter (·.space == space)

/-- What is done at a place: nothing happens elsewhere. -/
def Place.Stirs (v v' : Volume) : Place → Prop
  | .folder d => Advances (Place.folder d).Owns v v' ∧
    (v.nodes.keys.Nodup → v'.nodes.keys.Nodup)
  | .rows l space => Advances (fun l' => l' = l) v v' ∧ (IsTable v l → IsTable v' l) ∧
    ∀ space', space' ≠ space →
      (rowsAt v' l).filter (·.space == space') = (rowsAt v l).filter (·.space == space')

theorem Place.Same.refl (v : Volume) (place : Place) : place.Same v v := by
  cases place with
  | folder d => exact fun _ _ => rfl
  | rows l space => exact rfl

theorem Place.Same.trans (h : place.Same v v') (h' : place.Same v' w) : place.Same v w := by
  cases place with
  | folder d => exact fun name hname => (h' name hname).trans (h name hname)
  | rows l space => exact Eq.trans h' h

theorem Place.Same.symm (h : place.Same v v') : place.Same v' v := by
  cases place with
  | folder d => exact fun name hname => (h name hname).symm
  | rows l space => exact Eq.symm h

theorem Place.Stirs.refl (v : Volume) (place : Place) : place.Stirs v v := by
  cases place with
  | folder d => exact ⟨.refl _ v, id⟩
  | rows l space => exact ⟨.refl _ v, id, fun _ _ => rfl⟩

/-- Whatever is done at a place, every store of the kind stays where it is, and what is seen at other
places is as it was. -/
theorem ReadyAt.stirs (h : s.ReadyAt v place) (hlike : place'.IsLike place)
    (hstirs : place'.Stirs v v') : s.ReadyAt v' place ∧ (place ≠ place' → place.Same v v') := by
  cases place' with
  | folder d' =>
    cases place with
    | rows l space => exact hlike.elim
    | folder d =>
      cases s with
      | table database space isOpen => exact h.elim
      | folder root space =>
        obtain ⟨hadvances, hnodup⟩ := hstirs
        change IsTidyFolder v root d at h
        refine ⟨⟨h.folder.grows hadvances.grows, hnodup h.nodup, fun name hname => ?_⟩, ?_⟩
        · rcases hadvances.node (d ++ [name]) with heq | ⟨-, -, hleaf, -⟩
          · rw [heq]
            exact h.free name hname
          · exact hleaf.1
        · intro hne name _
          refine congrArg (Option.map Node.timeless) (hadvances.node_of_not ?_)
          rintro ⟨name', heq⟩
          exact hne (congrArg Place.folder (List.append_inj_left' heq rfl))
  | rows l' space' =>
    cases place with
    | folder d => exact hlike.elim
    | rows l space =>
      cases s with
      | folder root space' => exact h.elim
      | table database space₀ isOpen =>
        obtain ⟨hadvances, htable, hrows⟩ := hstirs
        obtain ⟨hopen, rfl, hlocate, hnode⟩ := h
        have hlocate' := hadvances.grows.locate hlocate
        by_cases hl : l = l'
        · subst hl
          refine ⟨⟨hopen, rfl, hlocate', htable hnode⟩, fun hne => hrows space ?_⟩
          rintro rfl
          exact hne rfl
        · have hsame := hadvances.node_of_not hl
          refine ⟨⟨hopen, rfl, hlocate', ?_⟩, fun _ => ?_⟩
          · obtain ⟨rows, mtime, hnode⟩ := hnode
            exact ⟨rows, mtime, hsame.trans hnode⟩
          · have hrowsAt : rowsAt v' l = rowsAt v l := by rw [rowsAt, hsame, rowsAt]
            exact congrArg (List.filter (·.space == space)) hrowsAt

/-! Operations -/

section Operations

variable (now : Instant) (s : Store) (v : Volume)

theorem run_bind_pure {α : Type} (x : Filing α) (f : α → Answer) (v : Volume) :
    (x >>= fun a => pure (f a)).run v = ((x.run v).1.map f, (x.run v).2) := by
  rw [Action.run_bind]
  rcases x.run v with ⟨r, v'⟩
  cases r <;> rfl

theorem put_folder (root : Path) (space key : String) (e : Entry) :
    (folder root space).put key e = putFile root key e := rfl

theorem get_folder (root : Path) (space key : String) :
    (folder root space).get now key = getFile now root key := rfl

theorem delete_folder (root : Path) (space key : String) :
    (folder root space).delete key = deleteFile root key := rfl

theorem put_table (database : Path) (space key : String) (e : Entry) :
    (table database space true).put key e =
      withRows database (putRow ⟨space, key, Json.write .compact e.toJson⟩) := rfl

theorem delete_table (database : Path) (space key : String) :
    (table database space true).delete key = withRows database (deleteRow space key) := rfl

theorem entries_table (database : Path) (space : String) :
    (table database space true).entries now =
      Filing.look fun v => readRows now (rowsIn space (rowsOf v database)) := rfl

theorem run_entries_volume : ((s.entries now).run v).2 = v := by
  cases s with
  | folder root space =>
    unfold entries
    rw [Filing.run_look]
  | table database space isOpen =>
    cases isOpen with
    | true => rw [entries_table, Filing.run_look]
    | false => rfl

theorem run_perform_put (key : String) (e : Entry) :
    (s.perform now (.put key e)).run v =
      (((s.put key e).run v).1.map fun _ => .done, ((s.put key e).run v).2) :=
  run_bind_pure _ _ v

theorem run_perform_get (key : String) :
    (s.perform now (.get key)).run v =
      (((s.get now key).run v).1.map .looked, ((s.get now key).run v).2) :=
  run_bind_pure _ _ v

theorem run_perform_delete (key : String) :
    (s.perform now (.delete key)).run v =
      (((s.delete key).run v).1.map fun _ => .done, ((s.delete key).run v).2) :=
  run_bind_pure _ _ v

theorem run_perform_list :
    (s.perform now .list).run v =
      (((s.entries now).run v).1.map .listed, ((s.entries now).run v).2) :=
  run_bind_pure _ _ v

end Operations

/-! What a run of an operation comes to at a place -/

/-- Two runs that end alike and leave the same at a place. -/
def Place.EndAlike {α : Type} (place : Place) (x y : Except Failure α × Volume) : Prop :=
  y.1.mapError Failure.withoutSource = x.1.mapError Failure.withoutSource ∧ place.Same x.2 y.2

theorem Place.EndAlike.map {α β : Type} {x y : Except Failure α × Volume}
    (h : place.EndAlike x y) (f : α → β) :
    place.EndAlike (x.1.map f, x.2) (y.1.map f, y.2) := by
  have hcommutes : ∀ r : Except Failure α, (r.map f).mapError Failure.withoutSource =
      (r.mapError Failure.withoutSource).map f := by
    intro r
    cases r <;> rfl
  exact ⟨by rw [hcommutes, hcommutes, h.1], h.2⟩

section Folders

variable {root : Path} {d : Location}

theorem putOutcome_congr (root : Path) {key : String} {n n' : Option Node}
    (h : n'.map Node.timeless = n.map Node.timeless) :
    putOutcome root key n' = putOutcome root key n := by
  have hdirectory : n' = some .directory ↔ n = some .directory := by
    rw [← timeless_eq_directory, h, timeless_eq_directory]
  unfold putOutcome
  simp only [hdirectory]

theorem deleteOutcome_congr (root : Path) {key : String} {n n' : Option Node}
    (h : n'.map Node.timeless = n.map Node.timeless) :
    deleteOutcome root key n' = deleteOutcome root key n := by
  have hdirectory : n' = some .directory ↔ n = some .directory := by
    rw [← timeless_eq_directory, h, timeless_eq_directory]
  unfold deleteOutcome
  simp only [hdirectory]

theorem IsTidyFolder.putFile_same (h : IsTidyFolder v root d) (h' : IsTidyFolder v' root d)
    (hsame : SameFiles d v v') (key : String) (e : Entry) :
    (Place.folder d).EndAlike ((putFile root key e).run v) ((putFile root key e).run v') := by
  have hends := h'.putFile_outcome key e
  rw [putOutcome_congr root (hsame _ (isSuffixOf_fileName key)), ← (h.putFile_outcome key e).1] at hends
  refine ⟨hends.1, ?_⟩
  replace hends := hends.1
  obtain ⟨temporary, r, u, ht, hrun, hputs⟩ := h.folder.run_putFile key e
  obtain ⟨temporary', r', u', ht', hrun', hputs'⟩ := h'.folder.run_putFile key e
  rw [hrun, hrun'] at hends ⊢
  intro name hname
  by_cases hentry : name = fileName key
  · subst hentry
    cases r with
    | ok _ =>
      cases r' with
      | error f => cases hends
      | ok _ =>
        obtain ⟨-, -, mtime, hnode⟩ := hputs.stored rfl
        obtain ⟨-, -, mtime', hnode'⟩ := hputs'.stored rfl
        rw [hnode, hnode']
        rfl
    | error f =>
      cases r' with
      | ok _ => cases hends
      | error f' =>
        rw [hputs.failed f rfl, hputs'.failed f' rfl]
        exact hsame _ hname
  · have hother : ∀ {temporary : String}, IsTemporary temporary →
        ¬ (d ++ [name] = d ++ [temporary] ∨ d ++ [name] = d ++ [fileName key]) := by
      rintro temporary ht (heq | heq)
      · exact ht.ne_of_suffix hname (List.cons.inj (List.append_cancel_left heq)).1
      · exact hentry (List.cons.inj (List.append_cancel_left heq)).1
    rw [hputs.advances.node_of_not (hother ht), hputs'.advances.node_of_not (hother ht')]
    exact hsame name hname

theorem IsTidyFolder.deleteFile_same (h : IsTidyFolder v root d) (h' : IsTidyFolder v' root d)
    (hsame : SameFiles d v v') (key : String) :
    (Place.folder d).EndAlike ((deleteFile root key).run v) ((deleteFile root key).run v') := by
  have hentry := hsame _ (isSuffixOf_fileName key)
  obtain ⟨hends, hdone, hnode⟩ := h.folder.run_deleteFile key
  obtain ⟨hends', hdone', hnode'⟩ := h'.folder.run_deleteFile key
  refine ⟨by rw [hends, hends', deleteOutcome_congr root hentry], fun name hname => ?_⟩
  by_cases heq : name = fileName key
  · subst heq
    have hdirectory : v'.nodeAt? (d ++ [fileName key]) = some .directory ↔
        v.nodeAt? (d ++ [fileName key]) = some .directory := by
      rw [← timeless_eq_directory, hentry, timeless_eq_directory]
    rw [hnode, hnode']
    simp only [hdirectory]
    split
    · exact hentry
    · rfl
  · have hkept : ∀ {u : Volume}, ((deleteFile root key).run u).2 = u ∨
        ((deleteFile root key).run u).2 = u.drop (d ++ [fileName key]) ∧
          IsLeaf (u.nodeAt? (d ++ [fileName key])) →
        ((deleteFile root key).run u).2.nodeAt? (d ++ [name]) = u.nodeAt? (d ++ [name]) := by
      rintro u (hu | ⟨hu, -⟩)
      · rw [hu]
      · rw [hu, nodeAt?_drop u _ _ ne_root_of_append, if_neg]
        exact fun hname => heq (List.cons.inj (List.append_cancel_left hname)).1
    rw [hkept hdone, hkept hdone']
    exact hsame name hname

end Folders

/-- An operation is done at the place of the store. -/
theorem ReadyAt.stirs_perform (h : s.ReadyAt v place) (now : Instant) (op : Operation) :
    place.Stirs v ((s.perform now op).run v).2 := by
  cases s with
  | folder root space =>
    cases place with
    | rows l space' => exact h.elim
    | folder d =>
      change IsTidyFolder v root d at h
      cases op with
      | put key e =>
        obtain ⟨_, hnodup⟩ := h.putFile_outcome key e
        obtain ⟨temporary, r, v', ht, hrun, hputs⟩ := h.folder.run_putFile key e
        rw [run_perform_put, put_folder]
        refine ⟨?_, fun _ => hnodup⟩
        rw [hrun]
        refine hputs.advances.mono ?_
        rintro l (rfl | rfl)
        · exact ⟨_, rfl⟩
        · exact ⟨_, rfl⟩
      | delete key =>
        rw [run_perform_delete, delete_folder]
        obtain ⟨-, hdone, -⟩ := h.folder.run_deleteFile key
        rcases hdone with hsame | ⟨hdropped, hleaf⟩
        · rw [hsame]
          exact Place.Stirs.refl v _
        · rw [hdropped]
          exact ⟨.drop ⟨_, rfl⟩ hleaf, Keyed.nodup_keys_erase _⟩
      | get key =>
        rw [run_perform_get, run_get_volume]
        exact Place.Stirs.refl v _
      | list =>
        rw [run_perform_list, run_entries_volume]
        exact Place.Stirs.refl v _
  | table database space isOpen =>
    cases place with
    | folder d => exact h.elim
    | rows l space' =>
      obtain ⟨rfl, rfl, htable⟩ := h
      have hchange : ∀ f : List Row → List Row, (∀ space, space ≠ space' → ∀ rows,
          (f rows).filter (·.space == space) = rows.filter (·.space == space)) →
          Place.Stirs v ((withRows database f).run v).2 (.rows l space') := by
        intro f hf
        obtain ⟨v', hrun, hadvances, htable', hrows⟩ := htable.run_withRows f
        rw [hrun]
        refine ⟨hadvances, fun _ => htable'.2, fun space hspace => ?_⟩
        rw [← htable'.rowsOf_eq_rowsAt, hrows, ← htable.rowsOf_eq_rowsAt, hf space hspace]
      cases op with
      | put key e =>
        rw [run_perform_put, put_table]
        exact hchange (putRow ⟨space', key, Json.write .compact e.toJson⟩)
          fun space hspace rows => filter_putRow_of_ne hspace rows
      | delete key =>
        rw [run_perform_delete, delete_table]
        exact hchange (deleteRow space' key) fun space hspace rows =>
          filter_deleteRow_of_ne hspace rows
      | get key =>
        rw [run_perform_get, run_get_volume]
        exact Place.Stirs.refl v _
      | list =>
        rw [run_perform_list, run_entries_volume]
        exact Place.Stirs.refl v _

theorem TableAt.withRows_same {database : Path} {l : Location} {space : String}
    (h : TableAt v database l) (h' : TableAt v' database l)
    (hsame : (Place.rows l space).Same v v') {f : List Row → List Row}
    (hf : ∀ rows rows', rows'.filter (·.space == space) = rows.filter (·.space == space) →
      (f rows').filter (·.space == space) = (f rows).filter (·.space == space)) :
    (Place.rows l space).EndAlike ((withRows database f).run v) ((withRows database f).run v') := by
  obtain ⟨u, hrun, -, htable, hrows⟩ := h.run_withRows f
  obtain ⟨u', hrun', -, htable', hrows'⟩ := h'.run_withRows f
  rw [hrun, hrun']
  refine ⟨rfl, ?_⟩
  change (rowsAt u' l).filter _ = (rowsAt u l).filter _
  rw [← htable.rowsOf_eq_rowsAt, ← htable'.rowsOf_eq_rowsAt, hrows, hrows',
    h.rowsOf_eq_rowsAt, h'.rowsOf_eq_rowsAt]
  exact hf _ _ hsame

/-- A store answers alike on two volumes that look the same at its place, and they go on looking the
same. -/
theorem ReadyAt.perform_same (h : s.ReadyAt v place) (h' : s.ReadyAt v' place)
    (hsame : place.Same v v') (now : Instant) (op : Operation) :
    place.EndAlike ((s.perform now op).run v) ((s.perform now op).run v') := by
  cases s with
  | folder root space =>
    cases place with
    | rows l space' => exact h.elim
    | folder d =>
      change IsTidyFolder v root d at h
      change IsTidyFolder v' root d at h'
      cases op with
      | put key e =>
        rw [run_perform_put, run_perform_put, put_folder]
        exact (h.putFile_same h' hsame key e).map _
      | delete key =>
        rw [run_perform_delete, run_perform_delete, delete_folder]
        exact (h.deleteFile_same h' hsame key).map _
      | get key =>
        have hlooks := getFile_same h.folder h'.folder hsame now key
        rw [run_perform_get, run_perform_get, run_get_volume, run_get_volume, get_folder, hlooks]
        exact ⟨rfl, hsame⟩
      | list =>
        have hlists := entries_same h h' hsame now space
        rw [run_perform_list, run_perform_list, hlists, run_entries_volume, run_entries_volume]
        exact ⟨rfl, hsame⟩
  | table database space isOpen =>
    cases place with
    | folder d => exact h.elim
    | rows l space' =>
      obtain ⟨rfl, rfl, htable⟩ := h
      obtain ⟨-, -, htable'⟩ := h'
      have hrows : (rowsOf v' database).filter (·.space == space') =
          (rowsOf v database).filter (·.space == space') := by
        rw [htable.rowsOf_eq_rowsAt, htable'.rowsOf_eq_rowsAt]
        exact hsame
      cases op with
      | put key e =>
        rw [run_perform_put, run_perform_put, put_table]
        refine (htable.withRows_same htable' hsame fun rows rows' heq => ?_).map _
        rw [filter_putRow ⟨space', key, Json.write .compact e.toJson⟩,
          filter_putRow ⟨space', key, Json.write .compact e.toJson⟩, heq]
      | delete key =>
        rw [run_perform_delete, run_perform_delete, delete_table]
        refine (htable.withRows_same htable' hsame fun rows rows' heq => ?_).map _
        rw [filter_deleteRow, filter_deleteRow, heq]
      | get key =>
        rw [run_perform_get, run_perform_get, run_get_table, run_get_table, find?_isRow_eq,
          find?_isRow_eq, hrows]
        exact ⟨rfl, hsame⟩
      | list =>
        rw [run_perform_list, run_perform_list, entries_table, Filing.run_look, Filing.run_look,
          rowsIn_eq, rowsIn_eq, hrows]
        exact ⟨rfl, hsame⟩

/-! Many stores -/

section Many

variable {ι : Type} [DecidableEq ι] {stores : ι → Store} {places : ι → Place}

/-- Operations are performed in turn, each with one of some stores at a time, whatever fails on the
way. -/
def outcomes (stores : ι → Store) : List (ι × Instant × Operation) → Volume →
    List (ι × Except Failure Answer)
  | [], _ => []
  | (i, now, op) :: rest, v =>
    (i, (((stores i).perform now op).run v).1) ::
      outcomes stores rest (((stores i).perform now op).run v).2

/-- What the operations with one store come to, but for the names of files that were being written. -/
def outcomesOf (i : ι) (all : List (ι × Except Failure Answer)) : List (Except Failure Answer) :=
  (all.filter fun o => o.1 = i).map fun o => o.2.mapError Failure.withoutSource

theorem outcomesOf_cons_self (i : ι) (r : Except Failure Answer)
    (all : List (ι × Except Failure Answer)) :
    outcomesOf i ((i, r) :: all) = r.mapError Failure.withoutSource :: outcomesOf i all := by
  unfold outcomesOf
  rw [List.filter_cons_of_pos (by simp), List.map_cons]

theorem outcomesOf_cons_of_ne {i j : ι} (h : j ≠ i) (r : Except Failure Answer)
    (all : List (ι × Except Failure Answer)) :
    outcomesOf i ((j, r) :: all) = outcomesOf i all := by
  unfold outcomesOf
  rw [List.filter_cons_of_neg (by simpa using h)]

omit [DecidableEq ι] in
theorem outcomes_cons (j : ι) (now : Instant) (op : Operation)
    (rest : List (ι × Instant × Operation)) (v : Volume) :
    outcomes stores ((j, now, op) :: rest) v =
      (j, (((stores j).perform now op).run v).1) ::
        outcomes stores rest (((stores j).perform now op).run v).2 := rfl

/-- The operations of other stores can be left out. -/
theorem outcomesOf_filter (hready : ∀ j, (stores j).ReadyAt v (places j))
    (hlike : ∀ i j, (places i).IsLike (places j)) (hplaces : ∀ i j, i ≠ j → places i ≠ places j)
    {i : ι} (hready' : (stores i).ReadyAt v' (places i)) (hsame : (places i).Same v v')
    (ops : List (ι × Instant × Operation)) :
    outcomesOf i (outcomes stores ops v) =
      outcomesOf i (outcomes stores (ops.filter fun o => o.1 = i) v') := by
  induction ops generalizing v v' with
  | nil => rfl
  | cons o rest ih =>
    obtain ⟨j, now, op⟩ := o
    have hstirs := (hready j).stirs_perform now op
    have hready₁ : ∀ k, (stores k).ReadyAt (((stores j).perform now op).run v).2 (places k) :=
      fun k => ((hready k).stirs (hlike j k) hstirs).1
    rw [outcomes_cons]
    by_cases hj : j = i
    · subst hj
      obtain ⟨hends, hsame₁⟩ := (hready j).perform_same hready' hsame now op
      have hready₁' := (hready'.stirs (hlike j j) (hready'.stirs_perform now op)).1
      rw [List.filter_cons_of_pos (by simp), outcomes_cons, outcomesOf_cons_self,
        outcomesOf_cons_self, hends, ih hready₁ hready₁' hsame₁]
    · have hsame₁ : (places i).Same (((stores j).perform now op).run v).2 v' :=
        (((hready i).stirs (hlike j i) hstirs).2 (hplaces i j (Ne.symm hj))).symm.trans hsame
      rw [List.filter_cons_of_neg (by simpa using hj), outcomesOf_cons_of_ne hj,
        ih hready₁ hready' hsame₁]

/-- Each store answers as if the operations with the other stores were left out. -/
def AreApart (stores : ι → Store) (v : Volume) : Prop :=
  ∀ (ops : List (ι × Instant × Operation)) (i : ι),
    outcomesOf i (outcomes stores ops v) =
      outcomesOf i (outcomes stores (ops.filter fun o => o.1 = i) v)

theorem areApart_of_readyAt (hready : ∀ j, (stores j).ReadyAt v (places j))
    (hlike : ∀ i j, (places i).IsLike (places j)) (hplaces : Function.Injective places) :
    AreApart stores v := fun ops i =>
  outcomesOf_filter hready hlike (fun _ _ hne heq => hne (hplaces heq)) (hready i)
    (.refl v _) ops

/-- The operations with one store, performed until one fails. -/
theorem outcomesOf_of_performAll {i : ι} {ops : List (ι × Instant × Operation)}
    {answers : List Answer}
    (hrun : ((stores i).performAll ((ops.filter fun o => o.1 = i).map (·.2))).run v = (.ok answers, w)) :
    outcomesOf i (outcomes stores (ops.filter fun o => o.1 = i) v) = answers.map .ok := by
  induction ops generalizing v answers with
  | nil =>
    cases hrun
    rfl
  | cons o rest ih =>
    obtain ⟨j, now, op⟩ := o
    by_cases hj : j = i
    · subst hj
      rw [List.filter_cons_of_pos (by simp)] at hrun ⊢
      obtain ⟨answer, v₁, hfirst, hrest⟩ := Action.of_run_bind_ok hrun
      obtain ⟨answers', v₂, hall, hpure⟩ := Action.of_run_bind_ok hrest
      cases hpure
      rw [outcomes_cons, outcomesOf_cons_self, hfirst]
      exact congrArg (.ok answer :: ·) (ih hall)
    · rw [List.filter_cons_of_neg (by simpa using hj)] at hrun ⊢
      exact ih hrun

/-- Stores that are apart answer alike, whatever their backends are, if they begin empty. -/
theorem AreApart.alike {tables : ι → Store} (h : AreApart stores v) (h' : AreApart tables v')
    (hnodup : v.nodes.keys.Nodup) (hnodup' : v'.nodes.keys.Nodup)
    (hblank : ∀ i, (stores i).IsBlank v) (hblank' : ∀ i, (tables i).IsBlank v')
    {ops : List (ι × Instant × Operation)} (hops : ∀ o ∈ ops, o.2.2.IsValid) (i : ι) :
    ∃ answers answers', outcomesOf i (outcomes stores ops v) = answers.map .ok ∧
      outcomesOf i (outcomes tables ops v') = answers'.map .ok ∧
      List.Forall₂ Answer.Matches answers answers' := by
  have hvalid : ∀ op ∈ (ops.filter fun o => o.1 = i).map (·.2), op.2.IsValid := by
    intro op hop
    obtain ⟨o, ho, rfl⟩ := List.mem_map.mp hop
    exact hops o (List.mem_filter.mp ho).1
  obtain ⟨answers, w, hrun, hmatches, -⟩ := ((hblank i).has hnodup).performAll isMap_nil hvalid
  obtain ⟨answers', w', hrun', hmatches', -⟩ := ((hblank' i).has hnodup').performAll isMap_nil hvalid
  refine ⟨answers, answers', ?_, ?_, Answer.Matches.all hmatches hmatches'⟩
  · rw [h ops i, outcomesOf_of_performAll hrun]
  · rw [h' ops i, outcomesOf_of_performAll hrun']

end Many

/-! Stores that have been opened -/

/-- A store that was opened for a space, after which only other stores were opened. -/
def IsOpenedAs (home : Option String) (backend : Backend) (cacheRoot : Path) (space : String)
    (s : Store) (v : Volume) : Prop :=
  ∃ u u', (openAs home backend cacheRoot space).run u = (.ok s, u') ∧ Opens u' v

section Opened

variable {backend : Backend} {home : Option String} {cacheRoot q : Path}
variable {d : Location} {space space' : String}

theorem IsOpenedAs.at (h : IsOpenedAs home backend cacheRoot space s v)
    (hexpand : cacheRoot.expandHome? home = some q) (hroot : v.IsRoot q d)
    (hspace : '-' ∈ space.toList) :
    named backend q space = some s ∧ s.At v (placeOf backend d space) := by
  obtain ⟨u, u', hrun, hopens⟩ := h
  obtain ⟨-, hnamed, hopened⟩ := openAs_ok hrun hexpand
  exact ⟨hnamed, at_of_isOpened hroot hnamed (isName_safeName hspace) (hopened.opens hopens)⟩

theorem IsOpenedAs.readyAt_table (h : IsOpenedAs home .sqlite cacheRoot space s v)
    (hexpand : cacheRoot.expandHome? home = some q) (hroot : v.IsRoot q d)
    (hspace : '-' ∈ space.toList) : s.ReadyAt v (placeOf .sqlite d space) := by
  obtain ⟨hnamed, hat⟩ := h.at hexpand hroot hspace
  cases hnamed
  exact hat

theorem IsOpenedAs.readyAt_folder (h : IsOpenedAs home .json cacheRoot space s v)
    (hexpand : cacheRoot.expandHome? home = some q) (hroot : v.IsRoot q d)
    (hspace : '-' ∈ space.toList) (hnodup : v.nodes.keys.Nodup)
    (hfree : ∀ name, IsTemporary name →
      v.nodeAt? (d ++ [safeName space] ++ [name]) ≠ some .directory) :
    s.ReadyAt v (placeOf .json d space) := by
  obtain ⟨hnamed, hat⟩ := h.at hexpand hroot hspace
  cases hnamed
  exact ⟨hat, hnodup, hfree⟩

/-- Spaces with the same name of a folder have one store. -/
theorem IsOpenedAs.perform_eq (h : IsOpenedAs home .json cacheRoot space s v)
    (h' : IsOpenedAs home .json cacheRoot space' t v)
    (hexpand : cacheRoot.expandHome? home = some q) (hnames : safeName space = safeName space')
    (now : Instant) (op : Operation) : s.perform now op = t.perform now op := by
  obtain ⟨u, u', hrun, -⟩ := h
  obtain ⟨w, w', hrun', -⟩ := h'
  obtain ⟨-, hnamed, -⟩ := openAs_ok hrun hexpand
  obtain ⟨-, hnamed', -⟩ := openAs_ok hrun' hexpand
  cases hnamed
  cases hnamed'
  rw [hnames]
  cases op <;> rfl

end Opened

/-- Spaces are kept apart by a table, and by folders unless these have the same name: then the spaces
share a store. Where the folders have different names it cannot be told from the answers of stores that
begin empty which backend they use. -/
theorem areApart_of_isOpenedAs {ι : Type} [DecidableEq ι] {spaces : ι → String}
    {folders tables : ι → Store} {v v' : Volume} {home home' : Option String}
    {cacheRoot cacheRoot' q q' : Path} {d d' : Location}
    (hhyphens : ∀ i, '-' ∈ (spaces i).toList) (hspaces : Function.Injective spaces)
    (hexpand : cacheRoot.expandHome? home = some q) (hroot : v.IsRoot q d)
    (hnodup : v.nodes.keys.Nodup)
    (hfree : ∀ i name, IsTemporary name →
      v.nodeAt? (d ++ [safeName (spaces i)] ++ [name]) ≠ some .directory)
    (hfolders : ∀ i, IsOpenedAs home .json cacheRoot (spaces i) (folders i) v)
    (hexpand' : cacheRoot'.expandHome? home' = some q') (hroot' : v'.IsRoot q' d')
    (hnodup' : v'.nodes.keys.Nodup)
    (htables : ∀ i, IsOpenedAs home' .sqlite cacheRoot' (spaces i) (tables i) v') :
    AreApart tables v' ∧
    (∀ i j, safeName (spaces i) = safeName (spaces j) →
      ∀ now op, (folders i).perform now op = (folders j).perform now op) ∧
    (Function.Injective (fun i => safeName (spaces i)) →
      AreApart folders v ∧
      ((∀ i, (folders i).IsBlank v) → (∀ i, (tables i).IsBlank v') →
        ∀ ops : List (ι × Instant × Operation), (∀ o ∈ ops, o.2.2.IsValid) →
        ∀ i, ∃ answers answers', outcomesOf i (outcomes folders ops v) = answers.map .ok ∧
          outcomesOf i (outcomes tables ops v') = answers'.map .ok ∧
          List.Forall₂ Answer.Matches answers answers')) := by
  have htables_apart : AreApart tables v' := by
    refine areApart_of_readyAt
      (fun i => (htables i).readyAt_table hexpand' hroot' (hhyphens i)) (fun _ _ => trivial) ?_
    intro i j heq
    exact hspaces (Place.rows.inj heq).2
  refine ⟨htables_apart, fun i j hnames => (hfolders i).perform_eq (hfolders j) hexpand hnames, ?_⟩
  intro hnames
  have hfolders_apart : AreApart folders v := by
    refine areApart_of_readyAt (fun i => (hfolders i).readyAt_folder hexpand hroot (hhyphens i)
      hnodup (hfree i)) (fun _ _ => trivial) ?_
    intro i j heq
    exact hnames (List.cons.inj (List.append_cancel_left (Place.folder.inj heq))).1
  exact ⟨hfolders_apart, fun hblank hblank' ops hops i =>
    hfolders_apart.alike htables_apart hnodup hnodup' hblank hblank' hops i⟩

/-! Two folders and a table -/

section Two

/-- One of two. -/
def oneOf {α : Type} (first second : α) : Bool → α
  | false => first
  | true => second

def someRoot : Path := ⟨"/", ["cache"]⟩

def twoFolders : Volume :=
  ⟨[(["cache"], .directory), (["cache", "shrink-1"], .directory),
    (["cache", "shrink-2"], .directory)], [], 0⟩

theorem isRoot_someRoot {v : Volume} (hlocate : v.locate true someRoot = .ok ["cache"])
    (hdirectory : v.nodeAt? ["cache"] = some .directory) (hlinks : hasLinks v = false) :
    v.IsRoot someRoot ["cache"] := isRoot_of_locate hlocate hdirectory hlinks

/-- Two stores that are opened in turn. -/
theorem isOpenedAs_oneOf {backend : Backend} {space space' : String} {s s' : Store}
    {u v v' : Volume} (h : (openAs none backend someRoot space).run u = (.ok s, v))
    (h' : (openAs none backend someRoot space').run v = (.ok s', v')) (i : Bool) :
    IsOpenedAs none backend someRoot (oneOf space space' i) (oneOf s s' i) v' := by
  cases i with
  | false => exact ⟨u, v, h, (openAs_ok (q := someRoot) h' rfl).1⟩
  | true => exact ⟨v, v', h', .refl v'⟩

theorem areApart_two :
    let spaces := oneOf "shrink-1" "shrink-2"
    let folders := oneOf (folder ⟨"/", ["cache", "shrink-1"]⟩ "shrink-1")
      (folder ⟨"/", ["cache", "shrink-2"]⟩ "shrink-2")
    let tables := oneOf (table ⟨"/", ["cache", databaseName]⟩ "shrink-1" true)
      (table ⟨"/", ["cache", databaseName]⟩ "shrink-2" true)
    AreApart tables emptyTable ∧
    (∀ i j, safeName (spaces i) = safeName (spaces j) →
      ∀ now op, (folders i).perform now op = (folders j).perform now op) ∧
    (Function.Injective (fun i => safeName (spaces i)) →
      AreApart folders twoFolders ∧
      ((∀ i, (folders i).IsBlank twoFolders) → (∀ i, (tables i).IsBlank emptyTable) →
        ∀ ops : List (Bool × Instant × Operation), (∀ o ∈ ops, o.2.2.IsValid) →
        ∀ i, ∃ answers answers', outcomesOf i (outcomes folders ops twoFolders) = answers.map .ok ∧
          outcomesOf i (outcomes tables ops emptyTable) = answers'.map .ok ∧
          List.Forall₂ Answer.Matches answers answers')) := by
  have hexpand : someRoot.expandHome? none = some someRoot := rfl
  refine areApart_of_isOpenedAs ?_ ?_ hexpand
    (isRoot_someRoot (by decide) (by decide) (by decide))
    (by decide) ?_ (isOpenedAs_oneOf (u := ⟨[], [], 0⟩) (v := emptyFolder) rfl rfl) hexpand
    (isRoot_someRoot (by decide) (by decide) (by decide))
    (by decide) (isOpenedAs_oneOf (u := ⟨[], [], 0⟩) (v := emptyTable) rfl rfl)
  · intro i
    cases i <;> decide
  · intro i j h
    cases i <;> cases j <;> first | rfl | exact absurd h (by decide)
  · intro i name _
    cases i <;> simp [oneOf, nodeAt?, twoFolders, Keyed.find?, List.lookup_cons, safeName]

/-! Two spaces with one folder -/

def oneFolder : Volume := ⟨[(["cache"], .directory), (["cache", "a_b-1"], .directory)], [], 0⟩

/-- The names of two spaces become one name of a folder: what is stored for one of them is found by the
other. -/
theorem not_areApart_oneFolder :
    let spaces := oneOf "a/b-1" "a_b-1"
    let stores := oneOf (folder ⟨"/", ["cache", "a_b-1"]⟩ "a/b-1")
      (folder ⟨"/", ["cache", "a_b-1"]⟩ "a_b-1")
    Function.Injective spaces ∧ (∀ i, IsOpenedAs none .json someRoot (spaces i) (stores i) oneFolder) ∧
      ¬ AreApart stores oneFolder := by
  refine ⟨?_, isOpenedAs_oneOf (u := ⟨[], [], 0⟩) (v := oneFolder) rfl rfl, ?_⟩
  · intro i j h
    cases i <;> cases j <;> first | rfl | exact absurd h (by decide)
  intro hapart
  have hblank : ∀ space, (folder ⟨"/", ["cache", "a_b-1"]⟩ space).IsBlank oneFolder := by
    intro space
    refine ⟨by decide, ["cache", "a_b-1"], by decide, by decide, ?_⟩
    intro name
    simp [nodeAt?, oneFolder, Keyed.find?, List.lookup_cons]
  have hhas := fun space => (hblank space).has (by decide)
  have hput : Operation.IsValid (.put someKey someEntry) := ⟨isKey_someKey, isDate_someEntry⟩
  obtain ⟨answer, v, hrun, -, hhas'⟩ := (hhas "a/b-1").perform isMap_nil hput default
  have hfound : ((folder ⟨"/", ["cache", "a_b-1"]⟩ "a_b-1").get default someKey).run v =
      (.ok (.found someEntry), v) := Has.get (t := [(someKey, someEntry)]) hhas'
    (isMap_nil.after hput) isKey_someKey default
  have habsent := (hhas "a_b-1").get isMap_nil isKey_someKey default
  have hops := hapart [(false, default, .put someKey someEntry), (true, default, .get someKey)] true
  rw [List.filter_cons_of_neg (by simp), List.filter_cons_of_pos (by simp), outcomes_cons,
    outcomes_cons, outcomes_cons, outcomesOf_cons_of_ne (by simp), outcomesOf_cons_self,
    outcomesOf_cons_self] at hops
  simp only [oneOf, run_perform_get, hrun, hfound, habsent] at hops
  cases hops

end Two

end AssetCompiler.Store
