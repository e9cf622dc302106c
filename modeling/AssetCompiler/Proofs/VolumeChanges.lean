import AssetCompiler.Proofs.Action
import AssetCompiler.Proofs.Walks

/-!
Changes of a volume. Opening stores makes directories and empty tables where nothing was before.
Storing results replaces files and tables at locations of its own, and what it writes is newer than
all that was there. Either way directories stay, and no link comes or goes.
-/
namespace AssetCompiler.Volume

/-! What it takes for an action to succeed -/

section Actions

variable {v v' : Volume} {p : Path} {l : Location}

theorem stat_eq_ok_iff {n : Node} :
    v.stat p = .ok (l, n) ↔ v.locate true p = .ok l ∧ v.nodeAt? l = some n := by
  unfold stat
  cases v.locate true p with
  | error e => simp
  | ok l' =>
    simp only [Except.ok.injEq]
    constructor
    · intro h
      split at h
      · rename_i n' hnode
        cases h
        exact ⟨rfl, hnode⟩
      · cases h
    · rintro ⟨rfl, hnode⟩
      rw [hnode]

theorem about_eq_ok_iff {α : Type} {r : Except FileIssue α} {a : α} :
    about p r = .ok a ↔ hasZero p = false ∧ r = .ok a := by
  unfold about
  cases hasZero p with
  | true => simp
  | false => cases r <;> simp

theorem target_eq_ok_iff : v.target p = .ok l ↔
    v.locate true p = .ok l ∧ v.nodeAt? l.dropLast = some .directory ∧ v.nodeAt? l ≠ some .directory := by
  unfold target
  cases v.locate true p with
  | error e => simp
  | ok l' =>
    simp only [Except.ok.injEq]
    constructor
    · intro h
      split at h
      · cases h
      · rename_i hparent hfree
        cases h
        exact ⟨rfl, hparent, hfree⟩
      · cases h
      · cases h
    · rintro ⟨rfl, hparent, hfree⟩
      rw [hparent]
      cases hnode : v.nodeAt? l' with
      | none => rfl
      | some node =>
        cases node with
        | directory => exact absurd hnode hfree
        | _ => rfl

/-- A file is written where its path leads, in a directory, if none is there. -/
theorem write_eq_ok_iff {bytes : List UInt8} : v.write p bytes = .ok v' ↔
    hasZero p = false ∧ ∃ l, v.target p = .ok l ∧ (v.put l (.file bytes v.writeTime)).tick = v' := by
  unfold Volume.write
  cases hgoal : about p (v.target p) with
  | error e =>
    simp only [Except.map, reduceCtorEq, false_iff]
    rintro ⟨hzero, l, htarget, -⟩
    cases hgoal.symm.trans (about_eq_ok_iff.mpr ⟨hzero, htarget⟩)
  | ok l =>
    obtain ⟨hzero, htarget⟩ := about_eq_ok_iff.mp hgoal
    simp [Except.map, hzero, htarget]

/-- A file or link is removed where its path leads. -/
theorem unlink_eq_ok_iff : v.unlink p = .ok v' ↔ hasZero p = false ∧ ∃ l node,
    v.locate false p = .ok l ∧ v.nodeAt? l = some node ∧ node ≠ .directory ∧ v.drop l = v' := by
  unfold Volume.unlink
  rw [about_eq_ok_iff]
  cases v.locate false p with
  | error e => simp
  | ok l =>
    cases hnode : v.nodeAt? l with
    | none => simp [hnode]
    | some node => cases node <;> simp [hnode]

/-- What is there under a path is moved to where another one leads, in a directory, if none is there. -/
theorem rename_eq_ok_iff {source goal : Path} : v.rename source goal = .ok v' ↔ ∃ s g node,
    v.locate false source = .ok s ∧ v.locate false goal = .ok g ∧ v.nodeAt? s = some node ∧
      v.nodeAt? g ≠ some .directory ∧ v.nodeAt? g.dropLast = some .directory ∧
      (v.drop s).put g node = v' := by
  unfold Volume.rename
  constructor
  · intro h
    split at h
    · rename_i s g hs hg
      split at h
      · cases h
      · cases h
      · rename_i node hnode hparent hfree
        exact ⟨s, g, node, hs, hg, hnode, hfree, hparent, Except.ok.inj h⟩
      · cases h
      · cases h
    · cases h
    · cases h
  · rintro ⟨s, g, node, hs, hg, hnode, hfree, hparent, rfl⟩
    rw [hs, hg]
    simp only [hnode, hparent]

end Actions

/-! Directories that are made -/

/-- A path leads to a directory. -/
def IsDirectory (v : Volume) (p : Path) : Prop :=
  ∃ d, v.locate true p = .ok d ∧ v.nodeAt? d = some .directory

theorem isDirectory_eq_ok_true {v : Volume} {p : Path} (h : v.isDirectory p = .ok true) :
    IsDirectory v p := by
  unfold isDirectory probe at h
  split at h
  · cases h
  · split at h
    · rename_i l n hstat
      have hn : n = .directory := by
        simpa [Except.map] using h
      subst hn
      exact ⟨l, stat_eq_ok_iff.mp hstat⟩
    · cases h
    · cases h

theorem isDirectory_of_isDirectory {v : Volume} {p : Path} (hzero : hasZero p = false)
    (h : IsDirectory v p) : v.isDirectory p = .ok true := by
  obtain ⟨d, hd⟩ := h
  unfold isDirectory probe
  rw [stat_eq_ok_iff.mpr hd, hzero]
  rfl

/-- What opening a store does to a volume: at some places where nothing was, or an empty file, there
is a directory or an empty table now. -/
structure Opens (v v' : Volume) : Prop where
  here : v'.here = v.here
  clock : v.clock ≤ v'.clock
  node : ∀ l, v'.nodeAt? l = v.nodeAt? l ∨
    ((v.nodeAt? l = none ∨ ∃ mtime, v.nodeAt? l = some (.file [] mtime)) ∧
      (v'.nodeAt? l = some .directory ∨ ∃ mtime, v'.nodeAt? l = some (.table [] mtime)))

namespace Opens

variable {v v' v'' : Volume}

theorem refl (v : Volume) : Opens v v := ⟨rfl, Nat.le_refl _, fun _ => Or.inl rfl⟩

theorem trans (h : Opens v v') (h' : Opens v' v'') : Opens v v'' where
  here := h'.here.trans h.here
  clock := Nat.le_trans h.clock h'.clock
  node := by
    intro l
    rcases h.node l with heq | ⟨hwas, his⟩
    · rw [← heq]
      exact h'.node l
    · rcases h'.node l with heq' | ⟨hwas', _⟩
      · rw [heq']
        exact Or.inr ⟨hwas, his⟩
      · rcases his with his | ⟨mtime, his⟩ <;> rw [his] at hwas' <;> simp at hwas'

theorem grows (h : Opens v v') : Grows v v' where
  here := h.here
  directory := by
    intro l hl
    rcases h.node l with heq | ⟨hwas, _⟩
    · rw [heq, hl]
    · rw [hl] at hwas
      simp at hwas
  link := by
    intro l target
    rcases h.node l with heq | ⟨hwas, his⟩
    · rw [heq]
    · constructor
      · intro hlink
        rw [hlink] at his
        simp at his
      · intro hlink
        rw [hlink] at hwas
        simp at hwas

theorem put {l : Location} {n : Node} (hl : l ≠ [])
    (hwas : v.nodeAt? l = none ∨ ∃ mtime, v.nodeAt? l = some (.file [] mtime))
    (his : n = .directory ∨ ∃ mtime, n = .table [] mtime) : Opens v (v.put l n) where
  here := rfl
  clock := Nat.le_refl _
  node := by
    intro l'
    rw [nodeAt?_put v l l' n hl]
    split
    · rename_i heq
      subst heq
      exact Or.inr ⟨hwas, by simpa using his⟩
    · exact Or.inl rfl

theorem tick (h : Opens v v') : Opens v v'.tick :=
  ⟨h.here, Nat.le_succ_of_le h.clock, h.node⟩

end Opens

theorem IsDirectory.grows {v v' : Volume} {p : Path} (h : IsDirectory v p) (grows : Grows v v') :
    IsDirectory v' p := by
  obtain ⟨d, hlocate, hd⟩ := h
  exact ⟨d, grows.locate hlocate, grows.directory d hd⟩

theorem IsDirectory.opens {v v' : Volume} {p : Path} (h : IsDirectory v p) (opens : Opens v v') :
    IsDirectory v' p :=
  h.grows opens.grows

/-- A directory is still found where things are added. -/
theorem isDirectory_of_grows {v v' : Volume} {p : Path} (grows : Grows v v') (h : v.isDirectory p = .ok true) :
    v'.isDirectory p = .ok true := by
  have hzero : hasZero p = false := by
    by_contra hzero
    rw [Bool.not_eq_false] at hzero
    unfold isDirectory probe at h
    rw [if_pos hzero] at h
    cases h
  exact isDirectory_of_isDirectory hzero ((isDirectory_eq_ok_true h).grows grows)

/-- A directory is made where the path leads to and nothing is yet. -/
theorem makeDirectory_eq {v v' : Volume} {p : Path} (h : v.makeDirectory p = .ok v') :
    ∃ l, v.nodeAt? l = none ∧ v' = v.put l .directory ∧ v'.locate true p = .ok l := by
  unfold makeDirectory at h
  split at h
  · cases h
  · rename_i l hlocate
    split at h
    · cases h
    · rename_i hnone
      split at h
      · cases h
        have hl : l ≠ [] := ne_root_of_nodeAt? (by rw [hnone]; exact nofun)
        have hopens := Opens.put (v := v) hl (Or.inl hnone) (Or.inl rfl)
        have hfollowed : v.locate true p = .ok l :=
          walk_of_arrives ((walk_eq_ok_iff.mp hlocate).followed (by rw [hnone]; exact nofun))
        exact ⟨l, hnone, rfl, hopens.grows.locate hfollowed⟩
      · cases h
      · cases h

theorem makeDirectory_ok {v v' : Volume} {p : Path} (h : v.makeDirectory p = .ok v') :
    Opens v v' ∧ IsDirectory v' p := by
  obtain ⟨l, hnone, rfl, hlocate⟩ := makeDirectory_eq h
  have hl : l ≠ [] := ne_root_of_nodeAt? (by rw [hnone]; exact nofun)
  exact ⟨Opens.put hl (Or.inl hnone) (Or.inl rfl), l, hlocate, nodeAt?_put_self v .directory hl⟩

theorem orThere_ok {v v' : Volume} {p : Path} {e : FileIssue} (h : v.orThere p e = .ok v') :
    v' = v ∧ IsDirectory v p := by
  unfold orThere at h
  split at h
  · rename_i hthere
    cases h
    exact ⟨rfl, isDirectory_eq_ok_true hthere⟩
  · cases h

/-- The first path of a chain that was made leads to a directory. -/
theorem makeChain_ok {v v' : Volume} {ps : List Path} (h : v.makeChain ps = .ok v') :
    Opens v v' ∧ ∀ p rest, ps = p :: rest → IsDirectory v' p := by
  induction ps generalizing v v' with
  | nil =>
    cases h
    exact ⟨Opens.refl v, nofun⟩
  | cons p parents ih =>
    suffices hgoal : Opens v v' ∧ IsDirectory v' p by
      refine ⟨hgoal.1, ?_⟩
      rintro p' rest heq
      cases heq
      exact hgoal.2
    rw [makeChain] at h
    split at h
    · rename_i v₁ hmade
      cases h
      exact makeDirectory_ok hmade
    · split at h
      · cases h
      · split at h
        · cases h
        · rename_i v₁ hchain
          have hopens := (ih hchain).1
          split at h
          · rename_i v₂ hmade
            cases h
            obtain ⟨hopens', hthere⟩ := makeDirectory_ok hmade
            exact ⟨hopens.trans hopens', hthere⟩
          · obtain ⟨rfl, hthere⟩ := orThere_ok h
            exact ⟨hopens, hthere⟩
    · obtain ⟨rfl, hthere⟩ := orThere_ok h
      exact ⟨Opens.refl _, hthere⟩

theorem chain_eq_cons (n : Nat) (p : Path) : ∃ rest, chain n p = p :: rest := by
  cases n <;> exact ⟨_, rfl⟩

theorem makeDirectories_ok {v v' : Volume} {p : Path} (h : v.makeDirectories p = .ok v') :
    hasZero p = false ∧ Opens v v' ∧ IsDirectory v' p := by
  unfold makeDirectories at h
  split at h
  · cases h
  · rename_i hzero
    obtain ⟨hopens, hthere⟩ := makeChain_ok h
    obtain ⟨rest, hchain⟩ := chain_eq_cons p.parts.length p
    exact ⟨Bool.eq_false_iff.mpr hzero, hopens, hthere p rest hchain⟩

/-- Where a directory is, none is made. -/
theorem makeDirectory_of_isDirectory {v : Volume} {p : Path} (h : IsDirectory v p) :
    v.makeDirectory p = .error .occupied := by
  obtain ⟨d, hlocate, hd⟩ := h
  obtain ⟨l, n, harrives, hnode⟩ := (walk_eq_ok_iff.mp hlocate).unfollowed hd
  have hl : v.locate false p = .ok l := walk_of_arrives harrives
  unfold makeDirectory
  rw [hl]
  simp only [hnode]

/-- A directory that is there is left as it is. -/
theorem makeDirectories_of_isDirectory {v : Volume} {p : Path} (hzero : hasZero p = false)
    (h : IsDirectory v p) : v.makeDirectories p = .ok v := by
  obtain ⟨rest, hchain⟩ := chain_eq_cons p.parts.length p
  unfold makeDirectories
  rw [hzero, hchain, makeChain, makeDirectory_of_isDirectory h]
  simp only [Bool.false_eq_true, if_false, orThere]
  rw [isDirectory_of_isDirectory hzero h]

/-! Files that are replaced -/

/-- No directory and no link. -/
def IsLeaf (n : Option Node) : Prop :=
  n ≠ some .directory ∧ ∀ target, n ≠ some (.link target)

/-- Content that was written between two states of a volume. -/
def IsRecent (v v' : Volume) (n : Option Node) : Prop :=
  ∀ node bytes mtime, n = some node → Work.contentOf node = some (bytes, mtime) →
    v.writeTime ≤ mtime ∧ mtime < v'.writeTime

/-- What storing a result does to a volume: at some locations of its own, leaves are replaced or
removed, and what it writes is recent. -/
structure Advances (own : Location → Prop) (v v' : Volume) : Prop where
  here : v'.here = v.here
  clock : v.clock ≤ v'.clock
  node : ∀ l, v'.nodeAt? l = v.nodeAt? l ∨
    (own l ∧ IsLeaf (v.nodeAt? l) ∧ IsLeaf (v'.nodeAt? l) ∧ IsRecent v v' (v'.nodeAt? l))

theorem isLeaf_none : IsLeaf none := ⟨nofun, nofun⟩

theorem isLeaf_file (bytes : List UInt8) (mtime : Int) : IsLeaf (some (.file bytes mtime)) :=
  ⟨nofun, nofun⟩

theorem isLeaf_table (rows : List Row) (mtime : Int) : IsLeaf (some (.table rows mtime)) :=
  ⟨nofun, nofun⟩

theorem writeTime_le {v v' : Volume} (h : v.clock ≤ v'.clock) : v.writeTime ≤ v'.writeTime := by
  unfold writeTime
  omega

theorem isRecent_none (v v' : Volume) : IsRecent v v' none := by
  intro node bytes mtime hnode
  cases hnode

theorem IsRecent.mono {v v' v'' : Volume} {n : Option Node} (h : IsRecent v v' n)
    (hclock : v'.clock ≤ v''.clock) : IsRecent v v'' n := by
  intro node bytes mtime hnode hcontent
  have hbound := h node bytes mtime hnode hcontent
  have hle := writeTime_le hclock
  omega

theorem IsRecent.since {v v' v'' : Volume} {n : Option Node} (h : IsRecent v' v'' n)
    (hclock : v.clock ≤ v'.clock) : IsRecent v v'' n := by
  intro node bytes mtime hnode hcontent
  have hbound := h node bytes mtime hnode hcontent
  have hle := writeTime_le hclock
  omega

namespace Advances

variable {own own' : Location → Prop} {v v' v'' : Volume}

theorem refl (own : Location → Prop) (v : Volume) : Advances own v v :=
  ⟨rfl, Nat.le_refl _, fun _ => Or.inl rfl⟩

theorem mono (h : Advances own v v') (hown : ∀ l, own l → own' l) : Advances own' v v' :=
  ⟨h.here, h.clock, fun l => (h.node l).imp_right fun hl => ⟨hown l hl.1, hl.2⟩⟩

theorem trans (h : Advances own v v') (h' : Advances own v' v'') : Advances own v v'' where
  here := h'.here.trans h.here
  clock := Nat.le_trans h.clock h'.clock
  node := by
    intro l
    rcases h'.node l with heq' | ⟨hown', hleaf', his', hrecent'⟩
    · rw [heq']
      exact (h.node l).imp_right fun hl => ⟨hl.1, hl.2.1, hl.2.2.1, hl.2.2.2.mono h'.clock⟩
    · right
      rcases h.node l with heq | ⟨hown, hleaf, his, _⟩
      · exact ⟨hown', heq ▸ hleaf', his', hrecent'.since h.clock⟩
      · exact ⟨hown, hleaf, his', hrecent'.since h.clock⟩

theorem grows (h : Advances own v v') : Grows v v' where
  here := h.here
  directory := by
    intro l hl
    rcases h.node l with heq | ⟨_, hleaf, _⟩
    · rw [heq, hl]
    · exact absurd hl hleaf.1
  link := by
    intro l target
    rcases h.node l with heq | ⟨_, hleaf, his, _⟩
    · rw [heq]
    · exact ⟨fun hl => absurd hl (his.2 target), fun hl => absurd hl (hleaf.2 target)⟩

theorem node_of_not (h : Advances own v v') {l : Location} (hl : ¬ own l) :
    v'.nodeAt? l = v.nodeAt? l :=
  (h.node l).resolve_right fun hown => hl hown.1

theorem ne_root {l : Location} (h : IsLeaf (v.nodeAt? l)) : l ≠ [] := by
  rintro rfl
  exact h.1 rfl

/-- A node whose content is recent is put in the place of a leaf. -/
theorem put {l : Location} {n : Node} (hown : own l) (hleaf : IsLeaf (v.nodeAt? l))
    (hn : IsLeaf (some n)) (htime : ∀ bytes time, Work.contentOf n = some (bytes, time) →
      time = v.writeTime) : Advances own v (v.put l n).tick where
  here := rfl
  clock := Nat.le_succ _
  node := by
    intro l'
    rw [nodeAt?_tick, nodeAt?_put v l l' n (ne_root hleaf)]
    split
    · rename_i heq
      subst heq
      refine Or.inr ⟨hown, hleaf, hn, ?_⟩
      intro node bytes time hnode hcontent
      cases hnode
      rw [htime bytes time hcontent]
      change v.writeTime ≤ v.writeTime ∧ v.writeTime < 1000000000000000000 + ((v.clock + 1 : Nat) : Int)
      unfold writeTime
      omega
    · exact Or.inl rfl

theorem drop {l : Location} (hown : own l) (hleaf : IsLeaf (v.nodeAt? l)) :
    Advances own v (v.drop l) where
  here := rfl
  clock := Nat.le_refl _
  node := by
    intro l'
    rw [nodeAt?_drop v l l' (ne_root hleaf)]
    split
    · rename_i heq
      subst heq
      exact Or.inr ⟨hown, hleaf, isLeaf_none, isRecent_none _ _⟩
    · exact Or.inl rfl

/-- What was written recently is moved to the place of a leaf. -/
theorem move {s g : Location} {n : Node} (h : Advances own v v') (hs : own s) (hg : own g)
    (hn : v'.nodeAt? s = some n) (hsleaf : IsLeaf (v'.nodeAt? s)) (hgleaf : IsLeaf (v'.nodeAt? g))
    (hrecent : IsRecent v v' (some n)) : Advances own v ((v'.drop s).put g n) := by
  have hdropped := h.trans (drop hs hsleaf)
  have hgne := ne_root hgleaf
  refine ⟨h.here, h.clock, ?_⟩
  intro l
  rw [nodeAt?_put _ g l n hgne]
  split
  · rename_i heq
    subst heq
    have hwas : IsLeaf (v.nodeAt? l) := by
      rcases h.node l with heq | ⟨_, hleaf, _⟩
      · exact heq ▸ hgleaf
      · exact hleaf
    exact Or.inr ⟨hg, hwas, hn ▸ hsleaf, hrecent⟩
  · exact hdropped.node l

end Advances

/-- At some locations of its own leaves are replaced or removed, whatever they hold. -/
structure Replaces (own : Location → Prop) (v v' : Volume) : Prop where
  here : v'.here = v.here
  node : ∀ l, v'.nodeAt? l = v.nodeAt? l ∨ (own l ∧ IsLeaf (v.nodeAt? l) ∧ IsLeaf (v'.nodeAt? l))

theorem Advances.replaces {own : Location → Prop} {v v' : Volume} (h : Advances own v v') :
    Replaces own v v' :=
  ⟨h.here, fun l => (h.node l).imp_right fun hl => ⟨hl.1, hl.2.1, hl.2.2.1⟩⟩

namespace Replaces

variable {own own' : Location → Prop} {v v' v'' : Volume}

theorem refl (own : Location → Prop) (v : Volume) : Replaces own v v := (Advances.refl own v).replaces

theorem mono (h : Replaces own v v') (hown : ∀ l, own l → own' l) : Replaces own' v v' :=
  ⟨h.here, fun l => (h.node l).imp_right fun hl => ⟨hown l hl.1, hl.2⟩⟩

theorem trans (h : Replaces own v v') (h' : Replaces own v' v'') : Replaces own v v'' where
  here := h'.here.trans h.here
  node := by
    intro l
    rcases h'.node l with hsame' | ⟨hown', hleaf', his'⟩
    · rw [hsame']
      exact h.node l
    · rcases h.node l with hsame | ⟨-, hleaf, -⟩
      · exact .inr ⟨hown', hsame ▸ hleaf', his'⟩
      · exact .inr ⟨hown', hleaf, his'⟩

theorem node_of_not (h : Replaces own v v') {l : Location} (hl : ¬ own l) : v'.nodeAt? l = v.nodeAt? l :=
  (h.node l).resolve_right fun hown => hl hown.1

theorem isLeaf (h : Replaces own v v') {l : Location} (hl : IsLeaf (v.nodeAt? l)) : IsLeaf (v'.nodeAt? l) := by
  rcases h.node l with hsame | ⟨-, -, hleaf⟩
  · exact hsame ▸ hl
  · exact hleaf

theorem grows (h : Replaces own v v') : Grows v v' where
  here := h.here
  directory := by
    intro l hl
    rcases h.node l with hsame | ⟨-, hleaf, -⟩
    · rw [hsame, hl]
    · exact absurd hl hleaf.1
  link := by
    intro l target
    rcases h.node l with hsame | ⟨-, hleaf, his⟩
    · rw [hsame]
    · exact ⟨fun hl => absurd hl (his.2 target), fun hl => absurd hl (hleaf.2 target)⟩

/-- A leaf is moved to the place of another one. -/
theorem move {s g : Location} {n : Node} (hs : own s) (hg : own g) (hn : v.nodeAt? s = some n)
    (hsleaf : IsLeaf (v.nodeAt? s)) (hgleaf : IsLeaf (v.nodeAt? g)) :
    Replaces own v ((v.drop s).put g n) := by
  have hdropped := (Advances.drop hs hsleaf).replaces
  refine ⟨rfl, fun l => ?_⟩
  rw [nodeAt?_put _ g l n (Advances.ne_root hgleaf)]
  split
  · rename_i heq
    subst heq
    exact .inr ⟨hg, hgleaf, hn ▸ hsleaf⟩
  · exact hdropped.node l

end Replaces

end AssetCompiler.Volume
