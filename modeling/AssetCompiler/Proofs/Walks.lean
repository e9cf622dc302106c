import AssetCompiler.Volume.Tree
import AssetCompiler.Proofs.Tables

/-!
Walks on a volume. A walk that arrives is followed component by component, so that what it depends on
can be read off it: the directories that it goes through and the links that it follows. It arrives at
the same place in every volume that has kept those.
-/
namespace AssetCompiler.Volume

/-! Nodes after a change -/

theorem nodeAt?_put (v : Volume) (l l' : Location) (n : Node) (hl : l ≠ []) :
    (v.put l n).nodeAt? l' = if l' = l then some n else v.nodeAt? l' := by
  unfold nodeAt? put
  by_cases hroot : l' = []
  · subst hroot
    simp [hl.symm]
  · simp only [List.isEmpty_iff, hroot, if_false]
    exact Keyed.find?_set l l' n v.nodes

theorem nodeAt?_put_self (v : Volume) {l : Location} (n : Node) (hl : l ≠ []) :
    (v.put l n).nodeAt? l = some n := by
  rw [nodeAt?_put v l l n hl, if_pos rfl]

theorem nodeAt?_put_of_ne (v : Volume) {l l' : Location} (n : Node) (h : l' ≠ l) :
    (v.put l n).nodeAt? l' = v.nodeAt? l' := by
  unfold nodeAt? put
  by_cases hroot : l' = []
  · subst hroot
    rfl
  · simp only [List.isEmpty_iff, hroot, if_false]
    exact Keyed.find?_set_of_ne h n v.nodes

theorem nodeAt?_drop (v : Volume) (l l' : Location) (hl : l ≠ []) :
    (v.drop l).nodeAt? l' = if l' = l then none else v.nodeAt? l' := by
  unfold nodeAt? drop
  by_cases hroot : l' = []
  · subst hroot
    simp [hl.symm]
  · simp only [List.isEmpty_iff, hroot, if_false]
    exact Keyed.find?_erase l l' v.nodes

@[simp] theorem nodeAt?_tick (v : Volume) (l : Location) : v.tick.nodeAt? l = v.nodeAt? l := rfl

theorem ne_root_of_append {l : Location} {name : String} : l ++ [name] ≠ [] := by
  simp

theorem ne_root_of_nodeAt? {v : Volume} {l : Location} (h : v.nodeAt? l ≠ some .directory) :
    l ≠ [] := by
  rintro rfl
  exact h rfl

/-! Walks -/

/-- Whether a walk ends with a component that has this node. -/
def isEnd (follow : Bool) : Option Node → Bool
  | some .directory => false
  | some (.link _) => !follow
  | _ => true

/-- A walk that arrives at a location. -/
inductive Arrives (v : Volume) (follow : Bool) : Nat → Location → List String → Location → Prop
  | here (links : Nat) (stand : Location) : Arrives v follow links stand [] stand
  | up {links : Nat} {stand : Location} {rest : List String} {l : Location}
      (next : Arrives v follow links stand.dropLast rest l) :
      Arrives v follow links stand (".." :: rest) l
  | last {links : Nat} {stand : Location} {name : String} (proper : name ≠ "..")
      (short : ¬ nameLimit < name.utf8ByteSize)
      (stops : isEnd follow (v.nodeAt? (stand ++ [name])) = true) :
      Arrives v follow links stand [name] (stand ++ [name])
  | through {links : Nat} {stand : Location} {name : String} {rest : List String} {l : Location}
      (proper : name ≠ "..") (short : ¬ nameLimit < name.utf8ByteSize)
      (directory : v.nodeAt? (stand ++ [name]) = some .directory)
      (next : Arrives v follow links (stand ++ [name]) rest l) :
      Arrives v follow links stand (name :: rest) l
  | link {links : Nat} {stand : Location} {name : String} {rest : List String} {l : Location}
      (target : String) (proper : name ≠ "..") (short : ¬ nameLimit < name.utf8ByteSize)
      (link : v.nodeAt? (stand ++ [name]) = some (.link target))
      (followed : ¬ (rest.isEmpty && !follow) = true)
      (next : Arrives v follow links (if (Path.ofText target).isAbsolute then [] else stand)
        ((Path.ofText target).parts ++ rest) l) :
      Arrives v follow (links + 1) stand (name :: rest) l

theorem arrives_of_walkWith {v : Volume} {follow : Bool} (links : Nat)
    (atLink : Location → List String → Except FileIssue Location) {l : Location}
    (hlink : ∀ stand name rest target, name ≠ ".." → ¬ nameLimit < name.utf8ByteSize →
      v.nodeAt? (stand ++ [name]) = some (.link target) → ¬ (rest.isEmpty && !follow) = true →
      atLink (if (Path.ofText target).isAbsolute then [] else stand)
        ((Path.ofText target).parts ++ rest) = .ok l →
      Arrives v follow links stand (name :: rest) l) (stand : Location) (names : List String) :
    v.walkWith follow atLink stand names = .ok l → Arrives v follow links stand names l := by
  fun_induction walkWith v follow atLink stand names with
  | case1 stand =>
    intro h
    cases h
    exact .here _ _
  | case2 stand rest ih => exact fun h => .up (ih h)
  | case3 stand name rest hname hlong => exact nofun
  | case4 stand name rest hname hshort hnode hrest =>
    intro h
    cases h
    rw [List.isEmpty_iff.mp hrest]
    exact .last hname hshort (by rw [hnode]; rfl)
  | case5 stand name rest hname hshort hnode hrest => exact nofun
  | case6 stand name rest hname hshort target hnode hend =>
    intro h
    cases h
    rw [Bool.and_eq_true] at hend
    rw [List.isEmpty_iff.mp hend.1]
    exact .last hname hshort (by rw [hnode]; exact hend.2)
  | case7 stand name rest hname hshort target hnode hend t =>
    exact hlink stand name rest target hname hshort hnode hend
  | case8 stand name rest hname hshort hnode ih =>
    exact fun h => .through hname hshort hnode (ih h)
  | case9 stand name rest hname hshort node hother hdirectory hnode hrest =>
    intro h
    cases h
    rw [List.isEmpty_iff.mp hrest]
    refine .last hname hshort ?_
    rw [hnode]
    cases node with
    | directory => exact (hdirectory rfl).elim
    | link target => exact (hother target rfl).elim
    | file bytes mtime => rfl
    | table rows mtime => rfl
  | case10 stand name rest hname hshort node hother hdirectory hnode hrest => exact nofun

theorem arrives_of_walk (v : Volume) (follow : Bool) (links : Nat) (stand : Location)
    (names : List String) (l : Location) :
    v.walk follow links stand names = .ok l → Arrives v follow links stand names l := by
  induction links generalizing stand names with
  | zero =>
    refine arrives_of_walkWith 0 _ ?_ stand names
    intro stand name rest target hname hshort hnode hgoes h
    cases h
  | succ links ih =>
    refine arrives_of_walkWith (links + 1) _ ?_ stand names
    intro stand name rest target hname hshort hnode hgoes h
    exact .link target hname hshort hnode hgoes (ih _ _ h)

theorem walk_nil (v : Volume) (follow : Bool) (links : Nat) (stand : Location) :
    v.walk follow links stand [] = .ok stand := by
  cases links <;> rfl

theorem walk_up (v : Volume) (follow : Bool) (links : Nat) (stand : Location)
    (rest : List String) :
    v.walk follow links stand (".." :: rest) = v.walk follow links stand.dropLast rest := by
  cases links <;> rfl

/-- A walk meets a name. -/
theorem walk_cons {v : Volume} {follow : Bool} {links : Nat} {stand : Location} {name : String}
    {rest : List String} (hname : name ≠ "..") :
    v.walk follow links stand (name :: rest) =
      if nameLimit < name.utf8ByteSize then .error .nameTooLong
      else match v.nodeAt? (stand ++ [name]) with
        | none => if rest.isEmpty then .ok (stand ++ [name]) else .error .notFound
        | some (.link target) =>
          if rest.isEmpty && !follow then .ok (stand ++ [name])
          else match links with
            | 0 => .error .tooManyLinks
            | links + 1 =>
              v.walk follow links (if (Path.ofText target).isAbsolute then [] else stand)
                ((Path.ofText target).parts ++ rest)
        | some .directory => v.walk follow links (stand ++ [name]) rest
        | some _ => if rest.isEmpty then .ok (stand ++ [name]) else .error .notDirectory := by
  cases links with
  | zero => exact walkWith.eq_3 _ _ _ _ _ _ hname
  | succ links => exact walkWith.eq_3 _ _ _ _ _ _ hname

theorem walk_of_arrives {v : Volume} {follow : Bool} {links : Nat} {stand : Location}
    {names : List String} {l : Location} (h : Arrives v follow links stand names l) :
    v.walk follow links stand names = .ok l := by
  induction h with
  | here links stand => rw [walk_nil]
  | up _ ih => rw [walk_up, ih]
  | @last links stand name proper short stops =>
    rw [walk_cons proper, if_neg short]
    cases hnode : v.nodeAt? (stand ++ [name]) with
    | none => rfl
    | some node =>
      rw [hnode] at stops
      cases node with
      | directory => cases stops
      | link target =>
        simp only [isEnd] at stops
        simp [stops]
      | file bytes mtime => rfl
      | table rows mtime => rfl
  | through proper short directory _ ih =>
    rw [walk_cons proper, if_neg short, directory]
    exact ih
  | link target proper short link followed _ ih =>
    rw [walk_cons proper, if_neg short, link]
    simp only [followed]
    exact ih

theorem walk_eq_ok_iff {v : Volume} {follow : Bool} {links : Nat} {stand : Location}
    {names : List String} {l : Location} :
    v.walk follow links stand names = .ok l ↔ Arrives v follow links stand names l :=
  ⟨arrives_of_walk v follow links stand names l, walk_of_arrives⟩

/-- What a volume keeps when things are added to it: its directories, and its links with no new
ones. -/
structure Grows (v v' : Volume) : Prop where
  here : v'.here = v.here
  directory : ∀ l, v.nodeAt? l = some .directory → v'.nodeAt? l = some .directory
  link : ∀ l target, v'.nodeAt? l = some (.link target) ↔ v.nodeAt? l = some (.link target)

namespace Grows

variable {v v' v'' : Volume}

theorem refl (v : Volume) : Grows v v := ⟨rfl, fun _ h => h, fun _ _ => Iff.rfl⟩

theorem trans (h : Grows v v') (h' : Grows v' v'') : Grows v v'' :=
  ⟨h'.here.trans h.here, fun l hl => h'.directory l (h.directory l hl),
    fun l target => (h'.link l target).trans (h.link l target)⟩

end Grows

/-- An end of a walk stays one, unless a directory is made there. -/
theorem Grows.arrives {v v' : Volume} (grows : Grows v v') {follow : Bool} {links : Nat}
    {stand : Location} {names : List String} {l : Location}
    (h : Arrives v follow links stand names l) : Arrives v' follow links stand names l := by
  induction h with
  | here links stand => exact .here links stand
  | up _ ih => exact .up ih
  | @last links stand name proper short stops =>
    cases hnode : v'.nodeAt? (stand ++ [name]) with
    | none => exact .last proper short (by rw [hnode]; rfl)
    | some node =>
      cases node with
      | directory => exact .through proper short hnode (.here _ _)
      | link target =>
        rw [(grows.link _ target).mp hnode] at stops
        exact .last proper short (by rw [hnode]; exact stops)
      | file bytes mtime => exact .last proper short (by rw [hnode]; rfl)
      | table rows mtime => exact .last proper short (by rw [hnode]; rfl)
  | through proper short directory _ ih =>
    exact .through proper short (grows.directory _ directory) ih
  | link target proper short link followed _ ih =>
    exact .link target proper short ((grows.link _ target).mpr link) followed ih

theorem Grows.locate {v v' : Volume} (grows : Grows v v') {follow : Bool} {p : Path}
    {l : Location} (h : v.locate follow p = .ok l) : v'.locate follow p = .ok l := by
  unfold Volume.locate at h ⊢
  have hstart : v'.start p = v.start p := by
    unfold start
    rw [grows.here]
  rw [hstart]
  exact walk_of_arrives (grows.arrives (walk_eq_ok_iff.mp h))

/-- A walk to a directory can go on from there. -/
theorem Arrives.append {v : Volume} {links : Nat} {stand : Location} {names : List String}
    {d : Location} (h : Arrives v true links stand names d)
    (hd : v.nodeAt? d = some .directory) (follow : Bool) {more : List String} (hmore : more ≠ []) :
    ∃ links', v.walk follow links stand (names ++ more) = v.walk follow links' d more := by
  induction h with
  | here links stand => exact ⟨links, rfl⟩
  | up _ ih =>
    obtain ⟨links', hwalk⟩ := ih hd
    exact ⟨links', by rw [List.cons_append, walk_up, hwalk]⟩
  | last proper short stops =>
    rw [hd] at stops
    cases stops
  | through proper short directory _ ih =>
    obtain ⟨links', hwalk⟩ := ih hd
    refine ⟨links', ?_⟩
    rw [List.cons_append, walk_cons proper, if_neg short, directory]
    exact hwalk
  | @link links stand name rest l target proper short link followed _ ih =>
    obtain ⟨links', hwalk⟩ := ih hd
    refine ⟨links', ?_⟩
    have hgoes : ((rest ++ more).isEmpty && !follow) = false := by
      rw [Bool.and_eq_false_iff]
      left
      rw [List.isEmpty_eq_false_iff]
      exact List.append_ne_nil_of_right_ne_nil rest hmore
    rw [List.cons_append, walk_cons proper, if_neg short, link]
    simp only [hgoes, Bool.false_eq_true, if_false]
    rw [← List.append_assoc]
    exact hwalk

/-- A name that is one component of a path. -/
structure IsName (name : String) : Prop where
  parts : Path.ofText name = ⟨"", [name]⟩
  proper : name ≠ ".."

theorem IsName.child {name : String} (h : IsName name) (p : Path) :
    p.child name = ⟨p.root, p.parts ++ [name]⟩ := by
  unfold Path.child
  rw [h.parts]
  rfl

/-- Where a name behind a path to a directory leads, if it is no link. -/
theorem locate_concat {v : Volume} {p : Path} {d : Location} {name : String} (follow : Bool)
    (hp : v.locate true p = .ok d) (hd : v.nodeAt? d = some .directory) (hname : name ≠ "..")
    (hlink : ∀ target, v.nodeAt? (d ++ [name]) ≠ some (.link target)) :
    v.locate follow ⟨p.root, p.parts ++ [name]⟩ =
      if nameLimit < name.utf8ByteSize then .error .nameTooLong else .ok (d ++ [name]) := by
  obtain ⟨links, hwalk⟩ := (walk_eq_ok_iff.mp hp).append hd follow (List.cons_ne_nil name [])
  have hlocate : v.locate follow ⟨p.root, p.parts ++ [name]⟩ = v.walk follow links d [name] := hwalk
  rw [hlocate]
  split
  · rename_i hlong
    rw [walk_cons hname, if_pos hlong]
  · rename_i hshort
    apply walk_of_arrives
    cases hnode : v.nodeAt? (d ++ [name]) with
    | none => exact .last hname hshort (by rw [hnode]; rfl)
    | some node =>
      cases node with
      | directory => exact .through hname hshort hnode (.here _ _)
      | link target => exact absurd hnode (hlink target)
      | file bytes mtime => exact .last hname hshort (by rw [hnode]; rfl)
      | table rows mtime => exact .last hname hshort (by rw [hnode]; rfl)

/-- Where a name in a directory leads, if it is no link. -/
theorem locate_child {v : Volume} {p : Path} {d : Location} {name : String} (follow : Bool)
    (hp : v.locate true p = .ok d) (hd : v.nodeAt? d = some .directory) (hname : IsName name)
    (hlink : ∀ target, v.nodeAt? (d ++ [name]) ≠ some (.link target)) :
    v.locate follow (p.child name) =
      if nameLimit < name.utf8ByteSize then .error .nameTooLong else .ok (d ++ [name]) := by
  rw [hname.child]
  exact locate_concat follow hp hd hname.proper hlink

/-- A walk that follows all links arrives wherever one that stops at the last one does, if there is
no link. -/
theorem Arrives.followed {v : Volume} {links : Nat} {stand : Location} {names : List String}
    {l : Location} (h : Arrives v false links stand names l)
    (hl : ∀ target, v.nodeAt? l ≠ some (.link target)) : Arrives v true links stand names l := by
  induction h with
  | here links stand => exact .here links stand
  | up _ ih => exact .up (ih hl)
  | @last links stand name proper short stops =>
    refine .last proper short ?_
    cases hnode : v.nodeAt? (stand ++ [name]) with
    | none => rfl
    | some node =>
      rw [hnode] at stops
      cases node with
      | directory => cases stops
      | link target => exact absurd hnode (hl target)
      | file bytes mtime => rfl
      | table rows mtime => rfl
  | through proper short directory _ ih => exact .through proper short directory (ih hl)
  | link target proper short link followed _ ih =>
    refine .link target proper short link ?_ (ih hl)
    simp

/-- If a walk along all links finds something, then so does one that stops at the last one. -/
theorem Arrives.unfollowed {v : Volume} {links : Nat} {stand : Location} {names : List String}
    {l : Location} (h : Arrives v true links stand names l) {n : Node}
    (hl : v.nodeAt? l = some n) :
    ∃ l' n', Arrives v false links stand names l' ∧ v.nodeAt? l' = some n' := by
  induction h with
  | here links stand => exact ⟨stand, n, .here links stand, hl⟩
  | up _ ih =>
    obtain ⟨l', n', harrives, hnode⟩ := ih hl
    exact ⟨l', n', .up harrives, hnode⟩
  | @last links stand name proper short stops =>
    refine ⟨_, n, .last proper short ?_, hl⟩
    rw [hl] at stops ⊢
    cases n with
    | link target => rfl
    | _ => exact stops
  | through proper short directory _ ih =>
    obtain ⟨l', n', harrives, hnode⟩ := ih hl
    exact ⟨l', n', .through proper short directory harrives, hnode⟩
  | @link links stand name rest l target proper short link followed _ ih =>
    by_cases hrest : rest = []
    · subst hrest
      exact ⟨_, _, .last proper short (by rw [link]; rfl), link⟩
    · obtain ⟨l', n', harrives, hnode⟩ := ih hl
      refine ⟨l', n', .link target proper short link ?_ harrives, hnode⟩
      simp [hrest]

end AssetCompiler.Volume
