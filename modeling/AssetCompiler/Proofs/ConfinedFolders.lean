import AssetCompiler.Proofs.FolderScripts
import AssetCompiler.Proofs.RealPaths

/-!
Folders that are confined. Every file that an operation on a folder names lies directly in the folder, and the folder
lies directly in the directory of the caches, whatever the names of a transformer and of a key are made of: slashes
in names are replaced, a hyphen keeps the name of a space from being a step up, and a suffix keeps the name of a file
from being one.
-/
namespace AssetCompiler

theorem Volume.isName_iff {name : String} :
    IsName name ↔ name ≠ "" ∧ name ≠ "." ∧ name ≠ ".." ∧ '/' ∉ name.toList := by
  constructor
  · rintro ⟨hparts, hproper⟩
    refine ⟨?_, ?_, hproper, ?_⟩
    · rintro rfl
      exact absurd hparts (by decide)
    · rintro rfl
      exact absurd hparts (by decide)
    · refine (Path.areProper_ofText name name ?_).2
      rw [hparts]
      exact List.mem_singleton_self _
  · rintro ⟨hempty, hdot, hup, hslash⟩
    exact ⟨Path.ofText_of_not_mem hslash hempty hdot, hup⟩

/-! Where the calls lead -/

/-- A path of two components below a directory, of which the first is given. -/
def IsFileIn (directory : Path) (folder : String) (p : Path) : Prop :=
  ∃ name, Volume.IsName name ∧ p = ⟨directory.root, directory.parts ++ [folder, name]⟩

/-- The files that a call names lie in a folder, and the directory that it names is the folder. -/
def FileCall.StaysIn (directory : Path) (folder : String) : FileCall → Prop
  | makeDirectories p | isDirectory p | names p => p = ⟨directory.root, directory.parts ++ [folder]⟩
  | isThere p | isTaken p | read p | write p _ | unlink p => IsFileIn directory folder p
  | rename source goal => IsFileIn directory folder source ∧ IsFileIn directory folder goal
  | newNames => True

namespace Volume

/-- Every location has proper components. -/
structure IsNamed (v : Volume) : Prop where
  here : AreProper v.here
  nodes : ∀ l ∈ v.nodes.keys, AreProper l

/-- Only directories are made, and only what files in a folder lead to is changed otherwise. -/
def Reaches (directory : Path) (folder : String) (v w : Volume) : Prop :=
  ∀ l, w.nodeAt? l ≠ v.nodeAt? l → v.nodeAt? l = none ∧ w.nodeAt? l = some .directory ∨
    ∃ p follow, IsFileIn directory folder p ∧ v.locate follow p = .ok l

/-- A folder and the files in it look alike in two volumes. -/
structure LooksLike (directory : Path) (folder : String) (v v' : Volume) : Prop where
  stat : v'.stat ⟨directory.root, directory.parts ++ [folder]⟩ =
    v.stat ⟨directory.root, directory.parts ++ [folder]⟩
  names : ∀ d node, v.stat ⟨directory.root, directory.parts ++ [folder]⟩ = .ok (d, node) →
    v'.namesIn d = v.namesIn d
  files : ∀ p, IsFileIn directory folder p → v'.stat p = v.stat p

/-! Making directories -/

/-- What is kept when a directory is made on the way to a path is kept when all are made. -/
theorem makeDirectories_keeps {v w : Volume} {p : Path} (holds : Volume → Prop)
    (h : v.makeDirectories p = .ok w)
    (hone : ∀ p' : Path, p'.parts <+: p.parts → ∀ u u', u.makeDirectory p' = .ok u' → holds u → holds u')
    (hv : holds v) : holds w := by
  have hchain : ∀ ps : List Path, (∀ p' ∈ ps, p'.parts <+: p.parts) → ∀ v w, v.makeChain ps = .ok w →
      holds v → holds w := by
    intro ps
    induction ps with
    | nil =>
      intro _ v w hmade hv
      cases hmade
      exact hv
    | cons p' parents ih =>
      intro hps v w hmade hv
      have hp' := hone p' (hps p' (List.mem_cons_self ..))
      rw [makeChain] at hmade
      split at hmade
      · rename_i v₁ hdone
        cases hmade
        exact hp' _ _ hdone hv
      · split at hmade
        · cases hmade
        · split at hmade
          · cases hmade
          · rename_i v₁ hparents
            have hv₁ := ih (fun p hp => hps p (List.mem_cons_of_mem _ hp)) _ _ hparents hv
            split at hmade
            · rename_i v₂ hdone
              cases hmade
              exact hp' _ _ hdone hv₁
            · obtain ⟨rfl, -⟩ := orThere_ok hmade
              exact hv₁
      · obtain ⟨rfl, -⟩ := orThere_ok hmade
        exact hv
  have hbelow : ∀ n (p' : Path), p'.parts <+: p.parts → ∀ p'' ∈ chain n p', p''.parts <+: p.parts := by
    intro n
    induction n with
    | zero =>
      intro p' hp' p'' hp''
      rwa [List.mem_singleton.mp hp'']
    | succ n ih =>
      intro p' hp' p'' hp''
      rcases List.mem_cons.mp hp'' with rfl | hmem
      · exact hp'
      · exact ih p'.parent ((List.dropLast_prefix _).trans hp') p'' hmem
  unfold makeDirectories at h
  split at h
  · cases h
  · exact hchain _ (hbelow _ p (List.prefix_refl _)) v w h hv

/-- Directories are made where nothing was. -/
theorem made_of_makeDirectories {v w : Volume} {p : Path} (h : v.makeDirectories p = .ok w) {l : Location}
    (hl : w.nodeAt? l ≠ v.nodeAt? l) : v.nodeAt? l = none ∧ w.nodeAt? l = some .directory := by
  suffices hgoal : w.nodeAt? l = v.nodeAt? l ∨ v.nodeAt? l = none ∧ w.nodeAt? l = some .directory from
    hgoal.resolve_left hl
  refine makeDirectories_keeps (fun u => u.nodeAt? l = v.nodeAt? l ∨
    v.nodeAt? l = none ∧ u.nodeAt? l = some .directory) h (fun p' _ u u' hone hu => ?_) (Or.inl rfl)
  obtain ⟨l₀, hnone, rfl, -⟩ := makeDirectory_eq hone
  by_cases heq : l = l₀
  · subst heq
    rw [nodeAt?_put_self u _ (ne_root_of_nodeAt? (by rw [hnone]; exact nofun))]
    rcases hu with hsame | ⟨hwas, _⟩
    · exact Or.inr ⟨hsame ▸ hnone, rfl⟩
    · exact Or.inr ⟨hwas, rfl⟩
  · rwa [nodeAt?_put_of_ne u _ heq]

theorem nodeAt?_drop_of_ne (v : Volume) {l l' : Location} (h : l' ≠ l) :
    (v.drop l).nodeAt? l' = v.nodeAt? l' := by
  unfold nodeAt? drop
  by_cases hroot : l' = []
  · subst hroot
    rfl
  · simp only [List.isEmpty_iff, hroot, if_false]
    rw [Keyed.find?_erase, if_neg h]

/-! Proper locations -/

theorem Arrives.areProper {v : Volume} {follow : Bool} {links : Nat} {stand : Location}
    {names : List String} {l : Location} (h : Arrives v follow links stand names l)
    (hstand : AreProper stand) (hnames : AreProper names) : AreProper l := by
  have htail {name : String} {rest : List String} (h : AreProper (name :: rest)) : AreProper rest :=
    fun c hc => h c (List.mem_cons_of_mem _ hc)
  have hstep {name : String} {rest : List String} {stand : Location} (hstand : AreProper stand)
      (h : AreProper (name :: rest)) : AreProper (stand ++ [name]) := by
    refine hstand.append fun c hc => ?_
    rw [List.mem_singleton.mp hc]
    exact h name (List.mem_cons_self ..)
  induction h with
  | here links stand => exact hstand
  | up _ ih => exact ih hstand.dropLast (htail hnames)
  | last => exact hstep hstand hnames
  | through _ _ _ _ ih => exact ih (hstep hstand hnames) (htail hnames)
  | link target _ _ _ _ _ ih =>
    refine ih ?_ ((Path.areProper_ofText target).append (htail hnames))
    split
    · exact fun c hc => absurd hc List.not_mem_nil
    · exact hstand

section Named

variable {v w : Volume} {p : Path} {l : Location}

theorem areProper_of_locate (hhere : AreProper v.here) (hp : AreProper p.parts) {follow : Bool}
    (h : v.locate follow p = .ok l) : AreProper l := by
  refine (walk_eq_ok_iff.mp h).areProper ?_ hp
  unfold start
  split
  · exact fun c hc => absurd hc List.not_mem_nil
  · exact hhere

namespace IsNamed

theorem put (h : v.IsNamed) (hl : AreProper l) (n : Node) : (v.put l n).IsNamed where
  here := h.here
  nodes l' hl' := by
    rcases Keyed.mem_keys_set.mp hl' with rfl | hmem
    · exact hl
    · exact h.nodes l' hmem

theorem tick (h : v.IsNamed) : v.tick.IsNamed := ⟨h.here, h.nodes⟩

theorem drop (h : v.IsNamed) (l : Location) : (v.drop l).IsNamed :=
  ⟨h.here, fun l' hl' => h.nodes l' (((List.filter_sublist).map _).subset hl')⟩

theorem namesIn (h : v.IsNamed) {d : Location} {name : String} (hname : name ∈ v.namesIn d) :
    '/' ∉ name.toList := by
  obtain ⟨node, hmem⟩ := mem_namesIn.mp hname
  exact (h.nodes _ (List.mem_map_of_mem hmem) name (by simp)).2

theorem makeDirectories (h : v.IsNamed) (hp : AreProper p.parts)
    (hmade : v.makeDirectories p = .ok w) : w.IsNamed := by
  refine makeDirectories_keeps _ hmade (fun p' hp' u u' hone hu => ?_) h
  obtain ⟨l, -, rfl, hlocate⟩ := makeDirectory_eq hone
  have hproper : AreProper p'.parts := fun c hc => hp c (hp'.subset hc)
  exact hu.put (areProper_of_locate (v := u.put l .directory) hu.here hproper hlocate) _

end IsNamed

end Named
end Volume

/-! What calls in a folder do -/

section StaysIn

open Volume

variable {directory : Path} {folder : String} {c : FileCall}

theorem IsFileIn.areProper {p : Path} (h : IsFileIn directory folder p) (hdirectory : AreProper directory.parts)
    (hfolder : IsName folder) : AreProper p.parts := by
  obtain ⟨name, hname, rfl⟩ := h
  refine hdirectory.append fun c hc => ?_
  have hboth : c = folder ∨ c = name := by simpa using hc
  rcases hboth with rfl | rfl
  · exact ⟨(isName_iff.mp hfolder).1, (isName_iff.mp hfolder).2.2.2⟩
  · exact ⟨(isName_iff.mp hname).1, (isName_iff.mp hname).2.2.2⟩

theorem areProper_folder (hdirectory : AreProper directory.parts) (hfolder : IsName folder) :
    AreProper (directory.parts ++ [folder]) := by
  refine hdirectory.append fun c hc => ?_
  rw [List.mem_singleton.mp hc]
  exact ⟨(isName_iff.mp hfolder).1, (isName_iff.mp hfolder).2.2.2⟩

namespace FileCall

/-- What a call may do to a volume: it makes directories, puts a file where its path leads, moves what its path
names, or removes it. All else leaves the volume as it is. -/
inductive Does (v : Volume) : FileCall → Volume → Prop
  | nothing (c : FileCall) : Does v c v
  | directories {p : Path} {w : Volume} (made : v.makeDirectories p = .ok w) : Does v (.makeDirectories p) w
  | file {p : Path} {l : Location} (bytes : List UInt8) (located : v.locate true p = .ok l) :
      Does v (.write p bytes) (v.put l (.file bytes v.writeTime)).tick
  | moved {source goal : Path} {l l' : Location} (node : Node) (located : v.locate false source = .ok l)
      (located' : v.locate false goal = .ok l') : Does v (.rename source goal) ((v.drop l).put l' node)
  | removed {p : Path} {l : Location} (located : v.locate false p = .ok l) : Does v (.unlink p) (v.drop l)

theorem does_look {α : Type} (f : Volume → Except Failure α) (v : Volume) (c : FileCall) :
    Does v c ((Filing.look f).run v).2 := by
  rw [Filing.run_look]
  exact .nothing c

theorem does_change {f : Volume → Except Failure Volume} {v : Volume} {c : FileCall}
    (hf : ∀ w, f v = .ok w → Does v c w) : Does v c ((Filing.change f).run v).2 := by
  rw [Filing.run_change]
  cases hmade : f v with
  | ok w => exact hf w hmade
  | error e => exact .nothing c

theorem does_after (c : FileCall) (v : Volume) : Does v c (c.after v) := by
  cases c with
  | makeDirectories p => exact does_change fun w hw => .directories hw
  | isDirectory p => exact does_look _ v _
  | names p => exact does_look _ v _
  | isThere p => exact does_look _ v _
  | isTaken p => exact does_look _ v _
  | read p => exact does_look _ v _
  | newNames => exact does_look _ v _
  | write p bytes =>
    refine does_change fun w hw => ?_
    obtain ⟨-, l, htarget, rfl⟩ := Volume.write_eq_ok_iff.mp hw
    exact .file bytes (Volume.target_eq_ok_iff.mp htarget).1
  | rename source goal =>
    refine does_change fun w hw => ?_
    split at hw
    · cases hw
    obtain ⟨l, l', node, hlocate, hlocate', -, -, -, rfl⟩ := Volume.rename_eq_ok_iff.mp hw
    exact .moved _ hlocate hlocate'
  | unlink p =>
    refine does_change fun w hw => ?_
    obtain ⟨-, l, node, hlocate, -, -, rfl⟩ := Volume.unlink_eq_ok_iff.mp hw
    exact .removed hlocate

variable {v : Volume}

theorem StaysIn.reaches (h : c.StaysIn directory folder) (v : Volume) :
    Reaches directory folder v (c.after v) := by
  have hdoes := does_after c v
  generalize c.after v = w at hdoes
  intro l hl
  cases hdoes with
  | nothing => exact absurd rfl hl
  | directories made => exact Or.inl (made_of_makeDirectories made hl)
  | @file p l' bytes located =>
    obtain rfl : l = l' := by
      by_contra hne
      exact hl (nodeAt?_put_of_ne v _ hne)
    exact Or.inr ⟨p, true, h, located⟩
  | @moved source goal l₁ l₂ node located located' =>
    by_cases hgoal : l = l₂
    · exact Or.inr ⟨goal, false, h.2, hgoal ▸ located'⟩
    · rw [nodeAt?_put_of_ne _ _ hgoal] at hl
      obtain rfl : l = l₁ := by
        by_contra hne
        exact hl (nodeAt?_drop_of_ne v hne)
      exact Or.inr ⟨source, false, h.1, located⟩
  | @removed p l' located =>
    obtain rfl : l = l' := by
      by_contra hne
      exact hl (nodeAt?_drop_of_ne v hne)
    exact Or.inr ⟨p, false, h, located⟩

theorem StaysIn.isNamed (h : c.StaysIn directory folder) (hdirectory : AreProper directory.parts)
    (hfolder : IsName folder) (hv : v.IsNamed) : (c.after v).IsNamed := by
  have hdoes := does_after c v
  generalize c.after v = w at hdoes
  cases hdoes with
  | nothing => exact hv
  | directories made =>
    obtain rfl := h
    exact hv.makeDirectories (areProper_folder hdirectory hfolder) made
  | file bytes located =>
    exact (hv.put (areProper_of_locate hv.here (h.areProper hdirectory hfolder) located) _).tick
  | moved node located located' =>
    exact (hv.drop _).put (areProper_of_locate hv.here (h.2.areProper hdirectory hfolder) located') _
  | removed located => exact hv.drop _

/-- The calls that look at what a path leads to. -/
def Looks : FileCall → Prop
  | isDirectory _ | names _ | isThere _ | read _ => True
  | _ => False

theorem Looks.after (h : c.Looks) (v : Volume) : c.after v = v := by
  have hdoes := does_after c v
  generalize c.after v = w at hdoes
  cases hdoes with
  | nothing => rfl
  | directories made => exact h.elim
  | file bytes located => exact h.elim
  | moved node located located' => exact h.elim
  | removed located => exact h.elim

/-- A look at a folder or at a file in it is answered alike where these look alike. -/
theorem Looks.reply {v v' : Volume} (h : c.Looks) (hstays : c.StaysIn directory folder)
    (halike : LooksLike directory folder v v') : (c.action.run v').1 = (c.action.run v).1 := by
  cases c with
  | isDirectory p =>
    obtain rfl := hstays
    simp only [action, Filing.run_look, Volume.isDirectory, probe, halike.stat]
  | names p =>
    obtain rfl := hstays
    simp only [action, Filing.run_look, halike.stat]
    rcases hstat : v.stat ⟨directory.root, directory.parts ++ [folder]⟩ with e | ⟨d, node⟩
    · rfl
    · cases node <;> simp only [halike.names d _ hstat]
  | isThere p => simp only [action, Filing.run_look, Volume.isThere, probe, halike.files p hstays]
  | read p => simp only [action, Filing.run_look, readText, Volume.read, halike.files p hstays]
  | makeDirectories _ | isTaken _ | write _ _ | rename _ _ | unlink _ | newNames => exact h.elim

end FileCall

/-- A script that only looks at a folder ends alike where the folder looks alike. -/
theorem Script.Makes.alike {α : Type} {s : Script α} {v v' : Volume}
    (h : s.Makes (fun c => c.StaysIn directory folder ∧ c.Looks) v) (halike : LooksLike directory folder v v') :
    (s.run v').1 = (s.run v).1 := by
  induction s with
  | done result => rfl
  | call c next ih =>
    obtain ⟨hstays, hlooks⟩ := h (c, v) (List.mem_cons_self ..)
    have hrest := ih (c.action.run v).1 fun x hx => h x (List.mem_cons_of_mem _ (by rwa [hlooks.after v]))
    rw [Script.run, Script.run, hlooks.reply hstays halike, hlooks.after v, hlooks.after v', hrest]

end StaysIn

namespace Store

open Volume Script

section Scripts

variable {directory : Path} {folder : String} {v : Volume}

theorem isFileIn_child {name : String} (h : IsName name) :
    IsFileIn directory folder ((⟨directory.root, directory.parts ++ [folder]⟩ : Path).child name) :=
  ⟨name, h, by rw [h.child, List.append_assoc]; rfl⟩

theorem isFileIn_entryPath (key : String) :
    IsFileIn directory folder (entryPath ⟨directory.root, directory.parts ++ [folder]⟩ key) :=
  isFileIn_child (isName_fileName key)

theorem makes_getScript (now : Instant) (key : String) :
    (getScript now ⟨directory.root, directory.parts ++ [folder]⟩ key).Makes
      (fun c => c.StaysIn directory folder ∧ c.Looks) v := by
  refine makes_ask ⟨isFileIn_entryPath key, trivial⟩ fun isThere _ => ?_
  cases isThere with
  | false => exact makes_done _
  | true => exact makes_call ⟨isFileIn_entryPath key, trivial⟩ (makes_done _)

theorem makes_readScript {kind : FileCall → Prop} (now : Instant) {ps : List Path}
    (hps : ∀ p ∈ ps, kind (.read p)) : (readScript now ps).Makes kind v := by
  induction ps generalizing v with
  | nil => exact makes_done _
  | cons p rest ih =>
    refine makes_call (hps p (List.mem_cons_self ..)) ?_
    have hrest := fun {v} => @ih v fun p hp => hps p (List.mem_cons_of_mem _ hp)
    split
    · exact makes_map _ hrest
    · exact hrest
    · exact makes_done _

theorem makes_listScript (now : Instant) (hv : v.IsNamed) :
    (listScript now ⟨directory.root, directory.parts ++ [folder]⟩).Makes
      (fun c => c.StaysIn directory folder ∧ c.Looks) v := by
  refine makes_ask ⟨rfl, trivial⟩ fun isThere _ => ?_
  cases isThere with
  | false => exact makes_done _
  | true =>
    refine makes_ask ⟨rfl, trivial⟩ fun names hnames => makes_readScript now fun p hp => ⟨?_, trivial⟩
    obtain ⟨name, hname, rfl⟩ := List.mem_map.mp hp
    obtain ⟨hmem, hsuffix⟩ := List.mem_filter.mp hname
    refine ⟨name, isName_of_suffix ?_ (show 2 < suffix.length by decide)
      (List.isSuffixOf_iff_suffix.mp hsuffix), by rw [List.append_assoc]; rfl⟩
    -- The names are those of nodes in the folder, or there are none.
    rw [FileCall.Looks.after (c := .isDirectory _) trivial] at hnames
    simp only [FileCall.action, Filing.run_look] at hnames
    split at hnames
    · cases hnames
      exact hv.namesIn hmem
    · cases hnames
      cases hmem

theorem makes_deleteScript (key : String) :
    (deleteScript ⟨directory.root, directory.parts ++ [folder]⟩ key).Makes
      (FileCall.StaysIn directory folder) v := by
  refine makes_ask (isFileIn_entryPath key) fun isThere _ => ?_
  cases isThere with
  | false => exact makes_done _
  | true => exact makes_call (isFileIn_entryPath key) (makes_done _)

theorem makes_nameScript {α : Type} {next : String → Script α}
    (hnext : ∀ name v, IsTemporary name → (next name).Makes (FileCall.StaysIn directory folder) v)
    (fuel n : Nat) : (nameScript ⟨directory.root, directory.parts ++ [folder]⟩ next fuel n).Makes
      (FileCall.StaysIn directory folder) v := by
  induction fuel generalizing n v with
  | zero => exact hnext _ _ ⟨n, rfl⟩
  | succ fuel ih =>
    refine makes_ask (isFileIn_child (IsTemporary.isName ⟨n, rfl⟩)) fun isTaken _ => ?_
    cases isTaken with
    | false => exact hnext _ _ ⟨n, rfl⟩
    | true => exact ih (n + 1)

theorem makes_fillScript (key : String) (bytes : List UInt8) {name : String} (hname : IsTemporary name) :
    (fillScript ⟨directory.root, directory.parts ++ [folder]⟩ key bytes name).Makes
      (FileCall.StaysIn directory folder) v := by
  have hfile : IsFileIn directory folder ((⟨directory.root, directory.parts ++ [folder]⟩ : Path).child name) :=
    isFileIn_child hname.isName
  refine makes_ask hfile fun _ _ => makes_call hfile ?_
  split
  · exact makes_call hfile (makes_done _)
  · refine makes_call ⟨hfile, isFileIn_entryPath key⟩ ?_
    split
    · exact makes_call hfile (makes_done _)
    · exact makes_done _

theorem makes_putScript (key : String) (e : Entry) :
    (putScript ⟨directory.root, directory.parts ++ [folder]⟩ key e).Makes
      (FileCall.StaysIn directory folder) v :=
  makes_ask rfl fun _ _ => makes_ask trivial fun _ _ =>
    makes_nameScript (fun _ _ hname => makes_fillScript key _ hname) _ _

/-- Every call of an operation on a folder stays in the folder. -/
theorem makes_script (now : Instant) (op : Operation) (hv : v.IsNamed) :
    (script now ⟨directory.root, directory.parts ++ [folder]⟩ op).Makes
      (FileCall.StaysIn directory folder) v := by
  cases op with
  | put key e => exact makes_map _ (makes_putScript key e)
  | get key => exact makes_map _ fun x hx => (makes_getScript now key x hx).1
  | delete key => exact makes_map _ (makes_deleteScript key)
  | list => exact makes_map _ fun x hx => (makes_listScript now hv x hx).1

end Scripts

/-! Folders of spaces -/

/-- The folder of a space in a directory. -/
def spaceRoot (directory : Path) (space : String) : Path :=
  ⟨directory.root, directory.parts ++ [safeName space]⟩

/-- The calls of operations in turn, each on the volume that the one before it has left, however that ended. -/
def callsOf (root : Path) : List (Instant × Operation) → Volume → List (FileCall × Volume)
  | [], _ => []
  | (now, op) :: rest, v => (script now root op).calls v ++ callsOf root rest ((script now root op).run v).2

/-- A call that names nothing but a folder and files in it, and that changes nothing but what these lead to. -/
def IsConfined (directory : Path) (folder : String) (x : FileCall × Volume) : Prop :=
  x.1.StaysIn directory folder ∧ Reaches directory folder x.2 (x.1.after x.2)

section Spaces

variable {directory : Path} {space : String} {v : Volume}

theorem isNamed_script (hdirectory : AreProper directory.parts) (hspace : IsName (safeName space))
    (hv : v.IsNamed) (now : Instant) (op : Operation) :
    ((script now (spaceRoot directory space) op).run v).2.IsNamed :=
  ((makes_script now op hv).keeps (fun _ _ hc hv => hc.isNamed hdirectory hspace hv) hv).1

theorem isConfined_of_mem_callsOf (hdirectory : AreProper directory.parts)
    (hspace : IsName (safeName space)) (hv : v.IsNamed) {ops : List (Instant × Operation)}
    {x : FileCall × Volume} (hx : x ∈ callsOf (spaceRoot directory space) ops v) :
    IsConfined directory (safeName space) x := by
  induction ops generalizing v with
  | nil => cases hx
  | cons op rest ih =>
    obtain ⟨now, op⟩ := op
    rcases List.mem_append.mp hx with hfirst | hrest
    · have hstays := makes_script now op hv x hfirst
      exact ⟨hstays, hstays.reaches x.2⟩
    · exact ih (isNamed_script hdirectory hspace hv now op) hrest

theorem areProper_of_expandHome {home : Option String} {text : String} {q : Path}
    (h : (Path.ofText text).expandHome? home = some q) : AreProper q.parts := by
  have htext := Path.areProper_ofText text
  unfold Path.expandHome? at h
  split at h
  · rename_i first rest _ hparts
    have hrest : AreProper rest := fun c hc => htext c (by rw [hparts]; exact List.mem_cons_of_mem _ hc)
    have hhome : ∀ target : String, (if target.startsWith "~" then none
        else some ((Path.ofText target).join ⟨"", rest⟩)) = some q → AreProper q.parts := by
      intro target hq
      split at hq
      · cases hq
      · cases hq
        exact (Path.areProper_ofText target).append hrest
    split at h
    · split at h
      · cases home with
        | none => cases h
        | some path => exact hhome _ h
      · cases h
    · cases h
      exact htext
  · cases h
    exact htext

end Spaces

/-- The folder that is opened for a transformer lies directly in the directory of the caches, whatever the name and
the version of the transformer are, and every file that operations on it name, whatever their keys are, lies directly
in the folder. Running their scripts is performing the operations. The calls change only what those files lead to, but
for directories that are made, and what is found and what is listed is told by the folder and those files alone. -/
theorem folder_confined (home : Option String) (cacheRoot : String) (t : Transformer) :
    IsName (safeName t.space) ∧
    (∀ v s w, (openAs home .json (Path.ofText cacheRoot) t.space).run v = (.ok s, w) →
      ∃ q, (Path.ofText cacheRoot).expandHome? home = some q ∧ s = folder (spaceRoot q t.space) t.space ∧
        (∀ l, w.nodeAt? l ≠ v.nodeAt? l → v.nodeAt? l = none ∧ w.nodeAt? l = some .directory) ∧
        (v.IsNamed → w.IsNamed)) ∧
    (∀ q now op v, (script now (spaceRoot q t.space) op).run v =
      ((folder (spaceRoot q t.space) t.space).perform now op).run v) ∧
    ∀ q, (Path.ofText cacheRoot).expandHome? home = some q → ∀ v, v.IsNamed →
      (∀ ops, ∀ x ∈ callsOf (spaceRoot q t.space) ops v, IsConfined q (safeName t.space) x) ∧
      ∀ v', LooksLike q (safeName t.space) v v' → ∀ now,
        (∀ key, (((folder (spaceRoot q t.space) t.space).get now key).run v').1 =
          (((folder (spaceRoot q t.space) t.space).get now key).run v).1) ∧
        (((folder (spaceRoot q t.space) t.space).entries now).run v').1 =
          (((folder (spaceRoot q t.space) t.space).entries now).run v).1 := by
  have hspace := isName_space t
  refine ⟨hspace, fun v s w hopen => ?_, fun q now op v => run_script now _ v _ op, fun q hq v hv => ?_⟩
  · obtain ⟨q, v₁, hexpand, hfolder⟩ := Action.of_run_bind_ok hopen
    obtain ⟨hq, rfl⟩ := run_expandHome hexpand
    obtain ⟨_, v₂, hmade, hpure⟩ := Action.of_run_bind_ok hfolder
    cases hpure
    rw [Filing.makeDirectories, Filing.run_change] at hmade
    split at hmade
    · rename_i v₃ hdone
      cases hmade
      rw [hspace.child] at hdone
      refine ⟨q, hq, by rw [hspace.child]; rfl, fun l hl => made_of_makeDirectories hdone hl, fun hv => ?_⟩
      exact hv.makeDirectories (areProper_folder (areProper_of_expandHome hq) hspace) hdone
    · cases hmade
  · refine ⟨fun ops x hx => isConfined_of_mem_callsOf (areProper_of_expandHome hq) hspace hv hx,
      fun v' halike now => ⟨fun key => ?_, ?_⟩⟩
    · change ((getFile now _ key).run v').1 = ((getFile now _ key).run v).1
      rw [← run_getScript, ← run_getScript]
      exact (makes_getScript now key).alike halike
    · rw [← run_listScript, ← run_listScript]
      exact (makes_listScript now hv).alike halike

/-! A name, a version and a key that are full of steps up -/

namespace Upward

def transformer : Transformer := ⟨0, .custom "Tag", "../..", "..\\..", []⟩

def volume : Volume := ⟨[(["cache"], .directory), (["cache", ".._..-.._.."], .directory)], [], 0⟩

theorem isNamed_volume : volume.IsNamed := by
  constructor <;> unfold AreProper <;> decide

theorem folder_confined_upward :
    (∀ ops, ∀ x ∈ callsOf (spaceRoot (Path.ofText "cache") transformer.space) ops volume,
      IsConfined (Path.ofText "cache") ".._..-.._.." x) ∧
    callsOf (spaceRoot (Path.ofText "cache") transformer.space) [(default, .get "../../x")] volume =
      [(.isThere ⟨"", ["cache", ".._..-.._..", ".._.._x.json"]⟩, volume)] := by
  obtain ⟨-, -, -, hconfined⟩ := folder_confined none "cache" transformer
  exact ⟨(hconfined (Path.ofText "cache") (by decide +kernel) volume isNamed_volume).1, by rfl⟩

end Upward

end Store
end AssetCompiler
