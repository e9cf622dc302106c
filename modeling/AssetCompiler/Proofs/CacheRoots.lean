import AssetCompiler.Proofs.Registries
import AssetCompiler.Proofs.Stores

/-!
The directory of the caches. Where the store of a space lies follows from the directory, the backend
and the name of the space. A store that is opened lies there, and one that lies there is opened again
without a change to the volume.
-/
namespace AssetCompiler

/-- A path leads to a directory below which there are no links. -/
structure Volume.IsRoot (v : Volume) (p : Path) (d : Location) : Prop where
  located : v.locate true p = .ok d
  directory : v.nodeAt? d = some .directory
  unlinked : ∀ rest target, v.nodeAt? (d ++ rest) ≠ some (.link target)

namespace Volume.IsRoot

variable {v v' : Volume} {p : Path} {d : Location}

theorem locate (h : v.IsRoot p d) (follow : Bool) {name : String} (hname : IsName name) :
    v.locate follow (p.child name) =
      if nameLimit < name.utf8ByteSize then .error .nameTooLong else .ok (d ++ [name]) :=
  locate_child follow h.located h.directory hname (h.unlinked [name])

theorem grows (h : v.IsRoot p d) (grows : Grows v v') : v'.IsRoot p d where
  located := grows.locate h.located
  directory := grows.directory d h.directory
  unlinked := fun rest target hlink => h.unlinked rest target ((grows.link _ target).mp hlink)

theorem isDirectory (h : v.IsRoot p d) : IsDirectory v p := ⟨d, h.located, h.directory⟩

end Volume.IsRoot

namespace Volume

def hasLinks (v : Volume) : Bool :=
  v.nodes.any fun e => match e.2 with | .link _ => true | _ => false

/-- A directory of a volume without links can hold the caches. -/
theorem isRoot_of_locate {v : Volume} {p : Path} {d : Location}
    (hlocate : v.locate true p = .ok d) (hdirectory : v.nodeAt? d = some .directory)
    (hlinks : hasLinks v = false) : v.IsRoot p d := by
  refine ⟨hlocate, hdirectory, fun rest target hlink => ?_⟩
  unfold nodeAt? at hlink
  split at hlink
  · cases hlink
  · have hmem := Keyed.mem_of_find? hlink
    unfold hasLinks at hlinks
    rw [List.any_eq_false] at hlinks
    exact hlinks _ hmem rfl

end Volume

open Volume

namespace Path

theorem join_relative (p : Path) (parts : List String) :
    p.join ⟨"", parts⟩ = ⟨p.root, p.parts ++ parts⟩ := rfl

/-- The home directory is written out before or after one more component. -/
theorem expandHome?_child {name : String} (hname : IsName name) (htilde : name.startsWith "~" = false)
    (home : Option String) (p : Path) :
    (p.child name).expandHome? home = (p.expandHome? home).map fun q => q.child name := by
  rw [hname.child]
  obtain ⟨root, parts⟩ := p
  unfold expandHome?
  simp only [isAbsolute]
  cases hroot : !root.isEmpty with
  | true => simp [hname.child]
  | false =>
    cases parts with
    | nil => simp [htilde, hname.child]
    | cons first rest =>
      simp only [List.cons_append]
      split
      · split
        · cases home with
          | none => rfl
          | some h =>
            simp only [join_relative]
            split
            · split
              · rfl
              · simp [hname.child]
            · split
              · rfl
              · simp [hname.child]
        · rfl
      · simp [hname.child]

end Path

namespace Store

/-- The store of a space in the directory of the caches. -/
def named (backend : Backend) (directory : Path) (space : String) : Option Store :=
  match backend with
  | .json => some (folder (directory.child (safeName space)) space)
  | .sqlite => some (table (directory.child databaseName) space true)
  | .unknown _ => none

/-- Where the store of a space lies. -/
def placeOf (backend : Backend) (d : Location) (space : String) : Place :=
  match backend with
  | .sqlite => .rows (d ++ [databaseName]) space
  | _ => .folder (d ++ [safeName space])

theorem startsWith_databaseName : databaseName.startsWith "~" = false := by decide +kernel

theorem isName_databaseName : IsName databaseName :=
  ⟨Path.ofText_of_not_mem (by decide) (by decide) (by decide), by decide⟩

/-- A name with a hyphen in it is one component of a path. -/
theorem isName_safeName {space : String} (h : '-' ∈ space.toList) : IsName (safeName space) := by
  have hmem : '-' ∈ (safeName space).toList := by
    rw [safeName, String.toList_ofList, List.mem_map]
    exact ⟨'-', h, rfl⟩
  have hne : ∀ s : String, '-' ∉ s.toList → safeName space ≠ s := by
    rintro s hs heq
    rw [heq] at hmem
    exact hs hmem
  exact ⟨Path.ofText_of_not_mem (slash_not_mem_safeName space) (hne "" (by decide))
    (hne "." (by decide)), hne ".." (by decide)⟩

theorem isName_space (t : Transformer) : IsName (safeName t.space) := by
  refine isName_safeName ?_
  simp [Transformer.space, String.toList_append]

/-- A store has been opened on a volume. -/
def IsOpened (v : Volume) : Store → Prop
  | folder root _ => hasZero root = false ∧ IsDirectory v root
  | table database _ isOpen => isOpen = true ∧ ∃ l, TableAt v database l

theorem IsOpened.opens {v v' : Volume} {s : Store} (h : s.IsOpened v) (opens : Opens v v') :
    s.IsOpened v' := by
  cases s with
  | folder root space => exact ⟨h.1, h.2.opens opens⟩
  | table database space isOpen =>
    obtain ⟨hopen, l, hlocate, rows, mtime, hnode⟩ := h
    refine ⟨hopen, l, opens.grows.locate hlocate, rows, mtime, ?_⟩
    rcases opens.node l with heq | ⟨hwas, _⟩
    · rw [heq, hnode]
    · rw [hnode] at hwas
      simp at hwas

section Opening

variable {v v' : Volume} {s : Store} {backend : Backend} {home : Option String}
variable {cacheRoot q : Path} {d : Location} {space : String}

theorem openFolder_ok {directory : Path} (h : (openFolder directory space).run v = (.ok s, v')) :
    Opens v v' ∧ s = folder (directory.child (safeName space)) space ∧ s.IsOpened v' := by
  obtain ⟨u, v₁, hmade, hpure⟩ := Action.of_run_bind_ok h
  cases hpure
  rw [Filing.makeDirectories, Filing.run_change] at hmade
  split at hmade
  · rename_i v₂ hdone
    cases hmade
    obtain ⟨hzero, hopens, hthere⟩ := makeDirectories_ok hdone
    exact ⟨hopens, rfl, hzero, hthere⟩
  · cases hmade

/-- A table is there already, or it is put where the path leads to and nothing was but an empty file. -/
theorem openTable_cases {database : Path} (h : (openTable database space).run v = (.ok s, v')) :
    s = table database space true ∧ ∃ v₁ l, v.makeDirectories database.parent = .ok v₁ ∧
      v₁.locate true database = .ok l ∧
      ((v' = v₁ ∧ ∃ rows mtime, v₁.nodeAt? l = some (.table rows mtime)) ∨
        (v' = (v₁.put l (.table [] v₁.writeTime)).tick ∧
          (v₁.nodeAt? l = none ∨ ∃ mtime, v₁.nodeAt? l = some (.file [] mtime)))) := by
  obtain ⟨u, v₁, hmade, hrest⟩ := Action.of_run_bind_ok h
  rw [Filing.makeDirectories, Filing.run_change] at hmade
  split at hmade
  · rename_i v₂ hdone
    cases hmade
    rw [Action.run_bind_ok (Action.run_get _)] at hrest
    split at hrest
    · rename_i l rows mtime hstat
      cases hrest
      obtain ⟨hlocate, hnode⟩ := stat_eq_ok_iff.mp hstat
      exact ⟨rfl, v', l, hdone, hlocate, .inl ⟨rfl, rows, mtime, hnode⟩⟩
    · rename_i l bytes mtime hstat
      obtain ⟨hlocate, hnode⟩ := stat_eq_ok_iff.mp hstat
      split at hrest
      · rename_i hempty
        rw [List.isEmpty_iff.mp hempty] at hnode
        cases hrest
        exact ⟨rfl, v₁, l, hdone, hlocate, .inr ⟨rfl, .inr ⟨mtime, hnode⟩⟩⟩
      · cases hrest
    · cases hrest
    · rename_i e hstat
      split at hrest
      · rename_i l htarget
        obtain ⟨hlocate, -, -⟩ := target_eq_ok_iff.mp htarget
        have hnone : v₁.nodeAt? l = none := by
          unfold stat at hstat
          rw [hlocate] at hstat
          cases hnode : v₁.nodeAt? l with
          | none => rfl
          | some node => simp [hnode] at hstat
        cases hrest
        exact ⟨rfl, v₁, l, hdone, hlocate, .inr ⟨rfl, .inl hnone⟩⟩
      · cases hrest
  · cases hmade

theorem opens_put_table {l : Location}
    (hwas : v.nodeAt? l = none ∨ ∃ mtime, v.nodeAt? l = some (.file [] mtime)) :
    Opens v (v.put l (.table [] v.writeTime)).tick := by
  have hl : l ≠ [] := by
    rintro rfl
    simp [nodeAt?] at hwas
  exact (Opens.put hl hwas (Or.inr ⟨v.writeTime, rfl⟩)).tick

theorem openTable_ok {database : Path} (h : (openTable database space).run v = (.ok s, v')) :
    Opens v v' ∧ s = table database space true ∧ s.IsOpened v' := by
  obtain ⟨rfl, v₁, l, hmade, hlocate, ⟨rfl, rows, mtime, hnode⟩ | ⟨rfl, hwas⟩⟩ := openTable_cases h
  · exact ⟨(makeDirectories_ok hmade).2.1, rfl, rfl, l, hlocate, rows, mtime, hnode⟩
  · have hput := opens_put_table hwas
    refine ⟨(makeDirectories_ok hmade).2.1.trans hput, rfl, rfl, l, hput.grows.locate hlocate, [], v₁.writeTime, ?_⟩
    have hl : l ≠ [] := by
      rintro rfl
      simp [nodeAt?] at hwas
    rw [nodeAt?_tick]
    exact nodeAt?_put_self v₁ _ hl

theorem run_expandHome {p q : Path} (h : (expandHome home p).run v = (.ok q, v')) :
    p.expandHome? home = some q ∧ v' = v := by
  unfold expandHome at h
  split at h
  · rename_i q' hq
    cases h
    exact ⟨hq, rfl⟩
  · cases h

/-- What is opened is the store of the space. -/
theorem openAs_ok (h : (openAs home backend cacheRoot space).run v = (.ok s, v'))
    (hroot : cacheRoot.expandHome? home = some q) :
    Opens v v' ∧ named backend q space = some s ∧ s.IsOpened v' := by
  cases backend with
  | json =>
    obtain ⟨q', v₁, hexpand, hopen⟩ := Action.of_run_bind_ok h
    obtain ⟨hq, rfl⟩ := run_expandHome hexpand
    cases hroot.symm.trans hq
    obtain ⟨hopens, rfl, hopened⟩ := openFolder_ok hopen
    exact ⟨hopens, rfl, hopened⟩
  | sqlite =>
    obtain ⟨q', v₁, hexpand, hopen⟩ := Action.of_run_bind_ok h
    obtain ⟨hq, rfl⟩ := run_expandHome hexpand
    rw [Path.expandHome?_child isName_databaseName startsWith_databaseName, hroot] at hq
    cases hq
    obtain ⟨hopens, rfl, hopened⟩ := openTable_ok hopen
    exact ⟨hopens, rfl, hopened⟩
  | unknown name => cases h

/-- A store that has been opened lies in the directory of the caches. -/
theorem at_of_isOpened (hroot : v.IsRoot q d) (hnamed : named backend q space = some s)
    (hspace : IsName (safeName space)) (hopened : s.IsOpened v) :
    s.At v (placeOf backend d space) := by
  cases backend with
  | json =>
    cases hnamed
    obtain ⟨hzero, d', hlocate, hd'⟩ := hopened
    have hd : d' = d ++ [safeName space] := by
      rw [hroot.locate true hspace] at hlocate
      split at hlocate
      · cases hlocate
      · exact (Except.ok.inj hlocate).symm
    subst hd
    refine ⟨hzero, hlocate, hd', fun name target => ?_⟩
    rw [List.append_assoc]
    exact hroot.unlinked _ target
  | sqlite =>
    cases hnamed
    obtain ⟨hopen, l, hlocate, rows, mtime, hnode⟩ := hopened
    have hl : l = d ++ [databaseName] := by
      rw [hroot.locate true isName_databaseName] at hlocate
      split at hlocate
      · cases hlocate
      · exact (Except.ok.inj hlocate).symm
    subst hl
    exact ⟨hopen, rfl, hlocate, rows, mtime, hnode⟩
  | unknown name => cases hnamed

/-- A store that lies where it belongs is opened without a change. -/
theorem openAs_of_at {place : Place} (hexpand : cacheRoot.expandHome? home = some q)
    (hzero : hasZero q = false) (hroot : v.IsRoot q d) (hnamed : named backend q space = some s)
    (hat : s.At v place) : (openAs home backend cacheRoot space).run v = (.ok s, v) := by
  have hmade : ∀ {p : Path}, v.makeDirectories p = .ok v →
      (Filing.makeDirectories p).run v = (.ok (), v) := by
    intro p hp
    rw [Filing.makeDirectories, Filing.run_change, hp]
  have hexpanded : ∀ {p p' : Path}, p.expandHome? home = some p' →
      (expandHome home p).run v = (.ok p', v) := by
    intro p p' hp
    unfold expandHome
    rw [hp]
    rfl
  cases backend with
  | json =>
    cases hnamed
    cases place with
    | rows l space' => exact hat.elim
    | folder d' =>
      unfold openAs
      simp only
      rw [Action.run_bind_ok (hexpanded hexpand)]
      unfold openFolder
      rw [Action.run_bind_ok (hmade (FolderAt.makeDirectories hat))]
      rfl
  | sqlite =>
    cases hnamed
    cases place with
    | folder d' => exact hat.elim
    | rows l space' =>
      obtain ⟨-, -, htable⟩ := hat
      obtain ⟨mtime, hstat⟩ := htable.stat
      have hparent : (q.child databaseName).parent = q := by
        rw [isName_databaseName.child]
        simp [Path.parent]
      have hdatabase :=
        (Path.expandHome?_child isName_databaseName startsWith_databaseName home cacheRoot).trans
          (congrArg (Option.map fun q => q.child databaseName) hexpand)
      unfold openAs
      simp only
      rw [Action.run_bind_ok (hexpanded hdatabase)]
      unfold openTable
      rw [hparent, Action.run_bind_ok
        (hmade (makeDirectories_of_isDirectory hzero hroot.isDirectory)),
        Action.run_bind_ok (Action.run_get v), hstat]
      rfl
  | unknown name => cases hnamed

end Opening

end Store

/-! Hosts -/

/-- The cache of a transformer in the directory of the caches. -/
def Cache.named (backend : Backend) (directory : Path) (desk : Nat) (t : Transformer) : Cache :=
  ⟨(Store.named backend directory t.space).getD default, desk⟩

namespace Host

variable {σ : Type}

/-- What building a host leaves alone. -/
def setting (w : World σ) :
    List (String × String) × Keyed Nat Fingerprinter × Instant × σ :=
  (w.environment, w.desks, w.now, w.tools)

/-- A host is what the constructor makes of its arguments. -/
structure IsBuilt (h : Host) (root directory : Path) (types : List (String × Transformer))
    (number : Nat) (mode : Option Bool) (fallback : Option Transformer) (given : Settings) :
    Prop where
  settings : h.settings = { given with cacheRoot := root }
  desk : h.desk = number
  readOnly : h.readOnly = mode.getD given.readOnly
  registry :
    Registry.IsFor (Cache.named given.backend directory number) types fallback h.registry

variable {h : Host} {root q : Path} {types : List (String × Transformer)} {desk : Nat}
variable {mode : Option Bool} {fallback : Option Transformer} {settings : Settings}
variable {w w' : World σ} {d : Location}

theorem of_run_build (hrun : (build root types desk mode fallback settings).run w = (.ok h, w')) :
    h.settings = { settings with cacheRoot := root } ∧ h.desk = desk ∧
      h.readOnly = mode.getD settings.readOnly ∧
      (Registry.build (fun t => Cache.ofTransformer t desk { settings with cacheRoot := root })
        types fallback).run w = (.ok h.registry, w') := by
  obtain ⟨r, w'', hregistry, hpure⟩ := Action.of_run_bind_ok hrun
  cases hpure
  exact ⟨rfl, rfl, rfl, hregistry⟩

theorem run_ofTransformer {t : Transformer} {k : Cache}
    (hrun : (Cache.ofTransformer t desk settings).run w = (.ok k, w')) :
    ∃ v', (Store.openAs (w.environment.lookup "HOME") settings.backend settings.cacheRoot
        t.space).run w.volume = (.ok k.store, v') ∧ k.desk = desk ∧
      w' = { w with volume := v' } := by
  obtain ⟨environment, w₁, henvironment, hrest⟩ := Action.of_run_bind_ok hrun
  cases henvironment
  obtain ⟨s, w₂, hopen, hpure⟩ := Action.of_run_bind_ok hrest
  cases hpure
  rw [Work.run_filing] at hopen
  obtain ⟨hresult, rfl⟩ := Prod.mk.inj hopen
  exact ⟨_, Prod.ext hresult rfl, rfl, rfl⟩

/-- Building a host opens its stores. -/
theorem build_ok (hrun : (build root types desk mode fallback settings).run w = (.ok h, w'))
    (hroot : root.expandHome? (w.environment.lookup "HOME") = some q) :
    h.IsBuilt root q types desk mode fallback settings ∧ Volume.Opens w.volume w'.volume ∧
      setting w' = setting w ∧ ∀ name s, h.registry.slot? name = some s →
        Store.named settings.backend q s.transformer.space = some s.cache.store ∧
        s.cache.store.IsOpened w'.volume := by
  obtain ⟨hsettings, hdesk, hmode, hregistry⟩ := of_run_build hrun
  have hmakes : Registry.Makes
      (fun t => Cache.ofTransformer t desk { settings with cacheRoot := root })
      (Cache.named settings.backend q desk)
      (fun w w' : World σ => Volume.Opens w.volume w'.volume ∧ setting w' = setting w)
      (fun w k => k.store.IsOpened w.volume ∧
        ∃ space, Store.named settings.backend q space = some k.store)
      (Registry.registered types fallback) w := by
    constructor
    · exact fun w => ⟨Volume.Opens.refl _, rfl⟩
    · exact fun w w' w'' h h' => ⟨h.1.trans h'.1, h'.2.trans h.2⟩
    · exact fun w entry => ⟨Volume.Opens.refl _, rfl⟩
    · exact fun w w' k h hk => ⟨hk.1.opens h.1, hk.2⟩
    · intro t _ w₁ k w₂ hreached hmake
      obtain ⟨v', hopen, hk, rfl⟩ := run_ofTransformer hmake
      have henvironment : w₁.environment = w.environment := congrArg Prod.fst hreached.2
      rw [henvironment] at hopen
      obtain ⟨hopens, hnamed, hopened⟩ := Store.openAs_ok hopen hroot
      refine ⟨⟨hopens, rfl⟩, ?_, hopened, t.space, hnamed⟩
      obtain ⟨store, desk'⟩ := k
      cases hk
      rw [Cache.named, hnamed]
      rfl
  obtain ⟨hworld, hfor, hslots⟩ := Registry.build_ok hmakes hregistry
  refine ⟨⟨hsettings, hdesk, hmode, hfor⟩, hworld.1, hworld.2, ?_⟩
  intro name s hs
  obtain ⟨hopened, space, hspace⟩ := hslots name s hs
  refine ⟨?_, hopened⟩
  rw [(hfor.of_slot? hs).2.2, Cache.named]
  cases hbackend : settings.backend with
  | json => rfl
  | sqlite => rfl
  | unknown name =>
    rw [hbackend] at hspace
    cases hspace

/-- Over stores that lie where they belong, a host is built without a change to the volume. -/
theorem build_of_at (hrun : (build root types desk mode fallback settings).run w = (.ok h, w'))
    (hexpand : root.expandHome? (w.environment.lookup "HOME") = some q)
    (hzero : Volume.hasZero q = false) (hroot : w.volume.IsRoot q d)
    (hat : ∀ t ∈ Registry.registered types fallback, ∃ s place,
      Store.named settings.backend q t.space = some s ∧ s.At w.volume place) :
    h.IsBuilt root q types desk mode fallback settings ∧ w'.volume = w.volume ∧
      setting w' = setting w := by
  obtain ⟨hsettings, hdesk, hmode, hregistry⟩ := of_run_build hrun
  have hmakes : Registry.Makes
      (fun t => Cache.ofTransformer t desk { settings with cacheRoot := root })
      (Cache.named settings.backend q desk)
      (fun w w' : World σ => w'.volume = w.volume ∧ setting w' = setting w)
      (fun _ _ => True) (Registry.registered types fallback) w := by
    constructor
    · exact fun w => ⟨rfl, rfl⟩
    · exact fun w w' w'' h h' => ⟨h'.1.trans h.1, h'.2.trans h.2⟩
    · exact fun w entry => ⟨rfl, rfl⟩
    · exact fun w w' k h hk => trivial
    · intro t ht w₁ k w₂ hreached hmake
      obtain ⟨v', hopen, hk, rfl⟩ := run_ofTransformer hmake
      obtain ⟨s, place, hnamed, hstore⟩ := hat t ht
      have henvironment : w₁.environment = w.environment := congrArg Prod.fst hreached.2
      rw [henvironment, hreached.1,
        Store.openAs_of_at hexpand hzero hroot hnamed hstore] at hopen
      obtain ⟨hs, rfl⟩ := Prod.mk.inj hopen
      refine ⟨⟨hreached.1.symm, rfl⟩, ?_, trivial⟩
      obtain ⟨store, desk'⟩ := k
      cases hk
      cases hs
      rw [Cache.named, hnamed]
      rfl
  obtain ⟨hworld, hfor, -⟩ := Registry.build_ok hmakes hregistry
  exact ⟨⟨hsettings, hdesk, hmode, hfor⟩, hworld⟩

end Host
end AssetCompiler
