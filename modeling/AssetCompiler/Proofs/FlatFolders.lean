import AssetCompiler.Proofs.Folders
import AssetCompiler.Proofs.Tenancies

/-!
Folders that have no folders in them. Opening a store makes directories on the way to its folder and nowhere
else, as long as the path to it does not go back, and storing makes none. So in a directory of caches that
began empty no directory ever stands where an entry is to go, and whatever is stored there is stored.
-/
namespace AssetCompiler

namespace Volume

/-! Directories on the way to a path -/

/-- The directories that have been made lie on the way to paths of a kind. -/
def MadeTo (goals : Path → Prop) (v v' : Volume) : Prop :=
  ∀ l, v.nodeAt? l ≠ some .directory → v'.nodeAt? l = some .directory →
    (∀ rest target, v'.nodeAt? (l ++ rest) ≠ some (.link target)) →
    ∃ p, goals p ∧ ∃ rest, v'.locate true p = .ok (l ++ rest)

section Making

variable {goals : Path → Prop} {v v' v'' : Volume} {p : Path}

theorem MadeTo.refl (goals : Path → Prop) (v : Volume) : MadeTo goals v v :=
  fun _ hwas his => absurd his hwas

theorem MadeTo.trans (hmade : MadeTo goals v v') (hmade' : MadeTo goals v' v'') (grows : Grows v' v'') :
    MadeTo goals v v'' := by
  intro l hwas his hlinks
  by_cases hthen : v'.nodeAt? l = some .directory
  · obtain ⟨p, hp, rest, hlocate⟩ := hmade l hwas hthen fun rest target hlink =>
      hlinks rest target ((grows.link _ _).mpr hlink)
    exact ⟨p, hp, rest, grows.locate hlocate⟩
  · exact hmade' l hthen his hlinks

/-- A directory is made where the path leads to. -/
theorem madeTo_makeDirectory (h : v.makeDirectory p = .ok v') : MadeTo (· = p) v v' := by
  intro l hwas his _
  obtain ⟨l₀, hnone, rfl, hlocate⟩ := makeDirectory_eq h
  have hl₀ : l₀ ≠ [] := ne_root_of_nodeAt? (by rw [hnone]; exact nofun)
  rw [nodeAt?_put v l₀ l _ hl₀] at his
  split at his
  · rename_i heq
    exact ⟨p, rfl, [], by rw [List.append_nil, heq, hlocate]⟩
  · exact absurd his hwas

/-- What lies on the way to the parent of a path lies on the way to the path, if this does not go back. -/
theorem MadeTo.of_parent (hmade : MadeTo (· = p.parent) v v') (hparent : IsDirectory v' p.parent)
    (hback : ".." ∉ p.parts) (grows : Grows v' v'') (hthere : IsDirectory v'' p)
    (hlast : MadeTo (· = p) v' v'') : MadeTo (· = p) v v'' := by
  intro l hwas his hlinks
  by_cases hthen : v'.nodeAt? l = some .directory
  · obtain ⟨_, rfl, rest, hlocate⟩ := hmade l hwas hthen fun rest target hlink =>
      hlinks rest target ((grows.link _ _).mpr hlink)
    refine ⟨p, rfl, ?_⟩
    have hlocated := grows.locate hlocate
    obtain ⟨root, parts⟩ := p
    rcases List.eq_nil_or_concat' parts with rfl | ⟨names, name, rfl⟩
    · exact ⟨rest, hlocated⟩
    · obtain ⟨d, hd, hdirectory⟩ := hparent
      obtain rfl := Except.ok.inj (hd.symm.trans hlocate)
      have hstep := locate_concat true hlocated (grows.directory _ hdirectory)
        (fun hname => hback (hname ▸ List.mem_append_right _ List.mem_cons_self))
        fun target => by
          rw [List.append_assoc]
          exact hlinks _ target
      simp only [Path.parent, List.dropLast_concat] at hstep
      obtain ⟨d', hd', -⟩ := hthere
      rw [hstep] at hd'
      split at hd'
      · cases hd'
      · rename_i hshort
        exact ⟨rest ++ [name], by rw [hstep, if_neg hshort, List.append_assoc]⟩
  · exact hlast l hthen his hlinks

theorem madeTo_makeChain (hback : ".." ∉ p.parts) {n : Nat} (h : v.makeChain (chain n p) = .ok v') :
    MadeTo (· = p) v v' := by
  induction n generalizing p v' with
  | zero =>
    rw [chain, makeChain] at h
    split at h
    · rename_i v₁ hmade
      cases h
      exact madeTo_makeDirectory hmade
    · cases h
    · rw [(orThere_ok h).1]
      exact .refl _ _
  | succ n ih =>
    have hthere : IsDirectory v' p := (makeChain_ok h).2 _ _ rfl
    rw [chain, makeChain] at h
    split at h
    · rename_i v₁ hmade
      cases h
      exact madeTo_makeDirectory hmade
    · split at h
      · cases h
      · split at h
        · cases h
        · rename_i v₁ hchain
          -- The parents have been made, and what is still to be made is the path itself.
          have hparents : MadeTo (· = p.parent) v v₁ :=
            ih (fun hmem => hback (List.dropLast_subset _ hmem)) hchain
          obtain ⟨rest, hrest⟩ := chain_eq_cons n p.parent
          have hparent : IsDirectory v₁ p.parent := (makeChain_ok hchain).2 _ _ hrest
          split at h
          · rename_i v₂ hmade
            cases h
            exact hparents.of_parent hparent hback (makeDirectory_ok hmade).1.grows hthere
              (madeTo_makeDirectory hmade)
          · rw [(orThere_ok h).1] at hthere ⊢
            exact hparents.of_parent hparent hback (Grows.refl _) hthere (.refl _ _)
    · rw [(orThere_ok h).1]
      exact .refl _ _

theorem madeTo_makeDirectories (hback : ".." ∉ p.parts) (h : v.makeDirectories p = .ok v') :
    MadeTo (· = p) v v' := by
  unfold makeDirectories at h
  split at h
  · cases h
  · exact madeTo_makeChain hback h

/-- In a directory at most one is made for a name in it, however the path leads there. -/
theorem IsRoot.madeTo_makeDirectories {q : Path} {d : Location} {name : String} (hroot : v.IsRoot q d)
    (hname : IsName name) (h : v.makeDirectories (q.child name) = .ok v') :
    MadeTo (· = q.child name) v v' := by
  obtain ⟨rest, hchain⟩ := chain_eq_cons (q.child name).parts.length (q.child name)
  unfold makeDirectories at h
  rw [hchain, makeChain] at h
  split at h
  · cases h
  · split at h
    · rename_i v₁ hmade
      cases h
      exact madeTo_makeDirectory hmade
    · rename_i hmissing
      unfold makeDirectory at hmissing
      rw [hroot.locate false hname] at hmissing
      by_cases hlong : nameLimit < name.utf8ByteSize
      · simp only [hlong, if_true] at hmissing
        cases hmissing
      · simp only [hlong, if_false, List.dropLast_concat, hroot.directory] at hmissing
        split at hmissing <;> cases hmissing
    · rw [(orThere_ok h).1]
      exact .refl _ _

end Making

/-! Flat folders -/

/-- No directory stands below the folders in a directory. -/
def IsFlat (v : Volume) (d : Location) : Prop :=
  ∀ folder name rest, v.nodeAt? (d ++ folder :: name :: rest) ≠ some .directory

/-- The paths of folders in a directory. -/
def IsFolderOf (q p : Path) : Prop := ∃ name, IsName name ∧ p = q.child name

namespace IsFlat

variable {v v' : Volume} {q : Path} {d : Location}

theorem of_empty (hempty : ∀ name rest, v.nodeAt? (d ++ name :: rest) = none) : v.IsFlat d := by
  intro folder name rest hnode
  rw [hempty] at hnode
  cases hnode

theorem spares (h : v.IsFlat d) (hspares : Spares q d v v') : v'.IsFlat d := by
  intro folder name rest
  rw [hspares.node]
  exact h folder name rest

theorem advances {own : Location → Prop} (h : v.IsFlat d) (hadvances : Advances own v v') :
    v'.IsFlat d := by
  intro folder name rest
  rcases hadvances.node (d ++ folder :: name :: rest) with hsame | ⟨-, -, hleaf, -⟩
  · rw [hsame]
    exact h folder name rest
  · exact hleaf.1

/-- Making folders leaves them flat. -/
theorem madeTo (h : v.IsFlat d) (hroot : v'.IsRoot q d) (hmade : MadeTo (IsFolderOf q) v v') :
    v'.IsFlat d := by
  intro folder name rest hnode
  obtain ⟨_, ⟨name', hname', rfl⟩, rest', hlocate⟩ := hmade _ (h folder name rest) hnode
    fun rest target => by
      rw [List.append_assoc]
      exact hroot.unlinked _ target
  rw [hroot.locate true hname'] at hlocate
  split at hlocate
  · cases hlocate
  · have hlength := congrArg List.length (Except.ok.inj hlocate)
    simp at hlength

end IsFlat
end Volume

open Volume

/-! Stores -/

namespace Store

variable {v v' : Volume} {q : Path} {d : Location} {space : String} {s : Store}

theorem up_not_mem_child {name : String} (hname : IsName name) (hback : ".." ∉ q.parts) :
    ".." ∉ (q.child name).parts := by
  rw [hname.child]
  intro hmem
  rcases List.mem_append.mp hmem with hmem | hmem
  · exact hback hmem
  · exact hname.proper (List.mem_singleton.mp hmem).symm

/-- Opening a folder makes directories on the way to it. -/
theorem madeTo_of_openAs {home : Option String} {cacheRoot : Path}
    (h : (openAs home .json cacheRoot space).run v = (.ok s, v'))
    (hexpand : cacheRoot.expandHome? home = some q) (hname : IsName (safeName space))
    (hback : ".." ∉ q.parts ∨ v.IsRoot q d) : MadeTo (IsFolderOf q) v v' := by
  obtain ⟨q', v₁, hexpanded, hopen⟩ := Action.of_run_bind_ok h
  obtain ⟨hq, rfl⟩ := run_expandHome hexpanded
  cases hexpand.symm.trans hq
  obtain ⟨u, v₂, hmake, hpure⟩ := Action.of_run_bind_ok hopen
  cases hpure
  rw [Filing.makeDirectories, Filing.run_change] at hmake
  split at hmake
  · rename_i v₃ hmade
    cases hmake
    have hone : MadeTo (· = q.child (safeName space)) v₁ v' := by
      rcases hback with hback | hroot
      · exact madeTo_makeDirectories (up_not_mem_child hname hback) hmade
      · exact hroot.madeTo_makeDirectories hname hmade
    intro l hwas his hlinks
    obtain ⟨_, hone, hway⟩ := hone l hwas his hlinks
    exact ⟨_, ⟨_, hname, hone⟩, hway⟩
  · cases hmake

/-- Where no directories are below the folders, every entry with a key is stored. -/
theorem run_put_ok {backend : Backend} (hnamed : named backend q space = some s)
    (hat : s.At v (placeOf backend d space)) (hflat : backend = .json → v.IsFlat d) {key : String}
    (hkey : IsShort (fileName key)) (e : Entry) : ((s.put key e).run v).1 = .ok () := by
  cases backend with
  | json =>
    cases hnamed
    have hfolder : FolderAt v (q.child (safeName space)) (d ++ [safeName space]) := hat
    have hleaf : ∀ name, IsLeaf (v.nodeAt? (d ++ [safeName space] ++ [name])) := by
      intro name
      refine ⟨?_, hfolder.unlinked name⟩
      rw [List.append_assoc]
      exact hflat rfl (safeName space) name []
    obtain ⟨v', hput, -⟩ := hfolder.putFile_ok hkey hleaf e
    exact congrArg Prod.fst hput
  | sqlite =>
    cases hnamed
    obtain ⟨v', hput, -⟩ := hat.2.2.run_withRows (putRow ⟨space, key, Json.write .compact e.toJson⟩)
    exact congrArg Prod.fst hput
  | unknown name => cases hnamed

end Store

/-! Hosts -/

section Hosts

variable {σ : Type}

/-- Building a host makes directories on the way to the folders of its stores. -/
theorem Host.madeTo_of_build {h : Host} {root q : Path} {types : List (String × Transformer)}
    {desk : Nat} {mode : Option Bool} {fallback : Option Transformer} {given : Settings}
    {w w' : World σ} {d : Location}
    (hrun : (build root types desk mode fallback given).run w = (.ok h, w'))
    (hexpand : root.expandHome? (w.environment.lookup "HOME") = some q)
    (hbackend : given.backend = .json) (hback : ".." ∉ q.parts ∨ w.volume.IsRoot q d) :
    MadeTo (IsFolderOf q) w.volume w'.volume := by
  obtain ⟨-, -, -, hregistry⟩ := of_run_build hrun
  have hmakes : Registry.Makes
      (fun t => Cache.ofTransformer t desk { given with cacheRoot := root })
      (Cache.named given.backend q desk)
      (fun w w' : World σ => Opens w.volume w'.volume ∧ w'.environment = w.environment ∧
        MadeTo (IsFolderOf q) w.volume w'.volume)
      (fun _ _ => True) (Registry.registered types fallback) w := by
    constructor
    · exact fun w => ⟨.refl _, rfl, .refl _ _⟩
    · exact fun w w' w'' h h' => ⟨h.1.trans h'.1, h'.2.1.trans h.2.1, h.2.2.trans h'.2.2 h'.1.grows⟩
    · exact fun w entry => ⟨.refl _, rfl, .refl _ _⟩
    · exact fun _ _ _ _ _ => trivial
    · intro t _ w₁ k w₂ hreached hmake
      obtain ⟨v', hopen, hdesk, rfl⟩ := run_ofTransformer hmake
      rw [hreached.2.1] at hopen
      obtain ⟨hopens, hnamed, -⟩ := Store.openAs_ok hopen hexpand
      simp only [hbackend] at hopen
      have hback₁ : ".." ∉ q.parts ∨ w₁.volume.IsRoot q d :=
        hback.imp_right fun hroot => hroot.grows hreached.1.grows
      refine ⟨⟨hopens, rfl, Store.madeTo_of_openAs hopen hexpand (Store.isName_space t) hback₁⟩, ?_,
        trivial⟩
      obtain ⟨store, desk'⟩ := k
      cases hdesk
      rw [Cache.named, hnamed]
      rfl
  exact (Registry.build_ok hmakes hregistry).1.2.2

namespace Tenancy

variable {t : Terms σ} {w₀ w : World σ} {hosts : List Host} {visits : List (Visit σ)}

theorem Holds.advances (hh : Holds t hosts visits w) {x : Visit σ} (hworld : x.world = w)
    (hmem : x.host ∈ hosts) :
    Volume.Advances (x.host.Owns t.place) w.volume (x.run t.crew).2.volume := by
  have hlodges := hh.lodges _ hmem
  obtain ⟨o, -, hrecalls⟩ := hh.recalls hmem
  subst hworld
  unfold Visit.run
  split
  · exact (Host.compileFull_goes t.crew x.file hlodges.isTidy hlodges.stands hrecalls hh.here
      hh.now).advances
  · exact (Host.compileReadOnly_goes x.file hlodges.isTidy hlodges.stands hrecalls hh.here).1.advances

/-- The directory of the caches stays. -/
theorem isRoot (ht : Tenancy t w₀ hosts visits w) (hroot : w₀.volume.IsRoot t.directory t.place) :
    w.volume.IsRoot t.directory t.place := by
  induction ht with
  | start _ => exact hroot
  | seat _ _ _ ih => exact ih
  | build _ _ _ _ _ _ rooted _ => exact rooted
  | visit isFull file before built ih =>
    exact ih.grows (before.holds.advances rfl built).grows
  | edit _ edits _ => exact edits.spares.root

/-- No directory ever stands below the folders of the stores, if the path of the directory of the caches
does not go back, or leads there from the beginning. -/
theorem isFlat (ht : Tenancy t w₀ hosts visits w) (hbackend : t.backend = .json)
    (hroot : ".." ∉ t.directory.parts ∨ w₀.volume.IsRoot t.directory t.place) :
    w.volume.IsFlat t.place := by
  induction ht with
  | start begins => exact .of_empty begins.empty
  | seat _ _ _ ih => exact ih
  | build plan before _ backend _ built rooted ih =>
    exact ih.madeTo rooted (Host.madeTo_of_build built before.holds.expands (backend.trans hbackend)
      (hroot.imp_right before.isRoot))
  | visit isFull file before built ih => exact ih.advances (before.holds.advances rfl built)
  | edit _ edits ih => exact ih.spares edits.spares

/-- What a call has made is stored. -/
theorem run_put (ht : Tenancy t w₀ hosts visits w)
    (hroot : t.backend = .json → ".." ∉ t.directory.parts ∨ w₀.volume.IsRoot t.directory t.place)
    {h : Host} (hmem : h ∈ hosts) {name : String} {s : Slot Cache}
    (hs : h.registry.slot? name = some s) {i : Fingerprint} (hplain : i.IsPlain) (e : Entry) :
    ((s.cache.store.put i.cacheKey e).run w.volume).1 = .ok () := by
  have hlodges := ht.holds.lodges h hmem
  have hnamed := hlodges.stands.named name s hs
  have hat := hlodges.stands.places name s hs
  rw [hlodges.backend] at hnamed hat
  exact Store.run_put_ok hnamed hat (fun hbackend => ht.isFlat hbackend (hroot hbackend))
    (Store.IsKey.isShort ⟨⟨i, hplain.toIsHashed, rfl⟩, hplain.short⟩) e

end Tenancy
end Hosts
end AssetCompiler
