import AssetCompiler.Proofs.FlatFolders
import AssetCompiler.Proofs.SpaceNames
import AssetCompiler.Proofs.SteadyCrews
import AssetCompiler.Proofs.UnlinkedPaths

/-!
Caches that nobody notices. Over a directory of caches that began empty, hosts of one plan compile files
with transformers that answer for the code alone. Then every full compilation comes to what it would come to
without any cache: it returns the same result or fails in the same way, whatever was compiled before, under
whatever paths, and by however many hosts. The paths have to open the files that they resolve to: one that
goes back from a directory that is not there can be resolved, and then its file is found in the caches, but
it cannot be read.
-/
namespace AssetCompiler

open Volume

namespace Volume

/-! Paths that open files -/

/-- The directory from which relative paths start is there, with all that are above it. -/
structure HasHere (v : Volume) : Prop where
  proper : ".." ∉ v.here
  directory : ∀ l, l <+: v.here → v.nodeAt? l = some .directory

variable {v : Volume} {p real : Path} {bytes bytes' : List UInt8} {mtime : Int}

theorem HasHere.directory_start (h : v.HasHere) (p : Path) {l : Location} (hl : l <+: v.start p) :
    v.nodeAt? l = some .directory := by
  unfold start at hl
  split at hl
  · rw [List.prefix_nil.mp hl]
    rfl
  · exact h.directory l hl

/-- A walk that leaves the directories behind ends with a name. -/
theorem Arrives.exists_last (hv : v.IsUnlinked) {follow : Bool} {links : Nat} {stand l : Location}
    {names : List String} (h : Arrives v follow links stand names l)
    (hstand : ∀ l', l' <+: stand → v.nodeAt? l' = some .directory)
    (hl : v.nodeAt? l ≠ some .directory) : ∃ before name, names = before ++ [name] ∧ name ≠ ".." := by
  induction h with
  | here links stand => exact absurd (hstand stand List.prefix_rfl) hl
  | @up links stand rest l _ ih =>
    obtain ⟨before, name, rfl, hname⟩ := ih
      (fun l' hl' => hstand l' (hl'.trans (List.dropLast_prefix stand))) hl
    exact ⟨".." :: before, name, rfl, hname⟩
  | @last links stand name proper short stops => exact ⟨[], name, rfl, proper⟩
  | @through links stand name rest l proper short directory _ ih =>
    obtain ⟨before, last, rfl, hlast⟩ := ih (fun l' hl' => by
      rcases List.prefix_concat_iff.mp hl' with rfl | hl'
      · exact directory
      · exact hstand l' hl') hl
    exact ⟨name :: before, last, rfl, hlast⟩
  | link target proper short link => exact absurd link (hv _ target)

/-- A path that opens a file shows the media type of its real path. -/
theorem ofPath_real (hv : v.IsUnlinked) (hhere : v.HasHere)
    (hinspect : v.inspect p = .ok (real, bytes, mtime)) (hread : v.read p = .ok bytes') :
    MediaType.ofPath real = MediaType.ofPath p := by
  obtain ⟨hreal, -⟩ := inspect_ok.mp hinspect
  obtain ⟨-, l, node, mtime, hstat, hcontent⟩ := read_eq_ok_iff.mp hread
  obtain ⟨hlocate, hfound⟩ := stat_eq_ok_iff.mp hstat
  have hnode : v.nodeAt? l ≠ some .directory := by
    intro hdirectory
    cases hdirectory.symm.trans hfound
    cases hcontent
  obtain ⟨before, name, hparts, hname⟩ :=
    (walk_eq_ok_iff.mp hlocate).exists_last hv (fun _ => hhere.directory_start p) hnode
  have hspelled : real.parts = spell (v.start p) before ++ [name] := by
    rw [realPath_unlinked hv hreal, hparts]
    change spell (v.start p) (before ++ [name]) = _
    rw [spell, List.foldl_append]
    exact if_neg hname
  unfold MediaType.ofPath Path.name
  rw [hspelled, hparts, List.getLastD_concat, List.getLastD_concat]

end Volume

/-- What a file shows when it is fingerprinted, and what its path opens, give the same code wherever the
content is the same. -/
theorem Reduction.Source.of_content {v v' : Volume} (hv : v.IsUnlinked) (hv' : v'.IsUnlinked)
    (hhere : ".." ∉ v.here) (hhere' : ".." ∉ v'.here) {file file' : String} {real real' : Path}
    {bytes content : List UInt8} {mtime mtime' : Int} {o o' : ClassifyOptions}
    (hinspect : v.inspect (Path.ofText file) = .ok (real, bytes, mtime))
    (hinspect' : v'.inspect (Path.ofText file') = .ok (real', bytes, mtime'))
    (hread' : v'.read (Path.ofText file') = .ok content) {code : String}
    (h : Source v file (Fingerprint.classify bytes real o) code) :
    Source v' file' (Fingerprint.classify bytes real' o') code := by
  cases h with
  | carried _ given => exact .carried code given
  | text s none found =>
    refine .text s none ?_
    rw [readTextLossy_unlinked hv hhere hinspect found, readTextLossy, hread',
      read_unlinked hv' hhere' hinspect' hread']
    rfl

/-! Compilations without any cache -/

section Anew

variable {σ : Type}

/-- A file is fingerprinted, a slot is picked, and its transformer runs. Nothing is looked up or stored. -/
def Host.compileAnew (h : Host) (crew : Crew σ) (file : String) : Work σ Artifact := do
  let i ← Work.fingerprint h.desk (Path.ofText file)
  let s ← h.select file i
  h.compileUncached crew file i s.transformer

/-- A fingerprinter forgets what it has seen. -/
def World.forgetting (w : World σ) (n : Nat) : World σ :=
  { w with desks := w.desks.set n (.fresh (w.fingerprinter n).options) }

namespace Visit

variable {crew : Crew σ} {x : Visit σ}

/-- What a call would come to without any cache, and with a fingerprint that is made afresh. -/
def anew (crew : Crew σ) (x : Visit σ) : Except Failure Artifact :=
  ((x.host.compileAnew crew x.file).run (x.world.forgetting x.host.desk)).1

/-- The file of a call, as it stands behind its path. -/
def Shows (x : Visit σ) (real : Path) (bytes : List UInt8) (mtime : Int) : Prop :=
  x.world.volume.inspect (Path.ofText x.file) = .ok (real, bytes, mtime)

/-- The fingerprint that a call would take of its file if nothing were remembered. -/
def fresh (x : Visit σ) (real : Path) (bytes : List UInt8) : Fingerprint :=
  Fingerprint.classify bytes real (x.world.fingerprinter x.host.desk).options

theorem run_fingerprint_forgetting {real : Path} {bytes : List UInt8} {mtime : Int}
    (h : x.Shows real bytes mtime) : ∃ w, w.volume = x.world.volume ∧ w.tools = x.world.tools ∧
      (Work.fingerprint x.host.desk (Path.ofText x.file)).run (x.world.forgetting x.host.desk) =
        (.ok (x.fresh real bytes), w) := by
  have hseen : Keyed.find? x.host.desk (x.world.forgetting x.host.desk).desks =
      some (.fresh (x.world.fingerprinter x.host.desk).options) := by
    change Keyed.find? _ (x.world.desks.set _ _) = _
    rw [Keyed.find?_set, if_pos rfl]
  exact ⟨_, by rfl, by rfl, Work.run_fingerprint hseen h⟩

theorem anew_of_error {e : Failure}
    (h : x.world.volume.inspect (Path.ofText x.file) = .error e) : x.anew crew = .error e := by
  unfold anew Host.compileAnew
  rw [Action.run_bind_error
    (Work.run_fingerprint_error (w := x.world.forgetting x.host.desk) h)]

theorem anew_of_shows {real : Path} {bytes : List UInt8} {mtime : Int} (h : x.Shows real bytes mtime) :
    x.anew crew = match x.host.registry.select? (Path.ofText x.file) (x.fresh real bytes) with
      | some (s, _) =>
        ((x.host.compileUncached crew x.file (x.fresh real bytes) s.transformer).run x.world).1
      | none => .error (.noTransformer x.file) := by
  obtain ⟨w, hvolume, htools, htaken⟩ := run_fingerprint_forgetting h
  unfold anew Host.compileAnew
  rw [Action.run_bind_ok htaken]
  cases hselect : x.host.registry.select? (Path.ofText x.file) (x.fresh real bytes) with
  | none =>
    have hrefused : (x.host.select x.file (x.fresh real bytes)).run w =
        (.error (.noTransformer x.file), w) := by
      unfold Host.select
      rw [hselect]
      rfl
    rw [Action.run_bind_error hrefused]
  | some found =>
    obtain ⟨s, isFallback⟩ := found
    obtain ⟨journal, hpicked⟩ : ∃ journal, (x.host.select x.file (x.fresh real bytes)).run w =
        (.ok s, { w with journal := journal }) := by
      unfold Host.select
      rw [hselect]
      cases isFallback with
      | false => exact ⟨w.journal, rfl⟩
      | true => exact ⟨_, rfl⟩
    rw [Action.run_bind_ok hpicked]
    exact compileUncached_congr crew x.host x.file _ s.transformer hvolume htools

end Visit

/-! Slots of one plan -/

/-- The stores of different slots lie at different places. -/
def Host.HasOwnPlaces (h : Host) (d : Location) : Prop :=
  ∀ name name' s s', h.registry.slot? name = some s → h.registry.slot? name' = some s' →
    Store.placeOf h.settings.backend d s.transformer.space =
      Store.placeOf h.settings.backend d s'.transformer.space → name = name'

/-- A host has stores of their own for its slots if its transformers are told by their places. -/
theorem Host.IsBuilt.hasOwnPlaces {h : Host} {root q : Path} {types : List (String × Transformer)}
    {number : Nat} {mode : Option Bool} {fallback : Option Transformer} {given : Settings}
    {d : Location} (hbuilt : h.IsBuilt root q types number mode fallback given)
    (htold : ∀ p ∈ Registry.registered types fallback, ∀ p' ∈ Registry.registered types fallback,
      Store.placeOf given.backend d p.space = Store.placeOf given.backend d p'.space →
        p.name = p'.name) : h.HasOwnPlaces d := by
  intro name name' s s' hs hs' hplace
  obtain ⟨hname, hmem, -⟩ := hbuilt.registry.of_slot? hs
  obtain ⟨hname', hmem', -⟩ := hbuilt.registry.of_slot? hs'
  rw [hbuilt.settings] at hplace
  rw [← hname, ← hname']
  exact htold _ hmem _ hmem' hplace

namespace Tenancy

variable {t : Terms σ} {plan : Plan} {w₀ w w' : World σ} {hosts : List Host}
variable {later earlier : List (Visit σ)} {x y : Visit σ} {h h' : Host}

/-- Hosts of one plan make the same of a code. -/
structure AreAlike (h h' : Host) : Prop where
  slot : ∀ name, (h'.registry.slot? name).map (·.transformer) =
    (h.registry.slot? name).map (·.transformer)
  next : h'.next? = h.next?
  limit : h'.settings.maxPasses = h.settings.maxPasses

theorem Lodges.areAlike (hplan : ∀ p, t.plans p → p = plan) (hlodges : Lodges t w h)
    (hlodges' : Lodges t w' h') : AreAlike h h' := by
  obtain ⟨p, hp, -, hbuilt⟩ := hlodges.built
  obtain ⟨p', hp', -, hbuilt'⟩ := hlodges'.built
  obtain rfl := hplan p hp
  obtain rfl := hplan p' hp'
  have hslot : ∀ name, (h'.registry.slot? name).map (·.transformer) =
      (h.registry.slot? name).map (·.transformer) := by
    intro name
    rw [hbuilt'.registry.slots, hbuilt.registry.slots, Option.map_map, Option.map_map]
    rfl
  refine ⟨hslot, ?_, by rw [hbuilt'.settings, hbuilt.settings]⟩
  funext m
  cases m with
  | none => rfl
  | some m =>
    unfold Host.next? Registry.lookup?
    rw [hbuilt'.registry.nameOf, hbuilt.registry.nameOf, Option.map_bind, Option.map_bind]
    exact congrArg (Option.bind _) (funext hslot)

/-! Runs -/

/-- What is asked of the volumes of some calls: there are no links, one stands in a directory that is there,
the content of a file is told by its size and time, and different contents have different digests. -/
structure AreClear (visits : List (Visit σ)) : Prop where
  unlinked : ∀ y ∈ visits, y.world.volume.IsUnlinked
  here : ∀ y ∈ visits, y.world.volume.HasHere
  told : ∀ y ∈ visits, ∀ real bytes mtime, y.Shows real bytes mtime →
    IsTold (past visits) real bytes mtime
  digests : ∀ y ∈ visits, ∀ z ∈ visits, ∀ real bytes mtime real' bytes' mtime',
    y.Shows real bytes mtime → z.Shows real' bytes' mtime' →
    Sha256.hexDigest bytes = Sha256.hexDigest bytes' → bytes = bytes'

/-- The files of the calls that can be fingerprinted can be opened under their paths. -/
def CanOpen (visits : List (Visit σ)) : Prop :=
  ∀ y ∈ visits, ∀ real bytes mtime, y.Shows real bytes mtime →
    ∃ content, y.world.volume.read (Path.ofText y.file) = .ok content

/-- A fingerprint that a call of a clear run takes is the one that it would take afresh. -/
theorem eq_fresh (ht : Tenancy t w₀ hosts (later ++ x :: earlier) w) (hclear : AreClear (x :: earlier))
    (hy : y ∈ x :: earlier) {i : Fingerprint}
    (htaken : ((Work.fingerprint y.host.desk (Path.ofText y.file)).run y.world).1 = .ok i) :
    ∃ real bytes mtime, y.Shows real bytes mtime ∧ i = y.fresh real bytes := by
  obtain ⟨between, before, hsplit⟩ := List.append_of_mem hy
  rw [hsplit, ← List.append_assoc] at ht
  obtain ⟨hosts', hbefore, hmem⟩ := ht.at_visit
  have hh := hbefore.holds
  obtain ⟨o, -, f, hf, rfl, hrecalls⟩ := hh.recalls hmem
  cases hinspect : y.world.volume.inspect (Path.ofText y.file) with
  | error e =>
    rw [Work.run_fingerprint_error hinspect] at htaken
    cases htaken
  | ok sight =>
    obtain ⟨real, bytes, mtime⟩ := sight
    obtain ⟨i', w', hfingerprints, hright⟩ :=
      Work.fingerprints ⟨f, hf, rfl, hrecalls⟩ hh.here hinspect
    rw [hfingerprints.run] at htaken
    obtain rfl := Except.ok.inj htaken
    have htold : IsTold (past before) real bytes mtime := fun v hv =>
      hclear.told y hy real bytes mtime hinspect v (by
        rw [hsplit]
        unfold past at hv ⊢
        rw [List.map_append, List.map_cons]
        exact List.mem_append_right _ (List.mem_cons_of_mem _ hv))
    refine ⟨real, bytes, mtime, hinspect, ?_⟩
    rw [hright htold, Visit.fresh, World.fingerprinter, hf]
    rfl

/-- What one call has made, every later one would make that picks a slot of the same place under the same
key. -/
theorem makes_again (hsteady : t.crew.IsSteady) (hplan : ∀ p, t.plans p → p = plan)
    (ht : Tenancy t w₀ hosts (later ++ x :: earlier) w) (hclear : AreClear (x :: earlier))
    (hopens : CanOpen (x :: earlier)) (hplaces : x.host.HasOwnPlaces t.place)
    (hy : y ∈ x :: earlier) {s s' : Slot Cache} {i i' : Fingerprint} {a : Artifact}
    (hpicks : x.Picks s i) (hmakes : y.Makes t.crew s' i' a) (hkey : i'.cacheKey = i.cacheKey)
    (hplace : Store.placeOf t.backend t.place s'.transformer.space =
      Store.placeOf t.backend t.place s.transformer.space) :
    ((x.host.compileUncached t.crew x.file i s.transformer).run x.world).1 = .ok a := by
  have hx : x ∈ x :: earlier := List.mem_cons_self
  obtain ⟨real, bytes, mtime, hshows, hi⟩ := ht.eq_fresh hclear hx hpicks.taken
  obtain ⟨real', bytes', mtime', hshows', hi'⟩ := ht.eq_fresh hclear hy hmakes.taken
  obtain ⟨hosts₁, hbefore, hmem⟩ := ht.at_visit
  obtain ⟨between, before, hsplit⟩ := List.append_of_mem hy
  rw [hsplit, ← List.append_assoc] at ht
  obtain ⟨hosts₂, hbefore', hmem'⟩ := ht.at_visit
  have hlodges := hbefore.holds.lodges _ hmem
  have hlodges' := hbefore'.holds.lodges _ hmem'
  have halike := hlodges'.areAlike hplan hlodges
  -- The keys tell the contents and the media types.
  obtain ⟨hhash, hmedia⟩ := (hbefore'.holds.isPlain rfl hmem' hmakes.toPicks).of_cacheKey
    (hbefore.holds.isPlain rfl hmem hpicks) hkey
  have hbytes : bytes' = bytes := by
    rw [hi, hi'] at hhash
    exact hclear.digests y hy x hx _ _ _ _ _ _ hshows' hshows hhash
  subst hbytes
  have hsame : s.transformer = s'.transformer := by
    obtain ⟨_, hselect⟩ := hpicks.selected
    obtain ⟨_, hselect'⟩ := hmakes.selected
    have hs := hlodges.isTidy.slot?_of_select? hselect
    have hs' := hlodges'.isTidy.slot?_of_select? hselect'
    have hmap := halike.slot s'.id
    rw [hs'] at hmap
    obtain ⟨s'', hs'', htransformer⟩ := Option.map_eq_some_iff.mp hmap
    have hid : s.id = s'.id := by
      refine hplaces _ _ _ _ hs hs'' ?_
      rw [hlodges.backend, htransformer]
      exact hplace.symm
    rw [hid] at hs
    obtain rfl := Option.some.inj (hs.symm.trans hs'')
    exact htransformer
  obtain ⟨content, hread⟩ := hopens x hx _ _ _ hshows
  obtain ⟨content', hread'⟩ := hopens y hy _ _ _ hshows'
  have htype : MediaType.ofPath (Path.ofText x.file) = MediaType.ofPath (Path.ofText y.file) := by
    rw [hi, hi'] at hmedia
    rw [← ofPath_real (hclear.unlinked x hx) (hclear.here x hx) hshows hread,
      ← ofPath_real (hclear.unlinked y hy) (hclear.here y hy) hshows' hread']
    exact hmedia.symm
  have hmade := hmakes.made
  rw [← hsame] at hmade
  refine Host.compileUncached_under hsteady halike.next halike.limit htype hmedia.symm ?_ hmade
  intro code hcode
  rw [hi'] at hcode
  rw [hi]
  exact hcode.of_content (hclear.unlinked y hy) (hclear.unlinked x hx) (hclear.here y hy).proper
    (hclear.here x hx).proper hshows' hshows hread

/-- Transformers answer for the code alone, and the slots of the hosts have stores of their own. Over a
directory of caches that began empty, a full compilation comes to what it would come to without any cache:
the fingerprint would be made afresh, and the transformer of the slot would run. -/
theorem full_eq_anew (later : List (Visit σ)) {earlier : List (Visit σ)} {x : Visit σ}
    (ht : Tenancy t w₀ hosts (later ++ x :: earlier) w) (hsteady : t.crew.IsSteady)
    (hplan : ∀ p, t.plans p → p = plan) (hplaces : x.host.HasOwnPlaces t.place)
    (hroot : t.backend = .json → ".." ∉ t.directory.parts ∨ w₀.volume.IsRoot t.directory t.place)
    (hclear : AreClear (x :: earlier)) (hopens : CanOpen (x :: earlier)) (hfull : x.isFull = true) :
    (x.run t.crew).1 = x.anew t.crew := by
  obtain ⟨hosts', hbefore, hmem⟩ := ht.at_visit
  have hh := hbefore.holds
  have htidy := (hh.lodges _ hmem).isTidy
  obtain ⟨o, -, hrecalls⟩ := hh.recalls hmem
  cases hinspect : x.world.volume.inspect (Path.ofText x.file) with
  | error e => rw [(Visit.run_of_inspect_error hfull hinspect).1, Visit.anew_of_error hinspect]
  | ok sight =>
    obtain ⟨real, bytes, mtime⟩ := sight
    have hshows : x.Shows real bytes mtime := hinspect
    have hserved : ∀ s i, x.Picks s i → s.cache.store.Lacks x.world.volume i.cacheKey ∨
        ∃ a, s.cache.store.Serves x.world.volume i.cacheKey a ∧
          ((x.host.compileUncached t.crew x.file i s.transformer).run x.world).1 = .ok a := by
      intro s i hpicks
      obtain ⟨_, hselect⟩ := hpicks.selected
      refine (hh.lacks_or_serves hmem (htidy.slot?_of_select? hselect)
        (hh.isPlain rfl hmem hpicks)).imp_right ?_
      rintro ⟨y, hy, s', i', a, hmakes, hkey, hplace, hserves⟩
      exact ⟨a, hserves, makes_again hsteady hplan ht hclear hopens hplaces
        (List.mem_cons_of_mem _ hy) hpicks hmakes hkey hplace⟩
    obtain ⟨i, hsees, hends⟩ : ∃ i, _ ∧ x.Ends t.crew i :=
      Visit.ends_of_full htidy hrecalls hh.here hfull (fun s i hpicks =>
        (hserved s i hpicks).imp_right fun ⟨a, hserves, _⟩ => ⟨a, hserves⟩) hinspect
    have hi : i = x.fresh real bytes := by
      obtain ⟨real', bytes', mtime', hshows', hi⟩ := ht.eq_fresh hclear List.mem_cons_self hsees.taken
      cases hshows'.symm.trans hshows
      exact hi
    rw [Visit.anew_of_shows hshows, ← hi]
    cases hends with
    | refused none run volume => rw [none, run]
    | served s a picks serves run volume =>
      obtain ⟨_, hselect⟩ := picks.selected
      rw [hselect, run]
      rcases hserved s _ picks with hlacks | ⟨b, hserves, hmade⟩
      · exact absurd serves hlacks.not_serves
      · rw [serves.unique hserves]
        exact hmade.symm
    | failed s f picks lacks failed run volume =>
      obtain ⟨_, hselect⟩ := picks.selected
      rw [hselect, run]
      exact failed.symm
    | stored s a makes run volume =>
      obtain ⟨_, hselect⟩ := makes.selected
      have hput := hbefore.run_put hroot hmem (htidy.slot?_of_select? hselect)
        (hh.isPlain rfl hmem makes.toPicks) (x.entry s i a)
      rw [hselect, run, hput]
      exact makes.made.symm

/-- What a call has returned, the next one returns under any path that shows the same content and slot. -/
theorem Holds.run_again {visits : List (Visit σ)} {o : ClassifyOptions} (hh : Holds t hosts visits w) (hmem : h ∈ hosts)
    (hoptions : ∀ o', t.options o' → o' = o) (hmode : h.readOnly = false) {file file' : String}
    {real : Path} {bytes : List UInt8} {mtime : Int} {a : Artifact}
    (hinspect : w.volume.inspect (Path.ofText file) = .ok (real, bytes, mtime))
    (htold : w.IsTold (past visits) file)
    (hreturned : (Visit.run t.crew ⟨h, true, file, w⟩).1 = .ok a)
    (hafter : w' = (Visit.run t.crew ⟨h, true, file, w⟩).2)
    (hinspect' : w'.volume.inspect (Path.ofText file') = .ok (real, bytes, mtime))
    (htold' : w'.IsTold (w.volume :: past visits) file')
    (hselect : h.registry.select? (Path.ofText file') (Fingerprint.classify bytes real o) =
      h.registry.select? (Path.ofText file) (Fingerprint.classify bytes real o)) :
    (Visit.run t.crew ⟨h, true, file', w'⟩).1 = .ok a := by
  have hh' : Holds t hosts (⟨h, true, file, w⟩ :: visits) w' := hafter ▸ hh.visit rfl hmem
  have hlodges := hh.lodges h hmem
  obtain ⟨o₁, ho₁, hrecalls⟩ := hh.recalls hmem
  obtain ⟨o₂, ho₂, hrecalls'⟩ := hh'.recalls hmem
  obtain rfl := hoptions o₁ ho₁
  obtain rfl := hoptions o₂ ho₂
  rw [Visit.run_full, ← Host.run_compile_of_full hmode] at hreturned hafter
  obtain ⟨s, hreturns, hserves⟩ := Host.Returns.serves hmode hlodges.isTidy hlodges.stands hrecalls
    hh.here hh.now htold hinspect hreturned
  rw [← hafter] at hserves
  obtain ⟨isFallback, hpicked⟩ := hreturns.selected
  obtain ⟨_, -, -, hrun⟩ := Host.run_compile_of_serves hlodges.isTidy hrecalls' hh'.here hinspect'
    htold' (hselect.trans hpicked) hserves
  rw [Visit.run_full, ← Host.run_compile_of_full hmode, hrun t.crew]

end Tenancy
end Anew

/-! Small runs -/

namespace Volume

theorem isUnlinked_of_hasLinks {v : Volume} (h : hasLinks v = false) : v.IsUnlinked :=
  (isRoot_of_locate (p := ⟨"/", []⟩) (d := []) rfl rfl h).unlinked

theorem hasHere_of_nil {v : Volume} (h : v.here = []) : v.HasHere where
  proper := by simp [h]
  directory := by
    intro l hl
    rw [h, List.prefix_nil] at hl
    rw [hl]
    rfl

/-- A content that was the same at all times is told. -/
theorem isTold_of_same {past : List Volume} {real : Path} {bytes : List UInt8} {mtime : Int}
    (h : ∀ v ∈ past, ∃ p mtime', v.inspect p = .ok (real, bytes, mtime')) :
    IsTold past real bytes mtime := by
  intro v hv file bytes' hsight _
  obtain ⟨p, mtime', hinspect⟩ := h v hv
  exact (inspect_unique hinspect hsight).1

/-- Under its real path a file can be read. -/
theorem read_real {v : Volume} {p real : Path} {bytes : List UInt8} {mtime : Int}
    (h : v.inspect p = .ok (real, bytes, mtime)) : v.read real = .ok bytes := by
  obtain ⟨-, hzero, l, node, hstat, hcontent⟩ := inspect_ok.mp h
  exact read_eq_ok_iff.mpr ⟨hzero, l, node, mtime, hstat, hcontent⟩

end Volume

namespace Tenancy

variable {σ : Type}

/-- Calls for files of one content that nobody changes are clear. -/
theorem areClear_of_same {visits : List (Visit σ)}
    (files : List (String × Path × List UInt8 × Int)) (bytes : List UInt8)
    {p : Path} {d : Location} (hseen : ∀ y ∈ visits, IsSeen p d files y.world.volume)
    (hbytes : ∀ f ∈ files, f.2.2.1 = bytes)
    (hcalls : ∀ y ∈ visits, ∃ f ∈ files, f.1 = y.file) : AreClear visits := by
  have hshown : ∀ y ∈ visits, ∀ real content mtime, y.Shows real content mtime →
      content = bytes ∧ ∀ z ∈ visits, ∃ p, z.world.volume.inspect p = .ok (real, content, mtime) := by
    intro y hy real content mtime hshows
    obtain ⟨f, hf, hfile⟩ := hcalls y hy
    have hinspect := (hseen y hy).inspects f hf
    rw [hfile] at hinspect
    have hsame := Except.ok.inj (hinspect.symm.trans hshows)
    refine ⟨by rw [← hbytes f hf, hsame], fun z hz => ⟨Path.ofText f.1, ?_⟩⟩
    rw [← hsame]
    exact (hseen z hz).inspects f hf
  refine ⟨fun y hy => isUnlinked_of_hasLinks (hseen y hy).links,
    fun y hy => hasHere_of_nil (hseen y hy).here, ?_, ?_⟩
  · intro y hy real content mtime hshows
    refine isTold_of_same fun v hv => ?_
    obtain ⟨z, hz, rfl⟩ := List.mem_map.mp hv
    obtain ⟨p, hinspect⟩ := (hshown y hy _ _ _ hshows).2 z hz
    exact ⟨p, mtime, hinspect⟩
  · intro y hy z hz _ _ _ _ _ _ hshows hshows' _
    rw [(hshown y hy _ _ _ hshows).1, (hshown z hz _ _ _ hshows').1]

end Tenancy

/-! A host, and another one after it -/

namespace Unnoticed

open Host.Bump

def plan : Plan := ⟨typesWith (second 1 "1"), none, none, given⟩

def terms : Terms Unit :=
  ⟨crew, cacheRoot, cacheRoot, ["cache"], .sqlite, (· = plan), fun _ => True⟩

/-- Two files of one content. -/
def world : World Unit :=
  { Host.Bump.world with
    volume := ⟨[(["a.txt"], .file [97] 5), (["b.txt"], .file [97] 6)], [], 0⟩ }

def files : List (String × Path × List UInt8 × Int) :=
  [("/a.txt", ⟨"/", ["a.txt"]⟩, [97], 5), ("/b.txt", ⟨"/", ["b.txt"]⟩, [97], 6)]

def build : Work Unit Host :=
  Host.build cacheRoot plan.types 0 plan.mode plan.fallback plan.settings

def host : Host := (Work.left build world).1

def built : World Unit := (Work.left build world).2

/-- The host has compiled the first file. -/
def compiled : World Unit := (Visit.run crew ⟨host, true, "/a.txt", built⟩).2

/-- Another host begins with a fingerprinter that has seen nothing. -/
def seated : World Unit := { compiled with desks := compiled.desks.set 0 (.fresh .standard) }

def nextHost : Host := (Work.left build seated).1

def rebuilt : World Unit := (Work.left build seated).2

def calls : List (Visit Unit) :=
  [⟨nextHost, true, "/b.txt", rebuilt⟩, ⟨host, true, "/a.txt", built⟩]

/-- Both hosts are built, and see the files as they were. -/
theorem computed : (build.run world).1.isOk = true ∧ (build.run seated).1.isOk = true ∧
    sees cacheRoot ["cache"] files built.volume = true ∧
    sees cacheRoot ["cache"] files rebuilt.volume = true ∧
    -- What the first host made is there for the other one.
    (compiled.volume.nodes == built.volume.nodes) = false := by
  decide +kernel

theorem build_run : build.run world = (.ok host, built) := Work.run_eq_left computed.1

theorem rebuild_run : build.run seated = (.ok nextHost, rebuilt) := Work.run_eq_left computed.2.1

theorem isSteady_crew : crew.IsSteady := by
  refine ⟨fun p q code _ _ _ => (crew.respond { (default : Call) with
    transformer := p, question := q, code := code } ()).1, fun c s => ?_⟩
  simp only [crew]

theorem begins : terms.Begins world :=
  .of_fresh (expandHome?_cacheRoot _) (by decide) nofun world_isDate rfl trivial

theorem isSeen_built : IsSeen cacheRoot ["cache"] files built.volume := .of_sees computed.2.2.1

theorem isSeen_rebuilt : IsSeen cacheRoot ["cache"] files rebuilt.volume :=
  .of_sees computed.2.2.2.1

theorem run : Tenancy terms world [nextHost, host] calls
    (Visit.run terms.crew ⟨nextHost, true, "/b.txt", rebuilt⟩).2 := by
  have hfirst : Tenancy terms world [host] [] built :=
    .build plan (n := 0) (.start begins) rfl rfl ⟨_, rfl⟩ build_run
      isSeen_built.isRoot
  have hcompiled : Tenancy terms world [host] [⟨host, true, "/a.txt", built⟩] compiled := by
    unfold compiled
    exact hfirst.visit true "/a.txt" List.mem_cons_self
  have hseated : Tenancy terms world [host] [⟨host, true, "/a.txt", built⟩] seated := by
    unfold seated
    exact hcompiled.seat 0 trivial
  have hdesk : ∃ f, Keyed.find? 0 seated.desks = some f := by
    unfold seated
    exact ⟨_, by rw [Keyed.find?_set, if_pos rfl]⟩
  have hnext : Tenancy terms world [nextHost, host] [⟨host, true, "/a.txt", built⟩] rebuilt :=
    .build plan (n := 0) hseated rfl rfl hdesk rebuild_run
      isSeen_rebuilt.isRoot
  exact hnext.visit true "/b.txt" List.mem_cons_self

theorem isSeen_calls : ∀ y ∈ calls, IsSeen cacheRoot ["cache"] files y.world.volume := by
  intro y hy
  rcases List.mem_pair.mp hy with rfl | rfl
  · exact isSeen_rebuilt
  · exact isSeen_built

theorem areClear : Tenancy.AreClear calls := by
  refine Tenancy.areClear_of_same files [97] isSeen_calls (by decide) ?_
  intro y hy
  rcases List.mem_pair.mp hy with rfl | rfl
  · exact ⟨_, List.mem_cons_of_mem _ List.mem_cons_self, rfl⟩
  · exact ⟨_, List.mem_cons_self, rfl⟩

theorem canOpen : Tenancy.CanOpen calls := by
  intro y hy real bytes mtime _
  rcases List.mem_pair.mp hy with rfl | rfl
  · exact ⟨_, read_real (isSeen_rebuilt.inspects _ (List.mem_cons_of_mem _ List.mem_cons_self))⟩
  · exact ⟨_, read_real (isSeen_built.inspects _ List.mem_cons_self)⟩

theorem hasOwnPlaces : nextHost.HasOwnPlaces terms.place := by
  obtain ⟨hbuilt, -⟩ := Host.build_ok rebuild_run (expandHome?_cacheRoot _)
  refine hbuilt.hasOwnPlaces fun p hp p' hp' hplace => ?_
  have hall : ∀ p ∈ [first, second 1 "1"], '-' ∉ p.version.toList ∧
      (p.space.toList.all fun c => c ≠ '/' ∧ c ≠ '\\') = true := by decide
  have hspace : ∀ p ∈ [first, second 1 "1"], ∀ c ∈ p.space.toList, c ≠ '/' ∧ c ≠ '\\' :=
    fun p hp c hc => of_decide_eq_true (List.all_eq_true.mp (hall p hp).2 c hc)
  exact (Transformer.AreTold.of_placeOf ⟨.inl ⟨(hall p hp).1, (hall p' hp').1⟩, .inr fun c hc =>
    (List.mem_append.mp hc).elim (hspace p hp c) (hspace p' hp' c)⟩ hplace).1

/-- The file of the later call has another path than that of the earlier one, and the host is another one.
What the call returns was stored by the earlier one, and it is what would be made without any cache. -/
theorem full_eq_anew_unnoticed :
    terms.crew.IsSteady ∧ Tenancy.AreClear calls ∧ Tenancy.CanOpen calls ∧
    nextHost.HasOwnPlaces terms.place ∧
    (Visit.run terms.crew ⟨nextHost, true, "/b.txt", rebuilt⟩).1 =
      Visit.anew terms.crew ⟨nextHost, true, "/b.txt", rebuilt⟩ := by
  refine ⟨isSteady_crew, areClear, canOpen, hasOwnPlaces, ?_⟩
  have hrun : Tenancy terms world [nextHost, host]
      ([] ++ ⟨nextHost, true, "/b.txt", rebuilt⟩ :: [⟨host, true, "/a.txt", built⟩]) _ := run
  have hroot : ".." ∉ terms.directory.parts := by decide
  have hplan : ∀ p, terms.plans p → p = plan := fun p hp => hp
  refine Tenancy.full_eq_anew [] hrun isSteady_crew hplan ?_ (fun _ => .inl hroot) areClear canOpen rfl
  dsimp only
  exact hasOwnPlaces

end Unnoticed

/-! A path that goes back from a directory that is not there -/

namespace Detour

open Host.Bump

def plan : Plan := ⟨[(MediaType.plainText, .passthrough 0)], none, none, given⟩

def terms : Terms Unit :=
  ⟨crew, cacheRoot, cacheRoot, ["cache"], .sqlite, (· = plan), (· = .standard)⟩

/-- A file that is no text. -/
def world : World Unit :=
  { Host.Bump.world with volume := ⟨[(["x.bin"], .file [0, 255] 5)], [], 0⟩ }

def files : List (String × Path × List UInt8 × Int) :=
  [("x.bin", ⟨"/", ["x.bin"]⟩, [0, 255], 5), ("nodir/../x.bin", ⟨"/", ["x.bin"]⟩, [0, 255], 5)]

def build : Work Unit Host :=
  Host.build cacheRoot plan.types 0 plan.mode plan.fallback plan.settings

def host : Host := (Work.left build world).1

def built : World Unit := (Work.left build world).2

/-- The host has compiled the file. -/
def compiled : World Unit := (Visit.run terms.crew ⟨host, true, "x.bin", built⟩).2

def calls : List (Visit Unit) :=
  [⟨host, true, "nodir/../x.bin", compiled⟩, ⟨host, true, "x.bin", built⟩]

/-- Whether a file was not found. -/
def isMissing (file : String) : Except Failure Artifact → Bool
  | .error (.file .notFound path) => path == file
  | _ => false

theorem eq_missing {file : String} {r : Except Failure Artifact} (h : isMissing file r = true) :
    r = .error (.file .notFound file) := by
  unfold isMissing at h
  split at h
  · rw [beq_iff_eq.mp h]
  · cases h

def result : Artifact :=
  ⟨some ⟨String.ofList [Char.ofNat 0, Char.ofNat 0xfffd], "application/octet-stream"⟩, []⟩

/-- The host is built and compiles the file, which it does not find without a cache under the other
path. -/
theorem computed : (build.run world).1.isOk = true ∧
    sees cacheRoot ["cache"] files built.volume = true ∧
    sees cacheRoot ["cache"] files compiled.volume = true ∧
    (Visit.run terms.crew ⟨host, true, "x.bin", built⟩).1.toOption = some result ∧
    isMissing "nodir/../x.bin"
      (Visit.anew terms.crew ⟨host, true, "nodir/../x.bin", compiled⟩) = true := by
  decide +kernel

theorem build_run : build.run world = (.ok host, built) := Work.run_eq_left computed.1

theorem isSeen_built : IsSeen cacheRoot ["cache"] files built.volume := .of_sees computed.2.1

theorem isSeen_compiled : IsSeen cacheRoot ["cache"] files compiled.volume :=
  .of_sees computed.2.2.1

theorem begins : terms.Begins world :=
  .of_fresh (expandHome?_cacheRoot _) (by decide) nofun world_isDate rfl rfl

theorem run_built : Tenancy terms world [host] [] built :=
  .build plan (n := 0) (.start begins) rfl rfl ⟨_, rfl⟩ build_run isSeen_built.isRoot

theorem run_compiled : Tenancy terms world [host] [⟨host, true, "x.bin", built⟩] compiled := by
  unfold compiled
  exact run_built.visit true "x.bin" List.mem_cons_self

theorem run : Tenancy terms world [host] calls
    (Visit.run terms.crew ⟨host, true, "nodir/../x.bin", compiled⟩).2 :=
  run_compiled.visit true "nodir/../x.bin" List.mem_cons_self

theorem areClear : Tenancy.AreClear calls := by
  refine Tenancy.areClear_of_same (p := cacheRoot) (d := ["cache"]) files [0, 255] ?_ (by decide) ?_
  · intro y hy
    rcases List.mem_pair.mp hy with rfl | rfl
    · exact isSeen_compiled
    · exact isSeen_built
  · intro y hy
    rcases List.mem_pair.mp hy with rfl | rfl
    · exact ⟨_, List.mem_cons_of_mem _ List.mem_cons_self, rfl⟩
    · exact ⟨_, List.mem_cons_self, rfl⟩

theorem hasOwnPlaces : host.HasOwnPlaces terms.place := by
  obtain ⟨hbuilt, -⟩ := Host.build_ok build_run (expandHome?_cacheRoot _)
  refine hbuilt.hasOwnPlaces fun p hp p' hp' _ => ?_
  rw [List.mem_singleton.mp hp, List.mem_singleton.mp hp']

def print : Fingerprint := .classify [0, 255] ⟨"/", ["x.bin"]⟩ .standard

/-- The fingerprint alone decides the slot of a file that is no text. -/
theorem select?_congr (path path' : Path) :
    host.registry.select? path print = host.registry.select? path' print := by
  have hbypassed : print.isBypassed = true := by decide
  unfold Registry.select?
  rw [if_pos hbypassed, if_pos hbypassed]

theorem run_first : (Visit.run terms.crew ⟨host, true, "x.bin", built⟩).1 = .ok result :=
  eq_ok_of_toOption computed.2.2.2.1

/-- What was returned under the one path is served under the other one. -/
theorem run_served :
    (Visit.run terms.crew ⟨host, true, "nodir/../x.bin", compiled⟩).1 = .ok result := by
  have hinspect : built.volume.inspect (Path.ofText "x.bin") = .ok (⟨"/", ["x.bin"]⟩, [0, 255], 5) :=
    isSeen_built.inspects ("x.bin", _, _, _) List.mem_cons_self
  have hinspect' : compiled.volume.inspect (Path.ofText "nodir/../x.bin") =
      .ok (⟨"/", ["x.bin"]⟩, [0, 255], 5) :=
    isSeen_compiled.inspects ("nodir/../x.bin", _, _, _)
      (List.mem_cons_of_mem _ List.mem_cons_self)
  refine run_built.holds.run_again List.mem_cons_self (fun _ ho => ho) (Host.of_run_build build_run).2.2.1
    hinspect (fun _ _ _ _ => nofun) run_first compiled.eq_1 hinspect' ?_ (select?_congr _ _)
  intro real bytes mtime hsight
  cases hinspect'.symm.trans hsight
  refine isTold_of_same fun v hv => ?_
  rw [List.mem_singleton.mp hv]
  exact ⟨_, _, hinspect⟩

theorem anew_missing : Visit.anew terms.crew ⟨host, true, "nodir/../x.bin", compiled⟩ =
    .error (.file .notFound "nodir/../x.bin") := eq_missing computed.2.2.2.2

/-- The path resolves to the file, and what was made of the file under its own path is served. Without a
cache the file would not be found under the path. -/
theorem served_under_unreadable_path :
    terms.crew.IsSteady ∧ (∀ p, terms.plans p → p = plan) ∧ host.HasOwnPlaces terms.place ∧
    ".." ∉ terms.directory.parts ∧
    Tenancy terms world [host] calls
      (Visit.run terms.crew ⟨host, true, "nodir/../x.bin", compiled⟩).2 ∧
    Tenancy.AreClear calls ∧
    (Visit.run terms.crew ⟨host, true, "nodir/../x.bin", compiled⟩).1 = .ok result ∧
    Visit.anew terms.crew ⟨host, true, "nodir/../x.bin", compiled⟩ =
      .error (.file .notFound "nodir/../x.bin") :=
  ⟨Unnoticed.isSteady_crew, fun _ hp => hp, hasOwnPlaces, by decide, run, areClear, run_served,
    anew_missing⟩

end Detour

/-! A directory of caches whose path goes through the place of an entry -/

namespace Crossing

open Host.Bump

/-- The path goes to where the entry of a file belongs, and from there back. -/
def cacheRoot : Path :=
  ⟨"/", ["cache", "passthrough-1",
    "ca978112ca1bbdcafac231b39a23dc4da786eff8147c4e72b9807785afee48bb-text_plain.json", "..", ".."]⟩

def plan : Plan :=
  ⟨[(MediaType.plainText, .passthrough 0)], none, none,
    { given with cacheRoot := cacheRoot, backend := .json }⟩

def terms : Terms Unit :=
  ⟨crew, cacheRoot, cacheRoot, ["cache"], .json, (· = plan), (· = .standard)⟩

def build : Work Unit Host :=
  Host.build cacheRoot plan.types 0 plan.mode plan.fallback plan.settings

def host : Host := (Work.left build world).1

def built : World Unit := (Work.left build world).2

def call : Visit Unit := ⟨host, true, "/p.txt", built⟩

def result : Artifact := ⟨some ⟨"a", MediaType.plainText⟩, []⟩

def print : Fingerprint := .classify [97] ⟨"/", ["p.txt"]⟩ .standard

/-- Where the entry is to go there is a directory once the host is built. Without a cache there would be a
result. -/
theorem computed : (build.run world).1.isOk = true ∧
    sees cacheRoot ["cache"] files built.volume = true ∧
    (host.registry.select? (Path.ofText "/p.txt") print).map (·.1.transformer.space) =
      some "passthrough-1" ∧
    built.volume.nodeAt? (["cache", safeName "passthrough-1"] ++ [Store.fileName print.cacheKey]) =
      some .directory ∧
    (call.anew crew).toOption = some result := by
  decide +kernel

theorem build_run : build.run world = (.ok host, built) := Work.run_eq_left computed.1

theorem isSeen_built : IsSeen cacheRoot ["cache"] files built.volume := .of_sees computed.2.1

theorem expandHome?_root (home : Option String) : cacheRoot.expandHome? home = some cacheRoot := by
  unfold Path.expandHome?
  rw [show cacheRoot.isAbsolute = true from by decide]

theorem begins : terms.Begins world :=
  .of_fresh (expandHome?_root _) (by decide) nofun world_isDate rfl rfl

theorem run_built : Tenancy terms world [host] [] built :=
  .build plan (n := 0) (.start begins) rfl rfl ⟨_, rfl⟩ build_run isSeen_built.isRoot

theorem run : Tenancy terms world [host] [call] (call.run crew).2 :=
  run_built.visit true "/p.txt" List.mem_cons_self

theorem areClear : Tenancy.AreClear [call] := by
  refine Tenancy.areClear_of_same (p := cacheRoot) (d := ["cache"]) files [97] ?_ (by decide) ?_
  · intro y hy
    rw [List.mem_singleton.mp hy]
    exact isSeen_built
  · intro y hy
    rw [List.mem_singleton.mp hy]
    exact ⟨_, List.mem_cons_self, rfl⟩

theorem canOpen : Tenancy.CanOpen [call] := by
  intro y hy real bytes mtime _
  rw [List.mem_singleton.mp hy]
  exact ⟨_, read_real (isSeen_built.inspects _ List.mem_cons_self)⟩

theorem hasOwnPlaces : host.HasOwnPlaces terms.place := by
  obtain ⟨hbuilt, -⟩ := Host.build_ok build_run (expandHome?_root _)
  refine hbuilt.hasOwnPlaces fun p hp p' hp' _ => ?_
  rw [List.mem_singleton.mp hp, List.mem_singleton.mp hp']

theorem anew_ok : call.anew crew = .ok result := eq_ok_of_toOption computed.2.2.2.2

/-- A result would be served once it is returned, but the directory stays where its entry is to go. -/
theorem run_fails (a : Artifact) : (call.run crew).1 ≠ .ok a := by
  intro hreturned
  have hholds := run_built.holds
  have hlodges := hholds.lodges host List.mem_cons_self
  obtain ⟨o, rfl, hrecalls⟩ := hholds.recalls List.mem_cons_self
  have hmode : host.readOnly = false := (Host.of_run_build build_run).2.2.1
  have hinspect : built.volume.inspect (Path.ofText "/p.txt") = .ok (⟨"/", ["p.txt"]⟩, [97], 5) :=
    isSeen_built.inspects ("/p.txt", _, _, _) List.mem_cons_self
  rw [call, Visit.run_full, ← Host.run_compile_of_full hmode] at hreturned
  obtain ⟨s, hreturns, hserves⟩ := Host.Returns.serves hmode hlodges.isTidy hlodges.stands hrecalls
    hholds.here hholds.now (fun _ _ _ _ => nofun) hinspect hreturned
  have hgoes := Host.compile_goes crew "/p.txt" hlodges.isTidy hlodges.stands hrecalls hholds.here
    hholds.now
  obtain ⟨isFallback, hselect⟩ := hreturns.selected
  have hspace : s.transformer.space = "passthrough-1" := by
    have hspaces := computed.2.2.1
    rw [print, hselect] at hspaces
    exact Option.some.inj hspaces
  have hat := hgoes.keeps.stands.places s.id s (hlodges.isTidy.slot?_of_select? hselect)
  rw [hlodges.backend, hspace] at hat
  have hdirectory := hgoes.advances.grows.directory _ computed.2.2.2.1
  exact Store.not_serves_directory hat hdirectory a hserves

end Crossing

/-- Caches are noticed where a path that cannot be read leads to a file, and where the directory of the caches is
made in the place of an entry. -/
theorem Tenancy.full_ne_anew :
    (Detour.terms.crew.IsSteady ∧ (∀ p, Detour.terms.plans p → p = Detour.plan) ∧
      Detour.host.HasOwnPlaces Detour.terms.place ∧ ".." ∉ Detour.terms.directory.parts ∧
      Tenancy Detour.terms Detour.world [Detour.host] Detour.calls
        (Visit.run Detour.terms.crew ⟨Detour.host, true, "nodir/../x.bin", Detour.compiled⟩).2 ∧
      AreClear Detour.calls ∧
      (Visit.run Detour.terms.crew ⟨Detour.host, true, "nodir/../x.bin", Detour.compiled⟩).1 =
        .ok Detour.result ∧
      Visit.anew Detour.terms.crew ⟨Detour.host, true, "nodir/../x.bin", Detour.compiled⟩ =
        .error (.file .notFound "nodir/../x.bin")) ∧
    Crossing.terms.crew.IsSteady ∧ (∀ p, Crossing.terms.plans p → p = Crossing.plan) ∧
      Crossing.host.HasOwnPlaces Crossing.terms.place ∧
      Tenancy Crossing.terms Host.Bump.world [Crossing.host] [Crossing.call]
        (Crossing.call.run Crossing.terms.crew).2 ∧
      AreClear [Crossing.call] ∧ CanOpen [Crossing.call] ∧
      Crossing.call.anew Crossing.terms.crew = .ok Crossing.result ∧
      ∀ a, (Crossing.call.run Crossing.terms.crew).1 ≠ .ok a :=
  ⟨Detour.served_under_unreadable_path, Unnoticed.isSteady_crew, fun _ hp => hp, Crossing.hasOwnPlaces,
    Crossing.run, Crossing.areClear, Crossing.canOpen, Crossing.anew_ok, Crossing.run_fails⟩

end AssetCompiler
