import AssetCompiler.Proofs.Exchanges
import AssetCompiler.Proofs.Histories
import AssetCompiler.Proofs.SharedRoots

/-!
Hosts that share a directory of caches. They are built over it one after the other, with any transformers,
files are compiled with all of them, and others change files elsewhere in between. Whatever a call returns
was made by a full compilation, this one or an earlier one, with a slot whose store has the same place.
-/
namespace AssetCompiler

open Volume

variable {σ : Type}

/-! Errands whose result is not there -/

namespace Errand

variable (e : Errand) (crew : Crew σ) {w : World σ}

/-- What is stored of a result. -/
def keep (now : Instant) (a : Artifact) : Filing Unit :=
  e.cache.store.put e.key (Entry.ofArtifact now e.key e.cache.space a)

theorem run_stored? (h : e.cache.store.Lacks w.volume e.key) :
    ∃ journal, (e.stored?).run w = (.ok none, { w with journal := journal }) := by
  obtain ⟨found, journal, hlookup⟩ := e.cache.run_lookup e.key w
  have hnone := Cache.run_lookup_of_lacks h
  rw [hlookup] at hnone
  cases hnone
  refine ⟨journal, ?_⟩
  unfold stored?
  rw [Action.run_bind_ok hlookup]
  rfl

/-- The reduction of an errand runs if the store has nothing to serve, and what it makes is stored. -/
theorem run_of_lacks (h : e.cache.store.Lacks w.volume e.key)
    (hwhole : ∀ a, ((e.work.run crew).run w).1 = .ok a → a.isPrecompiled = true) :
    match ((e.work.run crew).run w).1 with
    | .error f => ((e.run crew).run w).1 = .error f ∧ ((e.run crew).run w).2.volume = w.volume
    | .ok a => ((e.run crew).run w).1 = ((e.keep w.now a).run w.volume).1.map (fun _ => a) ∧
        ((e.run crew).run w).2.volume = ((e.keep w.now a).run w.volume).2 := by
  obtain ⟨journal, hstored⟩ := e.run_stored? h
  obtain ⟨_, hwork⟩ := e.work.run_eq_course crew w
  obtain ⟨_, hwork'⟩ := e.work.run_eq_course crew { w with journal := journal }
  rw [hwork] at hwhole ⊢
  unfold run
  rw [Action.run_bind_ok hstored]
  simp only at hwhole ⊢
  cases houtcome : (e.work.course crew w.volume w.tools).outcome with
  | error f =>
    simp only [houtcome] at hwork' ⊢
    rw [Action.run_bind_error hwork']
    exact ⟨rfl, rfl⟩
  | ok a =>
    simp only [houtcome] at hwork' ⊢
    rw [Action.run_bind_ok hwork', e.run_deliver_put (hwhole a houtcome)]
    exact ⟨rfl, rfl⟩

end Errand

/-! Fingerprints -/

theorem Fingerprinter.recalls_fresh (o : ClassifyOptions) (past : List Volume) :
    (fresh o).Recalls past := by
  intro text m hm
  cases hm

namespace Work

/-- Whatever was seen before, a file's fingerprint has a hash and a media type as they should be. -/
theorem isPlain_of_fingerprint {desk : Nat} {f : Fingerprinter} {past : List Volume} {w : World σ}
    {file : String} {i : Fingerprint} (hf : Keyed.find? desk w.desks = some f)
    (hrecalls : f.Recalls past) (hhere : ∀ v ∈ w.volume :: past, AreProper v.here)
    (htaken : ((fingerprint desk (Path.ofText file)).run w).1 = .ok i) : i.IsPlain := by
  cases hinspect : w.volume.inspect (Path.ofText file) with
  | error e =>
    rw [run_fingerprint_error hinspect] at htaken
    cases htaken
  | ok sight =>
    obtain ⟨real, bytes, mtime⟩ := sight
    rw [run_fingerprint hf hinspect] at htaken
    cases hknown : f.known? real.text bytes.length mtime with
    | none =>
      simp only [hknown] at htaken
      rw [← Except.ok.inj htaken]
      exact Fingerprint.isPlain_of_inspect (hhere _ List.mem_cons_self) hinspect f.options
    | some i' =>
      simp only [hknown] at htaken
      rw [← Except.ok.inj htaken]
      obtain ⟨v, hv, file', real', bytes', mtime', hsight, -, hm⟩ :=
        hrecalls _ _ (known?_eq_some hknown)
      rw [(Memory.mk.inj hm).2.2]
      exact Fingerprint.isPlain_of_inspect (hhere v (List.mem_cons_of_mem _ hv)) hsight f.options

end Work
/-! Stores that go on lying where they lay -/

namespace Store

theorem At.opens {s : Store} {place : Place} {v v' : Volume} (hat : s.At v place)
    (hopens : Opens v v') : s.At v' place := by
  cases s with
  | folder root space =>
    cases place with
    | rows l space' => exact hat.elim
    | folder l => exact FolderAt.grows hat hopens.grows
  | table database space isOpen =>
    cases place with
    | folder l => exact hat.elim
    | rows l space' =>
      obtain ⟨hopen, hspace, hlocate, rows, mtime, hnode⟩ := hat
      refine ⟨hopen, hspace, hopens.grows.locate hlocate, rows, mtime, ?_⟩
      rcases hopens.node l with hsame | ⟨hwas, _⟩
      · rw [hsame, hnode]
      · rw [hnode] at hwas
        simp at hwas

end Store

theorem Host.Stands.opens {h : Host} {q : Path} {d : Location} {v v' : Volume}
    (hstands : h.Stands q d v) (hopens : Opens v v') : h.Stands q d v' where
  root := hstands.root.grows hopens.grows
  named := hstands.named
  places := fun name s hs => (hstands.places name s hs).opens hopens

/-! Calls -/

/-- A call of a host: a full compilation of a file, or a look-up of its result. -/
structure Visit (σ : Type) where
  host : Host
  isFull : Bool
  file : String
  world : World σ

namespace Visit

def run (crew : Crew σ) (x : Visit σ) : Except Failure Artifact × World σ :=
  if x.isFull then (x.host.compileFull crew x.file).run x.world
  else (x.host.compileReadOnly x.file).run x.world

theorem run_full (crew : Crew σ) (h : Host) (file : String) (w : World σ) :
    Visit.run crew ⟨h, true, file, w⟩ = (h.compileFull crew file).run w := rfl

/-- The fingerprint that a call takes, and the slot that it picks by it. -/
structure Picks (x : Visit σ) (s : Slot Cache) (i : Fingerprint) : Prop where
  taken : ((Work.fingerprint x.host.desk (Path.ofText x.file)).run x.world).1 = .ok i
  selected : ∃ isFallback,
    x.host.registry.select? (Path.ofText x.file) i = some (s, isFallback)

/-- A full compilation makes a result, which the store of its slot does not have. -/
structure Makes (crew : Crew σ) (x : Visit σ) (s : Slot Cache) (i : Fingerprint) (a : Artifact) :
    Prop extends Picks x s i where
  full : x.isFull = true
  lacks : s.cache.store.Lacks x.world.volume i.cacheKey
  made : ((x.host.compileUncached crew x.file i s.transformer).run x.world).1 = .ok a

/-- A call returns a result through a slot. -/
structure Returns (crew : Crew σ) (x : Visit σ) (s : Slot Cache) (i : Fingerprint) (a : Artifact) :
    Prop extends Picks x s i where
  returned : (x.run crew).1 = .ok a

variable {crew : Crew σ} {x : Visit σ} {s s' : Slot Cache} {i i' : Fingerprint} {a : Artifact}

theorem returns_of_full {h : Host} {file : String} {w : World σ} {isFallback : Bool}
    (htaken : ((Work.fingerprint h.desk (Path.ofText file)).run w).1 = .ok i)
    (hselect : h.registry.select? (Path.ofText file) i = some (s, isFallback))
    (hreturned : ((h.compileFull crew file).run w).1 = .ok a) :
    Returns crew ⟨h, true, file, w⟩ s i a :=
  ⟨⟨htaken, isFallback, hselect⟩, hreturned⟩

theorem Picks.unique (h : x.Picks s i) (h' : x.Picks s' i') : s' = s ∧ i' = i := by
  obtain rfl := Except.ok.inj (h'.taken.symm.trans h.taken)
  obtain ⟨isFallback, hselect⟩ := h.selected
  obtain ⟨isFallback', hselect'⟩ := h'.selected
  rw [hselect] at hselect'
  exact ⟨(Prod.mk.inj (Option.some.inj hselect')).1.symm, rfl⟩

theorem Makes.isWhole (h : x.Makes crew s i a) : a.IsWhole :=
  Host.isWhole_of_run_reduction (Prod.ext h.made rfl)

/-- The entry that is stored of a result. -/
def entry (x : Visit σ) (s : Slot Cache) (i : Fingerprint) (a : Artifact) : Entry :=
  Entry.ofArtifact x.world.now i.cacheKey s.cache.store.space a

/-- What a call comes to: nothing is stored, or what it made is put into the store of its slot; and it
returns what the store serves, or what it made. -/
structure Comes (crew : Crew σ) (x : Visit σ) : Prop where
  volume : (x.run crew).2.volume = x.world.volume ∨ ∃ s i a, x.Makes crew s i a ∧
    (x.run crew).2.volume =
      ((s.cache.store.put i.cacheKey (x.entry s i a)).run x.world.volume).2
  returns : ∀ s i a, x.Returns crew s i a →
    s.cache.store.Serves x.world.volume i.cacheKey a ∨ x.Makes crew s i a

/-- The ways in which a full compilation can end after the fingerprint has been taken: there is no slot,
or the store serves a result, or the transformers fail, or what they make is put into the store. -/
inductive Ends (crew : Crew σ) (x : Visit σ) (i : Fingerprint) : Prop
  | refused (none : x.host.registry.select? (Path.ofText x.file) i = none)
      (run : (x.run crew).1 = .error (.noTransformer x.file))
      (volume : (x.run crew).2.volume = x.world.volume)
  | served (s : Slot Cache) (a : Artifact) (picks : x.Picks s i)
      (serves : s.cache.store.Serves x.world.volume i.cacheKey a) (run : (x.run crew).1 = .ok a)
      (volume : (x.run crew).2.volume = x.world.volume)
  | failed (s : Slot Cache) (f : Failure) (picks : x.Picks s i)
      (lacks : s.cache.store.Lacks x.world.volume i.cacheKey)
      (failed : ((x.host.compileUncached crew x.file i s.transformer).run x.world).1 = .error f)
      (run : (x.run crew).1 = .error f) (volume : (x.run crew).2.volume = x.world.volume)
  | stored (s : Slot Cache) (a : Artifact) (makes : x.Makes crew s i a)
      (run : (x.run crew).1 =
        ((s.cache.store.put i.cacheKey (x.entry s i a)).run x.world.volume).1.map fun _ => a)
      (volume : (x.run crew).2.volume =
        ((s.cache.store.put i.cacheKey (x.entry s i a)).run x.world.volume).2)

section Calling

variable {options : ClassifyOptions} {past : List Volume}

/-- The outcome of a compilation without any cache follows from the volume and the crew. -/
theorem compileUncached_congr (crew : Crew σ) (h : Host) (file : String) (i : Fingerprint)
    (t : Transformer) {w w' : World σ} (hvolume : w'.volume = w.volume) (htools : w'.tools = w.tools) :
    ((h.compileUncached crew file i t).run w').1 = ((h.compileUncached crew file i t).run w).1 := by
  obtain ⟨_, hrun⟩ := (h.reduction file i t).run_eq_course crew w
  obtain ⟨_, hrun'⟩ := (h.reduction file i t).run_eq_course crew w'
  unfold Host.compileUncached
  rw [hrun, hrun', hvolume, htools]

/-- A full compilation of a file that can be looked at. -/
theorem ends_of_full (htidy : x.host.IsTidy) (hrecalls : x.world.Recalls x.host.desk options past)
    (hhere : ∀ v ∈ x.world.volume :: past, AreProper v.here) (hfull : x.isFull = true)
    (hfinds : ∀ s i, x.Picks s i → s.cache.store.Lacks x.world.volume i.cacheKey ∨
      ∃ a, s.cache.store.Serves x.world.volume i.cacheKey a) {real : Path} {bytes : List UInt8}
    {mtime : Int} (hinspect : x.world.volume.inspect (Path.ofText x.file) = .ok (real, bytes, mtime)) :
    ∃ i, Work.Sees x.host.desk options past x.file real bytes mtime x.world i ∧ x.Ends crew i := by
  have hrun : x.run crew = (x.host.compileFull crew x.file).run x.world := if_pos hfull
  obtain ⟨i, w₁, hsees, hlooks, hends⟩ := Host.run_compileFull crew htidy hrecalls hhere hinspect
  have hsetting := hlooks.setting
  simp only [Prod.mk.injEq] at hsetting
  obtain ⟨hvolume, -, hnow, htools⟩ := hsetting
  refine ⟨i, hsees, ?_⟩
  rw [← hrun] at hends
  cases hselect : x.host.registry.select? (Path.ofText x.file) i with
  | none =>
    rw [hselect] at hends
    exact .refused hselect (congrArg Prod.fst hends)
      ((congrArg (fun r => r.2.volume) hends).trans hvolume)
  | some found =>
    obtain ⟨s, isFallback⟩ := found
    rw [hselect] at hends
    simp only at hends
    have hpicks : x.Picks s i := ⟨hsees.taken, isFallback, hselect⟩
    rcases hfinds s i hpicks with hlacks | ⟨a, hserves⟩
    · have hsame : (((x.host.errandFor x.file i s).work.run crew).run w₁).1 =
          ((x.host.compileUncached crew x.file i s.transformer).run x.world).1 :=
        compileUncached_congr crew x.host x.file i s.transformer hvolume htools
      have hworks := (x.host.errandFor x.file i s).run_of_lacks crew (w := w₁)
        (hvolume ▸ hlacks) fun a ha =>
          (Host.isWhole_of_run_reduction (Prod.ext ha rfl)).isPrecompiled
      rw [hsame, ← hends, hvolume, hnow] at hworks
      cases hmade : ((x.host.compileUncached crew x.file i s.transformer).run x.world).1 with
      | error f =>
        rw [hmade] at hworks
        exact .failed s f hpicks hlacks hmade hworks.1 hworks.2
      | ok a =>
        rw [hmade] at hworks
        exact .stored s a ⟨hpicks, hfull, hlacks, hmade⟩ hworks.1 hworks.2
    · rw [Errand.run_of_serves crew (hvolume ▸ hserves)] at hends
      exact .served s a hpicks hserves (congrArg Prod.fst hends)
        ((congrArg (fun r => r.2.volume) hends).trans hvolume)

theorem Ends.comes {i : Fingerprint} (h : x.Ends crew i)
    (htaken : ((Work.fingerprint x.host.desk (Path.ofText x.file)).run x.world).1 = .ok i) :
    x.Comes crew := by
  cases h with
  | refused none run volume =>
    refine ⟨Or.inl volume, fun s' i' a' hreturns => ?_⟩
    cases run.symm.trans hreturns.returned
  | served s a picks serves run volume =>
    refine ⟨Or.inl volume, fun s' i' a' hreturns => Or.inl ?_⟩
    obtain ⟨rfl, rfl⟩ := picks.unique hreturns.toPicks
    cases run.symm.trans hreturns.returned
    exact serves
  | failed s f picks lacks failed run volume =>
    refine ⟨Or.inl volume, fun s' i' a' hreturns => ?_⟩
    cases run.symm.trans hreturns.returned
  | stored s a makes run volume =>
    refine ⟨Or.inr ⟨s, i, a, makes, volume⟩, fun s' i' a' hreturns => Or.inr ?_⟩
    obtain ⟨rfl, rfl⟩ := makes.toPicks.unique hreturns.toPicks
    have hreturned := run.symm.trans hreturns.returned
    cases hput : ((s'.cache.store.put i'.cacheKey (x.entry s' i' a)).run x.world.volume).1 with
    | error f =>
      rw [hput] at hreturned
      cases hreturned
    | ok u =>
      rw [hput] at hreturned
      cases hreturned
      exact makes

/-- Behind the path there is no file. -/
theorem run_of_inspect_error (hfull : x.isFull = true) {e : Failure}
    (hinspect : x.world.volume.inspect (Path.ofText x.file) = .error e) :
    (x.run crew).1 = .error e ∧ (x.run crew).2.volume = x.world.volume := by
  have hrun : x.run crew = (x.host.compileFull crew x.file).run x.world := if_pos hfull
  rw [hrun, Host.run_compileFull_error crew hinspect]
  exact ⟨rfl, rfl⟩

theorem comes_of_full (htidy : x.host.IsTidy) (hrecalls : x.world.Recalls x.host.desk options past)
    (hhere : ∀ v ∈ x.world.volume :: past, AreProper v.here) (hfull : x.isFull = true)
    (hfinds : ∀ s i, x.Picks s i → s.cache.store.Lacks x.world.volume i.cacheKey ∨
      ∃ a, s.cache.store.Serves x.world.volume i.cacheKey a) : x.Comes crew := by
  cases hinspect : x.world.volume.inspect (Path.ofText x.file) with
  | error e =>
    obtain ⟨hfails, hvolume⟩ : (x.run crew).1 = .error e ∧ _ := run_of_inspect_error hfull hinspect
    refine ⟨Or.inl hvolume, fun s i a hreturns => ?_⟩
    cases hfails.symm.trans hreturns.returned
  | ok sight =>
    obtain ⟨real, bytes, mtime⟩ := sight
    obtain ⟨i, hsees, hends⟩ : ∃ i, _ ∧ x.Ends crew i :=
      ends_of_full htidy hrecalls hhere hfull hfinds hinspect
    exact hends.comes hsees.taken

theorem comes_of_readOnly (htidy : x.host.IsTidy)
    (hrecalls : x.world.Recalls x.host.desk options past)
    (hhere : ∀ v ∈ x.world.volume :: past, AreProper v.here) (hmode : x.isFull = false)
    (hfinds : ∀ s i, x.Picks s i → s.cache.store.Lacks x.world.volume i.cacheKey ∨
      ∃ a, s.cache.store.Serves x.world.volume i.cacheKey a) : x.Comes crew := by
  have hrun : x.run crew = (x.host.compileReadOnly x.file).run x.world := by
    rw [run, hmode]
    rfl
  cases hinspect : x.world.volume.inspect (Path.ofText x.file) with
  | error e =>
    have hends : x.run crew = (.error e, x.world) := hrun.trans
      (Action.run_bind_error (Action.run_bind_error (Work.run_fingerprint_error hinspect)))
    refine ⟨Or.inl (by rw [hends]), fun s i a hreturns => ?_⟩
    have hreturned := hreturns.returned
    rw [hends] at hreturned
    cases hreturned
  | ok sight =>
    obtain ⟨real, bytes, mtime⟩ := sight
    obtain ⟨i, w₁, hsees, hlooks, hworld, -, hsome⟩ :=
      Host.run_compileReadOnly htidy hrecalls hhere hinspect
    refine ⟨Or.inl ?_, fun s i' a hreturns => Or.inl ?_⟩
    · rw [hrun, hworld]
      exact congrArg Prod.fst hlooks.setting
    · obtain rfl := Except.ok.inj (hsees.taken.symm.trans hreturns.taken)
      obtain ⟨isFallback, hselect⟩ := hreturns.selected
      obtain ⟨hserved, hlacked⟩ := hsome s isFallback hselect
      have hreturned := hreturns.returned
      rw [hrun] at hreturned
      rcases hfinds s i hreturns.toPicks with hlacks | ⟨b, hserves⟩
      · cases (hlacked hlacks).symm.trans hreturned
      · cases (hserved b hserves).symm.trans hreturned
        exact hserves

end Calling
end Visit

/-! Runs -/

/-- What a host is built of, beside its fingerprinter and the directory of its caches. -/
structure Plan where
  types : List (String × Transformer)
  mode : Option Bool
  fallback : Option Transformer
  settings : Settings

/-- What the hosts of a run have in common: the crew, the directory of the caches, as it is given, with
the home directory written out, and where it lies, and the backend; and which plans and which options of
fingerprinters there are. -/
structure Terms (σ : Type) where
  crew : Crew σ
  root : Path
  directory : Path
  place : Location
  backend : Backend
  plans : Plan → Prop
  options : ClassifyOptions → Prop

/-- A run begins with nothing in the directory of the caches, and with nothing remembered. -/
structure Terms.Begins (t : Terms σ) (w : World σ) : Prop where
  expands : t.root.expandHome? (w.environment.lookup "HOME") = some t.directory
  empty : ∀ name rest, w.volume.nodeAt? (t.place ++ name :: rest) = none
  here : AreProper w.volume.here
  now : w.now.IsDate
  desks : ∀ n f, Keyed.find? n w.desks = some f → ∃ o, t.options o ∧ f = .fresh o

/-- A run can begin where all files lie outside the directory of the caches, with one new fingerprinter. -/
theorem Terms.Begins.of_fresh {t : Terms σ} {w : World σ} {n : Nat} {o : ClassifyOptions}
    (expands : t.root.expandHome? (w.environment.lookup "HOME") = some t.directory)
    (outside : ∀ x ∈ w.volume.nodes, ¬ t.place <+: x.1) (here : AreProper w.volume.here)
    (now : w.now.IsDate) (desks : w.desks = [(n, .fresh o)]) (allowed : t.options o) : t.Begins w where
  expands := expands
  empty := by
    intro name rest
    rw [nodeAt?, if_neg (by simp), Keyed.find?_eq_none_iff]
    intro hkey
    obtain ⟨x, hx, heq⟩ := List.mem_map.mp hkey
    exact outside x hx (heq ▸ List.prefix_append t.place _)
  here := here
  now := now
  desks := by
    intro n' f hf
    have hmem := Keyed.mem_of_find? hf
    rw [desks, List.mem_singleton] at hmem
    exact ⟨o, allowed, (Prod.mk.inj hmem).2⟩

/-- A run of hosts over one directory of caches, from a world on: the hosts so far, their calls, the last
one first, and the world after them. -/
inductive Tenancy (t : Terms σ) (w₀ : World σ) : List Host → List (Visit σ) → World σ → Prop
  | start (begins : t.Begins w₀) : Tenancy t w₀ [] [] w₀
  | seat {hosts : List Host} {visits : List (Visit σ)} {w : World σ} (n : Nat) {o : ClassifyOptions}
      (before : Tenancy t w₀ hosts visits w) (allowed : t.options o) :
      Tenancy t w₀ hosts visits { w with desks := w.desks.set n (.fresh o) }
  | build {hosts : List Host} {visits : List (Visit σ)} {w w' : World σ} (plan : Plan) {n : Nat}
      {h : Host} (before : Tenancy t w₀ hosts visits w) (allowed : t.plans plan)
      (backend : plan.settings.backend = t.backend) (seated : ∃ f, Keyed.find? n w.desks = some f)
      (built : (Host.build t.root plan.types n plan.mode plan.fallback plan.settings).run w =
        (.ok h, w')) (rooted : w'.volume.IsRoot t.directory t.place) :
      Tenancy t w₀ (h :: hosts) visits w'
  | visit {hosts : List Host} {visits : List (Visit σ)} {w : World σ} {h : Host} (isFull : Bool)
      (file : String) (before : Tenancy t w₀ hosts visits w) (built : h ∈ hosts) :
      Tenancy t w₀ hosts (⟨h, isFull, file, w⟩ :: visits) (Visit.run t.crew ⟨h, isFull, file, w⟩).2
  | edit {hosts : List Host} {visits : List (Visit σ)} {w w' : World σ}
      (before : Tenancy t w₀ hosts visits w) (edits : Host.Edits t.directory t.place w w') :
      Tenancy t w₀ hosts visits w'

namespace Tenancy

variable {t : Terms σ} {w₀ : World σ} {hosts : List Host} {visits : List (Visit σ)}
variable {w w' : World σ} {h : Host}

/-- The entries that were made by calls. -/
def Made (crew : Crew σ) (visits : List (Visit σ)) (space key : String) (e : Entry) : Prop :=
  ∃ x ∈ visits, ∃ s i a, x.Makes crew s i a ∧ i.IsPlain ∧ x.world.now.IsDate ∧
    s.transformer.space = space ∧ i.cacheKey = key ∧ e = x.entry s i a

theorem Made.mono {crew : Crew σ} {visits' : List (Visit σ)} {space key : String} {e : Entry}
    (hmade : Made crew visits space key e) (hmore : ∀ x ∈ visits, x ∈ visits') :
    Made crew visits' space key e := by
  obtain ⟨x, hx, hrest⟩ := hmade
  exact ⟨x, hmore x hx, hrest⟩

/-- The volumes at which calls were made. -/
def past (visits : List (Visit σ)) : List Volume := visits.map fun x => x.world.volume

/-- A host stands on its stores, and its fingerprinter is there. -/
structure Lodges (t : Terms σ) (w : World σ) (h : Host) : Prop where
  built : ∃ plan, t.plans plan ∧ plan.settings.backend = t.backend ∧
    h.IsBuilt t.root t.directory plan.types h.desk plan.mode plan.fallback plan.settings
  stands : h.Stands t.directory t.place w.volume
  seated : ∃ f, Keyed.find? h.desk w.desks = some f

theorem Lodges.isTidy (hlodges : Lodges t w h) : h.IsTidy := by
  obtain ⟨plan, -, -, hbuilt⟩ := hlodges.built
  exact hbuilt.isTidy

theorem Lodges.backend (hlodges : Lodges t w h) : h.settings.backend = t.backend := by
  obtain ⟨plan, -, hbackend, hbuilt⟩ := hlodges.built
  rw [hbuilt.settings, ← hbackend]

/-- What holds all along a run. -/
structure Holds (t : Terms σ) (hosts : List Host) (visits : List (Visit σ)) (w : World σ) :
    Prop where
  expands : t.root.expandHome? (w.environment.lookup "HOME") = some t.directory
  accounts : Store.Accounts (Made t.crew visits) t.place w.volume
  lodges : ∀ h ∈ hosts, Lodges t w h
  desks : ∀ n f, Keyed.find? n w.desks = some f → t.options f.options ∧ f.Recalls (past visits)
  here : ∀ v ∈ w.volume :: past visits, AreProper v.here
  now : w.now.IsDate

namespace Holds

theorem recalls (hh : Holds t hosts visits w) (hmem : h ∈ hosts) :
    ∃ o, t.options o ∧ w.Recalls h.desk o (past visits) := by
  obtain ⟨f, hf⟩ := (hh.lodges h hmem).seated
  obtain ⟨hoptions, hrecalls⟩ := hh.desks _ f hf
  exact ⟨f.options, hoptions, f, hf, rfl, hrecalls⟩

theorem isPlain (hh : Holds t hosts visits w) {x : Visit σ} (hworld : x.world = w)
    (hmem : x.host ∈ hosts) {s : Slot Cache} {i : Fingerprint} (hpicks : x.Picks s i) :
    i.IsPlain := by
  subst hworld
  obtain ⟨f, hf⟩ := (hh.lodges _ hmem).seated
  exact Work.isPlain_of_fingerprint hf (hh.desks _ f hf).2 hh.here hpicks.taken

/-- What the store of a slot has to serve was made by calls. -/
theorem lacks_or_serves (hh : Holds t hosts visits w) (hmem : h ∈ hosts) {name : String}
    {s : Slot Cache} (hs : h.registry.slot? name = some s) {i : Fingerprint} (hplain : i.IsPlain) :
    s.cache.store.Lacks w.volume i.cacheKey ∨ ∃ y ∈ visits, ∃ s' i' a, y.Makes t.crew s' i' a ∧
      i'.cacheKey = i.cacheKey ∧ Store.placeOf t.backend t.place s'.transformer.space =
        Store.placeOf t.backend t.place s.transformer.space ∧
      s.cache.store.Serves w.volume i.cacheKey a := by
  have hlodges := hh.lodges h hmem
  have hnamed := hlodges.stands.named name s hs
  have hat := hlodges.stands.places name s hs
  rw [hlodges.backend] at hnamed hat
  have hdates : ∀ space key e, Made t.crew visits space key e → e.createdAt.IsDate := by
    rintro space key e ⟨x, -, s', i', a, -, -, hnow, -, -, rfl⟩
    exact hnow
  have hshort : Store.IsShort (Store.fileName i.cacheKey) :=
    Store.IsKey.isShort ⟨⟨i, hplain.toIsHashed, rfl⟩, hplain.short⟩
  refine (hh.accounts.lacks_or_serves hdates hnamed hat hshort).imp_right ?_
  rintro ⟨space, key, e, ⟨y, hy, s', i', a, hmakes, hplain', -, rfl, rfl, rfl⟩, hplace, hslot,
    hserves⟩
  refine ⟨y, hy, s', i', a, hmakes, Store.cacheKey_of_slotOf hplain hplain' hslot, hplace, ?_⟩
  rw [Visit.entry, hmakes.isWhole.toArtifact_ofArtifact] at hserves
  exact hserves

theorem comes (hh : Holds t hosts visits w) {x : Visit σ} (hworld : x.world = w)
    (hmem : x.host ∈ hosts) : x.Comes t.crew := by
  subst hworld
  have htidy := (hh.lodges _ hmem).isTidy
  obtain ⟨o, -, hrecalls⟩ := hh.recalls hmem
  have hfinds : ∀ s i, x.Picks s i → s.cache.store.Lacks x.world.volume i.cacheKey ∨
      ∃ a, s.cache.store.Serves x.world.volume i.cacheKey a := by
    intro s i hpicks
    obtain ⟨isFallback, hselect⟩ := hpicks.selected
    refine (hh.lacks_or_serves hmem (htidy.slot?_of_select? hselect)
      (hh.isPlain rfl hmem hpicks)).imp_right ?_
    rintro ⟨_, -, _, _, a, -, -, -, hserves⟩
    exact ⟨a, hserves⟩
  cases hmode : x.isFull with
  | true => exact Visit.comes_of_full htidy hrecalls hh.here hmode hfinds
  | false => exact Visit.comes_of_readOnly htidy hrecalls hh.here hmode hfinds

/-! Steps -/

theorem start (begins : t.Begins w) : Holds t [] [] w where
  expands := begins.expands
  accounts := .of_empty begins.empty
  lodges := fun h hmem => absurd hmem List.not_mem_nil
  desks := by
    intro n f hf
    obtain ⟨o, ho, rfl⟩ := begins.desks n f hf
    exact ⟨ho, Fingerprinter.recalls_fresh o _⟩
  here := fun v hv => List.mem_singleton.mp hv ▸ begins.here
  now := begins.now

theorem seat (hh : Holds t hosts visits w) (n : Nat) {o : ClassifyOptions} (ho : t.options o) :
    Holds t hosts visits { w with desks := w.desks.set n (.fresh o) } where
  expands := hh.expands
  accounts := hh.accounts
  lodges := by
    intro h hmem
    obtain ⟨hbuilt, hstands, f, hf⟩ := hh.lodges h hmem
    refine ⟨hbuilt, hstands, ?_⟩
    change ∃ f, Keyed.find? h.desk (w.desks.set n (.fresh o)) = some f
    rw [Keyed.find?_set]
    split
    · exact ⟨_, rfl⟩
    · exact ⟨f, hf⟩
  desks := by
    intro n' f hf
    change Keyed.find? n' (w.desks.set n (.fresh o)) = some f at hf
    rw [Keyed.find?_set] at hf
    split at hf
    · cases hf
      exact ⟨ho, nofun⟩
    · exact hh.desks n' f hf
  here := hh.here
  now := hh.now

theorem build (hh : Holds t hosts visits w) {plan : Plan} {n : Nat} (hplan : t.plans plan)
    (hbackend : plan.settings.backend = t.backend) (hseated : ∃ f, Keyed.find? n w.desks = some f)
    (hrun : (Host.build t.root plan.types n plan.mode plan.fallback plan.settings).run w =
      (.ok h, w')) (hroot : w'.volume.IsRoot t.directory t.place) :
    Holds t (h :: hosts) visits w' := by
  obtain ⟨hbuilt, hopens, hsetting, -⟩ := Host.build_ok hrun hh.expands
  simp only [Host.setting, Prod.mk.injEq] at hsetting
  obtain ⟨henvironment, hdesks, hnow, -⟩ := hsetting
  have hnumber : h.desk = n := hbuilt.desk
  refine ⟨henvironment ▸ hh.expands, hh.accounts.opens hopens, ?_, hdesks ▸ hh.desks, ?_,
    hnow ▸ hh.now⟩
  · intro h' hmem
    rcases List.mem_cons.mp hmem with rfl | hmem
    · refine ⟨⟨plan, hplan, hbackend, hnumber ▸ hbuilt⟩,
        Host.stands_of_build hrun hh.expands hroot, ?_⟩
      rw [hnumber, hdesks]
      exact hseated
    · obtain ⟨hbuilt', hstands, hseated'⟩ := hh.lodges h' hmem
      exact ⟨hbuilt', hstands.opens hopens, hdesks ▸ hseated'⟩
  · intro v hv
    rcases List.mem_cons.mp hv with rfl | hv
    · rw [hopens.here]
      exact hh.here _ List.mem_cons_self
    · exact hh.here v (List.mem_cons_of_mem _ hv)

theorem edit (hh : Holds t hosts visits w) (hedits : Host.Edits t.directory t.place w w') :
    Holds t hosts visits w' where
  expands := hedits.environment ▸ hh.expands
  accounts := hh.accounts.spares hedits.spares
  lodges := by
    intro h hmem
    obtain ⟨hbuilt, hstands, hseated⟩ := hh.lodges h hmem
    exact ⟨hbuilt, (hstands.leaves_of_spares hedits.spares).stands, hedits.desks ▸ hseated⟩
  desks := hedits.desks ▸ hh.desks
  here := by
    intro v hv
    rcases List.mem_cons.mp hv with rfl | hv
    · exact hedits.spares.here
    · exact hh.here v (List.mem_cons_of_mem _ hv)
  now := hedits.now

/-- What a call does to the volume: nothing, or it puts what it made into a store. -/
theorem stored (hh : Holds t hosts visits w) {x : Visit σ} (hworld : x.world = w)
    (hmem : x.host ∈ hosts) :
    Store.Accounts (Made t.crew (x :: visits)) t.place (x.run t.crew).2.volume ∧
      ∀ h ∈ hosts, h.Stands t.directory t.place (x.run t.crew).2.volume := by
  have hmore : ∀ space key e, Made t.crew visits space key e →
      Made t.crew (x :: visits) space key e :=
    fun _ _ _ hmade => hmade.mono fun _ hy => List.mem_cons_of_mem _ hy
  rcases (hh.comes hworld hmem).volume with hsame | ⟨s, i, a, hmakes, hput⟩
  · rw [hsame, hworld]
    exact ⟨hh.accounts.mono hmore, fun h hmem' => (hh.lodges h hmem').stands⟩
  · have hplain := hh.isPlain hworld hmem hmakes.toPicks
    subst hworld
    have hlodges := hh.lodges x.host hmem
    obtain ⟨isFallback, hselect⟩ := hmakes.selected
    have hs := hlodges.isTidy.slot?_of_select? hselect
    have hnamed := hlodges.stands.named _ s hs
    have hat := hlodges.stands.places _ s hs
    rw [hlodges.backend] at hnamed hat
    obtain ⟨r, v', hrun, hstores⟩ := Store.run_put hat i.cacheKey
      (show (x.entry s i a).createdAt.IsDate from hh.now)
    rw [hput, hrun]
    refine ⟨(hh.accounts.put hnamed hat hrun).mono ?_, fun h hmem' => ?_⟩
    · rintro space key e (hmade | ⟨rfl, rfl, rfl⟩)
      · exact hmore _ _ _ hmade
      · exact ⟨x, List.mem_cons_self, s, i, a, hmakes, hplain, hh.now, rfl, rfl, rfl⟩
    · have hlodges' := hh.lodges h hmem'
      rw [← hlodges'.backend] at hstores
      exact hlodges'.stands.stores hstores

theorem visit (hh : Holds t hosts visits w) {x : Visit σ} (hworld : x.world = w)
    (hmem : x.host ∈ hosts) : Holds t hosts (x :: visits) (x.run t.crew).2 := by
  obtain ⟨haccounts, hstands⟩ := hh.stored hworld hmem
  have hlodges := hh.lodges _ hmem
  obtain ⟨o, ho, hrecalls⟩ := hh.recalls hmem
  subst hworld
  have hgoes : x.host.Goes t.directory t.place o (past visits) x.world (x.run t.crew).2 := by
    unfold Visit.run
    cases x.isFull with
    | true =>
      exact Host.compileFull_goes t.crew x.file hlodges.isTidy hlodges.stands hrecalls hh.here hh.now
    | false =>
      exact (Host.compileReadOnly_goes x.file hlodges.isTidy hlodges.stands hrecalls hh.here).1
  obtain ⟨henvironment, hnow⟩ := Prod.mk.inj hgoes.setting
  have hdesks : ∀ n f, Keyed.find? n (x.run t.crew).2.desks = some f →
      t.options f.options ∧ f.Recalls (past (x :: visits)) := by
    intro n f hf
    by_cases hn : n = x.host.desk
    · obtain ⟨f', hf', hoptions, hremembers⟩ := hgoes.recalls
      rw [hn, hf'] at hf
      cases hf
      exact ⟨hoptions ▸ ho, hremembers⟩
    · rw [hgoes.others n hn] at hf
      obtain ⟨hoptions, hremembers⟩ := hh.desks n f hf
      refine ⟨hoptions, fun text m hm => ?_⟩
      obtain ⟨v, hv, hrest⟩ := hremembers text m hm
      exact ⟨v, List.mem_cons_of_mem _ hv, hrest⟩
  refine ⟨henvironment ▸ hh.expands, haccounts, ?_, hdesks, ?_, hnow ▸ hh.now⟩
  · intro h hmem'
    obtain ⟨hbuilt, -, f, hf⟩ := hh.lodges h hmem'
    refine ⟨hbuilt, hstands h hmem', ?_⟩
    by_cases hn : h.desk = x.host.desk
    · obtain ⟨f', hf', -⟩ := hgoes.recalls
      exact ⟨f', hn ▸ hf'⟩
    · exact ⟨f, (hgoes.others _ hn).trans hf⟩
  · intro v hv
    rcases List.mem_cons.mp hv with rfl | hv
    · rw [hgoes.advances.here]
      exact hh.here _ List.mem_cons_self
    · exact hh.here v hv

end Holds

theorem holds (ht : Tenancy t w₀ hosts visits w) : Holds t hosts visits w := by
  induction ht with
  | start begins => exact .start begins
  | seat n _ allowed ih => exact ih.seat n allowed
  | build plan _ allowed backend seated built rooted ih =>
    exact ih.build allowed backend seated built rooted
  | visit isFull file _ built ih => exact ih.visit rfl built
  | edit _ edits ih => exact ih.edit edits

/-- A run goes through the world of each of its calls. -/
theorem at_visit {later earlier : List (Visit σ)} {x : Visit σ}
    (ht : Tenancy t w₀ hosts (later ++ x :: earlier) w) :
    ∃ hosts', Tenancy t w₀ hosts' earlier x.world ∧ x.host ∈ hosts' := by
  generalize hvisits : later ++ x :: earlier = visits at ht
  induction ht generalizing later with
  | start begins => simp at hvisits
  | seat n _ allowed ih => exact ih hvisits
  | build plan _ allowed backend seated built rooted ih => exact ih hvisits
  | visit isFull file before built ih =>
    cases later with
    | nil =>
      cases hvisits
      exact ⟨_, before, built⟩
    | cons y later =>
      obtain ⟨rfl, rfl⟩ := List.cons.inj hvisits
      exact ih rfl
  | edit _ edits ih => exact ih hvisits

/-- Whatever a call returns through a slot was made by a full compilation, this one or an earlier one,
through a slot whose store has the same place, under the same key. -/
theorem made_of_returns {later earlier : List (Visit σ)} {x : Visit σ}
    (ht : Tenancy t w₀ hosts (later ++ x :: earlier) w) {s : Slot Cache} {i : Fingerprint} {a : Artifact}
    (hreturns : x.Returns t.crew s i a) :
    ∃ y ∈ x :: earlier, ∃ s' i', y.Makes t.crew s' i' a ∧ i'.cacheKey = i.cacheKey ∧
      Store.placeOf t.backend t.place s'.transformer.space =
        Store.placeOf t.backend t.place s.transformer.space := by
  obtain ⟨hosts', hbefore, hmem⟩ := ht.at_visit
  have hh := hbefore.holds
  rcases (hh.comes rfl hmem).returns s i a hreturns with hserves | hmakes
  · have hplain := hh.isPlain rfl hmem hreturns.toPicks
    obtain ⟨isFallback, hselect⟩ := hreturns.selected
    have hs := (hh.lodges _ hmem).isTidy.slot?_of_select? hselect
    rcases hh.lacks_or_serves hmem hs hplain with hlacks | ⟨y, hy, s', i', b, hmakes, hkey, hplace,
      hserves'⟩
    · exact absurd hserves hlacks.not_serves
    · rw [hserves.unique hserves']
      exact ⟨y, List.mem_cons_of_mem _ hy, s', i', hmakes, hkey, hplace⟩
  · exact ⟨x, List.mem_cons_self, s, i, hmakes, rfl, rfl⟩

end Tenancy
end AssetCompiler
