import AssetCompiler.Proofs.SparedStores

/-!
Histories of a host. Calls follow one another, and between them others change files, as long as they
spare the stores and a file whose size and time are as they were at an earlier call has its content
of then. What a call returned is served from then on, and what is served some call has returned.
-/
namespace AssetCompiler

namespace Volume

/-- What is to be seen on a volume: a directory for the caches and some files. -/
structure IsSeen (p : Path) (d : Location) (files : List (String × Path × List UInt8 × Int))
    (v : Volume) : Prop where
  links : hasLinks v = false
  here : v.here = []
  located : v.locate true p = .ok d
  directory : v.nodeAt? d = some .directory
  inspects : ∀ f ∈ files, v.inspect (Path.ofText f.1) = .ok f.2

/-- The same as it is computed. -/
def sees (p : Path) (d : Location) (files : List (String × Path × List UInt8 × Int))
    (v : Volume) : Bool :=
  !hasLinks v && v.here.isEmpty && (v.locate true p).toOption == some d &&
    v.nodeAt? d == some .directory &&
    files.all fun f => (v.inspect (Path.ofText f.1)).toOption == some f.2

namespace IsSeen

variable {p : Path} {d : Location} {files : List (String × Path × List UInt8 × Int)} {v : Volume}

theorem of_sees (h : sees p d files v = true) : IsSeen p d files v := by
  simp only [sees, Bool.and_eq_true, beq_iff_eq, Bool.not_eq_true', List.isEmpty_iff,
    List.all_eq_true] at h
  obtain ⟨⟨⟨⟨hlinks, hhere⟩, hlocate⟩, hnode⟩, hfiles⟩ := h
  exact ⟨hlinks, hhere, eq_ok_of_toOption hlocate, hnode,
    fun f hf => eq_ok_of_toOption (hfiles f hf)⟩

theorem isRoot (h : IsSeen p d files v) : v.IsRoot p d :=
  isRoot_of_locate h.located h.directory h.links

end IsSeen
end Volume

open Volume

/-- A file that has the size and the time that it had at an earlier sight has its content of then. -/
def World.IsTold {σ : Type} (w : World σ) (past : List Volume) (file : String) : Prop :=
  ∀ real bytes mtime, w.volume.inspect (Path.ofText file) = .ok (real, bytes, mtime) →
    Volume.IsTold past real bytes mtime

theorem Fingerprint.isPlain_of_inspect {v : Volume} (hhere : AreProper v.here) {file : String}
    {real : Path} {bytes : List UInt8} {mtime : Int}
    (hinspect : v.inspect (Path.ofText file) = .ok (real, bytes, mtime))
    (options : ClassifyOptions) : (classify bytes real options).IsPlain :=
  isPlain_classify bytes
    (realPath_ok hhere (Path.areProper_ofText file) (inspect_ok.mp hinspect).1).2 options

namespace Host

variable {σ : Type} {h : Host} {crew : Crew σ} {q : Path} {d : Location}
variable {options : ClassifyOptions} {past : List Volume} {file : String} {w w' : World σ}

/-! Both modes -/

theorem run_compile_of_full (hmode : h.readOnly = false) (crew : Crew σ) (file : String)
    (w : World σ) : (h.compile crew file).run w = (h.compileFull crew file).run w := by
  unfold compile compileFull openCompile
  rw [hmode]
  rfl

theorem run_compile_of_readOnly (hmode : h.readOnly = true) (crew : Crew σ) (file : String)
    (w : World σ) : (h.compile crew file).run w = (h.compileReadOnly file).run w := by
  unfold compile openCompile
  rw [hmode]
  simp only [if_true]
  rw [Action.run_bind, Action.run_bind]
  rcases (h.compileReadOnly file).run w with ⟨_ | a, w'⟩
  · rfl
  · rfl

/-- A look-up leaves the volume. -/
theorem compileReadOnly_goes (file : String) (htidy : h.IsTidy) (hstands : h.Stands q d w.volume)
    (hrecalls : w.Recalls h.desk options past)
    (hhere : ∀ v ∈ w.volume :: past, AreProper v.here) :
    h.Goes q d options past w ((h.compileReadOnly file).run w).2 ∧
      ((h.compileReadOnly file).run w).2.volume = w.volume := by
  cases hinspect : w.volume.inspect (Path.ofText file) with
  | error e =>
    have hrun : (h.compileReadOnly file).run w = (.error e, w) :=
      Action.run_bind_error (Action.run_bind_error (Work.run_fingerprint_error hinspect))
    rw [hrun]
    exact ⟨⟨Keeps.refl hstands, Volume.Advances.refl _ _, rfl,
      hrecalls.mono rfl fun v hv => List.mem_cons_of_mem _ hv, fun _ _ => rfl⟩, rfl⟩
  | ok found =>
    obtain ⟨real, bytes, mtime⟩ := found
    obtain ⟨i, w₁, _, hlooks, hrun, _⟩ := run_compileReadOnly htidy hrecalls hhere hinspect
    rw [hrun]
    exact ⟨hlooks.goes hstands, congrArg Prod.fst hlooks.setting⟩

/-- A compilation in either mode. -/
theorem compile_goes (crew : Crew σ) (file : String) (htidy : h.IsTidy)
    (hstands : h.Stands q d w.volume) (hrecalls : w.Recalls h.desk options past)
    (hhere : ∀ v ∈ w.volume :: past, AreProper v.here) (hnow : w.now.IsDate) :
    h.Goes q d options past w ((h.compile crew file).run w).2 := by
  cases hmode : h.readOnly with
  | false =>
    rw [run_compile_of_full hmode]
    exact compileFull_goes crew file htidy hstands hrecalls hhere hnow
  | true =>
    rw [run_compile_of_readOnly hmode]
    exact (compileReadOnly_goes file htidy hstands hrecalls hhere).1

/-- A served result is returned in either mode, and nobody is asked. -/
theorem run_compile_of_serves (htidy : h.IsTidy) (hrecalls : w.Recalls h.desk options past)
    (hhere : ∀ v ∈ w.volume :: past, AreProper v.here) {real : Path} {bytes : List UInt8}
    {mtime : Int} (hinspect : w.volume.inspect (Path.ofText file) = .ok (real, bytes, mtime))
    (htold : w.IsTold past file) {s : Slot Cache} {isFallback : Bool}
    (hselect : h.registry.select? (Path.ofText file) (Fingerprint.classify bytes real options) =
      some (s, isFallback)) {a : Artifact}
    (hserves : s.cache.store.Serves w.volume (Fingerprint.classify bytes real options).cacheKey a) :
    ∃ w', w'.volume = w.volume ∧ w'.tools = w.tools ∧
      ∀ crew : Crew σ, (h.compile crew file).run w = (.ok a, w') := by
  have hsettled : ∀ {w₁ : World σ}, h.Looks options past w w₁ →
      w₁.volume = w.volume ∧ w₁.tools = w.tools := by
    intro w₁ hlooks
    have hsetting := hlooks.setting
    simp only [Prod.mk.injEq] at hsetting
    exact ⟨hsetting.1, hsetting.2.2.2⟩
  cases hmode : h.readOnly with
  | true =>
    obtain ⟨i, w₁, hi, hlooks, hrun, _, hfound⟩ :=
      run_compileReadOnly htidy hrecalls hhere hinspect
    obtain rfl := hi.right (htold _ _ _ hinspect)
    refine ⟨w₁, (hsettled hlooks).1, (hsettled hlooks).2, fun crew => ?_⟩
    rw [run_compile_of_readOnly hmode]
    exact Prod.ext ((hfound s isFallback hselect).1 a hserves) hrun
  | false =>
    obtain ⟨i, w₁, hi, hlooks, hopen⟩ := run_openFull htidy hrecalls hhere hinspect
    obtain rfl := hi.right (htold _ _ _ hinspect)
    rw [hselect] at hopen
    have hserves₁ : s.cache.store.Serves w₁.volume
        (h.errandFor file (Fingerprint.classify bytes real options) s).key a := by
      rw [(hsettled hlooks).1]
      exact hserves
    refine ⟨{ w₁ with journal := ⟨Log.Context.none, .cacheHit file s.cache.space⟩ :: w₁.journal },
      (hsettled hlooks).1, (hsettled hlooks).2, fun crew => ?_⟩
    rw [run_compile_of_full hmode]
    unfold compileFull
    rw [Action.run_bind_ok hopen]
    exact Errand.run_of_serves crew hserves₁

/-! What a full compilation changes -/

/-- A compilation returned a result for a file, into the store of a slot. -/
structure Returns (h : Host) (crew : Crew σ) (options : ClassifyOptions) (w : World σ)
    (file : String) (real : Path) (bytes : List UInt8) (s : Slot Cache) (a : Artifact) :
    Prop where
  inspected : ∃ mtime, w.volume.inspect (Path.ofText file) = .ok (real, bytes, mtime)
  selected : ∃ isFallback, h.registry.select? (Path.ofText file)
    (Fingerprint.classify bytes real options) = some (s, isFallback)
  returned : ((h.compile crew file).run w).1 = .ok a

/-- A result is served as soon as it is returned. -/
theorem Returns.serves (hmode : h.readOnly = false) (htidy : h.IsTidy)
    (hstands : h.Stands q d w.volume) (hrecalls : w.Recalls h.desk options past)
    (hhere : ∀ v ∈ w.volume :: past, AreProper v.here) (hnow : w.now.IsDate)
    (htold : w.IsTold past file) {real : Path} {bytes : List UInt8} {mtime : Int} {a : Artifact}
    (hinspect : w.volume.inspect (Path.ofText file) = .ok (real, bytes, mtime))
    (hreturned : ((h.compile crew file).run w).1 = .ok a) :
    ∃ s, h.Returns crew options w file real bytes s a ∧
      s.cache.store.Serves ((h.compile crew file).run w).2.volume
        (Fingerprint.classify bytes real options).cacheKey a := by
  obtain ⟨i, w₁, hi, hlooks, hrun⟩ := run_compileFull crew htidy hrecalls hhere hinspect
  obtain rfl := hi.right (htold _ _ _ hinspect)
  have hcompile := run_compile_of_full hmode crew file w
  cases hselect : h.registry.select? (Path.ofText file)
      (Fingerprint.classify bytes real options) with
  | none =>
    rw [hcompile, hrun, hselect] at hreturned
    cases hreturned
  | some found =>
    obtain ⟨s, isFallback⟩ := found
    refine ⟨s, ⟨⟨mtime, hinspect⟩, ⟨isFallback, hselect⟩, hreturned⟩, ?_⟩
    rw [hselect] at hrun
    have hsetting := hlooks.setting
    simp only [Prod.mk.injEq] at hsetting
    obtain ⟨hvolume, _, hnow₁, _⟩ := hsetting
    have hruns := errandFor_runs file crew (hvolume ▸ hstands) (hnow₁ ▸ hnow)
      (htidy.slot?_of_select? hselect) (Fingerprint.classify bytes real options)
    rw [hcompile, hrun] at hreturned ⊢
    exact hruns.serves a hreturned

/-- A store answers after a compilation as it did before, or it serves what was returned. -/
theorem compile_answers (hmode : h.readOnly = false) (htidy : h.IsTidy)
    (hstands : h.Stands q d w.volume) (hrecalls : w.Recalls h.desk options past)
    (hhere : ∀ v ∈ w.volume :: past, AreProper v.here) (hnow : w.now.IsDate)
    (htold : w.IsTold past file) {name : String} {s' : Slot Cache}
    (hs' : h.registry.slot? name = some s') (key : String) :
    (∀ now, ((s'.cache.store.get now key).run ((h.compile crew file).run w).2.volume).1 =
        ((s'.cache.store.get now key).run w.volume).1) ∨
      ∃ real bytes s a, h.Returns crew options w file real bytes s a ∧
        Store.placeOf h.settings.backend d s'.transformer.space =
          Store.placeOf h.settings.backend d s.transformer.space ∧
        s'.cache.store.slotOf key =
          s'.cache.store.slotOf (Fingerprint.classify bytes real options).cacheKey ∧
        s'.cache.store.Serves ((h.compile crew file).run w).2.volume key a := by
  rw [run_compile_of_full hmode]
  cases hinspect : w.volume.inspect (Path.ofText file) with
  | error e =>
    rw [run_compileFull_error crew hinspect]
    exact Or.inl fun _ => rfl
  | ok found =>
    obtain ⟨real, bytes, mtime⟩ := found
    obtain ⟨i, w₁, hi, hlooks, hrun⟩ := run_compileFull crew htidy hrecalls hhere hinspect
    obtain rfl := hi.right (htold _ _ _ hinspect)
    have hsetting := hlooks.setting
    simp only [Prod.mk.injEq] at hsetting
    obtain ⟨hvolume, _, hnow₁, _⟩ := hsetting
    rw [hrun]
    cases hselect : h.registry.select? (Path.ofText file)
        (Fingerprint.classify bytes real options) with
    | none =>
      simp only
      rw [hvolume]
      exact Or.inl fun _ => rfl
    | some found =>
      obtain ⟨s, isFallback⟩ := found
      have hs := htidy.slot?_of_select? hselect
      have hruns := errandFor_runs file crew (hvolume ▸ hstands) (hnow₁ ▸ hnow) hs
        (Fingerprint.classify bytes real options)
      simp only
      rcases hruns.volume with hsame | ⟨⟨entry, stored, hstores, hdelivers⟩, _⟩
      · rw [hsame, hvolume]
        exact Or.inl fun _ => rfl
      · rw [hvolume] at hstores
        rcases hstands.answers hs hstores hs' key with hsame | ⟨hstored, hplace, hslot, hget⟩
        · exact Or.inl hsame
        · obtain ⟨a, ha⟩ := hdelivers hstored
          refine Or.inr ⟨real, bytes, s, a, ⟨⟨mtime, hinspect⟩, ⟨isFallback, hselect⟩, ?_⟩,
            hplace, hslot, ?_⟩
          · rw [run_compile_of_full hmode, hrun, hselect]
            exact ha
          · refine (hruns.serves a ha).congr fun now => ?_
            rw [hget]
            rfl

/-! Runs -/

/-- What others do between two calls of a host. -/
structure Edits (q : Path) (d : Location) (w w' : World σ) : Prop where
  spares : Volume.Spares q d w.volume w'.volume
  environment : w'.environment = w.environment
  desks : w'.desks = w.desks
  now : w'.now.IsDate

/-- The volumes at which calls were made. -/
def sights (calls : List (World σ × String)) : List Volume := calls.map fun c => c.1.volume

/-- Histories of a host from a world on, whose fingerprinter has seen some volumes before: the calls
so far, the last one first, and the world after them. -/
inductive History (h : Host) (crew : Crew σ) (q : Path) (d : Location) (past : List Volume)
    (w₀ : World σ) : List (World σ × String) → World σ → Prop
  | start : History h crew q d past w₀ [] w₀
  | compile {calls : List (World σ × String)} {w : World σ} (file : String)
      (before : History h crew q d past w₀ calls w) (told : w.IsTold (sights calls ++ past) file) :
      History h crew q d past w₀ ((w, file) :: calls) ((h.compile crew file).run w).2
  | edit {calls : List (World σ × String)} {w w' : World σ}
      (before : History h crew q d past w₀ calls w) (edits : Edits q d w w') :
      History h crew q d past w₀ calls w'

/-- What holds all along a history. -/
structure Follows (h : Host) (options : ClassifyOptions) (q : Path) (d : Location)
    (past : List Volume) (w₀ : World σ) (calls : List (World σ × String)) (w : World σ) :
    Prop where
  keeps : h.Keeps q d w₀.volume w.volume
  recalls : w.Recalls h.desk options (sights calls ++ past)
  here : ∀ v ∈ w.volume :: (sights calls ++ past), AreProper v.here
  environment : w.environment = w₀.environment
  now : w.now.IsDate

variable {w₀ : World σ} {calls : List (World σ × String)}

theorem Follows.start (hstands : h.Stands q d w₀.volume)
    (hhere : ∀ v ∈ w₀.volume :: past, AreProper v.here) (hnow : w₀.now.IsDate)
    (hrecalls : w₀.Recalls h.desk options past) : h.Follows options q d past w₀ [] w₀ where
  keeps := Keeps.refl hstands
  recalls := hrecalls
  here := hhere
  environment := rfl
  now := hnow

theorem Follows.compile (crew : Crew σ) (htidy : h.IsTidy) (hf : h.Follows options q d past w₀ calls w)
    (file : String) :
    h.Follows options q d past w₀ ((w, file) :: calls) ((h.compile crew file).run w).2 := by
  have hgoes := compile_goes crew file htidy hf.keeps.stands hf.recalls hf.here hf.now
  obtain ⟨henvironment, hnow⟩ := Prod.mk.inj hgoes.setting
  refine ⟨hf.keeps.trans hgoes.keeps, hgoes.recalls, ?_, henvironment.trans hf.environment,
    hnow ▸ hf.now⟩
  intro v hv
  rcases List.mem_cons.mp hv with rfl | hv
  · rw [hgoes.advances.here]
    exact hf.here _ (List.mem_cons_self ..)
  · exact hf.here v hv

theorem Follows.edit (hf : h.Follows options q d past w₀ calls w) (hedits : Edits q d w w') :
    h.Follows options q d past w₀ calls w' where
  keeps := hf.keeps.trans (hf.keeps.stands.leaves_of_spares hedits.spares).keeps
  recalls := hf.recalls.mono hedits.desks fun _ hv => hv
  here := by
    intro v hv
    rcases List.mem_cons.mp hv with rfl | hv
    · exact hedits.spares.here
    · exact hf.here v (List.mem_cons_of_mem _ hv)
  environment := hedits.environment.trans hf.environment
  now := hedits.now

theorem History.follows (htidy : h.IsTidy) (hstart : h.Follows options q d past w₀ [] w₀)
    (history : h.History crew q d past w₀ calls w) : h.Follows options q d past w₀ calls w := by
  induction history with
  | start => exact hstart
  | compile file _ _ ih => exact ih.compile crew htidy file
  | edit _ edits ih => exact ih.edit edits

/-- What a call returned is served at the end of the history. -/
theorem History.serves (hmode : h.readOnly = false) (htidy : h.IsTidy)
    (hstart : h.Follows options q d past w₀ [] w₀) (history : h.History crew q d past w₀ calls w)
    {call : World σ × String} (hcall : call ∈ calls) {real : Path} {bytes : List UInt8}
    {mtime : Int} {a : Artifact}
    (hinspect : call.1.volume.inspect (Path.ofText call.2) = .ok (real, bytes, mtime))
    (hreturned : ((h.compile crew call.2).run call.1).1 = .ok a) :
    ∃ s, h.Returns crew options call.1 call.2 real bytes s a ∧
      s.cache.store.Serves w.volume (Fingerprint.classify bytes real options).cacheKey a := by
  induction history with
  | start => cases hcall
  | @compile calls w file before told ih =>
    have hf := before.follows htidy hstart
    rcases List.mem_cons.mp hcall with rfl | hcall
    · exact Returns.serves hmode htidy hf.keeps.stands hf.recalls hf.here hf.now told hinspect
        hreturned
    · obtain ⟨s, hreturns, hserves⟩ := ih hcall
      obtain ⟨_, hselect⟩ := hreturns.selected
      have hgoes := compile_goes crew file htidy hf.keeps.stands hf.recalls hf.here hf.now
      exact ⟨s, hreturns, hgoes.keeps.serves _ s _ a (htidy.slot?_of_select? hselect) hserves⟩
  | edit before edits ih =>
    obtain ⟨s, hreturns, hserves⟩ := ih hcall
    obtain ⟨_, hselect⟩ := hreturns.selected
    have hleaves := (before.follows htidy hstart).keeps.stands.leaves_of_spares edits.spares
    exact ⟨s, hreturns, hleaves.keeps.serves _ s _ a (htidy.slot?_of_select? hselect) hserves⟩

/-- Some call returned a result into the place of a store, under a key that the store takes for the
given one. -/
def Fills (h : Host) (crew : Crew σ) (options : ClassifyOptions) (d : Location)
    (calls : List (World σ × String)) (s' : Slot Cache) (key : String) : Prop :=
  ∃ call ∈ calls, ∃ real bytes s a, h.Returns crew options call.1 call.2 real bytes s a ∧
    Store.placeOf h.settings.backend d s'.transformer.space =
      Store.placeOf h.settings.backend d s.transformer.space ∧
    s'.cache.store.slotOf key =
      s'.cache.store.slotOf (Fingerprint.classify bytes real options).cacheKey

theorem Fills.mono {calls' : List (World σ × String)} {s' : Slot Cache} {key : String}
    (hfills : h.Fills crew options d calls s' key) (hmore : ∀ c ∈ calls, c ∈ calls') :
    h.Fills crew options d calls' s' key := by
  obtain ⟨call, hcall, hrest⟩ := hfills
  exact ⟨call, hmore call hcall, hrest⟩

/-- What is served at the end of a history over empty stores was returned by one of its calls. -/
theorem History.fills (hmode : h.readOnly = false) (htidy : h.IsTidy)
    (hstart : h.Follows options q d past w₀ [] w₀) (history : h.History crew q d past w₀ calls w)
    {name : String} {s' : Slot Cache} (hs' : h.registry.slot? name = some s') {key : String}
    (hlacks : s'.cache.store.Lacks w₀.volume key) :
    s'.cache.store.Lacks w.volume key ∨
      h.Fills crew options d calls s' key ∧ ∃ a, s'.cache.store.Serves w.volume key a := by
  induction history with
  | start => exact Or.inl hlacks
  | @compile calls w file before told ih =>
    have hf := before.follows htidy hstart
    rcases compile_answers hmode htidy hf.keeps.stands hf.recalls hf.here hf.now told hs' key with
      hsame | ⟨real, bytes, s, a, hreturns, hplace, hslot, hserves⟩
    · rcases ih with hlacks | ⟨hfills, a, hserves⟩
      · exact Or.inl (hlacks.congr hsame)
      · exact Or.inr ⟨hfills.mono fun c hc => List.mem_cons_of_mem _ hc, a, hserves.congr hsame⟩
    · exact Or.inr ⟨⟨(w, file), List.mem_cons_self .., real, bytes, s, a, hreturns, hplace, hslot⟩,
        a, hserves⟩
  | edit before edits ih =>
    have hsame := ((before.follows htidy hstart).keeps.stands.leaves_of_spares edits.spares).same
      name s' hs'
    rcases ih with hlacks | ⟨hfills, a, hserves⟩
    · exact Or.inl (hlacks.congr fun now => hsame now key)
    · exact Or.inr ⟨hfills, a, hserves.congr fun now => hsame now key⟩

/-- A history of look-ups leaves the stores. -/
theorem History.leaves (hmode : h.readOnly = true) (htidy : h.IsTidy)
    (hstart : h.Follows options q d past w₀ [] w₀) (history : h.History crew q d past w₀ calls w) :
    h.Leaves q d w₀.volume w.volume := by
  induction history with
  | start => exact Leaves.refl hstart.keeps.stands
  | @compile calls w file before told ih =>
    have hf := before.follows htidy hstart
    rw [run_compile_of_readOnly hmode,
      (compileReadOnly_goes file htidy hf.keeps.stands hf.recalls hf.here).2]
    exact ih
  | edit _ edits ih => exact ih.trans (ih.stands.leaves_of_spares edits.spares)

end Host
end AssetCompiler
