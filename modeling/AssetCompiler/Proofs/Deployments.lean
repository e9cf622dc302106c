import AssetCompiler.Proofs.Histories
import AssetCompiler.Proofs.SavedHosts

/-!
Deployments. A host compiles files and is saved; a later host is rebuilt over the same directory of
caches. The later host serves what the earlier one has compiled without asking anybody, and a later
host that only reads serves nothing else.
-/
namespace AssetCompiler.Host

open Volume

variable {σ τ : Type}

/-- A host `a` is built, used in full mode and saved, while others spare its stores; then a host `b`
is rebuilt from what was saved, and used. -/
structure Deploys (a b : Host) (crew : Crew σ) (crew' : Crew τ) (options : ClassifyOptions)
    (root q : Path) (d : Location) (given : Settings) (past : List Volume) (w₀ w₁ : World σ)
    (calls : List (World σ × String)) (w₂ w₃ : World σ) (past' : List Volume) (w₄ w₅ : World τ)
    (calls' : List (World τ × String)) (w₆ : World τ) : Prop where
  built : ∃ types mode fallback,
    (build root types a.desk mode fallback given).run w₀ = (.ok a, w₁)
  full : a.readOnly = false
  expands : root.expandHome? (w₀.environment.lookup "HOME") = some q
  rooted : w₁.volume.IsRoot q d
  here : ∀ v ∈ w₀.volume :: past, AreProper v.here
  now : w₀.now.IsDate
  recalls : w₀.Recalls a.desk options past
  used : a.History crew q d past w₁ calls w₂
  saved : ∃ p, a.save.run w₂ = (.ok p, w₃)
  spared : Volume.Spares q d w₃.volume w₄.volume
  expands' : root.expandHome? (w₄.environment.lookup "HOME") = some q
  here' : ∀ v ∈ past', AreProper v.here
  now' : w₄.now.IsDate
  recalls' : w₄.Recalls b.desk options past'
  rebuilt : a.IsRebuilt b root given w₄ w₅
  used' : b.History crew' q d past' w₅ calls' w₆

namespace Deploys

variable {a b : Host} {crew : Crew σ} {crew' : Crew τ} {options : ClassifyOptions}
variable {root q : Path} {d : Location} {given : Settings} {past past' : List Volume}
variable {w₀ w₁ w₂ w₃ : World σ}
variable {w₄ w₅ w₆ : World τ} {calls : List (World σ × String)} {calls' : List (World τ × String)}

/-- What the first host stands on. -/
theorem first
    (h : Deploys a b crew crew' options root q d given past w₀ w₁ calls w₂ w₃ past' w₄ w₅ calls'
      w₆) :
    ∃ types mode fallback, a.IsBuilt root q types a.desk mode fallback given ∧
      a.Follows options q d past w₁ [] w₁ ∧ Opens w₀.volume w₁.volume := by
  obtain ⟨types, mode, fallback, hrun⟩ := h.built
  obtain ⟨hbuilt, hopens, hsetting, _⟩ := build_ok hrun h.expands
  simp only [setting, Prod.mk.injEq] at hsetting
  obtain ⟨_, hdesks, hnow, _⟩ := hsetting
  have hstands := stands_of_build hrun h.expands h.rooted
  refine ⟨types, mode, fallback, hbuilt, Follows.start hstands ?_ ?_ ?_, hopens⟩
  · intro v hv
    rcases List.mem_cons.mp hv with rfl | hv
    · rw [hopens.here]
      exact h.here _ (List.mem_cons_self ..)
    · exact h.here v (List.mem_cons_of_mem _ hv)
  · rw [hnow]
    exact h.now
  · exact h.recalls.mono hdesks fun _ hv => hv

/-- What the second host stands on. -/
theorem second
    (h : Deploys a b crew crew' options root q d given past w₀ w₁ calls w₂ w₃ past' w₄ w₅ calls'
      w₆) :
    b.IsTidy ∧ b.Follows options q d past' w₅ [] w₅ ∧ a.Leaves q d w₂.volume w₅.volume ∧
      Registry.Agrees Succeeds a.registry b.registry := by
  obtain ⟨types, mode, fallback, hbuilt, hstart, _⟩ := h.first
  have hfollows := h.used.follows hbuilt.isTidy hstart
  obtain ⟨p, hsave⟩ := h.saved
  have henvironment : w₂.environment = w₀.environment := by
    obtain ⟨types, mode, fallback, hrun⟩ := h.built
    obtain ⟨_, _, hsetting, _⟩ := build_ok hrun h.expands
    exact hfollows.environment.trans (congrArg Prod.fst hsetting)
  have hexpands : a.settings.cacheRoot.expandHome? (w₂.environment.lookup "HOME") = some q := by
    rw [hbuilt.settings, henvironment]
    exact h.expands
  obtain ⟨hsaves, _⟩ := save_ok hsave hexpands hfollows.keeps.stands.root hfollows.now
  have hleaves := hfollows.keeps.stands.leaves_of_saves hsaves
  have hspared := hleaves.trans (hleaves.stands.leaves_of_spares h.spared)
  obtain ⟨htidy, hstands, hvolume, hsetting, hagrees⟩ :=
    h.rebuilt.agrees hbuilt hspared.stands (hsaves.saved.spared h.spared) h.expands'
  simp only [setting, Prod.mk.injEq] at hsetting
  obtain ⟨_, hdesks, hnow, _⟩ := hsetting
  refine ⟨htidy, Follows.start hstands ?_ ?_ ?_, ?_, hagrees⟩
  · intro v hv
    rcases List.mem_cons.mp hv with rfl | hv
    · rw [hvolume]
      exact h.spared.here
    · exact h.here' v hv
  · rw [hnow]
    exact h.now'
  · exact h.recalls'.mono hdesks fun _ hv => hv
  · rw [hvolume]
    exact hspared

/-- A result that the first host has returned for a file is stored where the second one looks. -/
theorem stored
    (h : Deploys a b crew crew' options root q d given past w₀ w₁ calls w₂ w₃ past' w₄ w₅ calls'
      w₆)
    {call : World σ × String} (hcall : call ∈ calls) {real : Path} {bytes : List UInt8}
    {mtime : Int} {r : Artifact}
    (hinspect : call.1.volume.inspect (Path.ofText call.2) = .ok (real, bytes, mtime))
    (hreturned : ((a.compile crew call.2).run call.1).1 = .ok r) :
    ∃ s' isFallback', b.registry.select? (Path.ofText call.2) (Fingerprint.classify bytes real options) =
        some (s', isFallback') ∧
      s'.cache.store.Serves w₆.volume (Fingerprint.classify bytes real options).cacheKey r := by
  obtain ⟨types, mode, fallback, hbuilt, hstart, _⟩ := h.first
  obtain ⟨htidy', hstart', hleaves, hagrees⟩ := h.second
  obtain ⟨s, hreturns, hserves⟩ :=
    h.used.serves h.full hbuilt.isTidy hstart hcall hinspect hreturned
  obtain ⟨isFallback, hselect⟩ := hreturns.selected
  have hs := hbuilt.isTidy.slot?_of_select? hselect
  have hpicked := hagrees.select? (Path.ofText call.2) (Fingerprint.classify bytes real options)
  rw [hselect] at hpicked
  cases hselect' : b.registry.select? (Path.ofText call.2)
      (Fingerprint.classify bytes real options) with
  | none =>
    rw [hselect'] at hpicked
    cases hpicked
  | some found =>
    obtain ⟨s', isFallback'⟩ := found
    rw [hselect'] at hpicked
    cases hpicked with
    | some hrel =>
      have hf := h.used'.follows htidy' hstart'
      have hserves' : s'.cache.store.Serves w₅.volume
          (Fingerprint.classify bytes real options).cacheKey r := by
        rw [hrel.1.store]
        exact hleaves.keeps.serves _ s _ r hs hserves
      exact ⟨s', isFallback', rfl,
        hf.keeps.serves _ s' _ r (htidy'.slot?_of_select? hselect') hserves'⟩

/-- A result that the first host has returned for a file is served by the second one. -/
theorem served
    (h : Deploys a b crew crew' options root q d given past w₀ w₁ calls w₂ w₃ past' w₄ w₅ calls'
      w₆)
    {call : World σ × String} (hcall : call ∈ calls) {real : Path} {bytes : List UInt8}
    {mtime mtime' : Int} {r : Artifact}
    (hinspect : call.1.volume.inspect (Path.ofText call.2) = .ok (real, bytes, mtime))
    (hreturned : ((a.compile crew call.2).run call.1).1 = .ok r)
    (hinspect' : w₆.volume.inspect (Path.ofText call.2) = .ok (real, bytes, mtime'))
    (htold : w₆.IsTold (sights calls' ++ past') call.2) :
    ∃ w, w.volume = w₆.volume ∧ w.tools = w₆.tools ∧
      ∀ crew'' : Crew τ, (b.compile crew'' call.2).run w₆ = (.ok r, w) := by
  obtain ⟨htidy', hstart', -, -⟩ := h.second
  obtain ⟨s', isFallback', hselect', hserves'⟩ := h.stored hcall hinspect hreturned
  have hf := h.used'.follows htidy' hstart'
  exact run_compile_of_serves htidy' hf.recalls hf.here hinspect' htold hselect' hserves'

/-- Some call compiled a file with the hash and the media type of a fingerprint into the place of a
space. -/
def HasCompiled (a : Host) (crew : Crew σ) (options : ClassifyOptions) (d : Location)
    (calls : List (World σ × String)) (space : String) (i : Fingerprint) : Prop :=
  ∃ call ∈ calls, ∃ real bytes s r, a.Returns crew options call.1 call.2 real bytes s r ∧
    Store.placeOf a.settings.backend d s.transformer.space =
      Store.placeOf a.settings.backend d space ∧
    (Fingerprint.classify bytes real options).hash = i.hash ∧
    (Fingerprint.classify bytes real options).mediaType = i.mediaType

/-- What a store of the second host has to serve, if nothing lay in the directory of the caches before
the first one was built: what the first host has compiled. -/
theorem lacks_or_serves
    (h : Deploys a b crew crew' options root q d given past w₀ w₁ calls w₂ w₃ past' w₄ w₅ calls'
      w₆)
    (hmode : b.readOnly = true) (hempty : ∀ name rest, w₀.volume.nodeAt? (d ++ name :: rest) = none)
    {s s' : Slot Cache} (hs : a.registry.slot? s.id = some s)
    (hs' : b.registry.slot? s'.id = some s') (hsucceeds : Succeeds s s') {i : Fingerprint}
    (hplain : i.IsPlain) : s'.cache.store.Lacks w₆.volume i.cacheKey ∨
      HasCompiled a crew options d calls s.transformer.space i ∧
        ∃ r, s'.cache.store.Serves w₆.volume i.cacheKey r := by
  obtain ⟨types, mode, fallback, hbuilt, hstart, hopens⟩ := h.first
  obtain ⟨htidy', hstart', hleaves, _⟩ := h.second
  have hlacks := Store.lacks_of_opens hempty hopens (hstart.keeps.stands.named _ s hs)
    (hstart.keeps.stands.places _ s hs) hplain.short
  have hsame : ∀ now, ((s'.cache.store.get now i.cacheKey).run w₆.volume).1 =
      ((s.cache.store.get now i.cacheKey).run w₂.volume).1 := by
    intro now
    rw [(h.used'.leaves hmode htidy' hstart').same _ s' hs', hsucceeds.store,
      hleaves.same _ s hs]
  rcases h.used.fills h.full hbuilt.isTidy hstart hs hlacks with hlacks | ⟨hfills, r, hserves⟩
  · exact Or.inl (hlacks.congr hsame)
  · obtain ⟨call, hcall, real', bytes', s₁, r', hreturns, hplace, hslot⟩ := hfills
    obtain ⟨mtime, hinspect⟩ := hreturns.inspected
    have hhere := (h.used.follows hbuilt.isTidy hstart).here _
      (List.mem_cons_of_mem _ (List.mem_append_left _ (List.mem_map_of_mem hcall)))
    have hplain' := Fingerprint.isPlain_of_inspect hhere hinspect options
    have hkey := Store.cacheKey_of_slotOf hplain' hplain hslot
    obtain ⟨hhash, htype⟩ := hplain'.of_cacheKey hplain hkey.symm
    exact Or.inr ⟨⟨call, hcall, real', bytes', s₁, r', hreturns, hplace.symm, hhash, htype⟩,
      r, hserves.congr hsame⟩

/-- A later host that only reads refuses what was never compiled, and has no slot for what the earlier
one had none for. -/
theorem refuses
    (h : Deploys a b crew crew' options root q d given past w₀ w₁ calls w₂ w₃ past' w₄ w₅ calls'
      w₆)
    (hmode : b.readOnly = true) (hempty : ∀ name rest, w₀.volume.nodeAt? (d ++ name :: rest) = none)
    {file : String} {real : Path} {bytes : List UInt8} {mtime : Int}
    (hinspect : w₆.volume.inspect (Path.ofText file) = .ok (real, bytes, mtime))
    (htold : w₆.IsTold (sights calls' ++ past') file) :
    (∀ s isFallback, b.registry.select? (Path.ofText file)
        (Fingerprint.classify bytes real options) = some (s, isFallback) →
      ¬ HasCompiled a crew options d calls s.transformer.space
        (Fingerprint.classify bytes real options) →
      ((b.compile crew' file).run w₆).1 = .error (.notPrecompiled file)) ∧
    (((b.compile crew' file).run w₆).1 = .error (.noTransformer file) ↔
      a.registry.select? (Path.ofText file) (Fingerprint.classify bytes real options) = none) := by
  obtain ⟨types, mode, fallback, hbuilt, _, _⟩ := h.first
  obtain ⟨htidy', hstart', _, hagrees⟩ := h.second
  have hf := h.used'.follows htidy' hstart'
  have hplain := Fingerprint.isPlain_of_inspect (hf.here _ (List.mem_cons_self ..)) hinspect options
  obtain ⟨i, w, hi, _, _, hnone, hsome⟩ := run_compileReadOnly htidy' hf.recalls hf.here hinspect
  obtain rfl := hi.right (htold _ _ _ hinspect)
  rw [run_compile_of_readOnly hmode]
  have hpicked := hagrees.select? (Path.ofText file) (Fingerprint.classify bytes real options)
  cases hselect' : b.registry.select? (Path.ofText file)
      (Fingerprint.classify bytes real options) with
  | none =>
    rw [hselect'] at hpicked
    refine ⟨nofun, iff_of_true (hnone hselect') ?_⟩
    cases hselect : a.registry.select? (Path.ofText file)
        (Fingerprint.classify bytes real options) with
    | none => rfl
    | some found =>
      rw [hselect] at hpicked
      cases hpicked
  | some found' =>
    obtain ⟨s', isFallback'⟩ := found'
    rw [hselect'] at hpicked
    cases hselect : a.registry.select? (Path.ofText file)
        (Fingerprint.classify bytes real options) with
    | none =>
      rw [hselect] at hpicked
      cases hpicked
    | some found =>
      obtain ⟨s, isFallback⟩ := found
      rw [hselect] at hpicked
      cases hpicked with
      | some hrel =>
        have hsucceeds : Succeeds s s' := hrel.1
        obtain ⟨hserved, hrefused⟩ := hsome s' isFallback' hselect'
        have hcases := h.lacks_or_serves hmode hempty
          (hbuilt.isTidy.slot?_of_select? hselect) (htidy'.slot?_of_select? hselect')
          hsucceeds hplain
        refine ⟨?_, iff_of_false ?_ nofun⟩
        · intro s₁ isFallback₁ heq hnever
          cases heq
          rw [hsucceeds.space] at hnever
          rcases hcases with hlacks | ⟨hcompiled, _⟩
          · exact hrefused hlacks
          · exact absurd hcompiled hnever
        · rcases hcases with hlacks | ⟨_, r, hserves⟩
          · rw [hrefused hlacks]
            exact nofun
          · rw [hserved r hserves]
            exact nofun

/-- The first host has no slot for a file exactly if its own part of a compilation says so. -/
theorem openCompile_eq_noTransformer
    (h : Deploys a b crew crew' options root q d given past w₀ w₁ calls w₂ w₃ past' w₄ w₅ calls'
      w₆)
    {calls'' : List (World σ × String)} {w : World σ} (used : a.History crew q d past w₁ calls'' w)
    {file : String} {real : Path} {bytes : List UInt8} {mtime : Int}
    (hinspect : w.volume.inspect (Path.ofText file) = .ok (real, bytes, mtime))
    (htold : w.IsTold (sights calls'' ++ past) file) :
    ((a.openCompile file).run w).1 = .error (.noTransformer file) ↔
      a.registry.select? (Path.ofText file) (Fingerprint.classify bytes real options) = none := by
  obtain ⟨types, mode, fallback, hbuilt, hstart, _⟩ := h.first
  have hf := used.follows hbuilt.isTidy hstart
  obtain ⟨i, w', hi, _, hopen⟩ := run_openFull hbuilt.isTidy hf.recalls hf.here hinspect
  obtain rfl := hi.right (htold _ _ _ hinspect)
  have hfull : (a.openCompile file).run w = (a.openFull file).run w := by
    unfold openCompile
    rw [h.full]
    rfl
  rw [hfull, hopen]
  cases a.registry.select? (Path.ofText file) (Fingerprint.classify bytes real options) with
  | none => exact iff_of_true rfl rfl
  | some found => exact iff_of_false nofun nofun

/-- What was compiled is what is served later, and nothing else. A result that the first host has
returned for a file is returned for it by the second one, whoever its crew is, and nobody is asked.
If nothing lay in the directory of the caches before, and the second host only reads, then it refuses
every file whose hash and media type were never compiled into the store of its slot, and has no slot
for a file exactly when the first one would have none. -/
theorem faithful
    (h : Deploys a b crew crew' options root q d given past w₀ w₁ calls w₂ w₃ past' w₄ w₅ calls'
      w₆) :
    (∀ call ∈ calls, ∀ r real bytes mtime mtime',
      call.1.volume.inspect (Path.ofText call.2) = .ok (real, bytes, mtime) →
      ((a.compile crew call.2).run call.1).1 = .ok r →
      w₆.volume.inspect (Path.ofText call.2) = .ok (real, bytes, mtime') →
      w₆.IsTold (sights calls' ++ past') call.2 →
      ∃ w, w.volume = w₆.volume ∧ w.tools = w₆.tools ∧
        ∀ crew'' : Crew τ, (b.compile crew'' call.2).run w₆ = (.ok r, w)) ∧
    (b.readOnly = true → (∀ name rest, w₀.volume.nodeAt? (d ++ name :: rest) = none) →
      ∀ file real bytes mtime, w₆.volume.inspect (Path.ofText file) = .ok (real, bytes, mtime) →
      w₆.IsTold (sights calls' ++ past') file →
      (∀ s isFallback, b.registry.select? (Path.ofText file)
          (Fingerprint.classify bytes real options) = some (s, isFallback) →
        ¬ HasCompiled a crew options d calls s.transformer.space
          (Fingerprint.classify bytes real options) →
        ((b.compile crew' file).run w₆).1 = .error (.notPrecompiled file)) ∧
      ∀ calls'' w mtime'', a.History crew q d past w₁ calls'' w →
        w.volume.inspect (Path.ofText file) = .ok (real, bytes, mtime'') →
        w.IsTold (sights calls'' ++ past) file →
        (((b.compile crew' file).run w₆).1 = .error (.noTransformer file) ↔
          ((a.openCompile file).run w).1 = .error (.noTransformer file))) := by
  refine ⟨?_, ?_⟩
  · intro call hcall r real bytes mtime mtime' hinspect hreturned hinspect' htold
    exact h.served hcall hinspect hreturned hinspect' htold
  · intro hmode hempty file real bytes mtime hinspect htold
    obtain ⟨hrefused, hnoSlot⟩ := h.refuses hmode hempty hinspect htold
    refine ⟨hrefused, ?_⟩
    intro calls'' w mtime'' used hinspect'' htold''
    rw [hnoSlot, h.openCompile_eq_noTransformer used hinspect'' htold'']

/-! A small deployment: a file is compiled at the second try, and a host with stand-ins serves it -/

def smallRoot : Path := ⟨"/", ["cache"]⟩

def smallSettings : Settings :=
  ⟨smallRoot, .sqlite, false, 20, 8, "", "node_modules", 80, "INFO", "text", none, "10 MB", 3⟩

def smallTransformer : Transformer := ⟨0, .custom "Marker", "css", "1", [MediaType.plainText]⟩

/-- The first transformation fails, and every one of a certain file does as if there were no
transformer. -/
def smallCrew : Crew Nat where
  respond c n :=
    match c.question with
    | .accepts => (⟨.ok (.bool true), []⟩, n)
    | .dependencies => (⟨.ok (.arr []), []⟩, n)
    | .transform =>
      if c.file = "/q.txt" then (⟨.error (.noTransformer c.file), []⟩, n)
      else if n = 0 then (⟨.error (.rejected "not yet" none), []⟩, n + 1)
      else (⟨.ok (Output.toJson ⟨c.code ++ "!", some "text/css"⟩), []⟩, n + 1)
  pauses _ := 0

def smallWorld : World Nat where
  volume := ⟨[(["p.txt"], .file [97] 5), (["q.txt"], .file [98] 5)], [], 0⟩
  environment := []
  desks := [(0, .fresh .standard), (1, .fresh .standard)]
  journal := []
  now := ⟨2024, 2, 29, 12, 0, 0, 0, none⟩
  tools := 0

def smallBuild : Work Nat Host :=
  build smallRoot [(MediaType.plainText, smallTransformer)] 0 none none smallSettings

def smallHost : Host := (Work.left smallBuild smallWorld).1

def builtWorld : World Nat := (Work.left smallBuild smallWorld).2

def triedWorld : World Nat := ((smallHost.compile smallCrew "/p.txt").run builtWorld).2

def compiledWorld : World Nat := ((smallHost.compile smallCrew "/p.txt").run triedWorld).2

def compiled : Artifact := ⟨some ⟨"a!", "text/css"⟩, []⟩

/-- A later world over what is left when the host is saved in a world. -/
def laterWorld (w : World Nat) : World Nat :=
  { smallWorld with volume := (Work.left smallHost.save w).2.volume }

def laterBuild : Work Nat Host :=
  build smallRoot (standIns [] (smallHost.configuration default).transformers).2 1 (some true)
    ((smallHost.configuration default).fallback.map fun f =>
      (standInFor (standIns [] (smallHost.configuration default).transformers).1 f).2) smallSettings

def laterHost (w : World Nat) : Host := (Work.left laterBuild (laterWorld w)).1

def laterEnd (w : World Nat) : World Nat := (Work.left laterBuild (laterWorld w)).2

theorem smallWorld_isDate : smallWorld.now.IsDate := by
  constructor <;> simp [smallWorld, Instant.daysIn, Instant.isLeap]

theorem expandHome?_smallRoot (home : Option String) : smallRoot.expandHome? home = some smallRoot := by
  unfold Path.expandHome?
  rw [show smallRoot.isAbsolute = true from by decide]

def firstFile : List (String × Path × List UInt8 × Int) := [("/p.txt", ⟨"/", ["p.txt"]⟩, [97], 5)]

/-- The host is built. The first call for the file fails, the second one returns a result, and the host is
saved. -/
theorem smallRuns : (smallBuild.run smallWorld).1.isOk = true ∧
    sees smallRoot ["cache"] firstFile builtWorld.volume = true ∧
    ((smallHost.compile smallCrew "/p.txt").run builtWorld).1.isOk = false ∧
    sees smallRoot ["cache"] firstFile triedWorld.volume = true ∧
    ((smallHost.compile smallCrew "/p.txt").run triedWorld).1.toOption = some compiled ∧
    sees smallRoot ["cache"] firstFile compiledWorld.volume = true ∧
    compiledWorld.now = smallWorld.now ∧ (smallHost.save.run compiledWorld).1.isOk = true := by
  decide +kernel

theorem smallBuild_run : smallBuild.run smallWorld = (.ok smallHost, builtWorld) :=
  Work.run_eq_left smallRuns.1

theorem isSeen_builtWorld : IsSeen smallRoot ["cache"] firstFile builtWorld.volume :=
  .of_sees smallRuns.2.1

theorem isSeen_triedWorld : IsSeen smallRoot ["cache"] firstFile triedWorld.volume :=
  .of_sees smallRuns.2.2.2.1

theorem compile_triedWorld : ((smallHost.compile smallCrew "/p.txt").run triedWorld).1 = .ok compiled :=
  eq_ok_of_toOption smallRuns.2.2.2.2.1

theorem isSeen_compiledWorld : IsSeen smallRoot ["cache"] firstFile compiledWorld.volume :=
  .of_sees smallRuns.2.2.2.2.2.1

theorem compiledWorld_now : compiledWorld.now = smallWorld.now := smallRuns.2.2.2.2.2.2.1

theorem compiledWorld_saves : (smallHost.save.run compiledWorld).1.isOk = true :=
  smallRuns.2.2.2.2.2.2.2

/-- Both files, the second of which has the size and the time of the first. -/
def bothFiles : List (String × Path × List UInt8 × Int) :=
  firstFile ++ [("/q.txt", ⟨"/", ["q.txt"]⟩, [98], 5)]

/-- The later host is built, and has a slot for the second file, too. -/
theorem laterRuns : (laterBuild.run (laterWorld compiledWorld)).1.isOk = true ∧
    sees smallRoot ["cache"] bothFiles (laterEnd compiledWorld).volume = true ∧
    ((laterHost compiledWorld).registry.select? (Path.ofText "/q.txt")
      (Fingerprint.classify [98] ⟨"/", ["q.txt"]⟩ .standard)).isSome = true ∧
    Sha256.hexDigest [97] ≠ Sha256.hexDigest [98] := by
  decide +kernel

theorem compiledWorld_builds : (laterBuild.run (laterWorld compiledWorld)).1.isOk = true :=
  laterRuns.1

theorem isSeen_laterEnd : IsSeen smallRoot ["cache"] bothFiles (laterEnd compiledWorld).volume :=
  .of_sees laterRuns.2.1

theorem smallHost_isBuilt : smallHost.IsBuilt smallRoot smallRoot
    [(MediaType.plainText, smallTransformer)] 0 none none smallSettings :=
  (build_ok smallBuild_run (expandHome?_smallRoot _)).1

theorem laterBuild_run {w : World Nat} (hbuild : (laterBuild.run (laterWorld w)).1.isOk = true) :
    laterBuild.run (laterWorld w) = (.ok (laterHost w), laterEnd w) := by
  unfold laterHost laterEnd
  exact Work.run_eq_left hbuild

/-- The host is saved in a world, and a host with stand-ins is built later. -/
theorem later_run {w : World Nat} (hroot : w.volume.IsRoot smallRoot ["cache"])
    (hsetting : w.now = smallWorld.now ∧ w.volume.here = [])
    (hsave : (smallHost.save.run w).1.isOk = true)
    (hbuild : (laterBuild.run (laterWorld w)).1.isOk = true) :
    smallHost.save.run w = (.ok (Work.left smallHost.save w).1, (Work.left smallHost.save w).2) ∧
    Volume.Spares smallRoot ["cache"] (Work.left smallHost.save w).2.volume (laterWorld w).volume ∧
    (buildReadOnly smallRoot 1 (pure smallSettings)).run (laterWorld w) =
      (.ok (laterHost w), laterEnd w) := by
  have hsaved := Work.run_eq_left hsave
  have hexpand : smallHost.settings.cacheRoot.expandHome? (w.environment.lookup "HOME") =
      some smallRoot := by
    rw [smallHost_isBuilt.settings]
    exact expandHome?_smallRoot _
  obtain ⟨hsaves, _⟩ := save_ok hsaved hexpand hroot (hsetting.1 ▸ smallWorld_isDate)
  have hvolume : (laterWorld w).volume = (Work.left smallHost.save w).2.volume := by
    simp only [laterWorld]
  have hwritten : smallHost.IsSaved smallRoot ["cache"] (laterWorld w).volume := by
    rw [hvolume]
    exact hsaves.saved
  refine ⟨hsaved, ⟨hwritten.root, fun _ => by rw [hvolume], ?_⟩, ?_⟩
  · rw [hvolume, hsaves.here, hsetting.2]
    exact nofun
  · rw [hwritten.run_buildReadOnly smallHost_isBuilt.registry.nodup_items
      (expandHome?_smallRoot _) 1 smallSettings default]
    exact laterBuild_run hbuild

theorem laterHost_spec {w : World Nat} (hbuild : (laterBuild.run (laterWorld w)).1.isOk = true) :
    (laterHost w).desk = 1 ∧ (laterHost w).readOnly = true := by
  have hlater := laterBuild_run hbuild
  exact ⟨(of_run_build hlater).2.1, (of_run_build hlater).2.2.1⟩

/-- The two ways of having nothing for a file. -/
def refusal? : Except Failure Artifact → Option (Bool × String)
  | .error (.notPrecompiled file) => some (true, file)
  | .error (.noTransformer file) => some (false, file)
  | _ => none

theorem eq_notPrecompiled {r : Except Failure Artifact} {file : String}
    (h : refusal? r = some (true, file)) : r = .error (.notPrecompiled file) := by
  unfold refusal? at h
  split at h
  · cases h
    rfl
  · cases h
  · cases h

theorem eq_noTransformer {r : Except Failure Artifact} {file : String}
    (h : refusal? r = some (false, file)) : r = .error (.noTransformer file) := by
  unfold refusal? at h
  split at h
  · cases h
  · cases h
    rfl
  · cases h

theorem inspect_builtWorld : builtWorld.volume.inspect (Path.ofText "/p.txt") =
    .ok (⟨"/", ["p.txt"]⟩, [97], 5) :=
  isSeen_builtWorld.inspects ("/p.txt", _, _, _) List.mem_cons_self

theorem inspect_triedWorld : triedWorld.volume.inspect (Path.ofText "/p.txt") =
    .ok (⟨"/", ["p.txt"]⟩, [97], 5) :=
  isSeen_triedWorld.inspects ("/p.txt", _, _, _) List.mem_cons_self

/-- The two calls for the file. -/
def smallCalls : List (World Nat × String) := [(triedWorld, "/p.txt"), (builtWorld, "/p.txt")]

theorem smallHistory : smallHost.History smallCrew smallRoot ["cache"] [] builtWorld smallCalls
    compiledWorld := by
  refine .compile "/p.txt" (.compile "/p.txt" .start fun _ _ _ _ => nofun) ?_
  intro real bytes mtime hinspect v hv file bytes' hsight _
  rw [inspect_triedWorld] at hinspect
  cases hinspect
  rw [List.mem_singleton.mp hv] at hsight
  exact (Volume.inspect_unique inspect_builtWorld hsight).1

theorem smallDeploys : Deploys smallHost (laterHost compiledWorld) smallCrew smallCrew .standard
    smallRoot smallRoot ["cache"] smallSettings [] smallWorld builtWorld smallCalls compiledWorld
    (Work.left smallHost.save compiledWorld).2 [] (laterWorld compiledWorld) (laterEnd compiledWorld) []
    (laterEnd compiledWorld) := by
  obtain ⟨hsave, hspares, hrebuilt⟩ := later_run isSeen_compiledWorld.isRoot
    ⟨compiledWorld_now, isSeen_compiledWorld.here⟩ compiledWorld_saves compiledWorld_builds
  have hdesk := (laterHost_spec compiledWorld_builds).1
  constructor
  · rw [smallHost_isBuilt.desk]
    exact ⟨_, _, _, smallBuild_run⟩
  · exact smallHost_isBuilt.readOnly
  · exact expandHome?_smallRoot _
  · exact isSeen_builtWorld.isRoot
  · simp [smallWorld, AreProper]
  · exact smallWorld_isDate
  · rw [smallHost_isBuilt.desk]
    exact World.recalls_fresh rfl
  · exact smallHistory
  · exact ⟨_, hsave⟩
  · exact hspares
  · exact expandHome?_smallRoot _
  · exact nofun
  · exact smallWorld_isDate
  · rw [hdesk]
    exact World.recalls_fresh rfl
  · left
    rw [hdesk]
    exact hrebuilt
  · exact .start

theorem returned_triedWorld : ((smallHost.compile smallCrew (triedWorld, "/p.txt").2).run
    (triedWorld, "/p.txt").1).1 = .ok compiled := by
  dsimp only
  exact compile_triedWorld

/-- The later host has the result of the compiled file. -/
theorem stored_laterEnd : ∃ s isFallback,
    (laterHost compiledWorld).registry.select? (Path.ofText "/p.txt")
      (Fingerprint.classify [97] ⟨"/", ["p.txt"]⟩ .standard) = some (s, isFallback) ∧
    s.cache.store.Serves (laterEnd compiledWorld).volume
      (Fingerprint.classify [97] ⟨"/", ["p.txt"]⟩ .standard).cacheKey compiled := by
  have hcall : (triedWorld, "/p.txt") ∈ smallCalls := List.mem_cons_self
  have hstored := smallDeploys.stored hcall inspect_triedWorld returned_triedWorld
  dsimp only at hstored
  exact hstored

/-- The compiled file is served, and the other one, of the same size and time, is refused. -/
theorem faithful_small :
    (∃ w, w.volume = (laterEnd compiledWorld).volume ∧ w.tools = (laterEnd compiledWorld).tools ∧
      ∀ crew : Crew Nat, ((laterHost compiledWorld).compile crew "/p.txt").run
        (laterEnd compiledWorld) = (.ok compiled, w)) ∧
    (((laterHost compiledWorld).compile smallCrew "/q.txt").run (laterEnd compiledWorld)).1 =
      .error (.notPrecompiled "/q.txt") := by
  have hafter : (laterEnd compiledWorld).volume.inspect (Path.ofText "/p.txt") =
      .ok (⟨"/", ["p.txt"]⟩, [97], 5) :=
    isSeen_laterEnd.inspects ("/p.txt", _, _, _) (List.mem_append_left _ List.mem_cons_self)
  have hother : (laterEnd compiledWorld).volume.inspect (Path.ofText "/q.txt") =
      .ok (⟨"/", ["q.txt"]⟩, [98], 5) :=
    isSeen_laterEnd.inspects ("/q.txt", _, _, _) (List.mem_append_right _ List.mem_cons_self)
  obtain ⟨⟨s, isFallback⟩, hselect⟩ := Option.isSome_iff_exists.mp laterRuns.2.2.1
  have hempty : ∀ name rest, smallWorld.volume.nodeAt? (["cache"] ++ name :: rest) = none := by
    intro name rest
    simp [smallWorld, nodeAt?, Keyed.find?, List.lookup_cons]
  have hnever : ¬ HasCompiled smallHost smallCrew .standard ["cache"] smallCalls
      s.transformer.space (Fingerprint.classify [98] ⟨"/", ["q.txt"]⟩ .standard) := by
    rintro ⟨call, hcall, real, bytes, s', r, hreturns, _, hhash, _⟩
    have hbytes : bytes = [97] := by
      obtain ⟨mtime, hinspect⟩ := hreturns.inspected
      rcases List.mem_cons.mp hcall with rfl | hcall
      · rw [inspect_triedWorld] at hinspect
        cases hinspect
        rfl
      · rw [List.mem_singleton.mp hcall, inspect_builtWorld] at hinspect
        cases hinspect
        rfl
    subst hbytes
    exact laterRuns.2.2.2 hhash
  have hserved := smallDeploys.faithful.1 (triedWorld, "/p.txt") (List.mem_cons_self ..)
    compiled ⟨"/", ["p.txt"]⟩ [97] 5 5 inspect_triedWorld returned_triedWorld hafter
    fun _ _ _ _ _ hv => absurd hv List.not_mem_nil
  have hrefused := smallDeploys.faithful.2 (laterHost_spec compiledWorld_builds).2 hempty "/q.txt"
    ⟨"/", ["q.txt"]⟩ [98] 5 hother fun _ _ _ _ _ hv => absurd hv List.not_mem_nil
  dsimp only at hserved
  exact ⟨hserved, hrefused.1 s isFallback hselect hnever⟩

/-! A change under the same size and time -/

/-- The file is changed between two calls, and has its size and its time of before. -/
def maskedWorld : World Nat :=
  { triedWorld with volume := triedWorld.volume.put ["p.txt"] (.file [98] 5) }

def maskedEnd : World Nat := ((smallHost.compile smallCrew "/p.txt").run maskedWorld).2

def maskedFile : List (String × Path × List UInt8 × Int) := [("/p.txt", ⟨"/", ["p.txt"]⟩, [98], 5)]

theorem maskedRuns : ((smallHost.compile smallCrew "/p.txt").run maskedWorld).1.toOption = some compiled ∧
    refusal? ((smallHost.compile smallCrew "/q.txt").run maskedEnd).1 = some (false, "/q.txt") ∧
    (maskedWorld.volume.inspect (Path.ofText "/p.txt")).toOption =
      some (⟨"/", ["p.txt"]⟩, [98], 5) ∧
    sees smallRoot ["cache"] maskedFile maskedEnd.volume = true ∧ maskedEnd.now = smallWorld.now ∧
    (smallHost.save.run maskedEnd).1.isOk = true ∧
    (laterBuild.run (laterWorld maskedEnd)).1.isOk = true ∧
    sees smallRoot ["cache"] maskedFile (laterEnd maskedEnd).volume = true ∧
    refusal? (((laterHost maskedEnd).compile smallCrew "/p.txt").run (laterEnd maskedEnd)).1 =
      some (true, "/p.txt") ∧
    refusal? (((laterHost maskedEnd).compile smallCrew "/q.txt").run (laterEnd maskedEnd)).1 =
      some (true, "/q.txt") := by
  decide +kernel

/-- The second call works on the content that the first one saw, and returns a result. The later host
takes the fingerprint of the present content, and finds nothing. Nor does it lack a transformer for a
file for which a transformer of the first host says that there is none. -/
theorem masked_change_refused :
    ((smallHost.compile smallCrew "/p.txt").run maskedWorld).1 = .ok compiled ∧
    ((smallHost.compile smallCrew "/q.txt").run maskedEnd).1 = .error (.noTransformer "/q.txt") ∧
    smallHost.save.run maskedEnd = (.ok (Work.left smallHost.save maskedEnd).1,
      (Work.left smallHost.save maskedEnd).2) ∧
    (buildReadOnly smallRoot 1 (pure smallSettings)).run (laterWorld maskedEnd) =
      (.ok (laterHost maskedEnd), laterEnd maskedEnd) ∧
    maskedWorld.volume.inspect (Path.ofText "/p.txt") = .ok (⟨"/", ["p.txt"]⟩, [98], 5) ∧
    (laterEnd maskedEnd).volume.inspect (Path.ofText "/p.txt") =
      .ok (⟨"/", ["p.txt"]⟩, [98], 5) ∧
    (((laterHost maskedEnd).compile smallCrew "/p.txt").run (laterEnd maskedEnd)).1 =
      .error (.notPrecompiled "/p.txt") ∧
    (((laterHost maskedEnd).compile smallCrew "/q.txt").run (laterEnd maskedEnd)).1 =
      .error (.notPrecompiled "/q.txt") := by
  obtain ⟨hfirst, hother, hmasked, hsees, hnow, hsaves, hbuilds, hafter, hrefused, hrefused'⟩ :=
    maskedRuns
  have hseen := IsSeen.of_sees hsees
  have hseen' := IsSeen.of_sees hafter
  obtain ⟨hsave, _, hrebuilt⟩ := later_run hseen.isRoot ⟨hnow, hseen.here⟩ hsaves hbuilds
  exact ⟨eq_ok_of_toOption hfirst, eq_noTransformer hother, hsave, hrebuilt, eq_ok_of_toOption hmasked,
    hseen'.inspects ("/p.txt", _, _, _) List.mem_cons_self, eq_notPrecompiled hrefused,
    eq_notPrecompiled hrefused'⟩

end Deploys

end AssetCompiler.Host
