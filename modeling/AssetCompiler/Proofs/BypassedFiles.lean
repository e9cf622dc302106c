import AssetCompiler.Proofs.Consultations
import AssetCompiler.Proofs.Deployments
import AssetCompiler.Proofs.SteadyCrews
import AssetCompiler.Proofs.Tenancies
import AssetCompiler.Proofs.WrittenText

/-!
Files that are served as they are. The passthrough declines them, nobody else is consulted, and the result
is the text of the file under the type that its name shows. A text with a zero character near its beginning
counts as binary and is read anew, which unifies its line ends.
-/
namespace AssetCompiler

namespace Fingerprint

/-- A zero byte near the beginning. -/
def hasEarlyZero (bytes : List UInt8) : Bool := (bytes.take sniffedBytes).contains 0

theorem sourceOf_encode (text : List Char) : sourceOf (Text.Utf8.encode text) =
    if hasEarlyZero (Text.Utf8.encode text) then none else some text := by
  unfold sourceOf hasEarlyZero
  rw [Text.Utf8.decode?_encode]

/-- The text as which a file with this text is served. -/
def servedText (text : List Char) : List Char :=
  if hasEarlyZero (Text.Utf8.encode text) then Text.unifyLineEnds text else text

/-- A text without carriage returns, or without a zero near its beginning, is served as it is. -/
theorem servedText_eq_self {text : List Char}
    (h : '\r' ∉ text ∨ hasEarlyZero (Text.Utf8.encode text) = false) : servedText text = text := by
  unfold servedText
  rcases h with hreturn | hzero
  · rw [Text.unifyLineEnds_of_not_mem text hreturn, ite_self]
  · rw [hzero]
    rfl

end Fingerprint

/-- The media type that a file name shows, or else the one that a path to the file shows, or else that of plain
text. -/
def MediaType.ofNames (real p : Path) : String :=
  ((MediaType.ofPath real).or (MediaType.ofPath p)).getD MediaType.plainText

/-- A media type has a slash, so it is not empty. -/
theorem MediaType.isEmpty_of_known {t : String} (h : t ∈ MediaType.known) : t.isEmpty = false := by
  have hpart := (MediaType.ofKeyPart_known t.toList (List.mem_map_of_mem h)).1
  cases hempty : t.isEmpty with
  | false => rfl
  | true =>
    rw [String.isEmpty_iff] at hempty
    subst hempty
    cases hpart

namespace Reduction

variable {σ : Type} {text : List Char} {real : Path} {options : ClassifyOptions}

theorem inputType_classify (file : String) (bytes : List UInt8) (hreal : AreProper real.parts) :
    (inputType file (Fingerprint.classify bytes real options)).getD MediaType.plainText =
      MediaType.ofNames real (Path.ofText file) := by
  have hmedia : (Fingerprint.classify bytes real options).mediaType = MediaType.ofPath real := rfl
  unfold MediaType.ofNames inputType Fingerprint.typeOr
  rw [hmedia]
  cases htype : MediaType.ofPath real with
  | none => simp only [Option.none_or]
  | some t =>
    simp [MediaType.isEmpty_of_known (MediaType.ofPath_known hreal htype)]

/-- The code of a file is the text as which it is served. -/
theorem source_classify {v : Volume} {file : String}
    (hread : v.read (Path.ofText file) = .ok (Text.Utf8.encode text)) :
    Source v file (Fingerprint.classify (Text.Utf8.encode text) real options)
      (String.ofList (Fingerprint.servedText text)) := by
  have hsource : (Fingerprint.classify (Text.Utf8.encode text) real options).source =
      (Fingerprint.sourceOf (Text.Utf8.encode text)).map String.ofList := rfl
  rw [Fingerprint.sourceOf_encode] at hsource
  unfold Fingerprint.servedText
  cases hzero : Fingerprint.hasEarlyZero (Text.Utf8.encode text) with
  | false =>
    rw [hzero] at hsource
    exact .carried _ hsource
  | true =>
    rw [hzero] at hsource
    refine .text _ hsource ?_
    unfold Volume.readTextLossy
    rw [hread]
    exact congrArg (fun s => Except.ok (Text.unifyLineEnds s)) (Text.Utf8.decodeLossy_encode text)

/-- A source is what a reduction works on. -/
theorem Source.course {v : Volume} {file code : String} {i : Fingerprint}
    (h : Source v file i code) (crew : Crew σ) (rest : String → Reduction) (s : σ) :
    (withSource i file rest).course crew v s = (rest code).course crew v s := by
  unfold withSource
  cases h with
  | carried _ given => rw [given]
  | text cs none found =>
    rw [none]
    simp only [Reduction.course, found]
    rfl

/-- The passthrough is asked once, and declines. -/
theorem course_of_passthrough (crew : Crew σ) (next? : Option String → Option Transformer)
    {limit : Int} (hlimit : 0 < limit) {v : Volume} {file code : String} {i : Fingerprint}
    (hsource : Source v file i code) {t : Transformer} (hform : t.form = .passthrough) (s : σ) :
    (ofFile next? limit file i t).course crew v s =
      ⟨[⟨Frame.call ⟨file, t, 0, inputType file i, code⟩ .accepts [], ⟨.ok (.bool false), []⟩⟩],
        .ok (.ofContent code ((inputType file i).getD MediaType.plainText) []), s⟩ := by
  obtain ⟨left, hleft⟩ : ∃ left, limit.toNat = left + 1 := ⟨limit.toNat - 1, by omega⟩
  have hdeclines : crew.answer (Frame.call ⟨file, t, 0, inputType file i, code⟩ .accepts []) s =
      (⟨.ok (.bool false), []⟩, s) := by
    unfold Crew.answer
    rw [Call.ownAnswer?_passthrough (by exact hform) rfl]
    rfl
  unfold ofFile
  rw [hleft, passes, hsource.course crew _ s, course_asking, hdeclines]
  rfl

end Reduction

namespace Host

section Compiling

variable {σ : Type} {h : Host} {options : ClassifyOptions} {past : List Volume} {w : World σ}
variable {file : String} {real : Path} {text : List Char} {mtime : Int} {s : Slot Cache}

/-- What a full compilation comes to whose slot is that of a passthrough: the passthrough is asked whether it
takes the file, and nothing else is asked of anybody. -/
theorem compileFull_of_passthrough (crew : Crew σ) (hlimit : 0 < h.settings.maxPasses)
    (hform : s.transformer.form = .passthrough) {i : Fingerprint} {w₁ : World σ} {code : String}
    (hlooks : h.Looks options past w w₁)
    (hopen : (h.openFull file).run w = (.ok (.shared s.id (h.errandFor file i s)), w₁))
    (hsource : Reduction.Source w.volume file i code)
    (hlacks : s.cache.store.Lacks w.volume i.cacheKey) :
    let a := Artifact.ofContent code ((Reduction.inputType file i).getD MediaType.plainText) []
    ((h.compileFull crew file).run w).1 =
        ((s.cache.store.put i.cacheKey (Entry.ofArtifact w.now i.cacheKey s.cache.space a)).run
          w.volume).1.map (fun _ => a) ∧
      exchangesOf crew (h.openFull file) w =
        [⟨Reduction.Frame.call ⟨file, s.transformer, 0, Reduction.inputType file i, code⟩ .accepts [],
          ⟨.ok (.bool false), []⟩⟩] := by
  intro a
  have hvolume : w₁.volume = w.volume := congrArg Prod.fst hlooks.setting
  have hnow : w₁.now = w.now := congrArg (fun x => x.2.2.1) hlooks.setting
  rw [← hvolume] at hsource hlacks
  have hcourse := Reduction.course_of_passthrough crew h.next? hlimit hsource hform w₁.tools
  change ((h.errandFor file i s).work).course crew w₁.volume w₁.tools = _ at hcourse
  obtain ⟨journal, hwork⟩ := Reduction.run_eq_course crew (h.errandFor file i s).work w₁
  rw [hcourse] at hwork
  constructor
  · have hends := (h.errandFor file i s).run_of_lacks crew (w := w₁) hlacks fun a' ha' => by
      rw [hwork] at ha'
      cases ha'
      rfl
    rw [hwork] at hends
    unfold compileFull
    rw [Action.run_bind_ok hopen, ← hvolume, ← hnow]
    exact hends.1
  · unfold exchangesOf Errand.exchanges
    rw [hopen]
    simp only
    rw [Errand.run_stored?_of_lacks hlacks, hcourse]

/-- A file that is bypassed is returned as the text as which it is served, under the type that its names
show and without dependencies; the passthrough is asked whether it takes the file, and nothing else is asked
of anybody. All that can go wrong is that the result cannot be stored. -/
theorem compileFull_bypassed (crew : Crew σ) (htidy : h.IsTidy) (hlimit : 0 < h.settings.maxPasses)
    (hslot : h.registry.passthrough? = some s) (hform : s.transformer.form = .passthrough)
    (hrecalls : w.Recalls h.desk options past) (hhere : ∀ v ∈ w.volume :: past, AreProper v.here)
    (hinspect : w.volume.inspect (Path.ofText file) = .ok (real, Text.Utf8.encode text, mtime))
    (htold : Volume.IsTold past real (Text.Utf8.encode text) mtime)
    (hread : w.volume.read (Path.ofText file) = .ok (Text.Utf8.encode text))
    (hbypassed : (Fingerprint.classify (Text.Utf8.encode text) real options).isBypassed = true)
    (hlacks : s.cache.store.Lacks w.volume
      (Fingerprint.classify (Text.Utf8.encode text) real options).cacheKey) :
    let key := (Fingerprint.classify (Text.Utf8.encode text) real options).cacheKey
    let a := Artifact.ofContent (String.ofList (Fingerprint.servedText text))
      (MediaType.ofNames real (Path.ofText file)) []
    ((h.compileFull crew file).run w).1 =
        ((s.cache.store.put key (Entry.ofArtifact w.now key s.cache.space a)).run w.volume).1.map
          (fun _ => a) ∧
      ∃ call : Call, exchangesOf crew (h.openFull file) w = [⟨call, ⟨.ok (.bool false), []⟩⟩] ∧
        call.transformer = s.transformer ∧ call.question = .accepts := by
  have hreal : AreProper real.parts :=
    (Volume.realPath_ok (hhere _ (List.mem_cons_self ..)) (Path.areProper_ofText file)
      (Volume.inspect_ok.mp hinspect).1).2
  have hsource : Reduction.Source w.volume file
      (Fingerprint.classify (Text.Utf8.encode text) real options)
      (String.ofList (Fingerprint.servedText text)) := Reduction.source_classify hread
  have htype : (Reduction.inputType file (Fingerprint.classify (Text.Utf8.encode text) real
      options)).getD MediaType.plainText = MediaType.ofNames real (Path.ofText file) :=
    Reduction.inputType_classify file (Text.Utf8.encode text) hreal
  obtain ⟨i, w₁, hsees, hlooks, hopen⟩ := run_openFull htidy hrecalls hhere hinspect
  have hright := hsees.right htold
  rw [← hright] at hsource htype hbypassed hlacks ⊢
  have hselect : h.registry.select? (Path.ofText file) i = some (s, false) := by
    unfold Registry.select?
    rw [if_pos hbypassed, hslot]
  rw [hselect] at hopen
  obtain ⟨hends, hasked⟩ := compileFull_of_passthrough crew hlimit hform hlooks hopen hsource hlacks
  rw [htype] at hends
  exact ⟨hends, _, hasked, rfl, rfl⟩

/-- A host that is built over a fresh fingerprinter remembers nothing yet. -/
theorem isBuilt_and_recalls {root q : Path} {types : List (String × Transformer)} {desk : Nat}
    {mode : Option Bool} {fallback : Option Transformer} {settings : Settings} {w' : World σ}
    (hrun : (build root types desk mode fallback settings).run w = (.ok h, w'))
    (hroot : root.expandHome? (w.environment.lookup "HOME") = some q)
    (hdesk : Keyed.find? desk w.desks = some (.fresh options)) :
    h.IsBuilt root q types desk mode fallback settings ∧ w'.Recalls h.desk options [] := by
  obtain ⟨hbuilt, -, hsetting, -⟩ := build_ok hrun hroot
  have hdesks : w'.desks = w.desks := congrArg (fun x => x.2.1) hsetting
  refine ⟨hbuilt, World.recalls_fresh ?_⟩
  rw [hdesks, hbuilt.desk, hdesk]

end Compiling

/-! A zero character and a line end of two characters -/

namespace Zero

open Deploys (smallRoot smallSettings smallWorld smallCrew)

def text : List Char := [Char.ofNat 0, '\r', '\n']

def path : Path := ⟨"/", ["z.txt"]⟩

def world : World Nat := { smallWorld with volume := ⟨[(["z.txt"], .file [0, 13, 10] 5)], [], 0⟩ }

def build : Work Nat Host :=
  Host.build smallRoot [(MediaType.plainText, .passthrough 0)] 0 none none smallSettings

def host : Host := (Work.left build world).1

def built : World Nat := (Work.left build world).2

def slot : Slot Cache := host.registry.passthrough?.getD default

def print : Fingerprint := .classify (Text.Utf8.encode text) path .standard

/-- The type and the dependencies are those of the file, the text is another one. -/
def served : Artifact := ⟨some ⟨String.ofList [Char.ofNat 0, '\n'], MediaType.plainText⟩, []⟩

def isAbsent : Except Failure Lookup → Bool
  | .ok .absent => true
  | _ => false

theorem eq_absent {r : Except Failure Lookup} (h : isAbsent r = true) : r = .ok .absent := by
  unfold isAbsent at h
  split at h
  · rfl
  · cases h

def files : List (String × Path × List UInt8 × Int) :=
  [("/z.txt", path, Text.Utf8.encode text, 5)]

/-- The host is built and sees the file, nothing of which is stored yet, and can store what is
served. -/
theorem computed : (build.run world).1.isOk = true ∧
    Volume.sees smallRoot ["cache"] files built.volume = true ∧
    0 < host.settings.maxPasses ∧ host.registry.passthrough?.isSome = true ∧
    slot.transformer.form = .passthrough ∧
    (built.volume.read (Path.ofText "/z.txt")).toOption = some (Text.Utf8.encode text) ∧
    isAbsent ((slot.cache.store.get default print.cacheKey).run built.volume).1 = true ∧
    ((slot.cache.store.put print.cacheKey (Entry.ofArtifact built.now print.cacheKey slot.cache.space
      served)).run built.volume).1.toOption = some () ∧
    ((host.compileFull smallCrew "/z.txt").run built).1.toOption = some served := by
  decide +kernel

theorem build_run : build.run world = (.ok host, built) := Work.run_eq_left computed.1

theorem isSeen_built : Volume.IsSeen smallRoot ["cache"] files built.volume := .of_sees computed.2.1

theorem maxPasses_pos : 0 < host.settings.maxPasses := computed.2.2.1

theorem form_slot : slot.transformer.form = .passthrough := computed.2.2.2.2.1

theorem built_spec : host.IsBuilt smallRoot smallRoot [(MediaType.plainText, .passthrough 0)] 0 none none
      smallSettings ∧ built.Recalls host.desk .standard [] :=
  isBuilt_and_recalls build_run (Deploys.expandHome?_smallRoot _) rfl

theorem eq_some_getD {α : Type} [Inhabited α] {o : Option α} (h : o.isSome = true) :
    o = some (o.getD default) := by
  cases o with
  | none => cases h
  | some a => rfl

theorem passthrough?_host : host.registry.passthrough? = some slot :=
  eq_some_getD computed.2.2.2.1

theorem read_built : built.volume.read (Path.ofText "/z.txt") = .ok (Text.Utf8.encode text) :=
  eq_ok_of_toOption computed.2.2.2.2.2.1

/-- Nothing is stored yet. -/
theorem lacks_built : slot.cache.store.Lacks built.volume print.cacheKey :=
  Store.lacks_of_get default (Or.inl (eq_absent computed.2.2.2.2.2.2.1))

theorem ofContent_servedText : Artifact.ofContent (String.ofList (Fingerprint.servedText text))
    (MediaType.ofNames path (Path.ofText "/z.txt")) [] = served := by decide

theorem put_served : ((slot.cache.store.put print.cacheKey (Entry.ofArtifact built.now print.cacheKey
    slot.cache.space served)).run built.volume).1 = .ok () :=
  eq_ok_of_toOption computed.2.2.2.2.2.2.2.1

end Zero

/-- The line end is lost, since the zero character makes the file a binary one. -/
theorem compileFull_bypassed_zero :
    ((Zero.host.compileFull Deploys.smallCrew "/z.txt").run Zero.built).1 = .ok Zero.served ∧
      (exchangesOf Deploys.smallCrew (Zero.host.openFull "/z.txt") Zero.built).length = 1 := by
  have hinspect : Zero.built.volume.inspect (Path.ofText "/z.txt") =
      .ok (Zero.path, Text.Utf8.encode Zero.text, 5) :=
    Zero.isSeen_built.inspects ("/z.txt", _, _, _) List.mem_cons_self
  have hbypassed : Zero.print.isBypassed = true := by decide
  have hlacks := Zero.lacks_built
  have hput := Zero.put_served
  unfold Zero.print at hbypassed hlacks hput
  obtain ⟨hends, call, hasked, -⟩ := compileFull_bypassed Deploys.smallCrew
    Zero.built_spec.1.isTidy Zero.maxPasses_pos Zero.passthrough?_host Zero.form_slot Zero.built_spec.2
    (by simp [Zero.isSeen_built.here, AreProper]) hinspect nofun Zero.read_built hbypassed hlacks
  refine ⟨?_, by rw [hasked]; rfl⟩
  rw [hends, Zero.ofContent_servedText, hput]
  rfl

/-- The text is well formed and the file is bypassed, yet another text is returned. -/
theorem compileFull_changes_text :
    Zero.built.volume.read (Path.ofText "/z.txt") = .ok (Text.Utf8.encode Zero.text) ∧
    Zero.print.isBypassed = true ∧ Zero.host.registry.passthrough? = some Zero.slot ∧
    Zero.slot.transformer.form = .passthrough ∧
    ((Zero.host.compileFull Deploys.smallCrew "/z.txt").run Zero.built).1 = .ok Zero.served ∧
    Zero.served ≠ .ofContent (String.ofList Zero.text) MediaType.plainText [] := by
  obtain ⟨-, -, -, -, -, -, -, -, hserved⟩ := Zero.computed
  exact ⟨Zero.read_built, by decide, Zero.passthrough?_host, Zero.form_slot, eq_ok_of_toOption hserved,
    by decide⟩

end Host
end AssetCompiler
