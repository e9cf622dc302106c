import AssetCompiler.Proofs.CacheKeys

/-!
When keys agree. A key is a hash and what is left of a media type when its special characters are blotted out;
for the media types that file names show, nothing that tells them apart is lost. Keys that differ stay apart as
names of files and as keys of rows.
-/
namespace AssetCompiler

/-- The characters that a media type keeps in a key: Latin letters, digits, points and hyphens. -/
def IsKept (c : Char) : Prop :=
  ('A' ≤ c ∧ c ≤ 'Z') ∨ ('a' ≤ c ∧ c ≤ 'z') ∨ ('0' ≤ c ∧ c ≤ '9') ∨ c = '.' ∨ c = '-'

instance (c : Char) : Decidable (IsKept c) := by
  unfold IsKept
  infer_instance

/-- A text with a low line in the place of every other character. -/
def blotted (text : String) : List Char := text.toList.map fun c => if IsKept c then c else '_'

namespace Fingerprint

theorem isKeyChar_iff (c : Char) : isKeyChar c = true ↔ IsKept c := by
  unfold isKeyChar Char.isAlphanum Char.isAlpha Char.isUpper Char.isLower Char.isDigit
  simp only [Bool.or_eq_true, Bool.and_eq_true, decide_eq_true_eq, IsKept, or_assoc]
  rfl

theorem toList_keyPart (mediaType : String) : (keyPart mediaType).toList = blotted mediaType := by
  simp only [keyPart, blotted, String.toList_ofList, isKeyChar_iff]

/-- What follows the hash tells whether there is a media type, and what is left of it. -/
theorem keyRest_eq_iff {i i' : Fingerprint} : i.keyRest = i'.keyRest ↔
    Option.Rel (fun t t' => blotted t = blotted t') i.mediaType i'.mediaType := by
  unfold keyRest
  cases i.mediaType with
  | none =>
    cases i'.mediaType with
    | none => exact iff_of_true rfl .none
    | some t' => exact iff_of_false nofun nofun
  | some t =>
    cases i'.mediaType with
    | none => exact iff_of_false nofun nofun
    | some t' =>
      rw [List.cons_inj_right, toList_keyPart, toList_keyPart]
      exact ⟨fun h => .some h, fun | .some h => h⟩

/-- Keys agree if the hashes do, and the media types do but for the characters that are blotted out. -/
theorem IsHashed.cacheKey_eq_iff {i i' : Fingerprint} (hi : i.IsHashed) (hi' : i'.IsHashed) :
    i.cacheKey = i'.cacheKey ↔ i.hash = i'.hash ∧
      Option.Rel (fun t t' => blotted t = blotted t') i.mediaType i'.mediaType := by
  rw [← keyRest_eq_iff]
  constructor
  · intro hkeys
    have hhash : i.hash = i'.hash := by
      apply String.toList_inj.mp
      rw [← hi.takeWhile_cacheKey, ← hi'.takeWhile_cacheKey, hkeys]
    refine ⟨hhash, ?_⟩
    have hlists := congrArg String.toList hkeys
    rw [toList_cacheKey, toList_cacheKey, hhash] at hlists
    exact List.append_cancel_left hlists
  · rintro ⟨hhash, hrest⟩
    apply String.toList_inj.mp
    rw [toList_cacheKey, toList_cacheKey, hhash, hrest]

theorem isPlain_ofText (bytes : List UInt8) (path : String) (options : ClassifyOptions) :
    (classify bytes (Path.ofText path) options).IsPlain :=
  isPlain_classify bytes (Path.areProper_ofText path) options

/-- Keys of classified files agree if hashes and media types do, and keys that differ name different files and
different rows. Keys of other hashes and media types agree if the hashes do, and the media types do but for the
characters that are blotted out. -/
theorem cacheKey_identifies :
    (∀ (bytes bytes' : List UInt8) (path path' : String) (options options' : ClassifyOptions),
      let i := classify bytes (Path.ofText path) options
      let i' := classify bytes' (Path.ofText path') options'
      (i.cacheKey = i'.cacheKey ↔ i.hash = i'.hash ∧ i.mediaType = i'.mediaType) ∧
      (i.cacheKey ≠ i'.cacheKey →
        (∀ root, Store.entryPath root i.cacheKey ≠ Store.entryPath root i'.cacheKey) ∧
        Store.fileName i.cacheKey ≠ Store.fileName i'.cacheKey ∧
        ∀ space row, Store.isRow space i.cacheKey row = true →
          Store.isRow space i'.cacheKey row = false)) ∧
    ∀ i i' : Fingerprint, i.IsHashed → i'.IsHashed →
      (i.cacheKey = i'.cacheKey ↔ i.hash = i'.hash ∧
        Option.Rel (fun t t' => blotted t = blotted t') i.mediaType i'.mediaType) := by
  refine ⟨fun bytes bytes' path path' options options' => ?_, fun i i' => IsHashed.cacheKey_eq_iff⟩
  have hi := isPlain_ofText bytes path options
  have hi' := isPlain_ofText bytes' path' options'
  generalize classify bytes (Path.ofText path) options = i at hi
  generalize classify bytes' (Path.ofText path') options' = i' at hi'
  refine ⟨⟨hi.of_cacheKey hi', ?_⟩, fun hne => ?_⟩
  · rintro ⟨hhash, htype⟩
    unfold cacheKey
    rw [hhash, htype]
  · have hnames : Store.fileName i.cacheKey ≠ Store.fileName i'.cacheKey := by
      intro heq
      have hslots : (Store.folder default default).slotOf i'.cacheKey =
          (Store.folder default default).slotOf i.cacheKey := heq.symm
      exact hne (Store.cacheKey_of_slotOf hi hi' hslots).symm
    refine ⟨fun root heq => ?_, hnames, fun space row hrow => ?_⟩
    · rw [Store.entryPath, Store.entryPath, ← Store.fileName, ← Store.fileName,
        (Store.isName_fileName _).child, (Store.isName_fileName _).child] at heq
      have hparts : root.parts ++ [Store.fileName i.cacheKey] =
          root.parts ++ [Store.fileName i'.cacheKey] := congrArg Path.parts heq
      exact hnames (List.singleton_inj.mp (List.append_cancel_left hparts))
    · simp only [Store.isRow, Bool.and_eq_true, beq_iff_eq] at hrow
      rw [Store.isRow, hrow.2, beq_eq_false_iff_ne.mpr hne, Bool.and_false]

/-- A file whose hash has one letter throughout. -/
def typed (mediaType : Option String) : Fingerprint :=
  ⟨String.ofList (List.replicate 64 'a'), none, mediaType, false, false, false, false⟩

theorem toList_hash_typed (mediaType : Option String) :
    (typed mediaType).hash.toList = List.replicate 64 'a' := String.toList_ofList

theorem typed_isHashed (mediaType : Option String) : (typed mediaType).IsHashed where
  length := by rw [toList_hash_typed, List.length_replicate]
  hash c hc := by
    rw [toList_hash_typed] at hc
    rw [List.eq_of_mem_replicate hc]
    rfl

/-- A plus sign and a low line are not told apart, unlike a type and no type. -/
theorem cacheKey_identifies_typed :
    ((typed (some "text/a+b")).IsHashed ∧ (typed (some "text/a_b")).IsHashed ∧
      (typed (some "text/a+b")).cacheKey = (typed (some "text/a_b")).cacheKey) ∧
    (typed none).IsHashed ∧ (typed (some "text/a+b")).cacheKey ≠ (typed none).cacheKey := by
  have hplus := typed_isHashed (some "text/a+b")
  have hline := typed_isHashed (some "text/a_b")
  have hnone := typed_isHashed none
  obtain ⟨-, hkeys⟩ := cacheKey_identifies
  refine ⟨⟨hplus, hline, ?_⟩, hnone, fun heq => ?_⟩
  · have hhash : (typed (some "text/a+b")).hash = (typed (some "text/a_b")).hash := by
      rw [← String.toList_inj, toList_hash_typed, toList_hash_typed]
    exact (hkeys _ _ hplus hline).mpr ⟨hhash, .some (by decide)⟩
  · have hrel := ((hkeys _ _ hplus hnone).mp heq).2
    exact (nomatch hrel)

end Fingerprint
end AssetCompiler
