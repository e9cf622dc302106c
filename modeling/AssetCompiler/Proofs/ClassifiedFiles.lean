import AssetCompiler.Classification
import AssetCompiler.Proofs.RealPaths
import AssetCompiler.Proofs.WellFormedBytes

/-!
What a file is taken for. It is binary if a zero byte stands near its beginning or its bytes are not
well formed, and has its whole text otherwise. Its bytes alone decide whether it is minified or has a
source map, its path alone decides the media type and whether it is vendored.
-/
namespace AssetCompiler

namespace Path

/-! Components -/

/-- A part of a text without slashes that begins and ends at slashes or where the text does. -/
structure IsPiece (piece text : List Char) : Prop where
  slash : '/' ∉ piece
  lies : ∃ before after, text = before ++ piece ++ after ∧
    (before = [] ∨ before.getLast? = some '/') ∧ (after = [] ∨ after.head? = some '/')

theorem isPiece_of_not_mem {piece s : List Char} (h : '/' ∉ s) : IsPiece piece s ↔ piece = s := by
  constructor
  · rintro ⟨-, before, after, rfl, hbefore, hafter⟩
    have hfront : before = [] := hbefore.resolve_right fun hlast =>
      h (List.mem_append_left _ (List.mem_append_left _ (List.mem_of_getLast? hlast)))
    have hend : after = [] := hafter.resolve_right fun hhead =>
      h (List.mem_append_right _ (List.mem_of_head? hhead))
    rw [hfront, hend, List.nil_append, List.append_nil]
  · rintro rfl
    exact ⟨h, [], [], by simp, Or.inl rfl, Or.inl rfl⟩

theorem isPiece_append {piece a b : List Char} (h : '/' ∉ a) :
    IsPiece piece (a ++ '/' :: b) ↔ piece = a ∨ IsPiece piece b := by
  constructor
  · rintro ⟨hslash, before, after, htext, hbefore, hafter⟩
    rcases List.eq_nil_or_concat' before with rfl | ⟨front, c, rfl⟩
    · -- The piece is at the beginning, so it ends where the first slash stands.
      left
      rw [List.nil_append] at htext
      rcases List.append_eq_append_iff.mp htext with ⟨more, hpiece, hrest⟩ | ⟨more, ha, hrest⟩
      · cases more with
        | nil => rw [hpiece, List.append_nil]
        | cons c more =>
          cases (List.cons.inj hrest).1
          exact absurd (hpiece ▸ List.mem_append_right _ List.mem_cons_self) hslash
      · cases more with
        | nil => rw [ha, List.append_nil]
        | cons c more =>
          rcases hafter with rfl | hhead
          · cases hrest
          · rw [hrest] at hhead
            cases hhead
            exact absurd (ha ▸ List.mem_append_right _ List.mem_cons_self) h
    · right
      simp only [List.append_eq_nil_iff, List.cons_ne_nil, and_false, List.getLast?_concat,
        Option.some.injEq, false_or] at hbefore
      subst hbefore
      rw [List.append_assoc, List.append_assoc, List.singleton_append] at htext
      rcases List.append_eq_append_iff.mp htext with ⟨more, hfront, hrest⟩ | ⟨more, ha, hrest⟩
      · cases more with
        | nil =>
          exact ⟨hslash, [], after, (List.cons.inj hrest).2, Or.inl rfl, hafter⟩
        | cons c more =>
          refine ⟨hslash, more ++ ['/'], after, ?_, Or.inr (by simp), hafter⟩
          rw [(List.cons.inj hrest).2]
          simp
      · cases more with
        | nil =>
          exact ⟨hslash, [], after, (List.cons.inj hrest).2.symm, Or.inl rfl, hafter⟩
        | cons c more =>
          cases (List.cons.inj hrest).1
          exact absurd (ha ▸ List.mem_append_right _ List.mem_cons_self) h
  · rintro (rfl | ⟨hslash, before, after, rfl, hbefore, hafter⟩)
    · exact ⟨h, [], '/' :: b, by simp, Or.inl rfl, Or.inr rfl⟩
    · refine ⟨hslash, a ++ '/' :: before, after, by simp, Or.inr ?_, hafter⟩
      rcases hbefore with rfl | hlast
      · simp
      · rw [List.getLast?_append, List.getLast?_cons, hlast]
        rfl

/-- The pieces of a text are what lies between its slashes. -/
theorem mem_pieces_iff {piece s : List Char} : piece ∈ pieces s ↔ IsPiece piece s := by
  induction hlength : s.length using Nat.strongRecOn generalizing s with
  | ind n ih =>
    by_cases hslash : '/' ∈ s
    · obtain ⟨a, b, rfl, ha⟩ := List.eq_append_cons_of_mem hslash
      have hshorter : b.length < n := by
        rw [← hlength, List.length_append, List.length_cons]
        omega
      rw [pieces_append ha, List.mem_cons, isPiece_append ha, ih _ hshorter rfl]
    · rw [pieces_of_not_mem hslash, List.mem_singleton, isPiece_of_not_mem hslash]

/-- A whole component of the path that a text names: a piece that is not empty and not a single dot, or
the slashes with which an absolute path begins. -/
def IsComponent (name file : String) : Prop :=
  name ≠ "" ∧ (name ≠ "." ∧ IsPiece name.toList file.toList ∨ name = rootOf file.toList)

theorem mem_components_iff {name file : String} :
    name ∈ (ofText file).components ↔ IsComponent name file := by
  have hparts : name ∈ (ofText file).parts ↔
      name ≠ "" ∧ name ≠ "." ∧ IsPiece name.toList file.toList := by
    change name ∈ List.filter _ _ ↔ _
    rw [List.mem_filter, List.mem_map, ← mem_pieces_iff]
    simp only [Bool.and_eq_true, bne_iff_ne, ne_eq]
    constructor
    · rintro ⟨⟨piece, hpiece, rfl⟩, hempty, hdot⟩
      exact ⟨hempty, hdot, by rwa [String.toList_ofList]⟩
    · rintro ⟨hempty, hdot, hpiece⟩
      exact ⟨⟨_, hpiece, String.ofList_toList⟩, hempty, hdot⟩
  unfold components isAbsolute IsComponent
  by_cases hroot : (ofText file).root = ""
  · rw [hroot, if_neg (by simp), hparts, show rootOf file.toList = "" from hroot]
    tauto
  · rw [if_pos (by simpa using hroot), List.mem_cons, hparts]
    change name = rootOf file.toList ∨ _ ↔ _
    have hname : name = rootOf file.toList → name ≠ "" := fun heq => heq ▸ hroot
    tauto

end Path

namespace Fingerprint

/-! Bytes -/

theorem sourceOf_eq_none_iff {bytes : List UInt8} :
    sourceOf bytes = none ↔ 0 ∈ bytes.take sniffedBytes ∨ ¬ Text.Utf8.IsWellFormed bytes := by
  unfold sourceOf
  split
  · rename_i hzero
    rw [List.contains_iff_mem] at hzero
    exact iff_of_true rfl (Or.inl hzero)
  · rename_i hzero
    rw [List.contains_iff_mem] at hzero
    rw [Text.Utf8.decode?_eq_none_iff, or_iff_right hzero]

/-- The text of a file has the bytes of the file. -/
theorem encode_of_sourceOf {bytes : List UInt8} {s : List Char} (h : sourceOf bytes = some s) :
    Text.Utf8.encode s = bytes := by
  unfold sourceOf at h
  split at h
  · cases h
  · exact Text.Utf8.decode?_eq_some_iff.mp h

theorem mem_take_iff {bytes : List UInt8} {b : UInt8} {n : Nat} :
    b ∈ bytes.take n ↔ ∃ i < n, bytes[i]? = some b := by
  rw [List.mem_iff_getElem?]
  refine exists_congr fun i => ?_
  rw [List.getElem?_take]
  by_cases hi : i < n <;> simp [hi]

/-! The classes of a file -/

/-- The classes of a file. It is binary if one of its first 512 bytes is zero or it is not well-formed
UTF-8, and only otherwise its text is there, with every byte of it. A binary file counts neither as minified
nor as having a source map. Whether a file does is decided by its bytes, and for minified code by the
limit; the media type is decided by the path, and vendored is what has one of the names among the
components of its path. -/
theorem classify_spec (bytes : List UInt8) (file : String) (options : ClassifyOptions) :
    ((classify bytes (Path.ofText file) options).isBinary = true ↔
      (∃ n < 512, bytes[n]? = some 0) ∨ ¬ Text.Utf8.IsWellFormed bytes) ∧
    ((classify bytes (Path.ofText file) options).source.isSome = true ↔
      (classify bytes (Path.ofText file) options).isBinary = false) ∧
    (∀ s, (classify bytes (Path.ofText file) options).source = some s →
      Text.Utf8.ofString s = bytes) ∧
    ((classify bytes (Path.ofText file) options).isBinary = true →
      (classify bytes (Path.ofText file) options).isMinified = false ∧
      (classify bytes (Path.ofText file) options).hasSourceMap = false) ∧
    (∀ file' options', options'.lineLength = options.lineLength →
      (classify bytes (Path.ofText file') options').isMinified =
        (classify bytes (Path.ofText file) options).isMinified) ∧
    (∀ file' options', (classify bytes (Path.ofText file') options').hasSourceMap =
      (classify bytes (Path.ofText file) options).hasSourceMap) ∧
    (∀ bytes' options', (classify bytes' (Path.ofText file) options').mediaType =
      (classify bytes (Path.ofText file) options).mediaType) ∧
    (∀ bytes' options', options'.vendoredNames = options.vendoredNames →
      (classify bytes' (Path.ofText file) options').isVendored =
        (classify bytes (Path.ofText file) options).isVendored) ∧
    ((classify bytes (Path.ofText file) options).isVendored = true ↔
      ∃ name ∈ options.vendoredNames, Path.IsComponent name file) := by
  have hbinary : (classify bytes (Path.ofText file) options).isBinary = true ↔
      sourceOf bytes = none := Option.isNone_iff_eq_none
  refine ⟨?_, ?_, ?_, ?_, ?_, ?_, ?_, ?_, ?_⟩
  · rw [hbinary, sourceOf_eq_none_iff, mem_take_iff]
    rfl
  · rw [← Bool.not_eq_true, hbinary]
    change ((sourceOf bytes).map String.ofList).isSome = true ↔ _
    rw [Option.isSome_map, ← ne_eq, Option.isSome_iff_ne_none]
  · intro s hs
    obtain ⟨text, htext, rfl⟩ := Option.map_eq_some_iff.mp hs
    rw [Text.Utf8.ofString, String.toList_ofList, encode_of_sourceOf htext]
  · intro h
    rw [hbinary] at h
    unfold classify
    simp only [h]
    exact ⟨rfl, rfl⟩
  · intro file' options' hlimit
    unfold classify
    simp only [hlimit]
  · exact fun _ _ => rfl
  · exact fun _ _ => rfl
  · intro bytes' options' hnames
    unfold classify
    simp only [hnames]
  · unfold classify isVendoredPath
    simp only [List.any_eq_true, List.contains_iff_mem, Path.mem_components_iff]

/-- The zero of a longer file, just within the part that is looked at and just behind it. -/
example :
    (classify (List.replicate 511 65 ++ [0]) (Path.ofText "a.txt") .standard).isBinary = true ∧
    (classify (List.replicate 512 65 ++ [0]) (Path.ofText "a.txt") .standard).isBinary = false := by
  decide +kernel

end Fingerprint
end AssetCompiler
