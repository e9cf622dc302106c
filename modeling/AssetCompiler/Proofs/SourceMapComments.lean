import AssetCompiler.Classification

/-!
Comments that name a source map. Code has a source map just if such a comment lies within its last 512
characters; so what stands before these does not matter, and shorter code keeps its comment behind
anything that still fits.
-/
namespace AssetCompiler.Fingerprint

/-- A comment that names a source map, up to its address: two signs that open a comment, a mark, any
number of blanks, and the word that the address follows. -/
def IsMapComment (m : List Char) : Prop :=
  ∃ opening mark blanks, (opening = ['/', '/'] ∨ opening = ['/', '*']) ∧ (mark = '#' ∨ mark = '@') ∧
    (∀ c ∈ blanks, Text.isBlank c = true) ∧
    m = opening ++ mark :: (blanks ++ "sourceMappingURL=".toList)

theorem IsMapComment.ne_nil {m : List Char} (h : IsMapComment m) : m ≠ [] := by
  obtain ⟨opening, mark, blanks, -, -, -, rfl⟩ := h
  simp

theorem dropWhile_addressMark (rest : List Char) :
    (addressMark ++ rest).dropWhile Text.isBlank = addressMark ++ rest := by
  change List.dropWhile Text.isBlank ('s' :: _) = 's' :: _
  exact List.dropWhile_cons_of_neg (by decide)

/-- Passing over all blanks finds the word behind any number of them. -/
theorem addressMark_isPrefixOf_iff {rest : List Char} :
    addressMark.isPrefixOf (rest.dropWhile Text.isBlank) = true ↔
      ∃ blanks, (∀ c ∈ blanks, Text.isBlank c = true) ∧ blanks ++ addressMark <+: rest := by
  rw [List.isPrefixOf_iff_prefix]
  constructor
  · rintro ⟨later, hlater⟩
    refine ⟨rest.takeWhile Text.isBlank, fun c hc => ?_, later, ?_⟩
    · exact List.all_eq_true.mp List.all_takeWhile c hc
    · rw [List.append_assoc, hlater, List.takeWhile_append_dropWhile]
  · rintro ⟨blanks, hblanks, later, rfl⟩
    rw [List.append_assoc, List.dropWhile_append_of_pos hblanks, dropWhile_addressMark]
    exact List.prefix_append _ _

theorem beginsMapComment_iff {s : List Char} :
    beginsMapComment s = true ↔ ∃ m, IsMapComment m ∧ m <+: s := by
  constructor
  · intro h
    unfold beginsMapComment at h
    split at h
    · rename_i a b c rest
      simp only [Bool.and_eq_true, Bool.or_eq_true, decide_eq_true_eq, addressMark_isPrefixOf_iff] at h
      obtain ⟨⟨⟨rfl, hsecond⟩, hmark⟩, blanks, hblanks, later, rfl⟩ := h
      refine ⟨'/' :: b :: c :: (blanks ++ addressMark), ⟨['/', b], c, blanks, ?_, hmark, hblanks, rfl⟩, later, rfl⟩
      rcases hsecond with rfl | rfl
      · exact Or.inl rfl
      · exact Or.inr rfl
    · cases h
  · rintro ⟨m, ⟨opening, mark, blanks, hopening, hmark, hblanks, rfl⟩, later, rfl⟩
    have haddress : addressMark.isPrefixOf ((blanks ++ addressMark ++ later).dropWhile Text.isBlank) = true :=
      addressMark_isPrefixOf_iff.mpr ⟨blanks, hblanks, later, rfl⟩
    rcases hopening with rfl | rfl <;> rcases hmark with rfl | rfl <;> exact haddress

theorem holdsMapComment_iff {s : List Char} :
    holdsMapComment s = true ↔ ∃ m, IsMapComment m ∧ m <:+: s := by
  induction s with
  | nil =>
    constructor
    · intro h
      cases h
    · rintro ⟨m, hm, hinfix⟩
      exact absurd (List.eq_nil_of_infix_nil hinfix) hm.ne_nil
  | cons c rest ih =>
    rw [holdsMapComment, Bool.or_eq_true, beginsMapComment_iff, ih, ← exists_or]
    refine exists_congr fun m => ?_
    rw [← and_or_left, List.infix_cons_iff]

/-! The end of a text -/

theorem length_lastChars (n : Nat) (s : List Char) : (lastChars n s).length = min n s.length := by
  rw [lastChars, List.length_drop]
  omega

theorem lastChars_eq_of_append {n : Nat} {front tail : List Char}
    (h : tail.length = min n (front ++ tail).length) : lastChars n (front ++ tail) = tail := by
  have hlength : (front ++ tail).length - n = front.length := by
    rw [List.length_append] at h ⊢
    omega
  rw [lastChars, hlength, List.drop_left]

theorem lastChars_append {n : Nat} {s : List Char} (h : n ≤ s.length) (front : List Char) :
    lastChars n (front ++ s) = lastChars n s := by
  rw [lastChars, lastChars, List.length_append, Nat.add_sub_assoc h, List.drop_length_add_append]

theorem lastChars_of_length_le {n : Nat} {s : List Char} (h : s.length ≤ n) : lastChars n s = s := by
  rw [lastChars, Nat.sub_eq_zero_of_le h, List.drop_zero]

/-- Code has a source map just if a comment that names one lies within its last 512 characters, or
within the whole of shorter code. So nothing that is put before 512 characters matters, and a comment
that is there stays as long as all fits in 512 characters. -/
theorem source_map_named (s : List Char) :
    (hasSourceMapText s = true ↔ ∃ front tail m, s = front ++ tail ∧ tail.length = min 512 s.length ∧
      IsMapComment m ∧ m <:+: tail) ∧
    (512 ≤ s.length → ∀ front, hasSourceMapText (front ++ s) = hasSourceMapText s) ∧
    (∀ front, (front ++ s).length ≤ 512 → hasSourceMapText s = true →
      hasSourceMapText (front ++ s) = true) := by
  have hfound (s : List Char) : hasSourceMapText s = true ↔ ∃ m, IsMapComment m ∧ m <:+: lastChars 512 s :=
    holdsMapComment_iff
  refine ⟨?_, fun hlong front => ?_, fun front hshort h => ?_⟩
  · rw [hfound]
    constructor
    · rintro ⟨m, hm, hinfix⟩
      exact ⟨s.take (s.length - 512), lastChars 512 s, m, (List.take_append_drop _ s).symm,
        length_lastChars 512 s, hm, hinfix⟩
    · rintro ⟨front, tail, m, rfl, hlength, hm, hinfix⟩
      rw [lastChars_eq_of_append hlength]
      exact ⟨m, hm, hinfix⟩
  · change holdsMapComment (lastChars 512 (front ++ s)) = holdsMapComment (lastChars 512 s)
    rw [lastChars_append hlong]
  · obtain ⟨m, hm, hinfix⟩ := (hfound s).mp h
    have hall : s.length ≤ 512 := by
      rw [List.length_append] at hshort
      omega
    rw [lastChars_of_length_le hall] at hinfix
    rw [hfound, lastChars_of_length_le hshort]
    exact ⟨m, hm, hinfix.trans (List.suffix_append front s).isInfix⟩

/-- Code whose comment has a separator of files among its blanks. -/
def commented : List Char := "a();/*@\u001c sourceMappingURL=a.map".toList

theorem source_map_named_commented : hasSourceMapText commented = true ∧
    hasSourceMapText (List.replicate 400 ' ' ++ commented) = true :=
  have h : hasSourceMapText commented = true := by decide
  ⟨h, (source_map_named commented).2.2 (List.replicate 400 ' ') (by decide +kernel) h⟩

end AssetCompiler.Fingerprint
