import AssetCompiler.Proofs.WrittenText

/-!
Well-formed UTF-8, by the ranges in which the bytes of a character lie. The strict decoder answers for
exactly the well-formed bytes, with the text whose bytes they are.
-/
namespace AssetCompiler.Text.Utf8

def IsFurther (b : UInt8) : Prop := 0x80 ≤ b ∧ b ≤ 0xbf

/-- The bytes of one character: no overlong form, no surrogate, nothing above U+10FFFF. -/
inductive IsCharacter : List UInt8 → Prop
  | one {a : UInt8} (ascii : a < 0x80) : IsCharacter [a]
  | two {a b : UInt8} (first : 0xc2 ≤ a ∧ a < 0xe0) (second : IsFurther b) : IsCharacter [a, b]
  | three {a b c : UInt8} (first : 0xe0 ≤ a ∧ a < 0xf0) (second : IsFurther b) (third : IsFurther c)
      (short : a = 0xe0 → 0xa0 ≤ b) (scalar : a = 0xed → b ≤ 0x9f) : IsCharacter [a, b, c]
  | four {a b c d : UInt8} (first : 0xf0 ≤ a ∧ a ≤ 0xf4) (second : IsFurther b) (third : IsFurther c)
      (fourth : IsFurther d) (short : a = 0xf0 → 0x90 ≤ b) (small : a = 0xf4 → b ≤ 0x8f) :
      IsCharacter [a, b, c, d]

inductive IsWellFormed : List UInt8 → Prop
  | nil : IsWellFormed []
  | append {piece rest : List UInt8} (character : IsCharacter piece) (others : IsWellFormed rest) :
      IsWellFormed (piece ++ rest)

/-! Characters and their bytes -/

theorem toNat_ofNat {n : Nat} (h : n < 0xd800 ∨ 0xdfff < n ∧ n < 0x110000) :
    (Char.ofNat n).toNat = n := by
  have hvalid : n.isValidChar := h
  rw [Char.ofNat, dif_pos hvalid]
  rfl

theorem toUInt8_eq {n : Nat} {b : UInt8} (h : n = b.toNat) : n.toUInt8 = b := by
  subst h
  exact UInt8.ofNat_toNat

theorem isFurther_iff {b : UInt8} : IsFurther b ↔ 0x80 ≤ b.toNat ∧ b.toNat ≤ 0xbf := by
  simp only [IsFurther, UInt8.le_iff_toNat_le, UInt8.reduceToNat]

/-- Such bytes are those of a character. -/
theorem IsCharacter.exists_char {piece : List UInt8} (h : IsCharacter piece) :
    ∃ c, encodeChar c = piece := by
  cases h with
  | @one a ascii =>
    rw [UInt8.lt_iff_toNat_lt] at ascii
    simp only [UInt8.reduceToNat] at ascii
    refine ⟨Char.ofNat a.toNat, ?_⟩
    rw [encodeChar, toNat_ofNat (by omega), if_pos ascii, toUInt8_eq rfl]
  | @two a b first second =>
    simp only [UInt8.le_iff_toNat_le, UInt8.lt_iff_toNat_lt, UInt8.reduceToNat] at first
    rw [isFurther_iff] at second
    generalize hn : (a.toNat - 0xc0) * 64 + (b.toNat - 0x80) = n
    refine ⟨Char.ofNat n, ?_⟩
    rw [encodeChar, toNat_ofNat (by omega), if_neg (by omega), if_pos (by omega),
      toUInt8_eq (b := a) (by omega), toUInt8_eq (b := b) (by omega)]
  | @three a b c first second third short scalar =>
    simp only [UInt8.le_iff_toNat_le, UInt8.lt_iff_toNat_lt, ← UInt8.toNat_inj,
      UInt8.reduceToNat] at first short scalar
    rw [isFurther_iff] at second third
    generalize hn : ((a.toNat - 0xe0) * 64 + (b.toNat - 0x80)) * 64 + (c.toNat - 0x80) = n
    refine ⟨Char.ofNat n, ?_⟩
    rw [encodeChar, toNat_ofNat (by omega), if_neg (by omega), if_neg (by omega), if_pos (by omega),
      toUInt8_eq (b := a) (by omega), toUInt8_eq (b := b) (by omega), toUInt8_eq (b := c) (by omega)]
  | @four a b c d first second third fourth short small =>
    simp only [UInt8.le_iff_toNat_le, ← UInt8.toNat_inj, UInt8.reduceToNat] at first short small
    rw [isFurther_iff] at second third fourth
    generalize hn : (((a.toNat - 0xf0) * 64 + (b.toNat - 0x80)) * 64 + (c.toNat - 0x80)) * 64 +
      (d.toNat - 0x80) = n
    refine ⟨Char.ofNat n, ?_⟩
    rw [encodeChar, toNat_ofNat (by omega), if_neg (by omega), if_neg (by omega), if_neg (by omega),
      toUInt8_eq (b := a) (by omega), toUInt8_eq (b := b) (by omega), toUInt8_eq (b := c) (by omega),
      toUInt8_eq (b := d) (by omega)]

theorem isCharacter_encodeChar (c : Char) : IsCharacter (encodeChar c) := by
  have hvalid : c.toNat < 0xd800 ∨ 0xdfff < c.toNat ∧ c.toNat < 0x110000 := c.valid
  have hfurther : ∀ n, IsFurther (0x80 + n % 64).toUInt8 := by
    intro n
    rw [isFurther_iff, toNat_toUInt8 (by omega)]
    omega
  unfold encodeChar
  simp only
  split
  · refine .one ?_
    simp only [UInt8.lt_iff_toNat_lt, UInt8.reduceToNat]
    rw [toNat_toUInt8 (by omega)]
    omega
  split
  · refine .two ?_ (hfurther _)
    simp only [UInt8.le_iff_toNat_le, UInt8.lt_iff_toNat_lt, UInt8.reduceToNat]
    rw [toNat_toUInt8 (by omega)]
    omega
  split
  · refine .three ?_ (hfurther _) (hfurther _) ?_ ?_
    all_goals
      simp only [UInt8.le_iff_toNat_le, UInt8.lt_iff_toNat_lt, ← UInt8.toNat_inj, UInt8.reduceToNat]
      repeat rw [toNat_toUInt8 (by omega)]
      omega
  · refine .four ?_ (hfurther _) (hfurther _) (hfurther _) ?_ ?_
    all_goals
      simp only [UInt8.le_iff_toNat_le, ← UInt8.toNat_inj, UInt8.reduceToNat]
      repeat rw [toNat_toUInt8 (by omega)]
      omega

/-! Reading a character -/

theorem further_eq_ok {more : Nat} {low high : UInt8} {value : Nat} {bytes : List UInt8}
    {r : Nat × List UInt8} (h : further (more + 1) low high value bytes = .ok r) :
    ∃ b rest value', bytes = b :: rest ∧ low ≤ b ∧ b ≤ high ∧
      further more 0x80 0xbf value' rest = .ok r := by
  cases bytes with
  | nil => cases h
  | cons b rest =>
    rw [further] at h
    split at h
    · rename_i hrange
      rw [Bool.and_eq_true, decide_eq_true_eq, decide_eq_true_eq] at hrange
      exact ⟨b, rest, _, rfl, hrange.1, hrange.2, h⟩
    · cases h

/-- What a byte opens, it opens in the range of first bytes, and with the range for the second byte that
this one calls for. -/
theorem of_lead {b low high : UInt8} {more : Nat} (h : lead b = .opens more low high) :
    0x80 ≤ low ∧ high ≤ 0xbf ∧
      (more = 1 ∧ 0xc2 ≤ b ∧ b < 0xe0 ∨
        more = 2 ∧ 0xe0 ≤ b ∧ b < 0xf0 ∧ (b = 0xe0 → 0xa0 ≤ low) ∧ (b = 0xed → high ≤ 0x9f) ∨
        more = 3 ∧ 0xf0 ≤ b ∧ b ≤ 0xf4 ∧ (b = 0xf0 → 0x90 ≤ low) ∧ (b = 0xf4 → high ≤ 0x8f)) := by
  unfold lead at h
  split_ifs at h
  all_goals
    cases h
    simp only [UInt8.le_iff_toNat_le, UInt8.lt_iff_toNat_lt, ← UInt8.toNat_inj, UInt8.reduceToNat] at *
    grind

theorem lt_of_lead {b : UInt8} (h : lead b = .whole) : b < 0x80 := by
  unfold lead at h
  split_ifs at h
  assumption

/-- The first character of a text takes the bytes of a character from it. -/
theorem of_next {b : UInt8} {more rest : List UInt8} {c : Char} (h : next b more = .ok (c, rest)) :
    ∃ piece, IsCharacter piece ∧ b :: more = piece ++ rest := by
  unfold next at h
  split at h
  · rename_i hlead
    cases h
    exact ⟨[b], .one (lt_of_lead hlead), rfl⟩
  · cases h
  · rename_i count low high hlead
    obtain ⟨hlow, hhigh, hranges⟩ := of_lead hlead
    cases hfurther : further count low high (leadValue count b) more with
    | error r =>
      rw [hfurther] at h
      cases h
    | ok r =>
      rw [hfurther] at h
      cases h
      rcases hranges with ⟨rfl, hfirst⟩ | ⟨rfl, hfirst, hfirst', hshort, hscalar⟩ |
        ⟨rfl, hfirst, hfirst', hshort, hsmall⟩
      · obtain ⟨b₂, more, _, rfl, h₂, h₂', hend⟩ := further_eq_ok hfurther
        cases hend
        exact ⟨[b, b₂], .two hfirst ⟨UInt8.le_trans hlow h₂, UInt8.le_trans h₂' hhigh⟩, rfl⟩
      · obtain ⟨b₂, more, _, rfl, h₂, h₂', hfurther⟩ := further_eq_ok hfurther
        obtain ⟨b₃, more, _, rfl, h₃, h₃', hend⟩ := further_eq_ok hfurther
        cases hend
        exact ⟨[b, b₂, b₃], .three ⟨hfirst, hfirst'⟩ ⟨UInt8.le_trans hlow h₂, UInt8.le_trans h₂' hhigh⟩ ⟨h₃, h₃'⟩
          (fun hb => UInt8.le_trans (hshort hb) h₂) (fun hb => UInt8.le_trans h₂' (hscalar hb)), rfl⟩
      · obtain ⟨b₂, more, _, rfl, h₂, h₂', hfurther⟩ := further_eq_ok hfurther
        obtain ⟨b₃, more, _, rfl, h₃, h₃', hfurther⟩ := further_eq_ok hfurther
        obtain ⟨b₄, more, _, rfl, h₄, h₄', hend⟩ := further_eq_ok hfurther
        cases hend
        exact ⟨[b, b₂, b₃, b₄], .four ⟨hfirst, hfirst'⟩ ⟨UInt8.le_trans hlow h₂, UInt8.le_trans h₂' hhigh⟩ ⟨h₃, h₃'⟩
          ⟨h₄, h₄'⟩ (fun hb => UInt8.le_trans (hshort hb) h₂) (fun hb => UInt8.le_trans h₂' (hsmall hb)), rfl⟩

/-- What is read as a character is the encoded one, and the rest is left. -/
theorem next_eq_ok {b : UInt8} {more rest : List UInt8} {c : Char} (h : next b more = .ok (c, rest)) :
    b :: more = encodeChar c ++ rest := by
  obtain ⟨piece, hpiece, hbytes⟩ := of_next h
  obtain ⟨c', rfl⟩ := hpiece.exists_char
  obtain ⟨b', more', hbytes', hnext⟩ := next_encodeChar c' rest
  cases hbytes.trans hbytes'
  cases hnext.symm.trans h
  exact hbytes'.symm

/-! Whole texts -/

/-- The strict decoder answers with a text only where the bytes are those of the text. -/
theorem decode?_eq_some_iff {bytes : List UInt8} {s : List Char} :
    decode? bytes = some s ↔ encode s = bytes := by
  constructor
  · intro h
    induction bytes using decode?.induct generalizing s with
    | case1 =>
      rw [decode?] at h
      cases h
      rfl
    | case2 b rest c more hnext hlength ih =>
      rw [decode?] at h
      split at h
      · rename_i c' more' hnext'
        cases hnext.symm.trans hnext'
        obtain ⟨s', hs', rfl⟩ := Option.map_eq_some_iff.mp h
        rw [next_eq_ok hnext, encode, List.flatMap_cons, ← encode, ih hs']
      · cases h
    | case3 b rest more hnext =>
      rw [decode?] at h
      split at h
      · rename_i hnext'
        cases hnext.symm.trans hnext'
      · cases h
  · rintro rfl
    exact decode?_encode s

theorem isWellFormed_iff {bytes : List UInt8} : IsWellFormed bytes ↔ ∃ s, encode s = bytes := by
  constructor
  · intro h
    induction h with
    | nil => exact ⟨[], rfl⟩
    | append character others ih =>
      obtain ⟨c, rfl⟩ := character.exists_char
      obtain ⟨s, rfl⟩ := ih
      exact ⟨c :: s, by rw [encode, List.flatMap_cons, ← encode]⟩
  · rintro ⟨s, rfl⟩
    induction s with
    | nil => exact .nil
    | cons c rest ih =>
      rw [encode, List.flatMap_cons, ← encode]
      exact .append (isCharacter_encodeChar c) ih

/-- Bytes have a text if they are well formed, and no other ones have. -/
theorem decode?_eq_none_iff {bytes : List UInt8} : decode? bytes = none ↔ ¬ IsWellFormed bytes := by
  rw [isWellFormed_iff, Option.eq_none_iff_forall_ne_some, not_exists]
  exact forall_congr' fun s => not_congr decode?_eq_some_iff

end AssetCompiler.Text.Utf8
