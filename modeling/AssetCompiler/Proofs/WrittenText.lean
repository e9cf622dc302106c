import AssetCompiler.Text.Digit
import AssetCompiler.Text.Newline
import AssetCompiler.Text.Utf8
import Mathlib.Algebra.Group.Nat.Defs
import Mathlib.Tactic.Common

/-!
Text that is written and read again. The bytes of a text are well formed and decode to it, a text
without carriage returns keeps its line ends, and the digits of a number have its value.
-/
namespace AssetCompiler.Text

namespace Utf8

theorem lead_ascii {b : UInt8} (h : b.toNat < 0x80) : lead b = .whole := by
  unfold lead
  rw [if_pos (UInt8.lt_iff_toNat_lt.mpr h)]

theorem lead_two {b : UInt8} (hlow : 0xc2 ≤ b.toNat) (hhigh : b.toNat < 0xe0) :
    lead b = .opens 1 0x80 0xbf := by
  unfold lead
  simp only [UInt8.lt_iff_toNat_lt, ← UInt8.toNat_inj, UInt8.reduceToNat]
  split_ifs <;> first | rfl | omega

theorem lead_three {b : UInt8} (hlow : 0xe0 ≤ b.toNat) (hhigh : b.toNat < 0xf0) :
    lead b = .opens 2 (if b.toNat = 0xe0 then 0xa0 else 0x80)
      (if b.toNat = 0xed then 0x9f else 0xbf) := by
  unfold lead
  simp only [UInt8.lt_iff_toNat_lt, ← UInt8.toNat_inj, UInt8.reduceToNat]
  split_ifs <;> first | rfl | omega

theorem lead_four {b : UInt8} (hlow : 0xf0 ≤ b.toNat) (hhigh : b.toNat ≤ 0xf4) :
    lead b = .opens 3 (if b.toNat = 0xf0 then 0x90 else 0x80)
      (if b.toNat = 0xf4 then 0x8f else 0xbf) := by
  unfold lead
  simp only [UInt8.lt_iff_toNat_lt, ← UInt8.toNat_inj, UInt8.reduceToNat]
  split_ifs <;> first | rfl | omega

theorem toNat_toUInt8 {n : Nat} (h : n < 256) : n.toUInt8.toNat = n := by
  rw [Nat.toUInt8, UInt8.toNat_ofNat']
  omega

/-- A further byte is taken if it lies in the range. -/
theorem further_cons {more n : Nat} {low high : UInt8} (value : Nat) (rest : List UInt8)
    (hn : n < 64) (hlow : low.toNat ≤ 0x80 + n) (hhigh : 0x80 + n ≤ high.toNat) :
    further (more + 1) low high value ((0x80 + n).toUInt8 :: rest) =
      further more 0x80 0xbf (value * 64 + n) rest := by
  have hb := toNat_toUInt8 (show 0x80 + n < 256 by omega)
  rw [further, if_pos, hb, Nat.add_sub_cancel_left]
  simp only [Bool.and_eq_true, decide_eq_true_eq, UInt8.le_iff_toNat_le, hb]
  exact ⟨hlow, hhigh⟩

theorem further_common {more n : Nat} (value : Nat) (rest : List UInt8) (hn : n < 64) :
    further (more + 1) 0x80 0xbf value ((0x80 + n).toUInt8 :: rest) =
      further more 0x80 0xbf (value * 64 + n) rest := by
  refine further_cons value rest hn ?_ ?_ <;> simp only [UInt8.reduceToNat] <;> omega

theorem leadValue_one (b : UInt8) : leadValue 1 b = b.toNat - 0xc0 := rfl

theorem leadValue_two (b : UInt8) : leadValue 2 b = b.toNat - 0xe0 := rfl

theorem leadValue_three (b : UInt8) : leadValue 3 b = b.toNat - 0xf0 := rfl

theorem next_one (n : Nat) (rest : List UInt8) (h : n < 0x80) :
    next n.toUInt8 rest = .ok (Char.ofNat n, rest) := by
  have hb := toNat_toUInt8 (show n < 256 by omega)
  rw [next, lead_ascii (by omega)]
  simp only [hb]

theorem next_two (n : Nat) (rest : List UInt8) (hlow : 0x80 ≤ n) (hhigh : n < 0x800) :
    next (0xc0 + n / 64).toUInt8 ((0x80 + n % 64).toUInt8 :: rest) =
      .ok (Char.ofNat n, rest) := by
  have hb := toNat_toUInt8 (show 0xc0 + n / 64 < 256 by omega)
  rw [next, lead_two (by omega) (by omega)]
  simp only
  rw [further_common _ _ (Nat.mod_lt _ (by decide)), further, leadValue_one, hb, Except.map,
    show (0xc0 + n / 64 - 0xc0) * 64 + n % 64 = n by omega]

theorem next_three (n : Nat) (rest : List UInt8) (hlow : 0x800 ≤ n) (hhigh : n < 0x10000)
    (hvalid : n < 0xd800 ∨ 0xdfff < n) :
    next (0xe0 + n / 4096).toUInt8
      ((0x80 + n / 64 % 64).toUInt8 :: (0x80 + n % 64).toUInt8 :: rest) =
      .ok (Char.ofNat n, rest) := by
  have hb := toNat_toUInt8 (show 0xe0 + n / 4096 < 256 by omega)
  rw [next, lead_three (by omega) (by omega), hb]
  simp only
  rw [further_cons _ _ (Nat.mod_lt _ (by decide)) (by split_ifs <;> simp only [UInt8.reduceToNat] <;> omega)
      (by split_ifs <;> simp only [UInt8.reduceToNat] <;> omega),
    further_common _ _ (Nat.mod_lt _ (by decide)), further, leadValue_two, hb, Except.map,
    show ((0xe0 + n / 4096 - 0xe0) * 64 + n / 64 % 64) * 64 + n % 64 = n by omega]

theorem next_four (n : Nat) (rest : List UInt8) (hlow : 0x10000 ≤ n) (hhigh : n < 0x110000) :
    next (0xf0 + n / 262144).toUInt8
      ((0x80 + n / 4096 % 64).toUInt8 :: (0x80 + n / 64 % 64).toUInt8 ::
        (0x80 + n % 64).toUInt8 :: rest) = .ok (Char.ofNat n, rest) := by
  have hb := toNat_toUInt8 (show 0xf0 + n / 262144 < 256 by omega)
  rw [next, lead_four (by omega) (by omega), hb]
  simp only
  rw [further_cons _ _ (Nat.mod_lt _ (by decide)) (by split_ifs <;> simp only [UInt8.reduceToNat] <;> omega)
      (by split_ifs <;> simp only [UInt8.reduceToNat] <;> omega),
    further_common _ _ (Nat.mod_lt _ (by decide)), further_common _ _ (Nat.mod_lt _ (by decide)), further, leadValue_three, hb,
    Except.map, show (((0xf0 + n / 262144 - 0xf0) * 64 + n / 4096 % 64) * 64 + n / 64 % 64) * 64 +
      n % 64 = n by omega]

/-- The first character of a text that begins with an encoded one. -/
theorem next_encodeChar (c : Char) (rest : List UInt8) :
    ∃ b more, encodeChar c ++ rest = b :: more ∧ next b more = .ok (c, rest) := by
  have hvalid : c.toNat < 0xd800 ∨ 0xdfff < c.toNat ∧ c.toNat < 0x110000 := c.valid
  have hc : Char.ofNat c.toNat = c := Char.ofNat_toNat c
  unfold encodeChar
  by_cases h1 : c.toNat < 0x80
  · rw [if_pos h1]
    exact ⟨_, rest, rfl, (next_one c.toNat rest h1).trans (by rw [hc])⟩
  rw [if_neg h1]
  by_cases h2 : c.toNat < 0x800
  · rw [if_pos h2]
    exact ⟨_, _, rfl, (next_two c.toNat rest (by omega) h2).trans (by rw [hc])⟩
  rw [if_neg h2]
  by_cases h3 : c.toNat < 0x10000
  · rw [if_pos h3]
    exact ⟨_, _, rfl, (next_three c.toNat rest (by omega) h3 (by omega)).trans (by rw [hc])⟩
  · rw [if_neg h3]
    exact ⟨_, _, rfl, (next_four c.toNat rest (by omega) (by omega)).trans (by rw [hc])⟩

/-- The bytes of a text decode to it. -/
theorem decode?_encode (s : List Char) : decode? (encode s) = some s := by
  induction s with
  | nil => rw [encode, List.flatMap_nil, decode?]
  | cons c rest ih =>
    rw [encode, List.flatMap_cons, ← encode]
    obtain ⟨b, more, hbytes, hnext⟩ := next_encodeChar c (encode rest)
    rw [hbytes, decode?]
    split
    · rename_i c' more' heq
      cases hnext.symm.trans heq
      rw [ih]
      rfl
    · rename_i heq
      cases hnext.symm.trans heq

theorem decode_encode (s : List Char) : decode (encode s) = .ok s := by
  rw [decode, decode?_encode]

/-- Nothing is lost in the bytes of a text. -/
theorem decodeLossy_encode (s : List Char) : decodeLossy (encode s) = s := by
  induction s with
  | nil => rw [encode, List.flatMap_nil, decodeLossy]
  | cons c rest ih =>
    rw [encode, List.flatMap_cons, ← encode]
    obtain ⟨b, more, hbytes, hnext⟩ := next_encodeChar c (encode rest)
    rw [hbytes, decodeLossy]
    split
    · rename_i c' more' heq
      cases hnext.symm.trans heq
      rw [ih]
    · rename_i heq
      cases hnext.symm.trans heq

end Utf8

/-- Line ends stay as they are where no carriage return is written. -/
theorem unifyLineEnds_of_not_mem (s : List Char) (h : '\r' ∉ s) : unifyLineEnds s = s := by
  induction s with
  | nil => rfl
  | cons c rest ih =>
    rw [List.mem_cons, not_or] at h
    rw [unifyLineEnds, ih h.2]
    · intro tail hc
      exact absurd hc.symm h.1
    · intro hc
      exact absurd hc.symm h.1

/-- The value of a run of digits. -/
def valueOf (digits : List Char) : Nat := digits.foldl (fun n c => 10 * n + (c.toNat - 48)) 0

theorem valueOf_append_singleton (digits : List Char) (c : Char) :
    valueOf (digits ++ [c]) = 10 * valueOf digits + (c.toNat - 48) := by
  unfold valueOf
  rw [List.foldl_append]
  rfl

theorem toNat_digitChar {n : Nat} (h : n < 10) : (Nat.digitChar n).toNat - 48 = n :=
  (by decide : ∀ m < 10, (Nat.digitChar m).toNat - 48 = m) n h

theorem valueOf_toDigits (n : Nat) : valueOf (Nat.toDigits 10 n) = n := by
  induction n using Nat.strongRecOn with
  | ind n ih =>
    rw [Nat.toDigits_eq_if (by decide)]
    split
    · rename_i h
      rw [← List.nil_append [n.digitChar], valueOf_append_singleton, toNat_digitChar h]
      exact Nat.zero_add n
    · rename_i h
      rw [valueOf_append_singleton, ih (n / 10) (by omega), toNat_digitChar (Nat.mod_lt n (by omega))]
      omega

theorem valueOf_zeros_append (k : Nat) (digits : List Char) :
    valueOf (List.replicate k '0' ++ digits) = valueOf digits := by
  unfold valueOf
  induction k with
  | zero => rfl
  | succ k ih =>
    rw [List.replicate_succ, List.cons_append, List.foldl_cons]
    exact ih

theorem isDigit_of_mem_decimal {n : Nat} {c : Char} (h : c ∈ (decimal n).toList) :
    c.isDigit = true := by
  rw [decimal, String.toList_ofList] at h
  exact Nat.isDigit_of_mem_toDigits (by decide) (by decide) h

/-- A number written with a fixed width: so many digits, with the number as their value. -/
theorem padded_spec {width n : Nat} (hpos : 0 < width) (h : n < 10 ^ width) :
    (padded 10 width n).toList.length = width ∧
      (∀ c ∈ (padded 10 width n).toList, c.isDigit = true) ∧
      valueOf (padded 10 width n).toList = n := by
  have hlength := (Nat.length_toDigits_le_iff (b := 10) (n := n) (by decide) hpos).mpr h
  simp only [padded, String.toList_ofList]
  refine ⟨?_, ?_, ?_⟩
  · rw [List.length_append, List.length_replicate]
    omega
  · intro c hc
    rcases List.mem_append.mp hc with hzero | hdigit
    · rw [List.eq_of_mem_replicate hzero]
      rfl
    · exact Nat.isDigit_of_mem_toDigits (by decide) (by decide) hdigit
  · rw [valueOf_zeros_append, valueOf_toDigits]

end AssetCompiler.Text
