import AssetCompiler.Classification
import Mathlib.Tactic.Linarith
import Mathlib.Tactic.Zify

/-!
Average line lengths. An average is rounded to a double before it is compared with the limit, but a
quotient of small numbers is never rounded to or past a whole number that it differs from. So code is
minified just if it is long and the line ends in its sample, each counted as a line of the limit's
length, do not fill the sample.
-/
namespace AssetCompiler

namespace Double

variable {a b : Nat}

/-- The nearest whole number is at most a half away from the quotient. -/
theorem nearest_bounds (a : Nat) (hb : 0 < b) :
    2 * (nearest a b * b) ≤ 2 * a + b ∧ 2 * a ≤ 2 * (nearest a b * b) + b := by
  have hsplit : b * (a / b) + a % b = a := Nat.div_add_mod a b
  have hlt : a % b < b := Nat.mod_lt a hb
  have hlow : a / b * b = b * (a / b) := Nat.mul_comm _ _
  unfold nearest
  simp only
  split
  · omega
  · rw [Nat.add_mul, Nat.one_mul]
    omega

/-- A quotient is written with all the digits that a double has. -/
theorem le_mul_placesOf (ha : 0 < a) (b : Nat) :
    2 ^ (precision - 1) * b ≤ a * 2 ^ placesOf a b := by
  unfold placesOf
  simp only [Nat.shiftLeft_eq]
  split
  · have hlog : 2 ^ a.log2 ≤ a := Nat.log2_self_le ha.ne'
    have hnext : b < 2 ^ (b.log2 + 1) := Nat.lt_log2_self
    calc 2 ^ (precision - 1) * b
        ≤ 2 ^ (precision - 1) * 2 ^ (b.log2 + 1) := Nat.mul_le_mul_left _ hnext.le
      _ = 2 ^ (precision - 1 + (b.log2 + 1)) := (Nat.pow_add 2 _ _).symm
      _ ≤ 2 ^ (a.log2 + (precision - 1 - a.log2 + b.log2 + 1)) := Nat.pow_le_pow_right (by decide) (by omega)
      _ = 2 ^ a.log2 * 2 ^ (precision - 1 - a.log2 + b.log2 + 1) := Nat.pow_add 2 _ _
      _ ≤ a * 2 ^ (precision - 1 - a.log2 + b.log2 + 1) := Nat.mul_le_mul_right _ hlog
  · rwa [Nat.mul_comm, ← Nat.not_lt]

/-- The quotient of a number below `2 ^ 53` exceeds a whole number just if it does so without rounding. -/
theorem exceeds_quotient_iff (ha : 0 < a) (hsmall : a < 2 ^ precision) (hb : 0 < b) {m : Int} :
    (quotient a b).exceeds m = true ↔ m * b < a := by
  obtain ⟨hupper, hlower⟩ := nearest_bounds (a * 2 ^ placesOf a b) hb
  have hdigits := le_mul_placesOf ha b
  unfold exceeds quotient
  simp only [decide_eq_true_eq, Nat.shiftLeft_eq, Nat.one_mul]
  generalize nearest (a * 2 ^ placesOf a b) b = n at *
  have hunit : 0 < 2 ^ placesOf a b := Nat.two_pow_pos _
  generalize 2 ^ placesOf a b = unit at *
  -- Quotients that differ from a whole number do so by more than the half of a last digit.
  have hgap : b < 2 * unit := by
    have hlt : a * unit < 2 ^ precision * unit := Nat.mul_lt_mul_of_pos_right hsmall hunit
    have hpower : (2 : Nat) ^ precision = 2 * 2 ^ (precision - 1) := by decide
    rw [hpower] at hlt
    have hpositive : 0 < (2 : Nat) ^ (precision - 1) := Nat.two_pow_pos _
    generalize (2 : Nat) ^ (precision - 1) = top at *
    have : top * b < top * (2 * unit) := by linarith
    exact Nat.lt_of_mul_lt_mul_left this
  zify at hupper hlower hgap hb hunit
  constructor
  · intro hexceeds
    by_contra hle
    rw [not_lt] at hle
    have hscaled : (a : ℤ) * unit ≤ m * b * unit := mul_le_mul_of_nonneg_right hle hunit.le
    have hhalf : (2 * n : ℤ) * b ≤ (2 * (m * unit) + 1) * b := by linarith
    have := le_of_mul_le_mul_right hhalf hb
    omega
  · intro hlt
    by_contra hle
    rw [not_lt] at hle
    have hscaled : (m * b + 1) * unit ≤ (a : ℤ) * unit := mul_le_mul_of_nonneg_right hlt hunit.le
    have hrounded : (n : ℤ) * b ≤ m * unit * b := mul_le_mul_of_nonneg_right hle hb.le
    linarith

end Double

namespace Fingerprint

/-- Code is minified just if it is long, and the line ends of its sample, taken as often as the limit says,
do not make up the sample. -/
theorem isMinifiedText_iff {s : List Char} {m : Int} : isMinifiedText s m = true ↔
    1024 < s.length ∧ m * (s.take 1024).count '\n' < 1024 := by
  unfold isMinifiedText
  change (if s.length ≤ 1024 then false else _) = true ↔ _
  split
  · rename_i hshort
    exact iff_of_false Bool.false_ne_true fun h => Nat.not_lt.mpr hshort h.1
  · rename_i hlong
    rw [Nat.not_le] at hlong
    have hlength : (s.take 1024).length = 1024 := List.length_take_of_le hlong.le
    rw [and_iff_right hlong]
    change (if (s.take 1024).count '\n' = 0 then true
      else (Double.quotient (s.take 1024).length ((s.take 1024).count '\n')).exceeds m) = true ↔ _
    split
    · rename_i hnone
      rw [hnone]
      exact iff_of_true rfl (by simp)
    · rename_i hsome
      rw [hlength, Double.exceeds_quotient_iff (by decide) (by decide) (Nat.pos_of_ne_zero hsome)]
      rfl

/-- A text in which some of the characters at its beginning have been replaced by line ends. -/
structure IsBroken (s s' : List Char) : Prop where
  length : s'.length = s.length
  chars : ∀ i < 1024, s'[i]? = s[i]? ∨ s'[i]? = some '\n'

theorem count_take_le {n : Nat} {s s' : List Char} (hlength : s'.length = s.length)
    (hchars : ∀ i < n, s'[i]? = s[i]? ∨ s'[i]? = some '\n') :
    (s.take n).count '\n' ≤ (s'.take n).count '\n' := by
  induction s generalizing s' n with
  | nil => simp
  | cons c s ih =>
    cases s' with
    | nil => cases hlength
    | cons c' s' =>
      cases n with
      | zero => exact Nat.le_refl _
      | succ n =>
        have hrest := ih (Nat.succ.inj hlength) fun i hi => hchars (i + 1) (Nat.succ_lt_succ hi)
        rw [List.take_succ_cons, List.take_succ_cons, List.count_cons, List.count_cons]
        rcases hchars 0 n.succ_pos with hsame | hend
        · cases hsame
          exact Nat.add_le_add_right hrest _
        · cases hend
          refine Nat.add_le_add hrest ?_
          rw [if_pos (beq_self_eq_true _)]
          split <;> decide

/-- For every text and limit the answer is exact: the text has more than 1024 characters, and the limit times the
number of line ends among the first 1024 is below 1024. Long text without a line end there is always minified. A
smaller limit keeps minified text so; nothing counts but the first 1024 characters and whether more follow;
and under a limit that is not negative further line ends among them never make text minified. -/
theorem minified_exactly (s : List Char) (m : Int) :
    (isMinifiedText s m = true ↔ 1024 < s.length ∧ m * (s.take 1024).count '\n' < 1024) ∧
    (1024 < s.length → '\n' ∉ s.take 1024 → isMinifiedText s m = true) ∧
    (∀ m' ≤ m, isMinifiedText s m = true → isMinifiedText s m' = true) ∧
    (∀ s', s'.take 1024 = s.take 1024 → (1024 < s'.length ↔ 1024 < s.length) →
      isMinifiedText s' m = isMinifiedText s m) ∧
    (∀ s', IsBroken s s' → 0 ≤ m → isMinifiedText s m = false → isMinifiedText s' m = false) := by
  refine ⟨isMinifiedText_iff, fun hlong hnone => ?_, fun m' hle h => ?_, fun s' hsame hlong => ?_,
    fun s' hbroken hm h => ?_⟩
  · rw [isMinifiedText_iff, List.count_eq_zero.mpr hnone]
    exact ⟨hlong, by simp⟩
  · rw [isMinifiedText_iff] at h ⊢
    have hcount : (0 : Int) ≤ (s.take 1024).count '\n' := Int.natCast_nonneg _
    exact ⟨h.1, lt_of_le_of_lt (mul_le_mul_of_nonneg_right hle hcount) h.2⟩
  · rw [Bool.eq_iff_iff, isMinifiedText_iff, isMinifiedText_iff, hsame, hlong]
  · rw [← Bool.not_eq_true, isMinifiedText_iff] at h ⊢
    rw [hbroken.length]
    intro h'
    have hcount : ((s.take 1024).count '\n' : Int) ≤ (s'.take 1024).count '\n' :=
      Int.ofNat_le.mpr (count_take_le hbroken.length hbroken.chars)
    exact h ⟨h'.1, lt_of_le_of_lt (mul_le_mul_of_nonneg_left hcount hm) h'.2⟩

/-- A text that is one character longer than the sample, with one line end in it. -/
def wide : List Char := 'a' :: '\n' :: List.replicate 1023 'b'

theorem minified_exactly_wide : isMinifiedText wide 1023 = true ∧ isMinifiedText wide (-1) = true ∧
    isMinifiedText ('\n' :: wide.tail) 1024 = false :=
  have h : isMinifiedText wide 1023 = true := by decide +kernel
  ⟨h, (minified_exactly wide 1023).2.2.1 (-1) (by decide) h,
    (minified_exactly wide 1024).2.2.2.2 _
      ⟨rfl, fun i _ => match i with
        | 0 => Or.inr rfl
        | _ + 1 => Or.inl rfl⟩ (by decide) (by decide +kernel)⟩

end Fingerprint
end AssetCompiler
