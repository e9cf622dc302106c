import AssetCompiler.Json.Reader
import AssetCompiler.Decimal
import AssetCompiler.Proofs.WrittenText

/-!
Decimal fractions that are written and read again. The reader takes the digits as they stand, so it may end with
zeros that the writer has put behind the point; but for these it answers with the fraction that was written.
-/
namespace AssetCompiler

namespace Decimal

/-! Plain fractions -/

/-- A number is one that ends with no zero, and zeros behind it. -/
theorem exists_eq_mul_pow {n : Nat} (h : n ≠ 0) : ∃ m k, m % 10 ≠ 0 ∧ n = m * 10 ^ k := by
  induction n using Nat.strongRecOn with
  | ind n ih =>
    by_cases hzero : n % 10 = 0
    · obtain ⟨m, k, hm, hk⟩ := ih (n / 10) (by omega) (by omega)
      exact ⟨m, k + 1, hm, by rw [Nat.pow_succ, ← Nat.mul_assoc, ← hk]; omega⟩
    · exact ⟨n, 0, hzero, (Nat.mul_one n).symm⟩

theorem dropZeros_mul_pow {m : Nat} (hm : m % 10 ≠ 0) {k fuel : Nat} (hk : k ≤ fuel) (e : Int) :
    dropZeros fuel (m * 10 ^ k) e = (m, e + k) := by
  induction k generalizing fuel e with
  | zero =>
    cases fuel with
    | zero => simp [dropZeros]
    | succ fuel => simp [dropZeros, hm]
  | succ k ih =>
    obtain ⟨fuel, rfl⟩ := Nat.exists_eq_succ_of_ne_zero (show fuel ≠ 0 by omega)
    have hne : m * 10 ^ (k + 1) ≠ 0 := Nat.mul_ne_zero (by omega) (by simp)
    have hten : m * 10 ^ (k + 1) = m * 10 ^ k * 10 := by rw [Nat.pow_succ, Nat.mul_assoc]
    rw [dropZeros, if_pos ⟨hne, by omega⟩, hten, Nat.mul_div_cancel _ (by decide), ih (by omega)]
    simp only [Prod.mk.injEq, true_and]
    omega

theorem lt_length_toDigits {m : Nat} (hm : m ≠ 0) (k : Nat) : k < (Nat.toDigits 10 (m * 10 ^ k)).length := by
  rcases Nat.eq_zero_or_pos k with rfl | hk
  · exact Nat.length_toDigits_pos
  · refine Nat.lt_of_not_le fun hle => ?_
    have hlt := (Nat.length_toDigits_le_iff (b := 10) (by decide) hk).mp hle
    have := Nat.le_mul_of_pos_left (10 ^ k) (Nat.pos_of_ne_zero hm)
    omega

theorem plain_zero {d : Decimal} (h : d.digits = 0) : d.plain = ⟨d.negative, 0, 0⟩ := by
  rw [plain, if_pos h]

theorem plain_mul_pow {m : Nat} (hm : m % 10 ≠ 0) (negative : Bool) (k : Nat) (e : Int) :
    plain ⟨negative, m * 10 ^ k, e⟩ = ⟨negative, m, e + k⟩ := by
  have hne : m ≠ 0 := by omega
  rw [plain, if_neg (Nat.mul_ne_zero hne (by simp)),
    dropZeros_mul_pow hm (Nat.le_of_lt (lt_length_toDigits hne k))]

/-- The plain form of a fraction is zero, or its digits end with no zero. -/
theorem plain_cases (d : Decimal) : d.digits = 0 ∧ d.plain = ⟨d.negative, 0, 0⟩ ∨
    ∃ m e, m % 10 ≠ 0 ∧ d.plain = ⟨d.negative, m, e⟩ := by
  by_cases h : d.digits = 0
  · exact Or.inl ⟨h, plain_zero h⟩
  · obtain ⟨m, k, hm, hk⟩ := exists_eq_mul_pow h
    refine Or.inr ⟨m, d.exponent + k, hm, ?_⟩
    obtain ⟨negative, digits, e⟩ := d
    cases hk
    exact plain_mul_pow hm negative k e

/-! Written fractions -/

/-- The text of a plain fraction without its sign. -/
def body (p : Decimal) : List Char :=
  let ds := Nat.toDigits 10 p.digits
  let point : Int := ds.length + p.exponent
  if p.digits = 0 then ['0', '.', '0']
  else if -4 < point ∧ point ≤ 16 then
    if point ≤ 0 then '0' :: '.' :: List.replicate (-point).toNat '0' ++ ds
    else if ds.length ≤ point.toNat then
      ds ++ List.replicate (point.toNat - ds.length) '0' ++ ['.', '0']
    else ds.take point.toNat ++ '.' :: ds.drop point.toNat
  else
    let e := point - 1
    ds.take 1 ++ (if ds.length ≤ 1 then [] else '.' :: ds.drop 1) ++
      ['e', if e < 0 then '-' else '+'] ++ (Text.padded 10 2 e.natAbs).toList

theorem toList_text (d : Decimal) :
    d.text.toList = if d.plain.negative then '-' :: body d.plain else body d.plain := by
  rw [text, String.toList_ofList]
  rfl

/-- What is read from the text of a fraction: a whole value has one zero behind the point. -/
def echo (d : Decimal) : Decimal :=
  let p := d.plain
  if p.digits = 0 then ⟨p.negative, 0, -1⟩
  else if 0 ≤ p.exponent ∧ (Nat.toDigits 10 p.digits).length + p.exponent ≤ 16 then
    ⟨p.negative, p.digits * 10 ^ (p.exponent.toNat + 1), -1⟩
  else p

/-- The value is the one that was written. -/
theorem plain_echo (d : Decimal) : d.echo.plain = d.plain := by
  unfold echo
  rcases d.plain_cases with ⟨-, hplain⟩ | ⟨m, e, hm, hplain⟩
  · rw [hplain]
    rfl
  · have hne : m ≠ 0 := by omega
    rw [hplain]
    simp only [hne, if_false]
    split
    · rename_i hwhole
      rw [plain_mul_pow hm]
      simp only [Decimal.mk.injEq, true_and]
      omega
    · have hself := plain_mul_pow hm d.negative 0 e
      rw [Nat.pow_zero, Nat.mul_one] at hself
      simpa using hself

end Decimal

namespace Json

open Text

/-! Numbers that are read -/

/-- What follows begins with no digit. -/
def NoDigit (rest : List Char) : Prop := ∀ c tail, rest = c :: tail → c.isDigit = false

theorem noDigit_cons {c : Char} (h : c.isDigit = false) (tail : List Char) : NoDigit (c :: tail) := by
  intro c' tail' heq
  cases heq
  exact h

/-- A run of digits. -/
structure IsRun (ds : List Char) : Prop where
  ne_nil : ds ≠ []
  digits : ∀ c ∈ ds, c.isDigit = true

/-- Digits before a point: one zero, or a run that begins with another digit. -/
structure IsWhole (ds : List Char) : Prop extends IsRun ds where
  lead : ds = ['0'] ∨ ∀ tail, ds ≠ '0' :: tail

theorem digits?_append {ds rest : List Char} (hds : IsRun ds) (hrest : NoDigit rest) :
    digits? (ds ++ rest) = some (ds, rest) := by
  have hstop : rest.takeWhile Char.isDigit = [] ∧ rest.dropWhile Char.isDigit = rest := by
    cases rest with
    | nil => exact ⟨rfl, rfl⟩
    | cons c tail => simp [hrest c tail rfl]
  rw [digits?, List.takeWhile_append_of_pos hds.digits, List.dropWhile_append_of_pos hds.digits, hstop.1,
    hstop.2, List.append_nil]
  cases ds with
  | nil => exact absurd rfl hds.ne_nil
  | cons c cs => rfl

/-- How a number goes on after the digits before its point. -/
def finishNumber (negative : Bool) (whole rest : List Char) : Json × List Char :=
  let fraction := readFraction rest
  let rest := (fraction.map (·.2)).getD rest
  let power := readExponent rest
  let rest := (power.map (·.2)).getD rest
  if fraction.isNone && power.isNone then
    (.int (if negative then -(natOf whole : Int) else natOf whole), rest)
  else
    let places := (fraction.map (·.1)).getD []
    let exponent := (power.map (·.1)).getD 0 - places.length
    (.real ⟨negative, natOf (whole ++ places), exponent⟩, rest)

theorem readNumber_whole (negative : Bool) {whole rest : List Char} (hwhole : IsWhole whole)
    (hrest : NoDigit rest) : readNumber negative (whole ++ rest) = some (finishNumber negative whole rest) := by
  have hdigits := digits?_append hwhole.toIsRun hrest
  rcases hwhole.lead with rfl | hlead
  · simp only [readNumber, finishNumber, List.cons_append, List.nil_append, Option.bind_eq_bind,
      Option.bind_some]
    split <;> rfl
  · have hne : ∀ tail, whole ++ rest = '0' :: tail → False := by
      intro tail heq
      cases whole with
      | nil => exact hwhole.ne_nil rfl
      | cons c cs => exact hlead cs (by rw [(List.cons.inj heq).1])
    generalize whole ++ rest = s at hdigits hne ⊢
    simp only [readNumber, finishNumber, hdigits, Option.bind_eq_bind, Option.bind_some]
    split <;> rfl

section Forms

variable {whole places rest : List Char}

/-- Digits on both sides of a point. -/
theorem readNumber_point (negative : Bool) (hwhole : IsWhole whole) (hplaces : IsRun places)
    (hrest : NoDigit rest) (hend : readExponent rest = none) :
    readNumber negative (whole ++ '.' :: (places ++ rest)) =
      some (.real ⟨negative, valueOf (whole ++ places), -(places.length : Int)⟩, rest) := by
  rw [readNumber_whole negative hwhole (noDigit_cons rfl _)]
  have hfraction : readFraction ('.' :: (places ++ rest)) = some (places, rest) :=
    digits?_append hplaces hrest
  simp only [finishNumber, hfraction, Option.map_some, Option.getD_some, hend, Option.isNone_some,
    Bool.false_and, Option.map_none, Option.getD_none, Int.zero_sub]
  rfl

/-- A written power of ten. -/
def powerText (e : Int) : List Char :=
  ['e', if e < 0 then '-' else '+'] ++ (padded 10 2 e.natAbs).toList

theorem isRun_padded (n : Nat) : IsRun (padded 10 2 n).toList := by
  rw [padded, String.toList_ofList]
  refine ⟨List.append_ne_nil_of_right_ne_nil _ Nat.toDigits_ne_nil, fun c hc => ?_⟩
  rcases List.mem_append.mp hc with hzero | hdigit
  · rw [List.eq_of_mem_replicate hzero]
    rfl
  · exact Nat.isDigit_of_mem_toDigits (by decide) (by decide) hdigit

theorem readExponent_powerText (e : Int) (hrest : NoDigit rest) :
    readExponent (powerText e ++ rest) = some (e, rest) := by
  have hdigits := digits?_append (isRun_padded e.natAbs) hrest
  have hvalue : natOf (padded 10 2 e.natAbs).toList = e.natAbs := by
    rw [padded, String.toList_ofList]
    exact (valueOf_zeros_append _ _).trans (valueOf_toDigits _)
  simp only [powerText, List.cons_append, List.nil_append]
  by_cases he : e < 0
  · simp only [he, if_true, readExponent, true_or, hdigits, Option.map_some, hvalue]
    rw [Int.ofNat_natAbs_of_nonpos (Int.le_of_lt he), Int.neg_neg]
  · simp only [he, if_false, readExponent, true_or, if_true, hdigits, Option.map_some, hvalue]
    rw [Int.natAbs_of_nonneg (Int.not_lt.mp he)]

theorem noDigit_powerText (e : Int) (rest : List Char) : NoDigit (powerText e ++ rest) :=
  noDigit_cons rfl _

theorem readNumber_wholePower (negative : Bool) (e : Int) (hwhole : IsWhole whole)
    (hrest : NoDigit rest) : readNumber negative (whole ++ (powerText e ++ rest)) =
      some (.real ⟨negative, valueOf whole, e⟩, rest) := by
  rw [readNumber_whole negative hwhole (noDigit_powerText e rest)]
  have hfraction : readFraction (powerText e ++ rest) = none := rfl
  have hpower := readExponent_powerText e hrest
  simp only [finishNumber, hfraction, Option.map_none, Option.getD_none, hpower, Option.map_some,
    Option.getD_some, Option.isNone_some, Bool.and_false, List.append_nil, List.length_nil]
  simp
  rfl

theorem readNumber_pointPower (negative : Bool) (e : Int) (hwhole : IsWhole whole) (hplaces : IsRun places)
    (hrest : NoDigit rest) : readNumber negative (whole ++ '.' :: (places ++ (powerText e ++ rest))) =
      some (.real ⟨negative, valueOf (whole ++ places), e - places.length⟩, rest) := by
  rw [readNumber_whole negative hwhole (noDigit_cons rfl _)]
  have hfraction : readFraction ('.' :: (places ++ (powerText e ++ rest))) =
      some (places, powerText e ++ rest) := digits?_append hplaces (noDigit_powerText e rest)
  simp only [finishNumber, hfraction, Option.map_some, Option.getD_some,
    readExponent_powerText e hrest, Option.isNone_some, Bool.false_and]
  rfl

end Forms

/-! Written fractions -/

theorem head_toDigits_ne_zero {n : Nat} (h : 0 < n) (rest : List Char) :
    Nat.toDigits 10 n ≠ '0' :: rest := by
  induction n using Nat.strongRecOn generalizing rest with
  | ind n ih =>
    rw [Nat.toDigits_eq_if (by decide)]
    split
    · rename_i hlt
      intro heq
      have hzero : Nat.digitChar n = '0' := (List.cons.inj heq).1
      have hall : ∀ m < 10, Nat.digitChar m = '0' → m = 0 := by decide
      have := hall n hlt hzero
      omega
    · rename_i hge
      intro heq
      rcases hdigits : Nat.toDigits 10 (n / 10) with _ | ⟨c, cs⟩
      · exact Nat.toDigits_ne_nil hdigits
      · rw [hdigits, List.cons_append, List.cons.injEq] at heq
        exact ih (n / 10) (by omega) (by omega) cs (heq.1 ▸ hdigits)

theorem isRun_toDigits (n : Nat) : IsRun (Nat.toDigits 10 n) :=
  ⟨Nat.toDigits_ne_nil, fun _ hc => Nat.isDigit_of_mem_toDigits (by decide) (by decide) hc⟩

/-- The first digits of a number but zero, and digits behind them. -/
theorem isWhole_of_prefix {m : Nat} (hm : 0 < m) {front more : List Char}
    (hfront : front <+: Nat.toDigits 10 m) (hne : front ≠ []) (hmore : ∀ c ∈ more, c.isDigit = true) :
    IsWhole (front ++ more) := by
  refine ⟨⟨List.append_ne_nil_of_left_ne_nil hne _, fun c hc => ?_⟩, Or.inr fun tail heq => ?_⟩
  · rcases List.mem_append.mp hc with hc | hc
    · exact (isRun_toDigits m).digits c (hfront.subset hc)
    · exact hmore c hc
  · obtain ⟨c, cs, rfl⟩ := List.exists_cons_of_ne_nil hne
    obtain ⟨back, hback⟩ := hfront
    refine head_toDigits_ne_zero hm (cs ++ back) ?_
    rw [← hback, (List.cons.inj heq).1]
    rfl

theorem isDigit_of_mem_zeros {k : Nat} : ∀ c ∈ List.replicate k '0', c.isDigit = true := by
  intro c hc
  rw [List.eq_of_mem_replicate hc]
  rfl

theorem valueOf_append_zeros (digits : List Char) (k : Nat) :
    valueOf (digits ++ List.replicate k '0') = valueOf digits * 10 ^ k := by
  induction k with
  | zero => simp
  | succ k ih =>
    rw [List.replicate_succ', ← List.append_assoc, valueOf_append_singleton, ih, Nat.pow_succ]
    change 10 * (valueOf digits * 10 ^ k) + 0 = _
    rw [Nat.add_zero, Nat.mul_comm 10, Nat.mul_assoc]

section Bodies

variable {m : Nat} {rest : List Char} (negative : Bool)

/-- A fraction below one. -/
theorem readNumber_small (m k : Nat) (hrest : NoDigit rest) (hend : readExponent rest = none) :
    readNumber negative ('0' :: '.' :: List.replicate k '0' ++ Nat.toDigits 10 m ++ rest) =
      some (.real ⟨negative, m, -((k + (Nat.toDigits 10 m).length : Nat) : Int)⟩, rest) := by
  have hrun := isRun_toDigits m
  have hplaces : IsRun (List.replicate k '0' ++ Nat.toDigits 10 m) := by
    refine ⟨List.append_ne_nil_of_right_ne_nil _ hrun.ne_nil, fun c hc => ?_⟩
    rcases List.mem_append.mp hc with hzero | hdigit
    · exact isDigit_of_mem_zeros c hzero
    · exact hrun.digits c hdigit
  have hwhole : IsWhole ['0'] := ⟨⟨List.cons_ne_nil _ _, by simp⟩, Or.inl rfl⟩
  have hread := readNumber_point negative hwhole hplaces hrest hend
  have hvalue : valueOf ('0' :: (List.replicate k '0' ++ Nat.toDigits 10 m)) = m :=
    (valueOf_zeros_append (k + 1) _).trans (valueOf_toDigits m)
  rw [List.length_append, List.length_replicate] at hread
  simpa [hvalue] using hread

/-- A whole value, with one zero behind the point. -/
theorem readNumber_round (hm : 0 < m) (k : Nat) (hrest : NoDigit rest) (hend : readExponent rest = none) :
    readNumber negative (Nat.toDigits 10 m ++ List.replicate k '0' ++ ['.', '0'] ++ rest) =
      some (.real ⟨negative, m * 10 ^ (k + 1), -1⟩, rest) := by
  have hwhole := isWhole_of_prefix hm (List.prefix_refl _) (isRun_toDigits m).ne_nil
    (isDigit_of_mem_zeros (k := k))
  have hplaces : IsRun ['0'] := ⟨List.cons_ne_nil _ _, by simp⟩
  have hread := readNumber_point negative hwhole hplaces hrest hend
  have hvalue : valueOf (Nat.toDigits 10 m ++ List.replicate k '0' ++ ['0']) = m * 10 ^ (k + 1) := by
    rw [List.append_assoc, ← List.replicate_succ', valueOf_append_zeros, valueOf_toDigits]
  rw [hvalue] at hread
  simpa using hread

/-- A fraction with digits on both sides of the point. -/
theorem readNumber_split (hm : 0 < m) {k : Nat} (hk : 0 < k) (hlong : k < (Nat.toDigits 10 m).length)
    (hrest : NoDigit rest) (hend : readExponent rest = none) :
    readNumber negative ((Nat.toDigits 10 m).take k ++ '.' :: (Nat.toDigits 10 m).drop k ++ rest) =
      some (.real ⟨negative, m, -(((Nat.toDigits 10 m).length - k : Nat) : Int)⟩, rest) := by
  have hrun := isRun_toDigits m
  have hfront : (Nat.toDigits 10 m).take k ≠ [] := by
    rw [Ne, List.take_eq_nil_iff, not_or]
    exact ⟨by omega, hrun.ne_nil⟩
  have hwhole := isWhole_of_prefix hm (List.take_prefix k _) hfront (List.forall_mem_nil _)
  have hplaces : IsRun ((Nat.toDigits 10 m).drop k) := by
    refine ⟨?_, fun c hc => hrun.digits c (List.mem_of_mem_drop hc)⟩
    rw [Ne, List.drop_eq_nil_iff]
    omega
  rw [List.append_nil] at hwhole
  have hread := readNumber_point negative hwhole hplaces hrest hend
  rw [List.take_append_drop, valueOf_toDigits, List.length_drop] at hread
  simpa using hread

/-- A fraction with one digit before the point and a power of ten. -/
theorem readNumber_power (hm : 0 < m) (e : Int) (hrest : NoDigit rest) :
    readNumber negative ((Nat.toDigits 10 m).take 1 ++ (if (Nat.toDigits 10 m).length ≤ 1 then []
      else '.' :: (Nat.toDigits 10 m).drop 1) ++ powerText e ++ rest) =
      some (.real ⟨negative, m, e - ((Nat.toDigits 10 m).length - 1 : Nat)⟩, rest) := by
  have hrun := isRun_toDigits m
  have hfront : (Nat.toDigits 10 m).take 1 ≠ [] := by
    rw [Ne, List.take_eq_nil_iff, not_or]
    exact ⟨by omega, hrun.ne_nil⟩
  have hwhole := isWhole_of_prefix hm (List.take_prefix 1 _) hfront (List.forall_mem_nil _)
  rw [List.append_nil] at hwhole
  split
  · rename_i hone
    have hread := readNumber_wholePower negative e hwhole hrest
    rw [List.take_of_length_le hone, valueOf_toDigits] at hread
    rw [List.take_of_length_le hone, List.append_nil, List.append_assoc,
      show (Nat.toDigits 10 m).length - 1 = 0 by omega]
    simpa using hread
  · rename_i hmore
    have hplaces : IsRun ((Nat.toDigits 10 m).drop 1) := by
      refine ⟨?_, fun c hc => hrun.digits c (List.mem_of_mem_drop hc)⟩
      rw [Ne, List.drop_eq_nil_iff]
      omega
    have hread := readNumber_pointPower negative e hwhole hplaces hrest
    rw [List.take_append_drop, valueOf_toDigits, List.length_drop] at hread
    simpa using hread

/-- The text of a plain fraction is read back, its sign apart. -/
theorem readNumber_body (hm : m % 10 ≠ 0) (e : Int) (hrest : NoDigit rest) (hend : readExponent rest = none) :
    readNumber negative (Decimal.body ⟨negative, m, e⟩ ++ rest) =
      some (.real (if 0 ≤ e ∧ (Nat.toDigits 10 m).length + e ≤ 16 then
        ⟨negative, m * 10 ^ (e.toNat + 1), -1⟩ else ⟨negative, m, e⟩), rest) := by
  have hpos : 0 < m := by omega
  have hlength : 0 < (Nat.toDigits 10 m).length := Nat.length_toDigits_pos
  unfold Decimal.body
  simp only [show m ≠ 0 by omega, if_false]
  by_cases hnear : -4 < ((Nat.toDigits 10 m).length + e : Int) ∧ ((Nat.toDigits 10 m).length + e : Int) ≤ 16
  · rw [if_pos hnear]
    by_cases hsmall : ((Nat.toDigits 10 m).length + e : Int) ≤ 0
    · rw [if_pos hsmall, if_neg (by omega), readNumber_small negative m _ hrest hend]
      simp only [Option.some.injEq, Prod.mk.injEq, Json.real.injEq, Decimal.mk.injEq, true_and, and_true]
      omega
    rw [if_neg hsmall]
    by_cases hround : (Nat.toDigits 10 m).length ≤ ((Nat.toDigits 10 m).length + e : Int).toNat
    · rw [if_pos hround, if_pos (by omega), readNumber_round negative hpos _ hrest hend,
        show ((Nat.toDigits 10 m).length + e : Int).toNat - (Nat.toDigits 10 m).length = e.toNat by omega]
    · rw [if_neg hround, if_neg (by omega),
        readNumber_split negative hpos (by omega) (by omega) hrest hend]
      simp only [Option.some.injEq, Prod.mk.injEq, Json.real.injEq, Decimal.mk.injEq, true_and, and_true]
      omega
  · rw [if_neg hnear, if_neg (show ¬(0 ≤ e ∧ ((Nat.toDigits 10 m).length : Int) + e ≤ 16) by omega)]
    have hread := readNumber_power negative hpos ((Nat.toDigits 10 m).length + e - 1) hrest
    have he : (((Nat.toDigits 10 m).length : Int) + e - 1) - ((Nat.toDigits 10 m).length - 1 : Nat) = e := by
      omega
    rw [he, powerText, ← List.append_assoc] at hread
    exact hread

end Bodies

theorem digit_ne {c : Char} (h : c.isDigit = true) :
    c ≠ 'n' ∧ c ≠ 't' ∧ c ≠ 'f' ∧ c ≠ 'N' ∧ c ≠ 'I' ∧ c ≠ '-' := by
  refine ⟨?_, ?_, ?_, ?_, ?_, ?_⟩ <;> (rintro rfl; revert h; decide)

/-- A number without a sign begins with a digit. -/
theorem readSimple_digit {c : Char} {cs : List Char} (h : c.isDigit = true) :
    readSimple (c :: cs) = readNumber false (c :: cs) := by
  obtain ⟨h1, h2, h3, h4, h5, h6⟩ := digit_ne h
  rw [readSimple.eq_def]
  split
  case h_8 => rfl
  all_goals
    rename_i heq
    exact absurd (List.cons.inj heq).1 ‹_›

theorem readSimple_minus {c : Char} {cs : List Char} (h : c.isDigit = true) :
    readSimple ('-' :: c :: cs) = readNumber true (c :: cs) := by
  obtain ⟨-, -, -, -, h5, -⟩ := digit_ne h
  rw [readSimple]
  intro tail heq
  exact h5 (List.cons.inj heq).1

theorem head_body (p : Decimal) : ∃ c cs, p.body = c :: cs ∧ c.isDigit = true := by
  have hrun := isRun_toDigits p.digits
  have hdigits : ∃ c cs, Nat.toDigits 10 p.digits = c :: cs ∧ c.isDigit = true := by
    obtain ⟨c, cs, hcons⟩ := List.exists_cons_of_ne_nil hrun.ne_nil
    exact ⟨c, cs, hcons, hrun.digits c (hcons ▸ List.mem_cons_self ..)⟩
  obtain ⟨c, cs, hcons, hc⟩ := hdigits
  unfold Decimal.body
  simp only [hcons]
  split_ifs with hzero hnear hsmall hlong
  · exact ⟨_, _, rfl, rfl⟩
  · exact ⟨_, _, rfl, rfl⟩
  · exact ⟨c, _, rfl, hc⟩
  · obtain ⟨k, hk⟩ := Nat.exists_eq_succ_of_ne_zero
      (show (((c :: cs).length : Int) + p.exponent).toNat ≠ 0 by omega)
    rw [hk]
    exact ⟨c, _, rfl, hc⟩
  all_goals exact ⟨c, _, rfl, hc⟩

/-- The text of a fraction is read back. -/
theorem readSimple_text (d : Decimal) {rest : List Char} (hrest : NoDigit rest)
    (hend : readExponent rest = none) : readSimple (d.text.toList ++ rest) = some (.real d.echo, rest) := by
  have hbody : readNumber d.plain.negative (d.plain.body ++ rest) = some (.real d.echo, rest) := by
    unfold Decimal.echo
    rcases d.plain_cases with ⟨-, hplain⟩ | ⟨m, e, hm, hplain⟩
    · rw [hplain]
      have hwhole : IsWhole ['0'] := ⟨⟨List.cons_ne_nil _ _, by simp⟩, Or.inl rfl⟩
      exact readNumber_point d.negative hwhole hwhole.toIsRun hrest hend
    · rw [hplain, readNumber_body d.negative hm e hrest hend]
      simp only [show m ≠ 0 by omega, if_false]
  obtain ⟨c, cs, hcons, hc⟩ := head_body d.plain
  rw [hcons, List.cons_append] at hbody
  rw [Decimal.toList_text, hcons]
  split
  · rename_i hnegative
    rw [hnegative] at hbody
    rw [List.cons_append, List.cons_append, readSimple_minus hc, hbody]
  · rename_i hpositive
    rw [Bool.eq_false_iff.mpr hpositive] at hbody
    rw [List.cons_append, readSimple_digit hc, hbody]

end Json
end AssetCompiler
