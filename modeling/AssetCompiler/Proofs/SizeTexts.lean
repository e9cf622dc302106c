import AssetCompiler.Text.Size
import Mathlib.Data.List.Basic
import Mathlib.Data.List.TakeWhile
import Mathlib.Tactic.Common

/-!
Size texts. A text names a size if it has digits and a unit, with blanks around and between them; its value is
that of the digits times the factor of the unit. Every other text is refused as no size, but for those whose unit
is written with the sign for degrees Kelvin: such a unit is found by its lower case, and its upper case has no
factor.
-/
namespace AssetCompiler.Text

/-- A text is made of these digits and this unit: blanks may stand around and between them. -/
structure Spells (s digits unit : List Char) : Prop where
  split : ∃ before gap after, s = before ++ (digits ++ (gap ++ (unit ++ after))) ∧
    (∀ c ∈ before, isBlank c = true) ∧ (∀ c ∈ gap, isBlank c = true) ∧ ∀ c ∈ after, isBlank c = true
  nonempty : digits ≠ []
  digits : ∀ c ∈ digits, isDigit c = true

/-- A unit in any case of its ASCII letters, with its factor. -/
def HasFactor (unit : List Char) (factor : Nat) : Prop :=
  (unit.map Char.toUpper, factor) ∈
    [(['B'], 1), (['K', 'B'], 1024), (['M', 'B'], 1024 * 1024), (['G', 'B'], 1024 * 1024 * 1024)]

/-- The unit of 1024 bytes, with the sign for degrees Kelvin in the place of its first letter. -/
def IsKelvinUnit (unit : List Char) : Prop :=
  ∃ c : Char, c.toUpper = 'B' ∧ unit = ['\u212a', c]

/-! Letters -/

theorem toNat_toLower (c : Char) :
    c.toLower.toNat = if 65 ≤ c.toNat ∧ c.toNat ≤ 90 then c.toNat + 32 else c.toNat := by
  have hrange : (c.val ≥ 'A'.val ∧ c.val ≤ 'Z'.val) ↔ (65 ≤ c.toNat ∧ c.toNat ≤ 90) := Iff.rfl
  unfold Char.toLower
  split
  · rename_i h
    have hhigh : c.val.toNat ≤ 90 := (hrange.mp h).2
    rw [if_pos (hrange.mp h)]
    change (c.val + 32).toNat = c.val.toNat + 32
    rw [UInt32.toNat_add]
    change (c.val.toNat + 32) % 2 ^ 32 = c.val.toNat + 32
    omega
  · rename_i h
    rw [if_neg (fun h' => h (hrange.mpr h'))]

theorem toNat_toUpper (c : Char) :
    c.toUpper.toNat = if 97 ≤ c.toNat ∧ c.toNat ≤ 122 then c.toNat - 32 else c.toNat := by
  have hrange : ('a'.val ≤ c.val ∧ c.val ≤ 'z'.val) ↔ (97 ≤ c.toNat ∧ c.toNat ≤ 122) := Iff.rfl
  unfold Char.toUpper
  split
  · rename_i h
    have hlow : 97 ≤ c.val.toNat := (hrange.mp h).1
    have hhigh : c.val.toNat ≤ 122 := (hrange.mp h).2
    rw [if_pos (hrange.mp h)]
    change (c.val + 4294967264).toNat = c.val.toNat - 32
    rw [UInt32.toNat_add]
    change (c.val.toNat + 4294967264) % 2 ^ 32 = c.val.toNat - 32
    omega
  · rename_i h
    rw [if_neg (fun h' => h (hrange.mpr h'))]

/-- A letter is known by its lower case as by its upper case, but for the sign for degrees Kelvin. -/
theorem lowerChar_eq_iff (low high : Char) (hhigh : 65 ≤ high.toNat ∧ high.toNat ≤ 90)
    (hlow : low.toNat = high.toNat + 32) (c : Char) :
    lowerChar c = low ↔ c.toUpper = high ∨ c = '\u212a' ∧ low = 'k' := by
  have hkelvin : c.toNat = 0x212a ↔ c = '\u212a' := Char.toNat_inj (d := '\u212a')
  unfold lowerChar
  by_cases h : c.toNat = 0x212a
  · have hc := hkelvin.mp h
    subst hc
    have hupper : Char.toUpper '\u212a' ≠ high := by
      rintro rfl
      exact absurd hhigh (by decide)
    rw [if_pos (by decide), or_iff_right hupper, and_iff_right rfl, eq_comm]
  · have hc : c ≠ '\u212a' := fun heq => h (hkelvin.mpr heq)
    rw [if_neg (by simpa using h), ← Char.toNat_inj, ← Char.toNat_inj, toNat_toLower, toNat_toUpper]
    simp only [hc, false_and, or_false]
    split <;> split <;> omega

theorem toUpper_eq_iff (low high : Char) (hhigh : 65 ≤ high.toNat ∧ high.toNat ≤ 90)
    (hlow : low.toNat = high.toNat + 32) (c : Char) : c.toUpper = high ↔ c = low ∨ c = high := by
  simp only [← Char.toNat_inj, toNat_toUpper]
  split <;> omega

theorem upperChar_of_ascii {c : Char} (h : c.toNat < 0x80) : upperChar c = [c.toUpper] := by
  rw [upperChar, if_pos h]

/-- In units only ASCII letters have an ASCII upper case. -/
theorem upper_of_toUpper {unit : List Char} (h : ∀ c ∈ unit, c.toUpper.toNat < 0x80) :
    upper unit = unit.map Char.toUpper := by
  unfold upper
  induction unit with
  | nil => rfl
  | cons c rest ih =>
    have hc : c.toNat < 0x80 := by
      have hfirst := h c List.mem_cons_self
      rw [toNat_toUpper] at hfirst
      split at hfirst <;> omega
    rw [List.flatMap_cons, upperChar_of_ascii hc, ih fun d hd => h d (List.mem_cons_of_mem _ hd)]
    rfl

/-! Units -/

theorem map_lowerChar_eq_one (unit : List Char) :
    unit.map lowerChar = ['b'] ↔ unit.map Char.toUpper = ['B'] := by
  simp [List.map_eq_cons_iff, lowerChar_eq_iff 'b' 'B']

theorem map_lowerChar_eq_two (low high : Char) (hhigh : 65 ≤ high.toNat ∧ high.toNat ≤ 90)
    (hlow : low.toNat = high.toNat + 32) (unit : List Char) :
    unit.map lowerChar = [low, 'b'] ↔
      unit.map Char.toUpper = [high, 'B'] ∨ low = 'k' ∧ IsKelvinUnit unit := by
  have hb : ∀ c, lowerChar c = 'b' ↔ c.toUpper = 'B' := fun c => by
    simp [lowerChar_eq_iff 'b' 'B']
  simp only [IsKelvinUnit, List.map_eq_cons_iff, List.map_eq_nil_iff]
  constructor
  · rintro ⟨a, _, rfl, ha, b, _, rfl, hlast, rfl⟩
    rcases (lowerChar_eq_iff _ _ hhigh hlow a).mp ha with hupper | ⟨rfl, hkelvin⟩
    · exact Or.inl ⟨a, _, rfl, hupper, b, _, rfl, (hb b).mp hlast, rfl⟩
    · exact Or.inr ⟨hkelvin, b, (hb b).mp hlast, rfl⟩
  · rintro (⟨a, _, rfl, ha, b, _, rfl, hlast, rfl⟩ | ⟨hkelvin, b, hlast, rfl⟩)
    · exact ⟨a, _, rfl, (lowerChar_eq_iff _ _ hhigh hlow a).mpr (Or.inl ha), b, _, rfl, (hb b).mpr hlast,
        rfl⟩
    · exact ⟨_, _, rfl, (lowerChar_eq_iff _ _ hhigh hlow _).mpr (Or.inr ⟨rfl, hkelvin⟩), b, _, rfl,
        (hb b).mpr hlast, rfl⟩

/-- A unit that is known by its lower case: one with a factor, or the one with the sign for degrees Kelvin. -/
def IsKnownUnit (unit : List Char) : Prop := (∃ factor, HasFactor unit factor) ∨ IsKelvinUnit unit

theorem contains_map_lowerChar_iff (unit : List Char) :
    ["b", "kb", "mb", "gb"].contains (String.ofList (unit.map lowerChar)) = true ↔
      IsKnownUnit unit := by
  have htext : ["b", "kb", "mb", "gb"].contains (String.ofList (unit.map lowerChar)) = true ↔
      unit.map lowerChar = ['b'] ∨ unit.map lowerChar = ['k', 'b'] ∨
      unit.map lowerChar = ['m', 'b'] ∨ unit.map lowerChar = ['g', 'b'] := by
    simp only [← String.ofList_inj]
    simp
  have hk := map_lowerChar_eq_two 'k' 'K' (by decide) (by decide) unit
  have hm := map_lowerChar_eq_two 'm' 'M' (by decide) (by decide) unit
  have hg := map_lowerChar_eq_two 'g' 'G' (by decide) (by decide) unit
  rw [htext, map_lowerChar_eq_one, hk, hm, hg]
  simp only [IsKnownUnit, HasFactor, List.mem_cons, Prod.mk.injEq, List.not_mem_nil, or_false,
    show ¬ 'm' = 'k' by decide, show ¬ 'g' = 'k' by decide, false_and, true_and]
  constructor
  · rintro (h | (h | h) | h | h)
    · exact Or.inl ⟨_, Or.inl ⟨h, rfl⟩⟩
    · exact Or.inl ⟨_, Or.inr (Or.inl ⟨h, rfl⟩)⟩
    · exact Or.inr h
    · exact Or.inl ⟨_, Or.inr (Or.inr (Or.inl ⟨h, rfl⟩))⟩
    · exact Or.inl ⟨_, Or.inr (Or.inr (Or.inr ⟨h, rfl⟩))⟩
  · rintro (⟨_, ⟨h, -⟩ | ⟨h, -⟩ | ⟨h, -⟩ | ⟨h, -⟩⟩ | h)
    · exact Or.inl h
    · exact Or.inr (Or.inl (Or.inl h))
    · exact Or.inr (Or.inr (Or.inl h))
    · exact Or.inr (Or.inr (Or.inr h))
    · exact Or.inr (Or.inl (Or.inr h))

theorem HasFactor.unitBytes? {unit : List Char} {factor : Nat} (h : HasFactor unit factor) :
    unitBytes? (String.ofList (upper unit)) = some factor := by
  have hletters : ∀ pair ∈ [(['B'], 1), (['K', 'B'], 1024), (['M', 'B'], 1024 * 1024),
      (['G', 'B'], 1024 * 1024 * 1024)], (pair.1.all fun c => c.toNat < 0x80) = true ∧
        Text.unitBytes? (String.ofList pair.1) = some pair.2 := by
    decide
  obtain ⟨hascii, hbytes⟩ := hletters _ h
  rw [List.all_eq_true] at hascii
  rw [upper_of_toUpper fun c hc => of_decide_eq_true (hascii _ (List.mem_map_of_mem hc)), hbytes]

theorem IsKelvinUnit.upper {unit : List Char} (h : IsKelvinUnit unit) :
    Text.upper unit = ['\u212a', 'B'] := by
  obtain ⟨c, hc, rfl⟩ := h
  have hlast : Text.upper [c] = [c].map Char.toUpper :=
    upper_of_toUpper fun d hd => by rw [List.mem_singleton.mp hd, hc]; decide
  have hfirst : upperChar '\u212a' = ['\u212a'] := by decide +kernel
  change upperChar '\u212a' ++ Text.upper [c] = ['\u212a', 'B']
  rw [hfirst, hlast, List.map_singleton, hc]
  rfl

theorem IsKnownUnit.ne_nil {unit : List Char} (h : IsKnownUnit unit) : unit ≠ [] := by
  rintro rfl
  revert h
  rw [← contains_map_lowerChar_iff]
  decide

/-- Units are letters, so neither digits nor blanks. -/
theorem IsKnownUnit.letter {unit : List Char} (h : IsKnownUnit unit) {c : Char} (hc : c ∈ unit) :
    isDigit c = false ∧ isBlank c = false := by
  have hlow : lowerChar c ∈ ['b', 'k', 'm', 'g'] := by
    have hcontains := (contains_map_lowerChar_iff unit).mpr h
    rw [List.contains_iff_mem] at hcontains
    have htexts : ∀ t ∈ ["b", "kb", "mb", "gb"], t.toList ⊆ ['b', 'k', 'm', 'g'] := by decide
    refine htexts _ hcontains ?_
    rw [String.toList_ofList]
    exact List.mem_map_of_mem hc
  have hletter : c ∈ ['b', 'B', 'k', 'K', 'm', 'M', 'g', 'G', '\u212a'] := by
    have hcase : ∀ low high : Char, (65 ≤ high.toNat ∧ high.toNat ≤ 90) →
        low.toNat = high.toNat + 32 → lowerChar c = low → c = low ∨ c = high ∨ c = '\u212a' := by
      intro low high hhigh hlow heq
      rcases (lowerChar_eq_iff _ _ hhigh hlow c).mp heq with hupper | ⟨hkelvin, -⟩
      · exact ((toUpper_eq_iff _ _ hhigh hlow c).mp hupper).imp_right Or.inl
      · exact Or.inr (Or.inr hkelvin)
    simp only [List.mem_cons, List.not_mem_nil, or_false] at hlow ⊢
    rcases hlow with h | h | h | h
    · have := hcase _ 'B' (by decide) (by decide) h
      tauto
    · have := hcase _ 'K' (by decide) (by decide) h
      tauto
    · have := hcase _ 'M' (by decide) (by decide) h
      tauto
    · have := hcase _ 'G' (by decide) (by decide) h
      tauto
  have hall : ∀ c ∈ ['b', 'B', 'k', 'K', 'm', 'M', 'g', 'G', '\u212a'],
      isDigit c = false ∧ isBlank c = false := by
    simp only [List.forall_mem_cons, List.not_mem_nil, false_implies, implies_true]
    decide
  exact hall c hletter

/-! Parts of a text -/

theorem isDigit_of_isBlank {c : Char} (h : isBlank c = true) : isDigit c = false := by
  have hall : ∀ n ∈ blankCodes, isDigit (Char.ofNat n) = false := by decide +kernel
  rw [isBlank, List.contains_iff_mem] at h
  have := hall _ h
  rwa [Char.ofNat_toNat] at this

section Parts

variable {p : Char → Bool} {front rest : List Char}

theorem takeWhile_append_of_stop (hfront : ∀ c ∈ front, p c = true)
    (hrest : ∀ c ∈ rest.head?, p c = false) : (front ++ rest).takeWhile p = front := by
  rw [List.takeWhile_append_of_pos hfront]
  cases rest with
  | nil => simp
  | cons c tail => simp [hrest c rfl]

theorem dropWhile_append_of_stop (hfront : ∀ c ∈ front, p c = true)
    (hrest : ∀ c ∈ rest.head?, p c = false) : (front ++ rest).dropWhile p = rest := by
  rw [List.dropWhile_append_of_pos hfront]
  cases rest with
  | nil => rfl
  | cons c tail => simp [hrest c rfl]

end Parts

/-- Blanks around a text that begins and ends with none are trimmed. -/
theorem trim_append {before body after : List Char} (hbefore : ∀ c ∈ before, isBlank c = true)
    (hafter : ∀ c ∈ after, isBlank c = true) (hhead : ∀ c ∈ body.head?, isBlank c = false)
    (hlast : ∀ c ∈ body.getLast?, isBlank c = false) (hne : body ≠ []) :
    trim (before ++ (body ++ after)) = body := by
  have hleft : trimLeft (before ++ (body ++ after)) = body ++ after := by
    refine dropWhile_append_of_stop hbefore ?_
    rwa [List.head?_append_of_ne_nil _ hne]
  have hright : trimRight (body ++ after) = body := by
    rw [trimRight, List.reverse_append, dropWhile_append_of_stop, List.reverse_reverse]
    · exact fun c hc => hafter c (List.mem_reverse.mp hc)
    · rwa [List.head?_reverse]
  rw [trim, hleft, hright]

/-- A text is what was trimmed off it around what is left. -/
theorem trim_split (s : List Char) : ∃ before after, s = before ++ (trim s ++ after) ∧
    (∀ c ∈ before, isBlank c = true) ∧ ∀ c ∈ after, isBlank c = true := by
  refine ⟨s.takeWhile isBlank, ((trimLeft s).reverse.takeWhile isBlank).reverse, ?_,
    fun c hc => List.mem_takeWhile_imp hc, fun c hc =>
      List.mem_takeWhile_imp (List.mem_reverse.mp hc)⟩
  have hright : trim s ++ ((trimLeft s).reverse.takeWhile isBlank).reverse = trimLeft s := by
    rw [trim, trimRight, ← List.reverse_append, List.takeWhile_append_dropWhile,
      List.reverse_reverse]
  rw [hright]
  exact List.takeWhile_append_dropWhile.symm

/-- The digits that a text begins with, blanks before them left aside. -/
def leadingDigits (s : List Char) : List Char := (trim s).takeWhile isDigit

/-- What follows the digits that a text begins with, without the blanks around it. -/
def unitAfter (s : List Char) : List Char :=
  ((trim s).drop (leadingDigits s).length).dropWhile isBlank

/-- Every text that begins with digits is made of them and of what follows. -/
theorem spells_parts {s : List Char} (h : leadingDigits s ≠ []) :
    Spells s (leadingDigits s) (unitAfter s) := by
  obtain ⟨before, after, hs, hbefore, hafter⟩ := trim_split s
  refine ⟨⟨before, ((trim s).drop (leadingDigits s).length).takeWhile isBlank, after, ?_, hbefore,
    fun c hc => List.mem_takeWhile_imp hc, hafter⟩, h, fun c hc => List.mem_takeWhile_imp hc⟩
  have hdigits : leadingDigits s ++ (trim s).drop (leadingDigits s).length = trim s :=
    List.prefix_iff_eq_append.mp (List.takeWhile_prefix _)
  have hrest : ((trim s).drop (leadingDigits s).length).takeWhile isBlank ++ unitAfter s =
      (trim s).drop (leadingDigits s).length := List.takeWhile_append_dropWhile
  conv_lhs => rw [hs, ← hdigits, ← hrest]
  simp only [List.append_assoc]

/-- A known unit and the digits before it are found in the text that they make. -/
theorem Spells.parts {s digits unit : List Char} (h : Spells s digits unit)
    (hunit : IsKnownUnit unit) : leadingDigits s = digits ∧ unitAfter s = unit := by
  obtain ⟨before, gap, after, rfl, hbefore, hgap, hafter⟩ := h.split
  have hstart : ∀ c ∈ unit.head?, isDigit c = false ∧ isBlank c = false :=
    fun c hc => hunit.letter (List.mem_of_mem_head? hc)
  have htrim : trim (before ++ (digits ++ (gap ++ (unit ++ after)))) = digits ++ (gap ++ unit) := by
    have hassoc : digits ++ (gap ++ (unit ++ after)) = digits ++ (gap ++ unit) ++ after := by
      simp only [List.append_assoc]
    rw [hassoc]
    refine trim_append hbefore hafter ?_ ?_ (by simp [h.nonempty])
    · intro c hc
      rw [List.head?_append_of_ne_nil _ h.nonempty] at hc
      by_contra hblank
      have hdigit := h.digits c (List.mem_of_mem_head? hc)
      rw [isDigit_of_isBlank (Bool.not_eq_false _ ▸ hblank)] at hdigit
      cases hdigit
    · intro c hc
      rw [← List.append_assoc, List.getLast?_append_of_ne_nil _ hunit.ne_nil] at hc
      exact (hunit.letter (List.mem_of_getLast? hc)).2
  have hdigits : leadingDigits (before ++ (digits ++ (gap ++ (unit ++ after)))) = digits := by
    rw [leadingDigits, htrim]
    refine takeWhile_append_of_stop h.digits ?_
    intro c hc
    cases gap with
    | nil => exact (hstart c hc).1
    | cons b rest =>
      cases hc
      exact isDigit_of_isBlank (hgap _ List.mem_cons_self)
  refine ⟨hdigits, ?_⟩
  rw [unitAfter, hdigits, htrim, List.drop_left]
  exact dropWhile_append_of_stop hgap fun c hc => (hstart c hc).2

/-! Sizes -/

/-- A text is made of these digits and this unit, a known one. -/
structure SpellsKnown (s : String) (digits unit : List Char) : Prop where
  spells : Spells s.toList digits unit
  known : IsKnownUnit unit

/-- What becomes of digits and a unit that is known by its lower case. -/
def sized (digits unit : List Char) : Except Failure Nat :=
  if digitLimit < digits.length then .error (.badValue (.tooManyDigits digits.length))
  else match unitBytes? (String.ofList (upper unit)) with
    | some factor => .ok (numberOf digits * factor)
    | none => .error (.missingKey (String.ofList (upper unit)))

theorem parseSize_eq (s : String) : parseSize s =
    if ((leadingDigits s.toList).isEmpty || !(["b", "kb", "mb", "gb"].contains
      (String.ofList ((unitAfter s.toList).map lowerChar)))) = true
    then .error (.badValue (.badSize s)) else sized (leadingDigits s.toList) (unitAfter s.toList) := by
  cases hfactor : unitBytes? (String.ofList (upper (unitAfter s.toList))) with
  | none =>
    unfold sized
    rw [hfactor]
    unfold unitAfter leadingDigits at hfactor ⊢
    simp only [parseSize, hfactor]
  | some factor =>
    unfold sized
    rw [hfactor]
    unfold unitAfter leadingDigits at hfactor ⊢
    simp only [parseSize, hfactor]

/-- A text is no size, or it is made of digits and a known unit. -/
theorem parseSize_cases (s : String) :
    (parseSize s = .error (.badValue (.badSize s)) ∧ ¬ ∃ digits unit, SpellsKnown s digits unit) ∨
      ∃ digits unit, SpellsKnown s digits unit ∧ parseSize s = sized digits unit := by
  rw [parseSize_eq]
  split
  · rename_i hrefused
    refine Or.inl ⟨rfl, ?_⟩
    rintro ⟨digits, unit, h⟩
    obtain ⟨hdigits, hunit⟩ := h.spells.parts h.known
    rw [hdigits, hunit, (contains_map_lowerChar_iff unit).mpr h.known] at hrefused
    simp [h.spells.nonempty] at hrefused
  · rename_i haccepted
    rw [Bool.or_eq_true, not_or, Bool.not_eq_true, Bool.not_eq_true', Bool.not_eq_false,
      contains_map_lowerChar_iff] at haccepted
    exact Or.inr ⟨_, _, ⟨spells_parts (by simpa using haccepted.1), haccepted.2⟩, rfl⟩

theorem SpellsKnown.unique {s : String} {digits digits' unit unit' : List Char}
    (h : SpellsKnown s digits unit) (h' : SpellsKnown s digits' unit') :
    digits = digits' ∧ unit = unit' := by
  obtain ⟨hdigits, hunit⟩ := h.spells.parts h.known
  obtain ⟨hdigits', hunit'⟩ := h'.spells.parts h'.known
  exact ⟨hdigits.symm.trans hdigits', hunit.symm.trans hunit'⟩

theorem sized_of_hasFactor {unit : List Char} {factor : Nat} (h : HasFactor unit factor)
    (digits : List Char) : sized digits unit =
      if digitLimit < digits.length then .error (.badValue (.tooManyDigits digits.length))
      else .ok (numberOf digits * factor) := by
  unfold sized
  rw [h.unitBytes?]

theorem sized_of_isKelvinUnit {unit : List Char} (h : IsKelvinUnit unit) (digits : List Char) :
    sized digits unit =
      if digitLimit < digits.length then .error (.badValue (.tooManyDigits digits.length))
      else .error (.missingKey "\u212aB") := by
  have hnone : unitBytes? (String.ofList ['\u212a', 'B']) = none := by decide
  unfold sized
  rw [h.upper, hnone]

/-- What a text is read as. It is a size exactly if it is made of digits, not too many, and of a unit in any case of
its letters. It is refused as no size exactly if it is not made of digits and a known unit. The unit of 1024 bytes
with the sign for degrees Kelvin is known and has no factor, so a text with it is neither. -/
theorem parseSize_outcomes (s : String) :
    (∀ n, parseSize s = .ok n ↔ ∃ digits unit factor, Spells s.toList digits unit ∧
      HasFactor unit factor ∧ digits.length ≤ digitLimit ∧ n = numberOf digits * factor) ∧
    (∀ f, parseSize s = .error f ↔
      (f = .badValue (.badSize s) ∧
        ¬ ∃ digits unit, Spells s.toList digits unit ∧ IsKnownUnit unit) ∨
      (f = .missingKey "\u212aB" ∧ ∃ digits unit, Spells s.toList digits unit ∧
        IsKelvinUnit unit ∧ digits.length ≤ digitLimit) ∨
      ∃ digits unit, f = .badValue (.tooManyDigits digits.length) ∧ Spells s.toList digits unit ∧
        IsKnownUnit unit ∧ digitLimit < digits.length) := by
  rcases parseSize_cases s with ⟨hread, hnone⟩ | ⟨digits, unit, h, hread⟩
  · have hunknown : ∀ {digits unit}, Spells s.toList digits unit → ¬ IsKnownUnit unit :=
      fun hs hunit => hnone ⟨_, _, hs, hunit⟩
    constructor
    · intro n
      rw [hread]
      refine iff_of_false nofun ?_
      rintro ⟨_, _, _, hs, hunit, -⟩
      exact hunknown hs (Or.inl ⟨_, hunit⟩)
    · intro f
      rw [hread]
      constructor
      · rintro ⟨⟩
        exact Or.inl ⟨rfl, fun ⟨_, _, hs, hunit⟩ => hunknown hs hunit⟩
      · rintro (⟨rfl, -⟩ | ⟨-, _, _, hs, hunit, -⟩ | ⟨_, _, -, hs, hunit, -⟩)
        · rfl
        · exact absurd (Or.inr hunit) (hunknown hs)
        · exact absurd hunit (hunknown hs)
  · -- Other digits and another known unit cannot make the same text.
    have hsame : ∀ {digits' unit'}, Spells s.toList digits' unit' → IsKnownUnit unit' →
        digits' = digits ∧ unit' = unit := fun hs hunit => SpellsKnown.unique ⟨hs, hunit⟩ h
    constructor
    · intro n
      rw [hread]
      constructor
      · intro hn
        rcases h.known with ⟨factor, hunit⟩ | hunit
        · rw [sized_of_hasFactor hunit] at hn
          split at hn
          · cases hn
          · cases hn
            exact ⟨digits, unit, factor, h.spells, hunit, Nat.le_of_not_lt ‹_›, rfl⟩
        · rw [sized_of_isKelvinUnit hunit] at hn
          split at hn <;> cases hn
      · rintro ⟨_, _, factor, hs, hunit, hlimit, rfl⟩
        obtain ⟨rfl, rfl⟩ := hsame hs (Or.inl ⟨_, hunit⟩)
        rw [sized_of_hasFactor hunit, if_neg (Nat.not_lt_of_le hlimit)]
    · intro f
      rw [hread]
      constructor
      · intro hf
        by_cases hlimit : digitLimit < digits.length
        · rw [sized, if_pos hlimit] at hf
          cases hf
          exact Or.inr (Or.inr ⟨digits, unit, rfl, h.spells, h.known, hlimit⟩)
        · rcases h.known with ⟨factor, hunit⟩ | hunit
          · rw [sized_of_hasFactor hunit, if_neg hlimit] at hf
            cases hf
          · rw [sized_of_isKelvinUnit hunit, if_neg hlimit] at hf
            cases hf
            exact Or.inr (Or.inl ⟨rfl, digits, unit, h.spells, hunit, Nat.le_of_not_lt hlimit⟩)
      · rintro (⟨-, hnone⟩ | ⟨rfl, _, _, hs, hunit, hlimit⟩ | ⟨_, _, rfl, hs, hunit, hlimit⟩)
        · exact absurd ⟨digits, unit, h.spells, h.known⟩ hnone
        · obtain ⟨rfl, rfl⟩ := hsame hs (Or.inr hunit)
          rw [sized_of_isKelvinUnit hunit, if_neg (Nat.not_lt_of_le hlimit)]
        · obtain ⟨rfl, rfl⟩ := hsame hs hunit
          rw [sized, if_pos hlimit]

/-- One byte in 1024, with the sign for degrees Kelvin: it is not refused as no size is. -/
theorem parseSize_kelvin_unit :
    ¬ (∀ s, (∃ n, parseSize s = .ok n) ∨ ∃ b, parseSize s = .error (.badValue b)) ∧
      parseSize "1\u212aB" = .error (.missingKey "\u212aB") := by
  have hdigits : leadingDigits "1\u212aB".toList = ['1'] := by decide +kernel
  have hunit : unitAfter "1\u212aB".toList = ['\u212a', 'B'] := by decide +kernel
  have hread : parseSize "1\u212aB" = .error (.missingKey "\u212aB") := by
    rw [parseSize_eq, hdigits, hunit, if_neg (by decide),
      sized_of_isKelvinUnit ⟨'B', by decide, rfl⟩, if_neg (by decide)]
  refine ⟨fun hall => ?_, hread⟩
  rcases hall "1\u212aB" with ⟨n, hn⟩ | ⟨b, hb⟩
  · rw [hread] at hn
    cases hn
  · rw [hread] at hb
    cases hb

end AssetCompiler.Text
