import AssetCompiler.Json.Reader
import AssetCompiler.Json.Writer
import AssetCompiler.Proofs.Tables
import AssetCompiler.Proofs.WrittenFractions

/-!
What the writer writes, the reader reads back: in every style, for every value whose objects have
different names, but that a fraction may end with other zeros. A text may stand before anything that
does not go on with it, so the proof follows the values down to their parts.
-/
namespace AssetCompiler.Json

open Text

/-! Texts -/

theorem hexValue?_digitChar {n : Nat} (h : n < 16) : hexValue? (Nat.digitChar n) = some n :=
  (by decide : ∀ m < 16, hexValue? (Nat.digitChar m) = some m) n h

theorem toDigits_step {n : Nat} (h : 16 ≤ n) :
    Nat.toDigits 16 n = Nat.toDigits 16 (n / 16) ++ [Nat.digitChar (n % 16)] :=
  Nat.toDigits_of_base_le (by decide) h

/-- Four digits write a unit, zeros first. -/
theorem toList_padded_unit {n : Nat} (h : n < 0x10000) :
    (padded 16 4 n).toList = [Nat.digitChar (n / 4096), Nat.digitChar (n / 256 % 16),
      Nat.digitChar (n / 16 % 16), Nat.digitChar (n % 16)] := by
  have hdigit : ∀ m < 16, Nat.toDigits 16 m = [Nat.digitChar m] :=
    fun m hm => Nat.toDigits_of_lt_base hm
  have hzero : Nat.digitChar 0 = '0' := rfl
  simp only [padded, String.toList_ofList]
  by_cases h1 : n < 16
  · rw [hdigit n h1, show n / 4096 = 0 by omega, show n / 256 % 16 = 0 by omega,
      show n / 16 % 16 = 0 by omega, show n % 16 = n by omega, hzero]
    rfl
  rw [toDigits_step (by omega)]
  by_cases h2 : n / 16 < 16
  · rw [hdigit _ h2, show n / 4096 = 0 by omega, show n / 256 % 16 = 0 by omega,
      show n / 16 % 16 = n / 16 by omega, hzero]
    rfl
  rw [toDigits_step (by omega)]
  by_cases h3 : n / 16 / 16 < 16
  · rw [hdigit _ h3, show n / 4096 = 0 by omega, show n / 256 % 16 = n / 16 / 16 by omega, hzero]
    rfl
  · rw [toDigits_step (by omega), hdigit _ (by omega), show n / 4096 = n / 16 / 16 / 16 by omega,
      show n / 256 % 16 = n / 16 / 16 % 16 by omega]
    rfl

theorem unit?_digits {n : Nat} (h : n < 0x10000) :
    unit? (Nat.digitChar (n / 4096)) (Nat.digitChar (n / 256 % 16)) (Nat.digitChar (n / 16 % 16))
      (Nat.digitChar (n % 16)) = some n := by
  unfold unit?
  rw [hexValue?_digitChar (show n / 4096 < 16 by omega),
    hexValue?_digitChar (show n / 256 % 16 < 16 by omega),
    hexValue?_digitChar (show n / 16 % 16 < 16 by omega),
    hexValue?_digitChar (show n % 16 < 16 by omega)]
  change some _ = some n
  rw [show (n / 4096 * 16 + n / 256 % 16) * 256 + (n / 16 % 16 * 16 + n % 16) = n by omega]

theorem readText_unitEscape {n : Nat} (h : n < 0x10000) (hhigh : isHighUnit n = false)
    (hlow : isLowUnit n = false) (rest : List Char) :
    readText (unitEscape n ++ rest) =
      (readText rest).map fun p => (Char.ofNat n :: p.1, p.2) := by
  rw [unitEscape, toList_padded_unit h]
  simp only [List.cons_append, List.nil_append]
  rw [readText, unit?_digits h]
  simp only [hhigh, hlow, Bool.false_eq_true, if_false]

theorem readText_pair {n m : Nat} (hn : 0xd800 ≤ n ∧ n < 0xdc00) (hm : 0xdc00 ≤ m ∧ m < 0xe000)
    (rest : List Char) :
    readText (unitEscape n ++ (unitEscape m ++ rest)) = (readText rest).map fun p =>
      (Char.ofNat (0x10000 + (n - 0xd800) * 0x400 + (m - 0xdc00)) :: p.1, p.2) := by
  have hlow : isLowUnit n = false := by simp [isLowUnit]; omega
  have hhigh : isHighUnit n = true := by simp [isHighUnit]; omega
  have hlow' : isLowUnit m = true := by simp [isLowUnit]; omega
  rw [unitEscape, unitEscape, toList_padded_unit (by omega), toList_padded_unit (by omega)]
  simp only [List.cons_append, List.nil_append]
  rw [readText, unit?_digits (by omega)]
  simp only [hlow, hhigh, Bool.false_eq_true, if_false, if_true]
  rw [unit?_digits (by omega)]
  simp only [hlow', if_true]

theorem readText_codeEscape (c : Char) (rest : List Char) :
    readText (codeEscape c ++ rest) = (readText rest).map fun p => (c :: p.1, p.2) := by
  have hvalid : c.toNat < 0xd800 ∨ 0xdfff < c.toNat ∧ c.toNat < 0x110000 := c.valid
  have hc : Char.ofNat c.toNat = c := Char.ofNat_toNat c
  unfold codeEscape
  split
  · rename_i h
    rw [readText_unitEscape h (by simp [isHighUnit]; omega) (by simp [isLowUnit]; omega), hc]
  · rename_i h
    rw [List.append_assoc, readText_pair (by omega) (by omega),
      show 0x10000 + (0xd800 + (c.toNat - 0x10000) / 0x400 - 0xd800) * 0x400 +
        (0xdc00 + (c.toNat - 0x10000) % 0x400 - 0xdc00) = c.toNat by omega, hc]

theorem readText_plain {c : Char} (hquote : c ≠ '"') (hback : c ≠ '\\') (hlow : ¬ c.toNat < 0x20)
    (rest : List Char) :
    readText (c :: rest) = (readText rest).map fun p => (c :: p.1, p.2) := by
  have hplain : ¬ (c.toNat < 0x20 ∨ c = '\\') := by
    rintro (h | h)
    · exact hlow h
    · exact hback h
  rw [readText.eq_def]
  split
  · rename_i heq
    cases heq
  · rename_i heq
    exact absurd (List.cons.inj heq).1 hquote
  · rename_i heq
    exact absurd (List.cons.inj heq).1 hback
  · rename_i heq
    exact absurd (List.cons.inj heq).1 hback
  · rename_i heq
    cases heq
    rw [if_neg hplain]

theorem readText_escapeChar (asciiOnly : Bool) (c : Char) (rest : List Char) :
    readText (escapeChar asciiOnly c ++ rest) = (readText rest).map fun p => (c :: p.1, p.2) := by
  have hc : Char.ofNat c.toNat = c := Char.ofNat_toNat c
  unfold escapeChar
  by_cases h1 : c = '"' ∨ c = '\\'
  · rw [if_pos h1]
    rcases h1 with rfl | rfl <;> rfl
  rw [if_neg h1]
  by_cases h2 : c = '\n'
  · rw [if_pos h2, h2]
    rfl
  rw [if_neg h2]
  by_cases h3 : c = '\r'
  · rw [if_pos h3, h3]
    rfl
  rw [if_neg h3]
  by_cases h4 : c = '\t'
  · rw [if_pos h4, h4]
    rfl
  rw [if_neg h4]
  by_cases h5 : c.toNat = 0x08
  · rw [if_pos h5, ← hc, h5]
    rfl
  rw [if_neg h5]
  by_cases h6 : c.toNat = 0x0c
  · rw [if_pos h6, ← hc, h6]
    rfl
  rw [if_neg h6]
  by_cases h7 : c.toNat < 0x20
  · rw [if_pos h7, readText_codeEscape]
  rw [if_neg h7]
  split
  · exact readText_codeEscape c rest
  · rw [not_or] at h1
    exact readText_plain h1.1 h1.2 h7 rest

/-- A written text is read back, whatever follows. -/
theorem readText_writeText (asciiOnly : Bool) (s : String) (rest : List Char) :
    ∃ body, writeText asciiOnly s ++ rest = '"' :: body ∧ readText body = some (s.toList, rest) := by
  refine ⟨s.toList.flatMap (escapeChar asciiOnly) ++ '"' :: rest, by simp [writeText], ?_⟩
  induction s.toList with
  | nil => rfl
  | cons c cs ih =>
    rw [List.flatMap_cons, List.append_assoc, readText_escapeChar, ih]
    rfl

/-! Numbers -/

/-- What may follow a value: nothing, or a character that no value goes on with. -/
def Stops (rest : List Char) : Prop :=
  ∀ c tail, rest = c :: tail → c = ',' ∨ c = ']' ∨ c = '}' ∨ c = '\n'

theorem stops_nil : Stops [] := by
  intro c tail h
  cases h

theorem stops_cons {c : Char} (tail : List Char) (h : c = ',' ∨ c = ']' ∨ c = '}' ∨ c = '\n') :
    Stops (c :: tail) := by
  intro c' tail' heq
  cases heq
  exact h

theorem Stops.noDigit {rest : List Char} (h : Stops rest) : NoDigit rest := by
  intro c tail heq
  rcases h c tail heq with rfl | rfl | rfl | rfl <;> rfl

theorem Stops.readFraction {rest : List Char} (h : Stops rest) : readFraction rest = none := by
  cases rest with
  | nil => rfl
  | cons c tail => rcases h c tail rfl with rfl | rfl | rfl | rfl <;> rfl

theorem Stops.readExponent {rest : List Char} (h : Stops rest) : readExponent rest = none := by
  cases rest with
  | nil => rfl
  | cons c tail => rcases h c tail rfl with rfl | rfl | rfl | rfl <;> rfl

theorem digits?_decimal (n : Nat) {rest : List Char} (h : Stops rest) :
    digits? ((decimal n).toList ++ rest) = some ((decimal n).toList, rest) := by
  rw [decimal, String.toList_ofList]
  exact digits?_append (isRun_toDigits n) h.noDigit

/-- A number that begins with a zero is zero. -/
theorem decimal_append_eq_zero {n : Nat} {rest tail : List Char}
    (h : (decimal n).toList ++ rest = '0' :: tail) : n = 0 ∧ tail = rest := by
  rw [decimal, String.toList_ofList] at h
  rcases Nat.eq_zero_or_pos n with rfl | hpos
  · exact ⟨rfl, (List.cons.inj h).2.symm⟩
  · rcases hdigits : Nat.toDigits 10 n with _ | ⟨c, cs⟩
    · exact absurd hdigits Nat.toDigits_ne_nil
    · rw [hdigits, List.cons_append, List.cons.injEq] at h
      exact absurd (h.1 ▸ hdigits) (head_toDigits_ne_zero hpos cs)

theorem readNumber_decimal (negative : Bool) (n : Nat) {rest : List Char} (h : Stops rest) :
    readNumber negative ((decimal n).toList ++ rest) =
      some (.int (Decimal.signed negative n), rest) := by
  have hvalue : natOf (decimal n).toList = n := by
    rw [decimal, String.toList_ofList]
    exact valueOf_toDigits n
  have hdigits := digits?_decimal n h
  have hzero := fun tail => @decimal_append_eq_zero n rest tail
  generalize (decimal n).toList ++ rest = s at hdigits hzero ⊢
  by_cases hs : ∃ tail, s = '0' :: tail
  · obtain ⟨tail, rfl⟩ := hs
    obtain ⟨rfl, rfl⟩ := hzero tail rfl
    simp only [readNumber, Option.bind_eq_bind, Option.bind_some, h.readFraction, Option.map_none,
      Option.getD_none, h.readExponent, Option.isNone_none, Bool.and_self, if_true]
    rfl
  · have hnone : ∀ tail, s = '0' :: tail → False := fun tail heq => hs ⟨tail, heq⟩
    simp only [readNumber, hdigits, Option.bind_eq_bind, Option.bind_some, h.readFraction,
      Option.map_none, Option.getD_none, h.readExponent, Option.isNone_none, Bool.and_self,
      if_true, hvalue]
    rfl

theorem head_decimal (n : Nat) : ∃ c cs, (decimal n).toList = c :: cs ∧ c.isDigit = true := by
  rcases hdigits : (decimal n).toList with _ | ⟨c, cs⟩
  · rw [decimal, String.toList_ofList] at hdigits
    exact absurd hdigits Nat.toDigits_ne_nil
  · exact ⟨c, cs, rfl, isDigit_of_mem_decimal (hdigits ▸ List.mem_cons_self)⟩

/-- A whole number is read back. -/
theorem readSimple_signedDecimal (n : Int) {rest : List Char} (h : Stops rest) :
    readSimple ((signedDecimal n).toList ++ rest) = some (.int n, rest) := by
  cases n with
  | ofNat n =>
    have hread := readNumber_decimal false n h
    obtain ⟨c, cs, hdigits, hc⟩ := head_decimal n
    change readSimple ((decimal n).toList ++ rest) = _
    rw [hdigits, List.cons_append] at hread ⊢
    rw [readSimple_digit hc, hread]
    rfl
  | negSucc n =>
    have hread := readNumber_decimal true (n + 1) h
    obtain ⟨c, cs, hdigits, hc⟩ := head_decimal (n + 1)
    have htext : (signedDecimal (.negSucc n)).toList = '-' :: (decimal (n + 1)).toList := by
      rw [signedDecimal, String.toList_append]
      rfl
    rw [hdigits, List.cons_append] at hread
    rw [htext, hdigits, List.cons_append, List.cons_append, readSimple_minus hc, hread]
    rfl

/-! Values -/

mutual

/-- Values that every style keeps apart: no fractions, and in each object different names. -/
def IsPlain : Json → Prop
  | .real _ => False
  | .arr items => ArePlain items
  | .obj fields => (Keyed.keys fields).Nodup ∧ FieldsPlain fields
  | _ => True

def ArePlain : List Json → Prop
  | [] => True
  | item :: items => IsPlain item ∧ ArePlain items

def FieldsPlain : List (String × Json) → Prop
  | [] => True
  | (_, v) :: fields => IsPlain v ∧ FieldsPlain fields

end

mutual

/-- Values with different names in each object. -/
def IsKeyed : Json → Prop
  | .arr items => AreKeyed items
  | .obj fields => (Keyed.keys fields).Nodup ∧ FieldsKeyed fields
  | _ => True

def AreKeyed : List Json → Prop
  | [] => True
  | item :: items => IsKeyed item ∧ AreKeyed items

def FieldsKeyed : List (String × Json) → Prop
  | [] => True
  | (_, v) :: fields => IsKeyed v ∧ FieldsKeyed fields

end

mutual

/-- What is read from a value that was written. -/
def echo : Json → Json
  | .real d => .real d.echo
  | .arr items => .arr (echoItems items)
  | .obj fields => .obj (echoFields fields)
  | v => v

def echoItems : List Json → List Json
  | [] => []
  | item :: items => echo item :: echoItems items

def echoFields : List (String × Json) → List (String × Json)
  | [] => []
  | (k, v) :: fields => (k, echo v) :: echoFields fields

end

theorem keys_echoFields (fields : List (String × Json)) :
    Keyed.keys (echoFields fields) = Keyed.keys fields := by
  induction fields with
  | nil => rfl
  | cons field fields ih => exact congrArg (List.cons field.1) ih

mutual

theorem IsPlain.keyed : ∀ v : Json, IsPlain v → IsKeyed v ∧ echo v = v
  | .null, _ | .bool _, _ | .int _, _ | .nan, _ | .infinity _, _ | .str _, _ => ⟨trivial, rfl⟩
  | .real _, h => h.elim
  | .arr items, h =>
    have hitems := ArePlain.keyed items h
    ⟨hitems.1, congrArg Json.arr hitems.2⟩
  | .obj fields, h =>
    have hfields := FieldsPlain.keyed fields h.2
    ⟨⟨h.1, hfields.1⟩, congrArg Json.obj hfields.2⟩

theorem ArePlain.keyed : ∀ items : List Json, ArePlain items → AreKeyed items ∧ echoItems items = items
  | [], _ => ⟨trivial, rfl⟩
  | item :: items, h =>
    have hitem := IsPlain.keyed item h.1
    have hitems := ArePlain.keyed items h.2
    ⟨⟨hitem.1, hitems.1⟩, by rw [echoItems, hitem.2, hitems.2]⟩

theorem FieldsPlain.keyed : ∀ fields : List (String × Json), FieldsPlain fields →
    FieldsKeyed fields ∧ echoFields fields = fields
  | [], _ => ⟨trivial, rfl⟩
  | (k, v) :: fields, h =>
    have hv := IsPlain.keyed v h.1
    have hfields := FieldsPlain.keyed fields h.2
    ⟨⟨hv.1, hfields.1⟩, by rw [echoFields, hv.2, hfields.2]⟩

end

mutual

/-- The fuel that reading a value takes. -/
def weight : Json → Nat
  | .arr items => 1 + itemsWeight items
  | .obj fields => 1 + fieldsWeight fields
  | _ => 1

def itemsWeight : List Json → Nat
  | [] => 0
  | item :: items => 1 + weight item + itemsWeight items

def fieldsWeight : List (String × Json) → Nat
  | [] => 0
  | (_, v) :: fields => 1 + weight v + fieldsWeight fields

end

theorem length_signedDecimal_pos (n : Int) : 1 ≤ (signedDecimal n).toList.length := by
  have hdecimal : ∀ m, 1 ≤ (decimal m).toList.length := by
    intro m
    rw [decimal, String.toList_ofList]
    exact Nat.length_toDigits_pos
  cases n with
  | ofNat n => exact hdecimal n
  | negSucc n =>
    rw [signedDecimal, String.toList_append, List.length_append]
    exact Nat.le_trans (hdecimal (n + 1)) (Nat.le_add_left _ _)

theorem head_text (d : Decimal) :
    ∃ c cs, d.text.toList = c :: cs ∧ (c.isDigit = true ∨ c = '-') := by
  obtain ⟨c, cs, hbody, hc⟩ := head_body d.plain
  rw [Decimal.toList_text]
  split
  · exact ⟨_, _, rfl, Or.inr rfl⟩
  · exact ⟨c, cs, hbody, Or.inl hc⟩

mutual

theorem weight_le_length (style : Style) (level : Nat) :
    ∀ v : Json, weight v ≤ 2 * (render style level v).length
  | .null | .bool true | .bool false | .nan => by simp [weight, render]
  | .infinity true | .infinity false => by simp [weight, render]
  | .real d => by
    obtain ⟨c, cs, htext, -⟩ := head_text d
    simp only [weight, render, htext, List.length_cons]
    omega
  | .int n => by
    have := length_signedDecimal_pos n
    simp only [weight, render]
    omega
  | .str s => by
    simp only [weight, render, writeText, List.length_append, List.length_cons]
    omega
  | .arr [] => by simp [weight, itemsWeight, render]
  | .arr (item :: items) => by
    have hitem := weight_le_length style (level + 1) item
    have hitems := itemsWeight_le_length style (level + 1) items
    simp only [weight, itemsWeight, render, List.length_append, List.length_cons]
    omega
  | .obj [] => by simp [weight, fieldsWeight, render]
  | .obj ((k, v) :: fields) => by
    have hv := weight_le_length style (level + 1) v
    have hfields := fieldsWeight_le_length style (level + 1) fields
    simp only [weight, fieldsWeight, render, List.length_append, List.length_cons]
    omega

theorem itemsWeight_le_length (style : Style) (level : Nat) :
    ∀ items : List Json, itemsWeight items ≤ 2 * (renderItems style level items).length
  | [] => Nat.zero_le _
  | item :: items => by
    have hitem := weight_le_length style level item
    have hitems := itemsWeight_le_length style level items
    simp only [itemsWeight, renderItems, List.length_append, List.length_cons]
    omega

theorem fieldsWeight_le_length (style : Style) (level : Nat) :
    ∀ fields : List (String × Json),
      fieldsWeight fields ≤ 2 * (renderFields style level fields).length
  | [] => Nat.zero_le _
  | (_, v) :: fields => by
    have hv := weight_le_length style level v
    have hfields := fieldsWeight_le_length style level fields
    simp only [fieldsWeight, renderFields, List.length_append, List.length_cons]
    omega

end

theorem skipGaps_append {gap : List Char} (h : ∀ c ∈ gap, isGap c = true) (rest : List Char) :
    skipGaps (gap ++ rest) = skipGaps rest :=
  List.dropWhile_append_of_pos h

theorem skipGaps_cons {c : Char} (h : isGap c = false) (rest : List Char) :
    skipGaps (c :: rest) = c :: rest := by
  simp [skipGaps, h]

theorem isGap_newLine (layout : Layout) (level : Nat) :
    ∀ c ∈ layout.newLine level, isGap c = true := by
  intro c hc
  cases layout with
  | indented step =>
    rcases List.mem_cons.mp hc with rfl | hc
    · rfl
    · rw [List.eq_of_mem_replicate hc]
      rfl
  | _ => cases hc

theorem isGap_afterComma (layout : Layout) (level : Nat) :
    ∀ c ∈ layout.afterComma level, isGap c = true := by
  cases layout with
  | spaced =>
    intro c hc
    rw [List.mem_singleton.mp hc]
    rfl
  | tight => exact isGap_newLine .tight level
  | indented step => exact isGap_newLine (.indented step) level

theorem isGap_afterColon (layout : Layout) : ∀ c ∈ layout.afterColon, isGap c = true := by
  intro c hc
  cases layout with
  | tight => cases hc
  | _ =>
    rw [List.mem_singleton.mp hc]
    rfl

theorem stops_newLine (layout : Layout) (level : Nat) {c : Char} (rest : List Char)
    (h : c = ']' ∨ c = '}') : Stops (layout.newLine level ++ c :: rest) := by
  cases layout with
  | indented step => exact stops_cons _ (Or.inr (Or.inr (Or.inr rfl)))
  | _ => exact stops_cons rest (by rcases h with rfl | rfl <;> simp)

theorem head_signedDecimal (n : Int) :
    ∃ c cs, (signedDecimal n).toList = c :: cs ∧ (c.isDigit = true ∨ c = '-') := by
  cases n with
  | ofNat n =>
    obtain ⟨c, cs, hdigits, hc⟩ := head_decimal n
    exact ⟨c, cs, hdigits, Or.inl hc⟩
  | negSucc n =>
    refine ⟨'-', (decimal (n + 1)).toList, ?_, Or.inr rfl⟩
    rw [signedDecimal, String.toList_append]
    rfl

/-- A number begins with no blank and no bracket. -/
theorem isGap_number {c : Char} (h : c.isDigit = true ∨ c = '-') :
    isGap c = false ∧ c ≠ ']' ∧ c ≠ '}' := by
  have hne : ∀ d : Char, d.isDigit = false → d ≠ '-' → c ≠ d := by
    rintro d hdigit hminus rfl
    rcases h with h | h
    · rw [hdigit] at h
      cases h
    · exact hminus h
  refine ⟨?_, hne _ rfl (by decide), hne _ rfl (by decide)⟩
  rw [isGap, Bool.or_eq_false_iff, Bool.or_eq_false_iff, Bool.or_eq_false_iff]
  simp only [decide_eq_false_iff_not]
  exact ⟨⟨⟨hne _ rfl (by decide), hne _ rfl (by decide)⟩, hne _ rfl (by decide)⟩,
    hne _ rfl (by decide)⟩

/-- A value begins with a character of its own. -/
theorem head_render (style : Style) (level : Nat) (v : Json) :
    ∃ c cs, render style level v = c :: cs ∧ isGap c = false ∧ c ≠ ']' ∧ c ≠ '}' := by
  match v with
  | .null | .bool true | .bool false | .nan | .infinity true | .infinity false | .str _ | .arr []
  | .arr (_ :: _) | .obj [] | .obj ((_, _) :: _) =>
    rw [render]
    refine ⟨_, _, rfl, ?_, ?_, ?_⟩ <;> decide
  | .real d =>
    obtain ⟨c, cs, hhead, hc⟩ := head_text d
    exact ⟨c, cs, by rw [render, hhead], isGap_number hc⟩
  | .int n =>
    obtain ⟨c, cs, hhead, hc⟩ := head_signedDecimal n
    exact ⟨c, cs, by rw [render, hhead], isGap_number hc⟩

/-- The items of a list with what stands between them. -/
def itemsText (style : Style) (level : Nat) : List Json → List Char
  | [] => []
  | item :: items => render style level item ++ renderItems style level items

/-- The fields of an object with what stands between them. -/
def fieldsText (style : Style) (level : Nat) : List (String × Json) → List Char
  | [] => []
  | (k, v) :: fields => writeText style.asciiOnly k ++
      ':' :: style.layout.afterColon ++ render style level v ++ renderFields style level fields

theorem render_arr (style : Style) (level : Nat) (item : Json) (items : List Json)
    (rest : List Char) :
    render style level (.arr (item :: items)) ++ rest =
      '[' :: (style.layout.newLine (level + 1) ++ (itemsText style (level + 1) (item :: items) ++
        (style.layout.newLine level ++ ']' :: rest))) := by
  simp [render, itemsText]

theorem render_obj (style : Style) (level : Nat) (k : String) (v : Json)
    (fields : List (String × Json)) (rest : List Char) :
    render style level (.obj ((k, v) :: fields)) ++ rest =
      '{' :: (style.layout.newLine (level + 1) ++ (fieldsText style (level + 1) ((k, v) :: fields) ++
        (style.layout.newLine level ++ '}' :: rest))) := by
  simp [render, fieldsText]

theorem readValue_number (fuel : Nat) {s cs : List Char} {c : Char} (hs : skipGaps s = c :: cs)
    (hc : c.isDigit = true ∨ c = '-') : readValue (fuel + 1) s = readSimple (c :: cs) := by
  rw [readValue, hs]
  split
  case h_4 => rfl
  all_goals
    rename_i heq
    rw [(List.cons.inj heq).1] at hc
    exact absurd hc (by decide)

mutual

/-- A written value is read back, with blanks before it and anything that ends it behind it. -/
theorem readValue_render (style : Style) :
    ∀ (v : Json) (level fuel : Nat) (gap rest : List Char), IsKeyed v → weight v ≤ fuel →
      (∀ c ∈ gap, isGap c = true) → Stops rest →
      readValue fuel (gap ++ (render style level v ++ rest)) = some (echo v, rest) := by
  intro v level fuel gap rest hkeyed hfuel hgap hrest
  obtain ⟨c, cs, hhead, hc, -, -⟩ := head_render style level v
  have hskip : skipGaps (gap ++ (render style level v ++ rest)) = render style level v ++ rest := by
    rw [skipGaps_append hgap, hhead, List.cons_append, skipGaps_cons hc]
  match fuel, v with
  | 0, .null | 0, .bool _ | 0, .int _ | 0, .real _ | 0, .nan | 0, .infinity _ | 0, .str _
  | 0, .arr _ | 0, .obj _ => simp [weight] at hfuel
  | fuel + 1, .null | fuel + 1, .bool true | fuel + 1, .bool false | fuel + 1, .nan
  | fuel + 1, .infinity true | fuel + 1, .infinity false =>
    rw [readValue, hskip]
    rfl
  | fuel + 1, .int n =>
    have hread := readSimple_signedDecimal n hrest
    obtain ⟨c, cs, hdigits, hc⟩ := head_signedDecimal n
    rw [hdigits, List.cons_append] at hread
    rw [render, hdigits, List.cons_append] at hskip ⊢
    rw [readValue_number fuel hskip hc, hread]
    rfl
  | fuel + 1, .real d =>
    have hread := readSimple_text d hrest.noDigit hrest.readExponent
    obtain ⟨c, cs, hdigits, hc⟩ := head_text d
    rw [hdigits, List.cons_append] at hread
    rw [render, hdigits, List.cons_append] at hskip ⊢
    rw [readValue_number fuel hskip hc, hread]
    rfl
  | fuel + 1, .str s =>
    obtain ⟨body, htext, hread⟩ := readText_writeText style.asciiOnly s rest
    rw [readValue, hskip, render, htext]
    simp only [hread, Option.map_some, String.ofList_toList]
    rfl
  | fuel + 1, .arr [] =>
    rw [readValue, hskip]
    rfl
  | fuel + 1, .arr (item :: items) =>
    have hitems := readItems_itemsText style (item :: items) (level + 1) level fuel
      (style.layout.newLine (level + 1)) rest (List.cons_ne_nil _ _) hkeyed
      (by simp only [weight] at hfuel; omega) (isGap_newLine _ _)
    obtain ⟨c, cs, hitem, hc, hbracket, -⟩ := head_render style (level + 1) item
    rw [readValue, hskip, render_arr]
    simp only [hitems, Option.map_some, echo]
    rw [skipGaps_append (isGap_newLine _ _), itemsText, hitem]
    simp [skipGaps, hc, hbracket]
  | fuel + 1, .obj [] =>
    rw [readValue, hskip]
    rfl
  | fuel + 1, .obj ((k, v) :: fields) =>
    have hfields := readFields_fieldsText style ((k, v) :: fields) (level + 1) level fuel
      (style.layout.newLine (level + 1)) rest (List.cons_ne_nil _ _) hkeyed.2
      (by simp only [weight] at hfuel; omega) (isGap_newLine _ _)
    rw [readValue, hskip, render_obj]
    simp only [hfields, Option.map_some,
      Keyed.ofList_of_nodup ((keys_echoFields ((k, v) :: fields)).symm ▸ hkeyed.1)]
    rw [skipGaps_append (isGap_newLine _ _)]
    rfl

theorem readItems_itemsText (style : Style) :
    ∀ (items : List Json) (level level' fuel : Nat) (gap rest : List Char), items ≠ [] →
      AreKeyed items → itemsWeight items ≤ fuel → (∀ c ∈ gap, isGap c = true) →
      readItems fuel (gap ++ (itemsText style level items ++
        (style.layout.newLine level' ++ ']' :: rest))) = some (echoItems items, rest) := by
  intro items level level' fuel gap rest hne hkeyed hfuel hgap
  match fuel, items with
  | _, [] => exact absurd rfl hne
  | 0, _ :: _ => simp [itemsWeight] at hfuel
  | fuel + 1, [item] =>
    have hitem := readValue_render style item level fuel gap
      (style.layout.newLine level' ++ ']' :: rest) hkeyed.1
      (by simp only [itemsWeight] at hfuel; omega) hgap (stops_newLine _ _ _ (Or.inl rfl))
    rw [readItems, itemsText, renderItems, List.append_nil, hitem]
    simp only [skipGaps_append (isGap_newLine _ _)]
    rfl
  | fuel + 1, item :: next :: items =>
    have hitem := readValue_render style item level fuel gap
      (renderItems style level (next :: items) ++ (style.layout.newLine level' ++ ']' :: rest))
      hkeyed.1 (by simp only [itemsWeight] at hfuel; omega) hgap
      (by rw [renderItems]; exact stops_cons _ (Or.inl rfl))
    have hitems := readItems_itemsText style (next :: items) level level' fuel
      (style.layout.afterComma level) rest (List.cons_ne_nil _ _) hkeyed.2
      (by simp only [itemsWeight] at hfuel ⊢; omega) (isGap_afterComma _ _)
    rw [readItems, itemsText, List.append_assoc, hitem, renderItems]
    rw [itemsText, List.append_assoc] at hitems
    simp [skipGaps, isGap, hitems, echoItems]

theorem readFields_fieldsText (style : Style) :
    ∀ (fields : List (String × Json)) (level level' fuel : Nat) (gap rest : List Char),
      fields ≠ [] → FieldsKeyed fields → fieldsWeight fields ≤ fuel →
      (∀ c ∈ gap, isGap c = true) →
      readFields fuel (gap ++ (fieldsText style level fields ++
        (style.layout.newLine level' ++ '}' :: rest))) = some (echoFields fields, rest) := by
  intro fields level level' fuel gap rest hne hkeyed hfuel hgap
  match fuel, fields with
  | _, [] => exact absurd rfl hne
  | 0, _ :: _ => simp [fieldsWeight] at hfuel
  | fuel + 1, [(k, v)] =>
    have hv := readValue_render style v level fuel style.layout.afterColon
      (style.layout.newLine level' ++ '}' :: rest) hkeyed.1
      (by simp only [fieldsWeight] at hfuel; omega) (isGap_afterColon _)
      (stops_newLine _ _ _ (Or.inr rfl))
    obtain ⟨body, htext, hread⟩ := readText_writeText style.asciiOnly k
      (':' :: (style.layout.afterColon ++ (render style level v ++
        (style.layout.newLine level' ++ '}' :: rest))))
    have hwhole : fieldsText style level [(k, v)] ++ (style.layout.newLine level' ++ '}' :: rest) =
        '"' :: body := by
      rw [← htext]
      simp [fieldsText, renderFields]
    rw [readFields, hwhole, skipGaps_append hgap]
    simp only [skipGaps_cons (show isGap '"' = false from rfl), hread,
      skipGaps_cons (show isGap ':' = false from rfl), hv, skipGaps_append (isGap_newLine _ _),
      skipGaps_cons (show isGap '}' = false from rfl), String.ofList_toList]
    rfl
  | fuel + 1, (k, v) :: (k', v') :: fields =>
    have hv := readValue_render style v level fuel style.layout.afterColon
      (renderFields style level ((k', v') :: fields) ++
        (style.layout.newLine level' ++ '}' :: rest)) hkeyed.1
      (by simp only [fieldsWeight] at hfuel; omega) (isGap_afterColon _)
      (by rw [renderFields]; exact stops_cons _ (Or.inl rfl))
    have hfields := readFields_fieldsText style ((k', v') :: fields) level level' fuel
      (style.layout.afterComma level) rest (List.cons_ne_nil _ _) hkeyed.2
      (by simp only [fieldsWeight] at hfuel ⊢; omega) (isGap_afterComma _ _)
    obtain ⟨body, htext, hread⟩ := readText_writeText style.asciiOnly k
      (':' :: (style.layout.afterColon ++ (render style level v ++
        (renderFields style level ((k', v') :: fields) ++
          (style.layout.newLine level' ++ '}' :: rest)))))
    have hwhole : fieldsText style level ((k, v) :: (k', v') :: fields) ++
        (style.layout.newLine level' ++ '}' :: rest) = '"' :: body := by
      rw [← htext]
      simp [fieldsText]
    have hmore : renderFields style level ((k', v') :: fields) ++
        (style.layout.newLine level' ++ '}' :: rest) =
        ',' :: (style.layout.afterComma level ++ (fieldsText style level ((k', v') :: fields) ++
          (style.layout.newLine level' ++ '}' :: rest))) := by
      simp [renderFields, fieldsText]
    rw [readFields, hwhole, skipGaps_append hgap]
    simp only [skipGaps_cons (show isGap '"' = false from rfl), hread,
      skipGaps_cons (show isGap ':' = false from rfl), hv, String.ofList_toList]
    simp only [hmore, skipGaps_cons (show isGap ',' = false from rfl), hfields, Option.map_some]
    rfl

end

/-- What the writer writes in a style, the reader reads back, but for zeros at the end of fractions. -/
theorem read?_render_echo (style : Style) {v : Json} (h : IsKeyed v) :
    read? (render style 0 v) = some (echo v) := by
  have hread := readValue_render style v 0 (2 * (render style 0 v).length + 2) [] [] h
    (Nat.le_add_right_of_le (weight_le_length style 0 v)) (fun c hc => absurd hc List.not_mem_nil)
    stops_nil
  rw [List.nil_append, List.append_nil] at hread
  rw [read?, hread]
  rfl

theorem read?_render (style : Style) {v : Json} (h : IsPlain v) :
    read? (render style 0 v) = some v := by
  obtain ⟨hkeyed, hecho⟩ := IsPlain.keyed v h
  rw [read?_render_echo style hkeyed, hecho]

theorem read?_write (style : Style) {v : Json} (h : IsPlain v) :
    read? (write style v).toList = some v := by
  rw [write, String.toList_ofList, read?_render style h]

/-! Line ends -/

theorem return_not_mem_unitEscape {n : Nat} (h : n < 0x10000) : '\r' ∉ unitEscape n := by
  have hdigit : ∀ m < 16, '\r' ≠ Nat.digitChar m := by decide
  rw [unitEscape, toList_padded_unit h]
  simp only [List.mem_cons, List.not_mem_nil, or_false, not_or]
  exact ⟨by decide, by decide, hdigit _ (by omega), hdigit _ (by omega), hdigit _ (by omega),
    hdigit _ (by omega)⟩

theorem return_not_mem_codeEscape (c : Char) : '\r' ∉ codeEscape c := by
  have hvalid : c.toNat < 0xd800 ∨ 0xdfff < c.toNat ∧ c.toNat < 0x110000 := c.valid
  unfold codeEscape
  split
  · rename_i h
    exact return_not_mem_unitEscape h
  · rw [List.mem_append, not_or]
    exact ⟨return_not_mem_unitEscape (by omega), return_not_mem_unitEscape (by omega)⟩

theorem return_not_mem_escapeChar (asciiOnly : Bool) (c : Char) :
    '\r' ∉ escapeChar asciiOnly c := by
  unfold escapeChar
  split_ifs with h1 h2 h3 h4 h5 h6 h7 h8
  · rcases h1 with rfl | rfl <;> decide
  · decide
  · decide
  · decide
  · decide
  · decide
  · exact return_not_mem_codeEscape c
  · exact return_not_mem_codeEscape c
  · rw [List.mem_singleton]
    exact fun heq => h3 heq.symm

theorem return_not_mem_writeText (asciiOnly : Bool) (s : String) :
    '\r' ∉ writeText asciiOnly s := by
  unfold writeText
  simp only [List.cons_append, List.mem_cons, List.mem_append, List.mem_flatMap, List.not_mem_nil,
    or_false, not_or]
  refine ⟨by decide, ?_, by decide⟩
  rintro ⟨c, _, hc⟩
  exact return_not_mem_escapeChar asciiOnly c hc

theorem return_not_mem_signedDecimal (n : Int) : '\r' ∉ (signedDecimal n).toList := by
  have hdecimal : ∀ m, '\r' ∉ (decimal m).toList := by
    intro m hm
    exact absurd (isDigit_of_mem_decimal hm) (by decide)
  cases n with
  | ofNat n => exact hdecimal n
  | negSucc n =>
    rw [signedDecimal, String.toList_append, List.mem_append, not_or]
    exact ⟨by decide, hdecimal (n + 1)⟩

theorem return_not_mem_newLine (layout : Layout) (level : Nat) : '\r' ∉ layout.newLine level := by
  cases layout with
  | indented step =>
    rw [Layout.newLine, List.mem_cons, not_or]
    exact ⟨by decide, fun h => absurd (List.eq_of_mem_replicate h) (by decide)⟩
  | _ => exact List.not_mem_nil

theorem return_not_mem_afterComma (layout : Layout) (level : Nat) :
    '\r' ∉ layout.afterComma level := by
  cases layout with
  | spaced =>
    rw [Layout.afterComma, List.mem_singleton]
    decide
  | tight => exact return_not_mem_newLine .tight level
  | indented step => exact return_not_mem_newLine (.indented step) level

theorem return_not_mem_afterColon (layout : Layout) : '\r' ∉ layout.afterColon := by
  cases layout with
  | tight => exact List.not_mem_nil
  | _ =>
    rw [Layout.afterColon, List.mem_singleton]
    · decide
    · exact nofun

mutual

/-- A written value has no carriage return, since texts write it with a letter. -/
theorem return_not_mem_render (style : Style) (level : Nat) :
    ∀ v : Json, IsPlain v → '\r' ∉ render style level v
  | .null, _ | .bool true, _ | .bool false, _ | .nan, _ | .infinity true, _ | .infinity false, _
  | .arr [], _ | .obj [], _ => by rw [render]; decide
  | .real _, h => h.elim
  | .int n, _ => by
    rw [render]
    exact return_not_mem_signedDecimal n
  | .str s, _ => by
    rw [render]
    exact return_not_mem_writeText _ s
  | .arr (item :: items), h => by
    rw [render]
    simp only [List.cons_append, List.mem_cons, List.mem_append, List.not_mem_nil, or_false, not_or]
    exact ⟨by decide, ⟨⟨⟨return_not_mem_newLine _ _, return_not_mem_render style _ item h.1⟩,
      return_not_mem_renderItems style _ items h.2⟩, return_not_mem_newLine _ _⟩, by decide⟩
  | .obj ((k, v) :: fields), h => by
    rw [render]
    simp only [List.cons_append, List.mem_cons, List.mem_append, List.not_mem_nil, or_false, not_or]
    exact ⟨by decide, ⟨⟨⟨⟨⟨return_not_mem_newLine _ _, return_not_mem_writeText _ k⟩, by decide,
      return_not_mem_afterColon _⟩, return_not_mem_render style _ v h.2.1⟩,
      return_not_mem_renderFields style _ fields h.2.2⟩, return_not_mem_newLine _ _⟩, by decide⟩

theorem return_not_mem_renderItems (style : Style) (level : Nat) :
    ∀ items : List Json, ArePlain items → '\r' ∉ renderItems style level items
  | [], _ => by
    rw [renderItems]
    exact List.not_mem_nil
  | item :: items, h => by
    rw [renderItems]
    simp only [List.cons_append, List.mem_cons, List.mem_append, not_or]
    exact ⟨by decide, ⟨return_not_mem_afterComma _ _, return_not_mem_render style level item h.1⟩,
      return_not_mem_renderItems style level items h.2⟩

theorem return_not_mem_renderFields (style : Style) (level : Nat) :
    ∀ fields : List (String × Json), FieldsPlain fields → '\r' ∉ renderFields style level fields
  | [], _ => by
    rw [renderFields]
    exact List.not_mem_nil
  | (k, v) :: fields, h => by
    rw [renderFields]
    simp only [List.cons_append, List.mem_cons, List.mem_append, not_or]
    exact ⟨by decide, ⟨⟨⟨return_not_mem_afterComma _ _, return_not_mem_writeText _ k⟩, by decide,
      return_not_mem_afterColon _⟩, return_not_mem_render style level v h.1⟩,
      return_not_mem_renderFields style level fields h.2⟩

end

/-- The text of a file that holds a written value is the written value. -/
theorem unifyLineEnds_write (style : Style) {v : Json} (h : IsPlain v) :
    unifyLineEnds (write style v).toList = (write style v).toList := by
  rw [write, String.toList_ofList]
  exact unifyLineEnds_of_not_mem _ (return_not_mem_render style 0 v h)

end AssetCompiler.Json
