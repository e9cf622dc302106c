import AssetCompiler.Models
import AssetCompiler.Proofs.JsonRoundTrip
import AssetCompiler.Proofs.Reading

/-!
Records that are written and read again: points in time, stored results, and the configuration of a
host. Each is read back as it was, from the text that it is written as.
-/
namespace AssetCompiler

namespace Instant

open Text

/-- A date of the calendar with a time of day. -/
structure IsDate (t : Instant) : Prop where
  year : 1 ≤ t.year ∧ t.year ≤ 9999
  month : 1 ≤ t.month ∧ t.month ≤ 12
  day : 1 ≤ t.day ∧ t.day ≤ daysIn t.year t.month
  hour : t.hour ≤ 23
  minute : t.minute ≤ 59
  second : t.second ≤ 59
  micro : t.micro < 1000000
  offset : ∀ n, t.offset = some n → n.natAbs < 1440

theorem digitsValue?_eq {digits : List Char} (hne : digits ≠ [])
    (hdigits : ∀ c ∈ digits, c.isDigit = true) : digitsValue? digits = some (valueOf digits) := by
  unfold digitsValue?
  rw [if_pos]
  · rfl
  · rw [Bool.and_eq_true, List.all_eq_true]
    refine ⟨?_, hdigits⟩
    cases digits with
    | nil => exact absurd rfl hne
    | cons c cs => rfl

theorem padded_two {n : Nat} (h : n < 100) :
    ∃ a b, (padded 10 2 n).toList = [a, b] ∧ digitsValue? [a, b] = some n := by
  obtain ⟨hlength, hdigits, hvalue⟩ := padded_spec (show 0 < 2 by decide) h
  match hlist : (padded 10 2 n).toList, hlength with
  | [a, b], _ =>
    rw [hlist] at hdigits hvalue
    exact ⟨a, b, rfl, (digitsValue?_eq (by simp) hdigits).trans (congrArg some hvalue)⟩

theorem padded_four {n : Nat} (h : n < 10000) :
    ∃ a b c d, (padded 10 4 n).toList = [a, b, c, d] ∧ digitsValue? [a, b, c, d] = some n := by
  obtain ⟨hlength, hdigits, hvalue⟩ := padded_spec (show 0 < 4 by decide) h
  match hlist : (padded 10 4 n).toList, hlength with
  | [a, b, c, d], _ =>
    rw [hlist] at hdigits hvalue
    exact ⟨a, b, c, d, rfl, (digitsValue?_eq (by simp) hdigits).trans (congrArg some hvalue)⟩

theorem daysIn_le (year month : Nat) : daysIn year month ≤ 31 := by
  unfold daysIn
  split_ifs <;> decide

theorem readOffset?_signed {sign a b c d : Char} {hours minutes : Nat}
    (hsign : sign = '+' ∨ sign = '-') (hh : digitsValue? [a, b] = some hours)
    (hm : digitsValue? [c, d] = some minutes) (hhours : hours ≤ 23) (hminutes : minutes ≤ 59) :
    readOffset? [sign, a, b, ':', c, d] =
      some (some (if sign = '-' then -((hours * 60 + minutes : Nat) : Int)
        else ((hours * 60 + minutes : Nat) : Int))) := by
  have hbound : ¬ (59 < minutes ∨ 23 < hours) := by omega
  rcases hsign with rfl | rfl
  · change ((digitsValue? [a, b]).bind fun h => (digitsValue? [c, d]).bind fun m =>
      if 59 < m ∨ 23 < h then none else some (some ((h : Int) * 60 + m))) = _
    rw [hh, Option.bind_some, hm, Option.bind_some, if_neg hbound]
    rfl
  · change ((digitsValue? [a, b]).bind fun h => (digitsValue? [c, d]).bind fun m =>
      if 59 < m ∨ 23 < h then none else some (some (-((h : Int) * 60 + m)))) = _
    rw [hh, Option.bind_some, hm, Option.bind_some, if_neg hbound]
    rfl

/-- An offset is read back. -/
theorem readOffset?_offsetText {offset : Option Int}
    (h : ∀ n, offset = some n → n.natAbs < 1440) :
    readOffset? (offsetText offset).toList = some offset := by
  cases offset with
  | none => rfl
  | some n =>
    by_cases hn : n = 0
    · subst hn
      rfl
    · have hbound := h n rfl
      obtain ⟨a, b, hhours, hh⟩ := padded_two (show n.natAbs / 60 < 100 by omega)
      obtain ⟨c, d, hminutes, hm⟩ := padded_two (show n.natAbs % 60 < 100 by omega)
      have htext : (offsetText (some n)).toList =
          [if n < 0 then '-' else '+', a, b, ':', c, d] := by
        rw [offsetText, if_neg hn]
        simp only [String.toList_append, hhours, hminutes]
        split <;> rfl
      rw [htext, readOffset?_signed (by split <;> simp) hh hm (by omega) (by omega)]
      have hsplit : n.natAbs / 60 * 60 + n.natAbs % 60 = n.natAbs := by omega
      rw [hsplit]
      by_cases hneg : n < 0
      · rw [if_pos hneg, if_pos rfl]
        congr 2
        omega
      · rw [if_neg hneg, if_neg (by decide)]
        congr 2
        omega

/-- What begins no number, and may stand after seconds. -/
theorem head_offsetText (offset : Option Int) :
    (offsetText offset).toList = [] ∨ ∃ c cs, (offsetText offset).toList = c :: cs ∧
      (c = 'Z' ∨ c = '-' ∨ c = '+') := by
  cases offset with
  | none => exact Or.inl rfl
  | some n =>
    right
    rw [offsetText]
    split
    · exact ⟨'Z', [], rfl, Or.inl rfl⟩
    · simp only [String.toList_append]
      split
      · exact ⟨'-', _, rfl, Or.inr (Or.inl rfl)⟩
      · exact ⟨'+', _, rfl, Or.inr (Or.inr rfl)⟩

theorem microsOf_of_length {digits : List Char} (h : digits.length = 6) :
    microsOf digits = valueOf digits := by
  simp only [microsOf, List.take_of_length_le (Nat.le_of_eq h), h, Nat.sub_self,
    List.replicate_zero, List.append_nil]
  rfl

/-- Seconds with their fraction are read back from before an offset. -/
theorem readSeconds?_text {t : Instant} (hsecond : t.second ≤ 59) (hmicro : t.micro < 1000000) :
    readSeconds? (':' :: ((padded 10 2 t.second).toList ++ ((fractionText t).toList ++
      (offsetText t.offset).toList))) =
        some ((t.second, t.micro), (offsetText t.offset).toList) := by
  obtain ⟨a, b, hseconds, hs⟩ := padded_two (show t.second < 100 by omega)
  have hbound : ¬ 59 < t.second := by omega
  rw [hseconds]
  by_cases hzero : t.micro = 0
  · have hfraction : (fractionText t).toList = [] := by
      rw [fractionText, if_pos hzero]
      rfl
    rw [hfraction, List.nil_append, hzero]
    rcases head_offsetText t.offset with hnil | ⟨c, cs, hcons, hc⟩
    · rw [hnil]
      simp only [List.cons_append, List.nil_append, readSeconds?, hs, Option.bind_eq_bind,
        Option.bind_some, hbound, if_false]
      rfl
    · rw [hcons]
      have hpoint : ¬ (c = '.' ∨ c = ',') := by
        rcases hc with rfl | rfl | rfl <;> decide
      simp only [List.cons_append, List.nil_append, readSeconds?, hs, Option.bind_eq_bind,
        Option.bind_some, hbound, if_false, hpoint]
      rfl
  · obtain ⟨hlength, hdigits, hvalue⟩ := padded_spec (n := t.micro) (show 0 < 6 by decide) hmicro
    have hfraction : (fractionText t).toList = '.' :: (padded 10 6 t.micro).toList := by
      rw [fractionText, if_neg hzero, String.toList_append]
      rfl
    have hnodigit : (offsetText t.offset).toList.takeWhile Char.isDigit = [] := by
      rcases head_offsetText t.offset with hnil | ⟨c, cs, hcons, hc⟩
      · rw [hnil]
        rfl
      · rw [hcons]
        rcases hc with rfl | rfl | rfl <;> rfl
    have htake : ((padded 10 6 t.micro).toList ++ (offsetText t.offset).toList).takeWhile
        Char.isDigit = (padded 10 6 t.micro).toList := by
      rw [List.takeWhile_append_of_pos hdigits, hnodigit, List.append_nil]
    have hsome : (padded 10 6 t.micro).toList.isEmpty = false := by
      rw [List.isEmpty_eq_false_iff_exists_mem]
      exact ⟨_, List.getElem_mem (show 0 < _ by omega)⟩
    have hmicros := (microsOf_of_length hlength).trans hvalue
    rw [hfraction]
    simp only [List.cons_append, List.nil_append, readSeconds?, hs, Option.bind_eq_bind,
      Option.bind_some, hbound, if_false, true_or, if_true, htake, hsome, Bool.false_eq_true,
      hmicros, List.drop_left]
    rfl

/-- A date with its time is read back from its text. -/
theorem ofText?_text {t : Instant} (h : t.IsDate) : ofText? t.text = some t := by
  have hday := daysIn_le t.year t.month
  obtain ⟨y1, y2, y3, y4, hyears, hy⟩ := padded_four (show t.year < 10000 by have := h.year; omega)
  obtain ⟨m1, m2, hmonths, hm⟩ := padded_two (show t.month < 100 by have := h.month; omega)
  obtain ⟨d1, d2, hdays, hd⟩ := padded_two (show t.day < 100 by have := h.day; omega)
  obtain ⟨h1, h2, hhours, hh⟩ := padded_two (show t.hour < 100 by have := h.hour; omega)
  obtain ⟨n1, n2, hminutes, hn⟩ := padded_two (show t.minute < 100 by have := h.minute; omega)
  have htext : t.text.toList = y1 :: y2 :: y3 :: y4 :: '-' :: m1 :: m2 :: '-' :: d1 :: d2 :: 'T' ::
      h1 :: h2 :: ':' :: n1 :: n2 :: ':' :: ((padded 10 2 t.second).toList ++
        ((fractionText t).toList ++ (offsetText t.offset).toList)) := by
    simp [text, clockText, String.toList_append, hyears, hmonths, hdays, hhours, hminutes]
  have hdate : readDate? t.text.toList = some ((t.year, t.month, t.day), 'T' :: h1 :: h2 :: ':' ::
      n1 :: n2 :: ':' :: ((padded 10 2 t.second).toList ++
        ((fractionText t).toList ++ (offsetText t.offset).toList))) := by
    have hcalendar : 1 ≤ t.year ∧ 1 ≤ t.month ∧ t.month ≤ 12 ∧ 1 ≤ t.day ∧
        t.day ≤ daysIn t.year t.month := ⟨h.year.1, h.month.1, h.month.2, h.day.1, h.day.2⟩
    rw [htext, readDate?]
    simp only [hy, hm, hd, Option.bind_eq_bind, Option.bind_some, hcalendar, and_self, if_true]
    rfl
  have hclock : ¬ (23 < t.hour ∨ 59 < t.minute) := by
    have := h.hour
    have := h.minute
    omega
  unfold ofText?
  simp only [hdate, Option.bind_eq_bind, Option.bind_some, true_or, if_true, hh, hn, hclock,
    if_false, readSeconds?_text h.second h.micro, readOffset?_offsetText h.offset]
  rfl

end Instant
/-! Parts of records -/

namespace Json

theorem arePlain_strings (items : List String) : ArePlain (items.map .str) := by
  induction items with
  | nil => exact trivial
  | cons s rest ih => exact ⟨trivial, ih⟩

theorem isPlain_strings (items : List String) : IsPlain (strings items) := arePlain_strings items

end Json

namespace Schema

theorem list_text_strings (items : List String) : list text (Json.strings items) = .ok items :=
  list_text_eq_ok.mpr rfl

theorem time_text {t : Instant} (h : t.IsDate) : time (.str t.text) = .ok t := by
  rw [time, Instant.ofText?_text h]

theorem entries_map {α β : Type} (read : Json → Reading α) (write : β → Json) (value : β → α)
    (h : ∀ b, read (write b) = .ok (value b)) (fields : List (String × β)) :
    entries read (fields.map fun e => (e.1, write e.2)) =
      .ok (fields.map fun e => (e.1, value e.2)) := by
  induction fields with
  | nil => rfl
  | cons e rest ih =>
    rw [List.map_cons, entries, ih, h]
    rfl

end Schema

/-! Stored results -/

namespace Entry

theorem isPlain_toJson (e : Entry) : Json.IsPlain e.toJson := by
  refine ⟨?_, trivial, trivial, trivial, trivial, Json.isPlain_strings _, trivial, trivial⟩
  change ["key", "namespace", "code", "media_type", "dependent_files", "created_at"].Nodup
  decide

/-- An entry is read back from its JSON form. -/
theorem read_toJson (now : Instant) {e : Entry} (h : e.createdAt.IsDate) :
    read now e.toJson = .ok e := by
  change readFields now _ = _
  simp [readFields, Schema.required, Schema.optional, List.lookup_cons, Schema.text,
    Schema.list_text_strings, Schema.time_text h, Reading.within]

theorem toArtifact_ofArtifact (now : Instant) (key space : String) {a : Artifact} {c : Content}
    (hcontent : a.content = some c) (hdependencies : a.dependencies.Nodup) :
    (ofArtifact now key space a).toArtifact = a := by
  obtain ⟨content, dependencies⟩ := a
  cases hcontent
  simp only [toArtifact, ofArtifact, Artifact.ofContent, Option.map_some, Option.getD_some]
  rw [firstOccurrences_of_nodup hdependencies]

end Entry

/-! Fingerprints and what is remembered about files -/

namespace Fingerprint

theorem isPlain_toJson (i : Fingerprint) : Json.IsPlain i.toJson := by
  have hnullable : ∀ t : Option String, Json.IsPlain (jsonText t) := by
    rintro (_ | t) <;> exact trivial
  refine ⟨?_, trivial, hnullable _, hnullable _, trivial, trivial, trivial, trivial, trivial⟩
  change ["hash", "source_code", "media_type", "is_minified", "is_vendored", "has_source_map",
    "is_binary"].Nodup
  decide

/-- A fingerprint is read back from its JSON form. -/
theorem read_toJson (i : Fingerprint) : read i.toJson = .ok i := by
  have hnullable : ∀ t : Option String, Schema.nullable Schema.text (jsonText t) = .ok t := by
    rintro (_ | t) <;> rfl
  change readFields _ = _
  simp [readFields, Schema.required, Schema.optional, List.lookup_cons, Schema.text, Schema.bool,
    hnullable, Reading.within]

end Fingerprint

namespace Memory

theorem isPlain_toJson (m : Memory) : Json.IsPlain m.toJson := by
  refine ⟨?_, trivial, trivial, m.fingerprint.isPlain_toJson, trivial⟩
  change ["size", "mtime_ns", "info"].Nodup
  decide

/-- What is remembered about a file is read back from its JSON form. -/
theorem read_toJson (m : Memory) : read m.toJson = .ok m := by
  change readFields _ = _
  simp [readFields, Schema.required, List.lookup_cons, Schema.int, m.fingerprint.read_toJson,
    Reading.within]

end Memory

/-! Saved hosts -/

namespace Credentials

theorem isPlain_toJson (c : Credentials) : Json.IsPlain c.toJson := by
  refine ⟨?_, trivial, trivial, Json.isPlain_strings _, trivial⟩
  change ["name", "version", "input_media_types"].Nodup
  decide

theorem read_toJson (c : Credentials) : read c.toJson = .ok c := by
  change readFields _ = _
  simp [readFields, Schema.required, Schema.optional, List.lookup_cons, Schema.text,
    Schema.list_text_strings, Reading.within]

end Credentials

namespace Configuration

theorem isPlain_toJson {c : Configuration} (h : (Keyed.keys c.transformers).Nodup) :
    Json.IsPlain c.toJson := by
  have hfields : ∀ ts : List (String × Credentials),
      Json.FieldsPlain (ts.map fun e => (e.1, e.2.toJson)) := by
    intro ts
    induction ts with
    | nil => exact trivial
    | cons e rest ih => exact ⟨e.2.isPlain_toJson, ih⟩
  have hkeys : Keyed.keys (c.transformers.map fun e => (e.1, e.2.toJson)) =
      Keyed.keys c.transformers := by
    simp [Keyed.keys, Function.comp_def]
  refine ⟨?_, trivial, ⟨hkeys ▸ h, hfields _⟩, ?_, trivial, trivial⟩
  · change ["schema_version", "transformers", "fallback", "saved_at"].Nodup
    decide
  · cases c.fallback with
    | none => exact trivial
    | some f => exact f.isPlain_toJson

theorem nullable_toJson (f : Credentials) :
    Schema.nullable Credentials.read f.toJson = .ok (some f) := by
  change Except.map some (Credentials.read f.toJson) = _
  rw [f.read_toJson]
  rfl

/-- A configuration is read back from its JSON form. -/
theorem read_toJson (now : Instant) {c : Configuration} (h : c.savedAt.IsDate) :
    read now c.toJson = .ok c := by
  obtain ⟨version, transformers, fallback, savedAt⟩ := c
  have htable : Schema.entries Credentials.read (transformers.map fun e => (e.1, e.2.toJson)) =
      .ok transformers := by
    rw [Schema.entries_map Credentials.read Credentials.toJson id Credentials.read_toJson]
    simp
  change readFields now _ = _
  cases fallback with
  | none =>
    simp [readFields, Schema.optional, List.lookup_cons, Schema.int, Schema.table, htable,
      Schema.nullable, Schema.time_text h, Reading.within]
  | some f =>
    simp [readFields, Schema.optional, List.lookup_cons, Schema.int, Schema.table, htable,
      nullable_toJson, Schema.time_text h, Reading.within]

end Configuration
end AssetCompiler
