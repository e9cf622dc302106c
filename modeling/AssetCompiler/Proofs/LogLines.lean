import AssetCompiler.Log.Record
import AssetCompiler.Proofs.JsonRoundTrip

/-!
Log lines in JSON. Whatever a message, a context, data and an exception are made of, the line holds nothing but
printable ASCII characters, so no text in it can begin a line of its own, and reading the line gives back what was
recorded.
-/
namespace AssetCompiler

namespace Json

/-! Values whose fractions are plain -/

mutual

/-- A value with its fractions in plain form. -/
def plain : Json → Json
  | .real d => .real d.plain
  | .arr items => .arr (plainItems items)
  | .obj fields => .obj (plainFields fields)
  | v => v

def plainItems : List Json → List Json
  | [] => []
  | item :: items => plain item :: plainItems items

def plainFields : List (String × Json) → List (String × Json)
  | [] => []
  | (k, v) :: fields => (k, plain v) :: plainFields fields

end

mutual

/-- What is read from a written value differs from it in no more than the form of its fractions. -/
theorem plain_echo : ∀ v : Json, (echo v).plain = v.plain
  | .null | .bool _ | .int _ | .nan | .infinity _ | .str _ => rfl
  | .real d => congrArg Json.real d.plain_echo
  | .arr items => congrArg Json.arr (plainItems_echoItems items)
  | .obj fields => congrArg Json.obj (plainFields_echoFields fields)

theorem plainItems_echoItems : ∀ items : List Json, plainItems (echoItems items) = plainItems items
  | [] => rfl
  | item :: items => by rw [echoItems, plainItems, plainItems, plain_echo item, plainItems_echoItems items]

theorem plainFields_echoFields : ∀ fields : List (String × Json),
    plainFields (echoFields fields) = plainFields fields
  | [] => rfl
  | (k, v) :: fields => by
    rw [echoFields, plainFields, plainFields, plain_echo v, plainFields_echoFields fields]

end

theorem find?_echoFields (name : String) (fields : List (String × Json)) :
    Keyed.find? name (echoFields fields) = (Keyed.find? name fields).map echo := by
  induction fields with
  | nil => rfl
  | cons field fields ih =>
    obtain ⟨k, v⟩ := field
    unfold Keyed.find? at ih ⊢
    rw [echoFields, List.lookup_cons, List.lookup_cons, ih]
    cases name == k <;> rfl

/-! Printable lines -/

/-- Text of printable ASCII characters. -/
def IsPrintable (s : List Char) : Prop := ∀ c ∈ s, 0x20 ≤ c.toNat ∧ c.toNat ≤ 0x7e

instance (s : List Char) : Decidable (IsPrintable s) :=
  List.decidableBAll (fun c : Char => 0x20 ≤ c.toNat ∧ c.toNat ≤ 0x7e) s

theorem isPrintable_append {s t : List Char} : IsPrintable (s ++ t) ↔ IsPrintable s ∧ IsPrintable t :=
  List.forall_mem_append

theorem isPrintable_cons {c : Char} {s : List Char} :
    IsPrintable (c :: s) ↔ (0x20 ≤ c.toNat ∧ c.toNat ≤ 0x7e) ∧ IsPrintable s :=
  List.forall_mem_cons

theorem isPrintable_nil : IsPrintable [] := by decide

theorem isPrintable_digits {s : List Char} (h : ∀ c ∈ s, c.isDigit = true) : IsPrintable s := by
  intro c hc
  have hdigit := h c hc
  simp only [Char.isDigit, Bool.and_eq_true, decide_eq_true_eq] at hdigit
  have hlow : 48 ≤ c.toNat := hdigit.1
  have hhigh : c.toNat ≤ 57 := hdigit.2
  omega

theorem isPrintable_toDigits (n : Nat) : IsPrintable (Nat.toDigits 10 n) :=
  isPrintable_digits (isRun_toDigits n).digits

theorem isPrintable_unitEscape {n : Nat} (h : n < 0x10000) : IsPrintable (unitEscape n) := by
  have hdigit : ∀ m < 16, 0x20 ≤ (Nat.digitChar m).toNat ∧ (Nat.digitChar m).toNat ≤ 0x7e := by decide
  rw [unitEscape, toList_padded_unit h]
  simp only [isPrintable_cons]
  exact ⟨by decide, by decide, hdigit _ (by omega), hdigit _ (by omega), hdigit _ (by omega),
    hdigit _ (by omega), isPrintable_nil⟩

theorem isPrintable_codeEscape (c : Char) : IsPrintable (codeEscape c) := by
  have hvalid : c.toNat < 0xd800 ∨ 0xdfff < c.toNat ∧ c.toNat < 0x110000 := c.valid
  unfold codeEscape
  split
  · rename_i h
    exact isPrintable_unitEscape h
  · rw [isPrintable_append]
    exact ⟨isPrintable_unitEscape (by omega), isPrintable_unitEscape (by omega)⟩

/-- Every character that is not printable has an escape. -/
theorem isPrintable_escapeChar (c : Char) : IsPrintable (escapeChar true c) := by
  unfold escapeChar
  split_ifs with hback hfeed hreturn htab h8 hc hlow hhigh
  · rcases hback with rfl | rfl <;> decide
  · decide
  · decide
  · decide
  · decide
  · decide
  · exact isPrintable_codeEscape c
  · exact isPrintable_codeEscape c
  · rw [isPrintable_cons]
    exact ⟨by simp only [true_and] at hhigh; omega, isPrintable_nil⟩

theorem isPrintable_writeText (s : String) : IsPrintable (writeText true s) := by
  unfold writeText
  rw [List.cons_append, isPrintable_cons, isPrintable_append]
  refine ⟨by decide, fun c hc => ?_, by decide⟩
  obtain ⟨c', _, hmem⟩ := List.mem_flatMap.mp hc
  exact isPrintable_escapeChar c' c hmem

theorem isPrintable_signedDecimal (n : Int) : IsPrintable (Text.signedDecimal n).toList := by
  have hdecimal : ∀ m, IsPrintable (Text.decimal m).toList := fun m =>
    isPrintable_digits fun _ hc => Text.isDigit_of_mem_decimal hc
  cases n with
  | ofNat n => exact hdecimal n
  | negSucc n =>
    rw [Text.signedDecimal, String.toList_append, isPrintable_append]
    exact ⟨by decide, hdecimal (n + 1)⟩

theorem isPrintable_body (p : Decimal) : IsPrintable p.body := by
  have hdigits := isPrintable_toDigits p.digits
  have hzeros : ∀ k, IsPrintable (List.replicate k '0') := fun k => isPrintable_digits isDigit_of_mem_zeros
  have htake : ∀ k, IsPrintable ((Nat.toDigits 10 p.digits).take k) :=
    fun k c hc => hdigits c (List.mem_of_mem_take hc)
  have hdrop : ∀ k, IsPrintable ((Nat.toDigits 10 p.digits).drop k) :=
    fun k c hc => hdigits c (List.mem_of_mem_drop hc)
  have hpower : ∀ n, IsPrintable (Text.padded 10 2 n).toList := fun n =>
    isPrintable_digits (isRun_padded n).digits
  unfold Decimal.body
  simp only
  split_ifs <;> simp only [isPrintable_append, isPrintable_cons, isPrintable_nil, hdigits, hzeros, htake,
    hdrop, hpower, and_true, true_and] <;> decide

theorem isPrintable_text (d : Decimal) : IsPrintable d.text.toList := by
  rw [Decimal.toList_text]
  split
  · exact isPrintable_cons.mpr ⟨by decide, isPrintable_body _⟩
  · exact isPrintable_body _

/-! One line has no new lines, and a blank after each comma and colon. -/

@[simp] theorem newLine_line (level : Nat) : Style.line.layout.newLine level = [] := rfl

@[simp] theorem afterComma_line (level : Nat) : Style.line.layout.afterComma level = [' '] := rfl

@[simp] theorem afterColon_line : Style.line.layout.afterColon = [' '] := rfl

@[simp] theorem asciiOnly_line : Style.line.asciiOnly = true := rfl

mutual

/-- A value on one line is printable, whatever texts are in it. -/
theorem isPrintable_render (level : Nat) : ∀ v : Json, IsPrintable (render .line level v)
  | .null | .bool true | .bool false | .nan | .infinity true | .infinity false | .arr [] | .obj [] => by
    rw [render]
    decide
  | .int n => by
    rw [render]
    exact isPrintable_signedDecimal n
  | .real d => by
    rw [render]
    exact isPrintable_text d
  | .str s => by
    rw [render]
    exact isPrintable_writeText s
  | .arr (item :: items) => by
    have hitem := isPrintable_render (level + 1) item
    have hitems := isPrintable_renderItems (level + 1) items
    rw [render, newLine_line, newLine_line]
    simp only [List.append_nil, List.nil_append, List.cons_append, isPrintable_cons, isPrintable_append]
    exact ⟨by decide, ⟨hitem, hitems⟩, by decide, isPrintable_nil⟩
  | .obj ((k, v) :: fields) => by
    have hv := isPrintable_render (level + 1) v
    have hfields := isPrintable_renderFields (level + 1) fields
    have hk := isPrintable_writeText k
    rw [render, newLine_line, newLine_line, afterColon_line, asciiOnly_line]
    simp only [List.append_nil, List.nil_append, List.cons_append, isPrintable_cons, isPrintable_append]
    exact ⟨by decide, ⟨⟨⟨hk, by decide, by decide, isPrintable_nil⟩, hv⟩, hfields⟩, by decide, isPrintable_nil⟩

theorem isPrintable_renderItems (level : Nat) :
    ∀ items : List Json, IsPrintable (renderItems .line level items)
  | [] => by
    rw [renderItems]
    exact isPrintable_nil
  | item :: items => by
    have hitem := isPrintable_render level item
    have hitems := isPrintable_renderItems level items
    rw [renderItems, afterComma_line]
    simp only [List.cons_append, List.nil_append, isPrintable_cons, isPrintable_append]
    exact ⟨by decide, by decide, hitem, hitems⟩

theorem isPrintable_renderFields (level : Nat) :
    ∀ fields : List (String × Json), IsPrintable (renderFields .line level fields)
  | [] => by
    rw [renderFields]
    exact isPrintable_nil
  | (k, v) :: fields => by
    have hv := isPrintable_render level v
    have hfields := isPrintable_renderFields level fields
    have hk := isPrintable_writeText k
    rw [renderFields, afterComma_line, afterColon_line, asciiOnly_line]
    simp only [List.cons_append, List.nil_append, isPrintable_cons, isPrintable_append]
    exact ⟨by decide, by decide, ⟨⟨hk, by decide, by decide, isPrintable_nil⟩, hv⟩, hfields⟩

end

/-! Values that say nothing -/

/-- The values that count as nothing: null, false, zero, and what is empty. -/
inductive IsVoid : Json → Prop
  | null : IsVoid .null
  | no : IsVoid (.bool false)
  | zero : IsVoid (.int 0)
  | fraction (negative : Bool) (exponent : Int) : IsVoid (.real ⟨negative, 0, exponent⟩)
  | text : IsVoid (.str "")
  | list : IsVoid (.arr [])
  | object : IsVoid (.obj [])

theorem isTruthy_eq_false_iff (v : Json) : v.isTruthy = false ↔ v.IsVoid := by
  constructor
  · intro h
    match v with
    | .null => exact .null
    | .bool false => exact .no
    | .int n =>
      obtain rfl : n = 0 := by simpa [isTruthy] using h
      exact .zero
    | .real ⟨negative, digits, exponent⟩ =>
      obtain rfl : digits = 0 := by simpa [isTruthy] using h
      exact .fraction negative exponent
    | .str s =>
      obtain rfl : s = "" := by simpa [isTruthy] using h
      exact .text
    | .arr [] => exact .list
    | .obj [] => exact .object
  · rintro (_ | _)
    all_goals rfl

end Json

namespace Log

open Json (IsKeyed FieldsKeyed IsVoid IsPrintable)

/-- The fields that show a context are those that are set, with their values. -/
structure Context.ShownBy (c : Context) (fields : List (String × Json)) : Prop where
  names : Keyed.keys fields = (if c.file.isSome then ["file_path"] else []) ++
    (if c.transformer.isSome then ["transformer"] else []) ++ (if c.pass.isSome then ["pass_index"] else [])
  file : Keyed.find? "file_path" fields = c.file.map Json.str
  transformer : Keyed.find? "transformer" fields = c.transformer.map Json.str
  pass : Keyed.find? "pass_index" fields = c.pass.map Json.int

theorem Context.shownBy_fields (c : Context) : c.ShownBy c.fields := by
  obtain ⟨file, transformer, pass⟩ := c
  cases file <;> cases transformer <;> cases pass <;> exact ⟨by rfl, by rfl, by rfl, by rfl⟩

theorem Context.isPlain_fields (c : Context) : Json.IsPlain (.obj c.fields) := by
  obtain ⟨file, transformer, pass⟩ := c
  cases file <;> cases transformer <;> cases pass <;>
    exact ⟨by simp [Context.fields, Keyed.keys], by simp [Context.fields, Json.FieldsPlain, Json.IsPlain]⟩

theorem Context.isEmpty_fields_iff (c : Context) : c.fields.isEmpty = true ↔ c = Context.none := by
  obtain ⟨file, transformer, pass⟩ := c
  cases file <;> cases transformer <;> cases pass <;> simp [Context.fields, Context.none]

/-- The fields that show a record: the four that it always has, and a context, data and an exception where there
are any. -/
structure Record.ShownBy (time : Instant) (r : Record) (fields : List (String × Json)) : Prop where
  names : Keyed.keys fields = ["timestamp", "level", "logger", "message"] ++
    (if r.context = Context.none then [] else ["context"]) ++
    (if r.data.isTruthy then ["data"] else []) ++ (if r.exception.isSome then ["exception"] else [])
  timestamp : Keyed.find? "timestamp" fields = some (.str (Record.isoTime time))
  level : Keyed.find? "level" fields = some (.str (levelName r.level))
  logger : Keyed.find? "logger" fields = some (.str r.logger)
  message : Keyed.find? "message" fields = some (.str r.message)
  context : r.context ≠ Context.none →
    ∃ shown, Keyed.find? "context" fields = some (.obj shown) ∧ r.context.ShownBy shown
  data : ¬ r.data.IsVoid → ∃ v, Keyed.find? "data" fields = some v ∧ v.plain = r.data.plain
  exception : ∀ e, r.exception = some e → Keyed.find? "exception" fields = some (.str e)

namespace Record

/-- The fields of a record: four that are always there, and three that are if there is something to say. -/
def fields (time : Instant) (r : Record) : List (String × Json) :=
  [("timestamp", .str (isoTime time)), ("level", .str (levelName r.level)), ("logger", .str r.logger),
    ("message", .str r.message)] ++
  (if r.context.fields.isEmpty then [] else [("context", .obj r.context.fields)]) ++
  (if r.data.isTruthy then [("data", r.data)] else []) ++
  (r.exception.map fun e => ("exception", Json.str e)).toList

theorem toJson_eq (time : Instant) (r : Record) : r.toJson time = .obj (r.fields time) := rfl

theorem keys_fields (time : Instant) (r : Record) : Keyed.keys (r.fields time) =
    ["timestamp", "level", "logger", "message"] ++ (if r.context = Context.none then [] else ["context"]) ++
      (if r.data.isTruthy then ["data"] else []) ++ (if r.exception.isSome then ["exception"] else []) := by
  unfold fields Keyed.keys
  simp only [r.context.isEmpty_fields_iff, List.map_append]
  congr 2
  · congr 1
    split <;> rfl
  · split <;> rfl
  · cases r.exception <;> rfl

theorem nodup_keys_fields (time : Instant) (r : Record) : (Keyed.keys (r.fields time)).Nodup := by
  rw [keys_fields]
  split_ifs <;> decide

/-- A record whose data have different names in each object can be read. -/
theorem isKeyed_toJson (time : Instant) {r : Record} (h : r.data.IsKeyed) : IsKeyed (r.toJson time) := by
  have hcontext := (Json.IsPlain.keyed _ r.context.isPlain_fields).1
  rw [toJson_eq]
  refine ⟨nodup_keys_fields time r, ?_⟩
  unfold fields
  cases r.exception <;> split_ifs <;>
    simp only [List.cons_append, List.nil_append, Option.map_none, Option.map_some, Option.toList_none,
      Option.toList_some, FieldsKeyed, hcontext, h, and_true, true_and] <;> simp only [IsKeyed, and_true]

theorem shownBy_echoFields (time : Instant) (r : Record) :
    r.ShownBy time (Json.echoFields (r.fields time)) := by
  have hcontext := (Json.IsPlain.keyed _ r.context.isPlain_fields).2
  have hfind : ∀ {name v}, (name, v) ∈ r.fields time →
      Keyed.find? name (Json.echoFields (r.fields time)) = some v.echo := by
    intro name v hmem
    rw [Json.find?_echoFields, Keyed.find?_of_mem (nodup_keys_fields time r) hmem]
    rfl
  constructor
  · rw [Json.keys_echoFields, keys_fields]
  · rfl
  · rfl
  · rfl
  · rfl
  · intro hne
    have hthere := hfind (show ("context", .obj r.context.fields) ∈ r.fields time by
      simp [fields, mt r.context.isEmpty_fields_iff.mp hne])
    exact ⟨r.context.fields, hcontext ▸ hthere, r.context.shownBy_fields⟩
  · intro hdata
    have htruthy : r.data.isTruthy = true := by
      rwa [← r.data.isTruthy_eq_false_iff, Bool.not_eq_false] at hdata
    exact ⟨r.data.echo, hfind (by simp [fields, htruthy]), r.data.plain_echo⟩
  · intro e he
    exact hfind (v := .str e) (by simp [fields, he])

/-- The line of a record whose message is made from a template and arguments, whatever they are, holds nothing but
printable ASCII characters, and reading it gives the fields of the record: the context if any of it is set, the data
unless they count as nothing, and the exception if there is one. Only fractions may be written in another form. -/
theorem jsonLine_reads_back (time : Instant) (template : String) (args : List Json) {r r' : Record}
    (hmessage : r.withMessage template args = .ok r') (hdata : r.data.IsKeyed) :
    IsPrintable (r'.jsonLine time).toList ∧ (r.data.isTruthy = false ↔ r.data.IsVoid) ∧
    ∃ message fields, Text.Percent.format template args = .ok message ∧
      Json.parse? (r'.jsonLine time) = some (.obj fields) ∧
      ShownBy time { r with message := message } fields := by
  unfold withMessage at hmessage
  cases hformat : Text.Percent.format template args with
  | error e =>
    rw [hformat] at hmessage
    cases hmessage
  | ok message =>
    rw [hformat] at hmessage
    cases hmessage
    have hkeyed := isKeyed_toJson time (r := { r with message := message }) hdata
    have hread := Json.read?_render_echo .line hkeyed
    rw [jsonLine, Json.write, Json.parse?, String.toList_ofList]
    exact ⟨Json.isPrintable_render 0 _, r.data.isTruthy_eq_false_iff, message, _, rfl, hread,
      shownBy_echoFields time { r with message := message }⟩

/-! A file name that looks like the end of a line and the begin of another one -/

namespace Forged

def time : Instant := ⟨2024, 2, 29, 12, 0, 0, 0, none⟩

def name : String := "é😀\"\x7d\n\x7b\"level\": \"CRITICAL"

def recorded : Record :=
  ⟨20, "pipeline", "", ⟨some name, none, some 0⟩,
    .arr [.real ⟨true, 1500, -2⟩, .str "\n"], some "ValueError: \"x\""⟩

theorem jsonLine_reads_back_forged :
    let written : Record := { recorded with message := "read " ++ name }
    IsPrintable (written.jsonLine time).toList ∧
    ∃ fields, Json.parse? (written.jsonLine time) = some (.obj fields) ∧
      Keyed.keys fields = ["timestamp", "level", "logger", "message", "context", "data", "exception"] ∧
      Keyed.find? "message" fields = some (.str ("read " ++ name)) := by
  have hformat : Text.Percent.format "read %s" [.str name] = .ok ("read " ++ name) := by rfl
  have hmessage : recorded.withMessage "read %s" [.str name] =
      .ok { recorded with message := "read " ++ name } := by
    rw [withMessage, hformat]
    rfl
  obtain ⟨hline, -, message, fields, hsame, hread, hshown⟩ :=
    jsonLine_reads_back time "read %s" [.str name] hmessage ⟨trivial, trivial, trivial⟩
  cases hformat.symm.trans hsame
  exact ⟨hline, fields, hread, hshown.names, hshown.message⟩

end Forged

end Record
end Log
end AssetCompiler
