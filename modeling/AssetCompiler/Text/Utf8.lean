/-!
UTF-8. The strict decoder answers only for well-formed bytes: no overlong forms, no surrogates,
nothing above U+10FFFF. The lossy one writes U+FFFD for each longest piece that starts a character
and cannot be completed.
-/
namespace AssetCompiler.Text.Utf8

/-- The bytes of one character. -/
def encodeChar (c : Char) : List UInt8 :=
  let n := c.toNat
  if n < 0x80 then [n.toUInt8]
  else if n < 0x800 then [(0xc0 + n / 64).toUInt8, (0x80 + n % 64).toUInt8]
  else if n < 0x10000 then
    [(0xe0 + n / 4096).toUInt8, (0x80 + n / 64 % 64).toUInt8, (0x80 + n % 64).toUInt8]
  else
    [(0xf0 + n / 262144).toUInt8, (0x80 + n / 4096 % 64).toUInt8, (0x80 + n / 64 % 64).toUInt8,
     (0x80 + n % 64).toUInt8]

def encode (s : List Char) : List UInt8 := s.flatMap encodeChar

def ofString (s : String) : List UInt8 := encode s.toList

/-- What a byte opens: a whole character, or one that needs further bytes, the first of them in a
range that shuts out overlong forms, surrogates and values that are too large. -/
inductive Lead
  | whole
  | opens (more : Nat) (low high : UInt8)
  | invalid

def lead (b : UInt8) : Lead :=
  if b < 0x80 then .whole
  else if b < 0xc2 then .invalid
  else if b < 0xe0 then .opens 1 0x80 0xbf
  else if b = 0xe0 then .opens 2 0xa0 0xbf
  else if b = 0xed then .opens 2 0x80 0x9f
  else if b < 0xf0 then .opens 2 0x80 0xbf
  else if b = 0xf0 then .opens 3 0x90 0xbf
  else if b < 0xf4 then .opens 3 0x80 0xbf
  else if b = 0xf4 then .opens 3 0x80 0x8f
  else .invalid

/-- The part of a lead byte's value that belongs to the character. -/
def leadValue (more : Nat) (b : UInt8) : Nat :=
  match more with
  | 1 => b.toNat - 0xc0
  | 2 => b.toNat - 0xe0
  | _ => b.toNat - 0xf0

/-- Reads the further bytes of a character, each but the first in the common range. Gives the value
and the rest, or the rest after the bytes that did fit. -/
def further : Nat → UInt8 → UInt8 → Nat → List UInt8 → Except (List UInt8) (Nat × List UInt8)
  | 0, _, _, value, rest => .ok (value, rest)
  | _ + 1, _, _, _, [] => .error []
  | more + 1, low, high, value, b :: rest =>
    if low ≤ b && b ≤ high then further more 0x80 0xbf (value * 64 + (b.toNat - 0x80)) rest
    else .error (b :: rest)

/-- The first character of a text and the rest, or the rest after a piece that is none. -/
def next (b : UInt8) (rest : List UInt8) : Except (List UInt8) (Char × List UInt8) :=
  match lead b with
  | .whole => .ok (Char.ofNat b.toNat, rest)
  | .invalid => .error rest
  | .opens more low high =>
    (further more low high (leadValue more b) rest).map fun (n, rest) => (Char.ofNat n, rest)

theorem length_further (more : Nat) (low high : UInt8) (value : Nat) (bytes : List UInt8) :
    (∀ r, further more low high value bytes = .ok r → r.2.length ≤ bytes.length) ∧
    (∀ r, further more low high value bytes = .error r → r.length ≤ bytes.length) := by
  induction more generalizing low high value bytes with
  | zero => simp [further]
  | succ more ih =>
    cases bytes with
    | nil => simp [further]
    | cons b rest =>
      rw [further]
      split
      · have := ih 0x80 0xbf (value * 64 + (b.toNat - 0x80)) rest
        constructor
        · intro r hr; have := this.1 r hr; simp; omega
        · intro r hr; have := this.2 r hr; simp; omega
      · simp

theorem length_next (b : UInt8) (rest : List UInt8) :
    (∀ r, next b rest = .ok r → r.2.length ≤ rest.length) ∧
    (∀ r, next b rest = .error r → r.length ≤ rest.length) := by
  unfold next
  split
  · simp
  · simp
  · next more low high _ =>
    have h := length_further more low high (leadValue more b) rest
    cases hf : further more low high (leadValue more b) rest with
    | error r => simp [Except.map]; exact h.2 r hf
    | ok r => simp [Except.map]; exact h.1 r hf

/-- The text that well-formed bytes encode. -/
def decode? (bytes : List UInt8) : Option (List Char) :=
  match bytes with
  | [] => some []
  | b :: rest =>
    match h : next b rest with
    | .ok (c, more) =>
      have : more.length ≤ rest.length := (length_next b rest).1 _ h
      (decode? more).map (c :: ·)
    | .error _ => none
  termination_by bytes.length
  decreasing_by simp only [List.length_cons]; omega

/-- The text of any bytes, with U+FFFD for each piece that is no character. -/
def decodeLossy (bytes : List UInt8) : List Char :=
  match bytes with
  | [] => []
  | b :: rest =>
    match h : next b rest with
    | .ok (c, more) =>
      have : more.length ≤ rest.length := (length_next b rest).1 _ h
      c :: decodeLossy more
    | .error more =>
      have : more.length ≤ rest.length := (length_next b rest).2 _ h
      '\ufffd' :: decodeLossy more
  termination_by bytes.length
  decreasing_by all_goals (simp only [List.length_cons]; omega)

/-- Why bytes are no text: where the first bad piece begins, its bytes, and what is wrong with
it. -/
structure Fault where
  offset : Nat
  piece : List UInt8
  reason : String
  deriving DecidableEq, Repr, Inhabited

/-- The fault of a piece that begins with `b` and ends where `more` begins. -/
def faultAt (offset : Nat) (b : UInt8) (rest more : List UInt8) : Fault :=
  let piece := b :: rest.take (rest.length - more.length)
  match lead b with
  | .invalid => ⟨offset, piece, "invalid start byte"⟩
  | _ =>
    ⟨offset, piece,
      if more.isEmpty then "unexpected end of data" else "invalid continuation byte"⟩

/-- The first fault of some bytes, `offset` bytes into the whole. -/
def fault? (offset : Nat) (bytes : List UInt8) : Option Fault :=
  match bytes with
  | [] => none
  | b :: rest =>
    match h : next b rest with
    | .ok (_, more) =>
      have : more.length ≤ rest.length := (length_next b rest).1 _ h
      fault? (offset + 1 + (rest.length - more.length)) more
    | .error more => some (faultAt offset b rest more)
  termination_by bytes.length
  decreasing_by simp only [List.length_cons]; omega

/-- The text of bytes, or the first fault. -/
def decode (bytes : List UInt8) : Except Fault (List Char) :=
  match decode? bytes with
  | some s => .ok s
  | none => .error ((fault? 0 bytes).getD ⟨0, [], ""⟩)

end AssetCompiler.Text.Utf8
