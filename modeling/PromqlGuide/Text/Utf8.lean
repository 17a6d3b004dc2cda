/-!
Decoding text from bytes. Where bytes are no text the first fault is reported with its place.

Main statement: ASCII bytes are decoded one by one (`Utf8.decode_ascii`).
-/
namespace PromqlGuide.Utf8

/-- What is wrong with the bytes at a place. -/
inductive Cause where
  | invalidStart
  | invalidContinuation
  | unexpectedEnd
  deriving Repr, DecidableEq

/-- A place where bytes are no text: the position and the bytes that belong to the fault. -/
structure Fault where
  position : Nat
  bytes : List Nat
  cause : Cause
  deriving Repr, DecidableEq

/-- What is wrong, in words. -/
def Cause.words : Cause → String
  | invalidStart => "invalid start byte"
  | invalidContinuation => "invalid continuation byte"
  | unexpectedEnd => "unexpected end of data"

/-- The message about a fault: a single byte is named, several bytes by their positions. -/
def Fault.message (f : Fault) : String :=
  let words := f.cause.words
  let first := f.position
  match f.bytes with
  | [byte] =>
    let digits := String.ofList [Nat.digitChar (byte / 16), Nat.digitChar (byte % 16)]
    s!"'utf-8' codec can't decode byte 0x{digits} in position {first}: {words}"
  | bytes =>
    let last := first + bytes.length - 1
    s!"'utf-8' codec can't decode bytes in position {first}-{last}: {words}"

/-- How many bytes a character has that starts with the given byte, and the range of its second
byte. -/
def shape? (b : Nat) : Option (Nat × Nat × Nat) :=
  if 0xC2 ≤ b ∧ b < 0xE0 then some (2, 0x80, 0xC0)
  else if b = 0xE0 then some (3, 0xA0, 0xC0)
  else if b = 0xED then some (3, 0x80, 0xA0)
  else if 0xE1 ≤ b ∧ b < 0xF0 then some (3, 0x80, 0xC0)
  else if b = 0xF0 then some (4, 0x90, 0xC0)
  else if 0xF1 ≤ b ∧ b < 0xF4 then some (4, 0x80, 0xC0)
  else if b = 0xF4 then some (4, 0x80, 0x90)
  else none

/-- A character whose bytes have not all been read: the bytes so far, how many are still to come,
the range of the next one, and the bits so far. -/
structure Pending where
  bytes : List Nat
  missing : Nat
  low : Nat
  high : Nat
  bits : Nat
  deriving Repr

/-- The bits that the first byte of a character of the given length contributes. -/
def leadBits (length b : Nat) : Nat :=
  match length with
  | 2 => b % 32
  | 3 => b % 16
  | _ => b % 8

/-- Decodes bytes from a position on, in the middle of a character if one is pending. -/
def decodeFrom (position : Nat) : Option Pending → List Nat → Except Fault (List Char)
  | none, [] => .ok []
  | some p, [] => .error ⟨position - p.bytes.length, p.bytes, .unexpectedEnd⟩
  | none, b :: rest =>
    if b < 0x80 then (decodeFrom (position + 1) none rest).map (Char.ofNat b :: ·)
    else
      match shape? b with
      | none => .error ⟨position, [b], .invalidStart⟩
      | some (length, low, high) =>
        decodeFrom (position + 1) (some ⟨[b], length - 1, low, high, leadBits length b⟩) rest
  | some p, b :: rest =>
    if p.low ≤ b ∧ b < p.high then
      let bits := p.bits * 64 + b % 64
      if p.missing ≤ 1 then (decodeFrom (position + 1) none rest).map (Char.ofNat bits :: ·)
      else
        decodeFrom (position + 1) (some ⟨p.bytes ++ [b], p.missing - 1, 0x80, 0xC0, bits⟩) rest
    else .error ⟨position - p.bytes.length, p.bytes, .invalidContinuation⟩

/-- The text that bytes stand for. -/
def decode (bytes : List Nat) : Except Fault (List Char) := decodeFrom 0 none bytes

/-- Bytes below 128 stand for the characters of the same numbers. -/
theorem decodeFrom_ascii {bytes : List Nat} (h : ∀ b ∈ bytes, b < 0x80) (position : Nat) :
    decodeFrom position none bytes = .ok (bytes.map Char.ofNat) := by
  induction bytes generalizing position with
  | nil => rfl
  | cons b rest ih =>
    simp [decodeFrom, h b (by simp), ih fun c hc => h c (List.mem_cons_of_mem _ hc), Except.map]

/-- ASCII bytes stand for the characters with the same numbers. -/
theorem decode_ascii {bytes : List Nat} (h : ∀ b ∈ bytes, b < 0x80) :
    decode bytes = .ok (bytes.map Char.ofNat) := decodeFrom_ascii h 0

end PromqlGuide.Utf8
