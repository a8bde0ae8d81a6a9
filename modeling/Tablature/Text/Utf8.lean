import Tablature.Text.Quoted

/-!
# Reading UTF-8

A character is written as a lead byte and as many continuation bytes as this announces. The
decoder takes the bytes of a text one after the other. Where a byte does not fit, it tells the
bytes that are no character: those of the character begun, without the byte that does not fit.
-/

namespace Tablature.Utf8

/-- Why bytes are no character. -/
inductive Reason where
  | invalidStart
  | invalidContinuation
  | unexpectedEnd
deriving DecidableEq, Repr

def Reason.text : Reason → String
  | invalidStart => "invalid start byte"
  | invalidContinuation => "invalid continuation byte"
  | unexpectedEnd => "unexpected end of data"

/-- Bytes that are no character: the first of them, its position, and their number. -/
structure Fault where
  byte : UInt8
  position : Nat
  size : Nat
  reason : Reason
deriving DecidableEq, Repr

def Fault.message (e : Fault) : String :=
  "'utf-8' codec can't decode " ++
    (if e.size = 1 then
      "byte 0x" ++ Text.hex 2 e.byte.toNat ++ " in position " ++ toString e.position
    else
      "bytes in position " ++ toString e.position ++ "-" ++ toString (e.position + e.size - 1)) ++
    ": " ++ e.reason.text

/-- A character that has been begun. -/
structure Begun where
  lead : UInt8
  position : Nat
  /-- The bytes so far. -/
  size : Nat := 1
  /-- The continuation bytes to come. -/
  missing : Nat
  /-- The code point, as far as it is known. -/
  bits : Nat
  /-- The least and the greatest byte that may come next. -/
  low : Nat := 0x80
  high : Nat := 0xBF
deriving DecidableEq, Repr

/-- The character that a lead byte begins, if it is the lead byte of more than one. -/
def Begun.ofLead? (position : Nat) (lead : UInt8) : Option Begun :=
  let b := lead.toNat
  if b < 0xC2 then none
  else if b < 0xE0 then some { lead, position, missing := 1, bits := b - 0xC0 }
  else if b < 0xF0 then
    some { lead, position, missing := 2, bits := b - 0xE0,
           low := if b = 0xE0 then 0xA0 else 0x80, high := if b = 0xED then 0x9F else 0xBF }
  else if b < 0xF5 then
    some { lead, position, missing := 3, bits := b - 0xF0,
           low := if b = 0xF0 then 0x90 else 0x80, high := if b = 0xF4 then 0x8F else 0xBF }
  else none

/-- What has been read, the character that has been begun, and the number of bytes taken. -/
structure Decoder where
  text : String := ""
  begun? : Option Begun := none
  position : Nat := 0
deriving DecidableEq, Repr

namespace Decoder

/-- Takes the first byte of a character. -/
def lead (d : Decoder) (byte : UInt8) : Except Fault Decoder :=
  if byte.toNat < 0x80 then
    .ok { d with text := d.text.push (Char.ofNat byte.toNat), position := d.position + 1 }
  else match Begun.ofLead? d.position byte with
    | some c => .ok { d with begun? := some c, position := d.position + 1 }
    | none => .error ⟨byte, d.position, 1, .invalidStart⟩

/-- Takes a further byte of the character that has been begun. -/
def continuation (d : Decoder) (c : Begun) (byte : UInt8) : Except Fault Decoder :=
  let b := byte.toNat
  if b < c.low ∨ c.high < b then .error ⟨c.lead, c.position, c.size, .invalidContinuation⟩
  else
    let bits := c.bits * 64 + (b - 0x80)
    if c.missing ≤ 1 then
      .ok ⟨d.text.push (Char.ofNat bits), none, d.position + 1⟩
    else
      .ok { d with
        begun? := some { c with
          size := c.size + 1, missing := c.missing - 1, bits, low := 0x80, high := 0xBF }
        position := d.position + 1 }

def take (d : Decoder) (byte : UInt8) : Except Fault Decoder :=
  match d.begun? with
  | none => d.lead byte
  | some c => d.continuation c byte

/-- The text of the bytes taken, which no character may be left unfinished in. -/
def finish (d : Decoder) : Except Fault String :=
  match d.begun? with
  | none => .ok d.text
  | some c => .error ⟨c.lead, c.position, c.size, .unexpectedEnd⟩

/-- The text of the bytes taken and of further ones. -/
def run (d : Decoder) : List UInt8 → Except Fault String
  | [] => d.finish
  | byte :: bytes =>
    match d.take byte with
    | .ok d => run d bytes
    | .error e => .error e

end Decoder

/-- The text that bytes write. -/
def decode (bytes : List UInt8) : Except Fault String := ({} : Decoder).run bytes

end Tablature.Utf8
