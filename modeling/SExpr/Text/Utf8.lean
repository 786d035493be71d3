import SExpr.Text.Basic

/-!
# Strict UTF-8

Decoding accepts the well-formed byte sequences of UTF-8 and no others: no overlong forms, no
surrogates, nothing above U+10FFFF. A failure names the bytes at fault, which are a lead byte and
the continuation bytes after it that could still have belonged to a character.
-/
namespace SExpr.Text.Utf8

/-- Why a byte sequence is not well formed. -/
inductive Reason
  | invalidStart
  | invalidContinuation
  | unexpectedEnd
  deriving DecidableEq, Repr

def Reason.message : Reason → Text
  | .invalidStart => "invalid start byte".toList
  | .invalidContinuation => "invalid continuation byte".toList
  | .unexpectedEnd => "unexpected end of data".toList

/-- A malformed sequence: its byte offset, its first byte, how many bytes belong to it, and why. -/
structure DecodeError where
  offset : Nat
  byte : UInt8
  count : Nat
  reason : Reason
  deriving DecidableEq, Repr

/-- A single bad byte is shown, a longer sequence is given by its first and last offset. -/
def DecodeError.message (e : DecodeError) : Text :=
  "'utf-8' codec can't decode byte".toList ++
    (if e.count = 1 then
      " 0x".toList ++ List.leftpad 2 '0' (Nat.toDigits 16 e.byte.toNat) ++
        " in position ".toList ++ ofNat e.offset
    else
      "s in position ".toList ++ ofNat e.offset ++ '-' :: ofNat (e.offset + e.count - 1)) ++
    ": ".toList ++ e.reason.message

/-- What a lead byte announces: its own bits of the code point, how many bytes follow, and the
bounds of the first of them. -/
structure Lead where
  bits : Nat
  following : Nat
  low : UInt8
  high : UInt8

/-- The lead bytes. The bounds keep out overlong forms, surrogates and code points too large. -/
def lead? (b : UInt8) : Option Lead :=
  if b < 0x80 then some ⟨b.toNat, 0, 0x80, 0xBF⟩
  else if b < 0xC2 then none
  else if b < 0xE0 then some ⟨b.toNat - 0xC0, 1, 0x80, 0xBF⟩
  else if b < 0xF0 then
    some ⟨b.toNat - 0xE0, 2, if b = 0xE0 then 0xA0 else 0x80, if b = 0xED then 0x9F else 0xBF⟩
  else if b < 0xF5 then
    some ⟨b.toNat - 0xF0, 3, if b = 0xF0 then 0x90 else 0x80, if b = 0xF4 then 0x8F else 0xBF⟩
  else none

/-- Reads `following` continuation bytes, the first within the bounds, and adds their six bits
each to the code point. A failure tells how many of them were good. -/
def continuation (bits following : Nat) (low high : UInt8) :
    List UInt8 → Except (Nat × Reason) Nat
  | [] => if following = 0 then .ok bits else .error (0, .unexpectedEnd)
  | b :: rest =>
    match following with
    | 0 => .ok bits
    | more + 1 =>
      if low ≤ b ∧ b ≤ high then
        match continuation (bits * 64 + (b.toNat - 0x80)) more 0x80 0xBF rest with
        | .ok value => .ok value
        | .error (good, reason) => .error (good + 1, reason)
      else .error (0, .invalidContinuation)

def decodeFrom (offset : Nat) : List UInt8 → Except DecodeError Text
  | [] => .ok []
  | b :: rest =>
    match lead? b with
    | none => .error ⟨offset, b, 1, .invalidStart⟩
    | some lead =>
      match continuation lead.bits lead.following lead.low lead.high rest with
      | .error (good, reason) => .error ⟨offset, b, good + 1, reason⟩
      | .ok value =>
        match decodeFrom (offset + lead.following + 1) (rest.drop lead.following) with
        | .ok text => .ok (Char.ofNat value :: text)
        | .error e => .error e
termination_by bytes => bytes.length
decreasing_by simp only [List.length_drop, List.length_cons]; omega

def decode (bytes : List UInt8) : Except DecodeError Text :=
  decodeFrom 0 bytes

def encode (t : Text) : List UInt8 :=
  t.flatMap String.utf8EncodeChar

end SExpr.Text.Utf8
