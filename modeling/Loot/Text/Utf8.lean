import Loot.Text.Quoted
/-!
# Decoding files

A file is a list of bytes in UTF-8. The first bytes that no character starts with or goes on with are
refused, with the place and the reason. Each of the line ends in use becomes a newline.
-/
namespace Loot

namespace Utf8

inductive Reason where
  | start
  | continuation
  | ending
deriving DecidableEq

def Reason.text : Reason → String
  | .start => "invalid start byte"
  | .continuation => "invalid continuation byte"
  | .ending => "unexpected end of data"

/-- Refused bytes: where they start, what they are, and why. -/
structure Refusal where
  position : Nat
  bytes : List Nat
  reason : Reason
deriving DecidableEq

/-- The words for a refusal. One byte is shown, of more only the places. -/
def Refusal.text (r : Refusal) : Text :=
  let shown := match r.bytes with
    | [b] => "byte 0x".toList ++ Text.hexadecimal 2 b ++ " in position ".toList ++ Text.ofNat r.position
    | bs =>
      "bytes in position ".toList ++ Text.ofNat r.position ++ "-".toList ++
        Text.ofNat (r.position + bs.length - 1)
  "'utf-8' codec can't decode ".toList ++ shown ++ ": ".toList ++ r.reason.text.toList

/-- A character of which some bytes were seen: its code so far, these bytes, the last one first, how
many are to follow, and the range of the next one. -/
structure Partial where
  code : Nat
  seen : List Nat
  missing : Nat
  low : Nat
  high : Nat

/-- A character of more than one byte after its first byte. -/
def lead? (b : Nat) : Option Partial :=
  if b < 0xC2 then none
  else if b < 0xE0 then some ⟨b % 0x20, [b], 1, 0x80, 0xBF⟩
  else if b = 0xE0 then some ⟨b % 0x10, [b], 2, 0xA0, 0xBF⟩
  else if b = 0xED then some ⟨b % 0x10, [b], 2, 0x80, 0x9F⟩
  else if b < 0xF0 then some ⟨b % 0x10, [b], 2, 0x80, 0xBF⟩
  else if b = 0xF0 then some ⟨b % 0x08, [b], 3, 0x90, 0xBF⟩
  else if b < 0xF4 then some ⟨b % 0x08, [b], 3, 0x80, 0xBF⟩
  else if b = 0xF4 then some ⟨b % 0x08, [b], 3, 0x80, 0x8F⟩
  else none

/-- Decodes from a place on. `done` holds the characters so far, the last one first, and `open?` the
character that is not complete yet. -/
def decodeFrom (position : Nat) (open? : Option Partial) (done : Text) :
    List Nat → Except Refusal Text
  | [] =>
    match open? with
    | none => .ok done.reverse
    | some p => .error ⟨position - p.seen.length, p.seen.reverse, .ending⟩
  | b :: bs =>
    match open? with
    | none =>
      if b < 0x80 then decodeFrom (position + 1) none (Char.ofNat b :: done) bs
      else
        match lead? b with
        | none => .error ⟨position, [b], .start⟩
        | some p => decodeFrom (position + 1) (some p) done bs
    | some p =>
      if p.low ≤ b ∧ b ≤ p.high then
        let code := p.code * 64 + b % 64
        if p.missing ≤ 1 then decodeFrom (position + 1) none (Char.ofNat code :: done) bs
        else
          decodeFrom (position + 1)
            (some ⟨code, b :: p.seen, p.missing - 1, 0x80, 0xBF⟩) done bs
      else .error ⟨position - p.seen.length, p.seen.reverse, .continuation⟩

def decode (bytes : List Nat) : Except Refusal Text := decodeFrom 0 none [] bytes

end Utf8

def Text.newlinesFrom (done : Text) : Text → Text
  | [] => done.reverse
  | '\r' :: '\n' :: cs => newlinesFrom ('\n' :: done) cs
  | '\r' :: cs => newlinesFrom ('\n' :: done) cs
  | c :: cs => newlinesFrom (c :: done) cs

/-- The text with a newline for each carriage return, and for each pair of the two. -/
def Text.withNewlines (t : Text) : Text := Text.newlinesFrom [] t

end Loot
