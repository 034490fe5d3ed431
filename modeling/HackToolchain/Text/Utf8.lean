/-
**Characters in a byte string.**

A text is read as UTF-8 from left to right: where the bytes encode a character they are taken
together, and a byte that takes part in no such encoding stands for itself.  Overlong forms,
surrogates and values past U+10FFFF encode nothing, so each of their bytes stands alone.

Main definitions:

* `Glyph` — a character, or a stray byte;
* `decode`, `encode` — between bytes and glyphs.

A lead byte can only be completed by continuation bytes, and a continuation byte never starts a
character.  Hence a text can be decoded from its end: the glyphs of the tail are known, and the
byte in front either joins the stray continuation bytes that follow it or stands alone.  This is
`attach`, and `decode` is its right fold.
-/
import HackToolchain.Text.Basic

set_option relaxedAutoImplicit false
set_option autoImplicit false

namespace HackToolchain

/-- One position of a text: a character, or a byte that is part of no character. -/
inductive Glyph where
  | char (c : Char)
  | stray (b : UInt8)
  deriving DecidableEq

namespace Glyph

/-- The bytes of a glyph. -/
def bytes : Glyph → Text
  | char c => String.utf8EncodeChar c
  | stray b => [b]

/-- The test on characters, false of stray bytes. -/
def satisfies (p : Char → Bool) : Glyph → Bool
  | char c => p c
  | stray _ => false

/-- The map on characters, which leaves stray bytes alone. -/
def map (f : Char → Char) : Glyph → Glyph
  | char c => char (f c)
  | stray b => stray b

end Glyph

namespace Text

/-- A byte of the form `10xxxxxx`. -/
def isContinuation (b : UInt8) : Bool := 0x80 ≤ b && b < 0xC0

/-- The character whose leading bits have the value `lead` and whose further bits, six in each
byte, stand in `tail`.  There is none if a byte of `tail` is no continuation byte, if the value is
below `least` (it has a shorter form), or if it is no Unicode scalar value. -/
def scalar? (least lead : Nat) (tail : Text) : Option Char :=
  let n := tail.foldl (fun n b => 64 * n + b.toNat % 64) lead
  if tail.all isContinuation && decide (least ≤ n ∧ n.isValidChar) then some (Char.ofNat n)
  else none

/-- The character that the byte `b` starts in front of the glyphs `rest`, with the glyphs after
it. -/
def join? (b : UInt8) (rest : List Glyph) : Option (Char × List Glyph) :=
  if b < 0x80 then some (Char.ofNat b.toNat, rest)
  else if b < 0xC0 then none
  else if b < 0xE0 then
    match rest with
    | .stray c :: r => (scalar? 0x80 (b.toNat - 0xC0) [c]).map (·, r)
    | _ => none
  else if b < 0xF0 then
    match rest with
    | .stray c :: .stray d :: r => (scalar? 0x800 (b.toNat - 0xE0) [c, d]).map (·, r)
    | _ => none
  else if b < 0xF8 then
    match rest with
    | .stray c :: .stray d :: .stray e :: r =>
      (scalar? 0x10000 (b.toNat - 0xF0) [c, d, e]).map (·, r)
    | _ => none
  else none

/-- The glyphs of a text whose first byte is `b` and whose other bytes have the glyphs `rest`. -/
def attach (b : UInt8) (rest : List Glyph) : List Glyph :=
  match join? b rest with
  | some (c, r) => .char c :: r
  | none => .stray b :: rest

/-- The glyphs of a text. -/
def decode (t : Text) : List Glyph := t.foldr attach []

/-- The bytes of a sequence of glyphs. -/
def encode (gs : List Glyph) : Text := gs.flatMap Glyph.bytes

@[simp] theorem decode_nil : decode [] = [] := rfl

theorem decode_cons (b : UInt8) (t : Text) : decode (b :: t) = attach b (decode t) := rfl

@[simp] theorem encode_nil : encode [] = [] := rfl

@[simp] theorem encode_cons (g : Glyph) (gs : List Glyph) :
    encode (g :: gs) = g.bytes ++ encode gs := rfl

@[simp] theorem encode_append (gs hs : List Glyph) :
    encode (gs ++ hs) = encode gs ++ encode hs := by
  simp [encode]

/-- A byte below 128 is a character by itself, whatever follows. -/
theorem attach_ascii {b : UInt8} (rest : List Glyph) (h : b < 0x80) :
    attach b rest = .char (Char.ofNat b.toNat) :: rest := by
  simp [attach, join?, h]

end Text

end HackToolchain
