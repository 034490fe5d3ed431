/-
**Patterns.**

A pattern is a regular expression with anchors for the two ends of a text.  It is looked for anywhere in
a text, and the text is read as characters, not as bytes: a byte that takes part in no character is read
as the replacement character.  A test on bytes and a pattern are therefore different things, and it takes
an argument that they accept the same texts.

The argument is that a byte of ASCII is a character by itself, whatever follows, and that a character
which starts with any other byte is not one of ASCII.  So a class of ASCII characters is a class of bytes,
and a text of such characters is a text of such bytes.

Main definitions:

* `CharClass` — a class of characters, given by ranges;
* `Pattern`, `Pattern.Matches` — patterns, and what they match between two parts of a text;
* `Text.characters`, `Pattern.FoundIn` — the characters of a text, and the texts with a match in them;
* `Pattern.word` — the pattern of a character of one class and characters of another up to the end;
* `CharClass.AsBytes` — a class of ASCII characters as a test on bytes.

Main results:

* `Pattern.matches_word_iff` — what the pattern of a word matches: whole texts only;
* `Text.characters_cons_of_lt`, `Text.characters_cons_of_not_lt` — the first character of a text;
* `Text.all_characters` — a text has characters of a class exactly if it has bytes of the class;
* `Pattern.foundIn_word_iff` — **the pattern of a word is a test on bytes**.
-/
import HackToolchain.Proofs.Text.Trimming

set_option relaxedAutoImplicit false
set_option autoImplicit false

namespace HackToolchain

/-! ### Patterns and what they match -/

/-- A class of characters, given by the first and the last character of each of its ranges. -/
abbrev CharClass := List (Char × Char)

/-- The character with the number `n` is in one of the ranges. -/
def CharClass.has (k : CharClass) (n : Nat) : Bool :=
  k.any fun r => decide (r.1.toNat ≤ n ∧ n ≤ r.2.toNat)

/-- A regular expression. -/
inductive Pattern where
  /-- The start of the text. -/
  | textStart
  /-- The end of the text. -/
  | textEnd
  /-- A character of a class. -/
  | oneOf (k : CharClass)
  /-- One pattern after the other. -/
  | seq (p q : Pattern)
  /-- A pattern any number of times. -/
  | many (p : Pattern)

namespace Pattern

/-- `p.Matches before middle after` says that in a text of these three parts the pattern matches the
middle one.  A line feed at the end belongs to the text: the end is where nothing follows. -/
inductive Matches : Pattern → List Char → List Char → List Char → Prop
  | textStart (after : List Char) : Matches .textStart [] [] after
  | textEnd (before : List Char) : Matches .textEnd before [] []
  | oneOf {k : CharClass} {c : Char} (before after : List Char) :
      k.has c.toNat = true → Matches (.oneOf k) before [c] after
  | seq {p q : Pattern} {before s t after : List Char} :
      Matches p before s (t ++ after) → Matches q (before ++ s) t after →
        Matches (.seq p q) before (s ++ t) after
  | done (p : Pattern) (before after : List Char) : Matches (.many p) before [] after
  | more {p : Pattern} {before s t after : List Char} :
      Matches p before s (t ++ after) → Matches (.many p) (before ++ s) t after →
        Matches (.many p) before (s ++ t) after

variable {p q : Pattern} {k l : CharClass} {before middle after : List Char}

theorem matches_textStart_iff :
    textStart.Matches before middle after ↔ before = [] ∧ middle = [] := by
  constructor
  · rintro ⟨⟩
    exact ⟨rfl, rfl⟩
  · rintro ⟨rfl, rfl⟩
    exact .textStart after

theorem matches_textEnd_iff : textEnd.Matches before middle after ↔ middle = [] ∧ after = [] := by
  constructor
  · rintro ⟨⟩
    exact ⟨rfl, rfl⟩
  · rintro ⟨rfl, rfl⟩
    exact .textEnd before

theorem matches_oneOf_iff : (oneOf k).Matches before middle after ↔
    ∃ c, middle = [c] ∧ k.has c.toNat = true := by
  constructor
  · rintro ⟨⟩
    next c h => exact ⟨c, rfl, h⟩
  · rintro ⟨c, rfl, h⟩
    exact .oneOf before after h

theorem matches_seq_iff : (seq p q).Matches before middle after ↔
    ∃ s t, middle = s ++ t ∧ p.Matches before s (t ++ after) ∧ q.Matches (before ++ s) t after := by
  constructor
  · rintro ⟨⟩
    next s t hp hq => exact ⟨s, t, rfl, hp, hq⟩
  · rintro ⟨s, t, rfl, hp, hq⟩
    exact .seq hp hq

/-- Characters of a class, any number of them. -/
theorem matches_many_oneOf_iff : (many (oneOf k)).Matches before middle after ↔
    ∀ c ∈ middle, k.has c.toNat = true := by
  constructor
  · intro h
    generalize hp : many (oneOf k) = p at h
    induction h with
    | done => intro c hc; cases hc
    | more hone _ _ ih =>
        injection hp with hp
        subst hp
        obtain ⟨d, rfl, hd⟩ := matches_oneOf_iff.1 hone
        exact List.forall_mem_cons.2 ⟨hd, ih rfl⟩
    | textStart | textEnd | oneOf | seq => cases hp
  · intro h
    induction middle generalizing before with
    | nil => exact .done _ before after
    | cons c cs ih =>
        obtain ⟨hc, hcs⟩ := List.forall_mem_cons.1 h
        exact .more (s := [c]) (.oneOf before _ hc) (ih hcs)

/-- The pattern of a word: from the start of the text to its end, a character of the one class and then
characters of the other. -/
def word (k l : CharClass) : Pattern :=
  .seq .textStart (.seq (.oneOf k) (.seq (.many (.oneOf l)) .textEnd))

/-- The pattern of a word matches nothing but whole texts. -/
theorem matches_word_iff : (word k l).Matches before middle after ↔
    before = [] ∧ after = [] ∧ ∃ c cs, middle = c :: cs ∧ k.has c.toNat = true ∧
      ∀ d ∈ cs, l.has d.toNat = true := by
  constructor
  · intro h
    obtain ⟨s, rest, rfl, hstart, h⟩ := matches_seq_iff.1 h
    obtain ⟨rfl, rfl⟩ := matches_textStart_iff.1 hstart
    obtain ⟨s, rest, rfl, hfirst, h⟩ := matches_seq_iff.1 h
    obtain ⟨c, rfl, hc⟩ := matches_oneOf_iff.1 hfirst
    obtain ⟨cs, s, rfl, hmany, hend⟩ := matches_seq_iff.1 h
    obtain ⟨rfl, rfl⟩ := matches_textEnd_iff.1 hend
    exact ⟨rfl, rfl, c, cs, by simp, hc, matches_many_oneOf_iff.1 hmany⟩
  · rintro ⟨rfl, rfl, c, cs, rfl, hc, hcs⟩
    have hmany : (seq (many (oneOf l)) textEnd).Matches [c] (cs ++ []) [] :=
      .seq (matches_many_oneOf_iff.2 hcs) (.textEnd _)
    rw [List.append_nil] at hmany
    exact .seq (.textStart _) (.seq (s := [c]) (.oneOf [] _ hc) hmany)

end Pattern

/-! ### The characters of a text -/

/-- The character that a glyph is read as: the replacement character for a stray byte. -/
def Glyph.character : Glyph → Char
  | char c => c
  | stray _ => Char.ofNat 0xFFFD

/-- The characters of a text, from its start to its end. -/
def Text.characters (t : Text) : List Char := (decode t).map Glyph.character

/-- The pattern matches a part of the text. -/
def Pattern.FoundIn (p : Pattern) (t : Text) : Prop :=
  ∃ before middle after, t.characters = before ++ middle ++ after ∧ p.Matches before middle after

namespace Text

/-- A byte of ASCII is a character by itself. -/
theorem characters_cons_of_lt {b : UInt8} (h : b < 0x80) (t : Text) :
    characters (b :: t) = Char.ofNat b.toNat :: characters t := by
  rw [characters, decode_cons, attach_ascii _ h]
  rfl

/-- A character of ASCII has one byte, which is its number. -/
theorem toNat_of_utf8EncodeChar {b : UInt8} {tail : Text} {c : Char} (hc : c.toNat < 128)
    (h : String.utf8EncodeChar c = b :: tail) : b.toNat = c.toNat := by
  have hnumber : (UInt8.ofNat c.toNat).toNat = c.toNat :=
    UInt8.toNat_ofNat_of_lt' (Nat.lt_trans hc (by decide))
  have hone : String.utf8EncodeChar c = [UInt8.ofNat c.toNat] :=
    utf8EncodeChar_one (by rw [hnumber]; exact hc) hnumber.symm
  rw [hone] at h
  injection h with hb
  rw [← hb, hnumber]

/-- A text that starts with any other byte starts with a character that is not one of ASCII. -/
theorem characters_cons_of_not_lt {b : UInt8} (h : ¬b < 0x80) (t : Text) :
    ∃ c cs, characters (b :: t) = c :: cs ∧ 128 ≤ c.toNat := by
  rw [characters, decode_cons, attach]
  cases hjoin : join? b (decode t) with
  | none =>
      have hreplaced : 128 ≤ (Char.ofNat 0xFFFD).toNat := by decide
      exact ⟨_, _, rfl, hreplaced⟩
  | some r =>
      obtain ⟨tail, -, hbytes⟩ := join?_eq_some hjoin
      refine ⟨r.1, _, rfl, Nat.le_of_not_lt fun hc => h ?_⟩
      rw [UInt8.lt_iff_toNat_lt, toNat_of_utf8EncodeChar hc hbytes]
      exact hc

end Text

/-! ### Classes of characters as classes of bytes -/

/-- All characters of the class are ASCII, and the test holds of the bytes that are their numbers. -/
structure CharClass.AsBytes (k : CharClass) (p : UInt8 → Bool) : Prop where
  below : ∀ r ∈ k, r.2.toNat < 128
  byte : ∀ b, p b = k.has b.toNat

namespace CharClass.AsBytes

variable {k : CharClass} {p : UInt8 → Bool}

/-- No number from 128 on is in the class. -/
theorem lt_of_has (h : k.AsBytes p) {n : Nat} (hn : k.has n = true) : n < 128 := by
  obtain ⟨r, hr, hin⟩ := List.any_eq_true.1 hn
  exact Nat.lt_of_le_of_lt (of_decide_eq_true hin).2 (h.below r hr)

theorem eq_false_of_not_lt (h : k.AsBytes p) {b : UInt8} (hb : ¬b < 0x80) : p b = false := by
  rw [h.byte, Bool.eq_false_iff]
  intro hhas
  exact hb (UInt8.lt_iff_toNat_lt.2 (h.lt_of_has hhas))

theorem has_char (h : k.AsBytes p) (b : UInt8) : k.has (Char.ofNat b.toNat).toNat = p b := by
  rw [Text.toNat_char, h.byte]

end CharClass.AsBytes

/-- **A text has characters of a class exactly if it has bytes of the class.** -/
theorem Text.all_characters {k : CharClass} {p : UInt8 → Bool} (h : k.AsBytes p) (t : Text) :
    (∀ c ∈ t.characters, k.has c.toNat = true) ↔ t.all p = true := by
  induction t with
  | nil => exact ⟨fun _ => rfl, fun _ c hc => nomatch hc⟩
  | cons b t ih =>
      rw [List.all_cons, Bool.and_eq_true, ← ih]
      by_cases hb : b < 0x80
      · rw [characters_cons_of_lt hb, List.forall_mem_cons, h.has_char]
      · obtain ⟨c, cs, hchars, hc⟩ := characters_cons_of_not_lt hb t
        rw [hchars, List.forall_mem_cons, h.eq_false_of_not_lt hb]
        constructor
        · rintro ⟨hhas, -⟩
          exact absurd (h.lt_of_has hhas) (Nat.not_lt.2 hc)
        · rintro ⟨hfalse, -⟩
          cases hfalse

/-- The pattern of a word is found in a text if all its characters make up the word. -/
theorem Pattern.foundIn_word_iff_characters {k l : CharClass} {t : Text} :
    (word k l).FoundIn t ↔ ∃ c cs, t.characters = c :: cs ∧ k.has c.toNat = true ∧
      ∀ d ∈ cs, l.has d.toNat = true := by
  constructor
  · rintro ⟨before, middle, after, ht, h⟩
    obtain ⟨rfl, rfl, hword⟩ := matches_word_iff.1 h
    rw [List.nil_append, List.append_nil] at ht
    rwa [ht]
  · intro h
    exact ⟨[], t.characters, [], (List.append_nil _).symm, matches_word_iff.2 ⟨rfl, rfl, h⟩⟩

/-- **The pattern of a word is a test on bytes**: on the first, and on all that follow. -/
theorem Pattern.foundIn_word_iff {k l : CharClass} {p q : UInt8 → Bool} (hk : k.AsBytes p)
    (hl : l.AsBytes q) {t : Text} :
    (word k l).FoundIn t ↔ ∃ b s, t = b :: s ∧ p b = true ∧ s.all q = true := by
  rw [foundIn_word_iff_characters]
  cases t with
  | nil =>
      constructor
      · rintro ⟨c, cs, ht, -⟩
        cases ht
      · rintro ⟨b, s, ht, -⟩
        cases ht
  | cons b t =>
      by_cases hb : b < 0x80
      · rw [Text.characters_cons_of_lt hb]
        constructor
        · rintro ⟨c, cs, ⟨rfl, rfl⟩, hc, hcs⟩
          exact ⟨b, t, rfl, (hk.has_char b).symm.trans hc, (Text.all_characters hl t).1 hcs⟩
        · rintro ⟨b, t, ⟨rfl, rfl⟩, hp, ht⟩
          exact ⟨_, _, rfl, (hk.has_char b).trans hp, (Text.all_characters hl t).2 ht⟩
      · -- neither side holds: the first character is no more ASCII than the first byte is
        obtain ⟨c, cs, hchars, hc⟩ := Text.characters_cons_of_not_lt hb t
        rw [hchars]
        constructor
        · rintro ⟨c, cs, ⟨rfl, rfl⟩, hhas, -⟩
          exact absurd (hk.lt_of_has hhas) (Nat.not_lt.2 hc)
        · rintro ⟨b, t, ⟨rfl, rfl⟩, hp, -⟩
          rw [hk.eq_false_of_not_lt hb] at hp
          cases hp

end HackToolchain
