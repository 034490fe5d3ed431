/-
**Trimming texts.**

Texts from outside need not be plain: a file name may hold any bytes.  What trimming does to such a
text rests on two facts about its glyphs: no byte is lost when a text is decoded, and a byte of ASCII
ends whatever stands before it.  So trimming takes away the two ends of a text and leaves what is
between them as it was, and an end that starts with a visible character stays.

Main definitions:

* `Text.trimStart` — a text without the white space before it.

Main results:

* `Text.encode_decode` — **decoding loses nothing**;
* `Text.decode_append` — a text is decoded in two parts if the second starts with a byte of ASCII;
* `Text.trimStart_suffix` — trimming takes away an end of the text;
* `Text.trim_append_of_isPlain` — **a plain end stays**;
* `Text.trim_cons_of_isPlainByte` — a plain byte in front stays.
-/
import HackToolchain.Proofs.Text.Plain

set_option relaxedAutoImplicit false
set_option autoImplicit false

namespace HackToolchain.Text

/-! ### Decoding loses nothing -/

/-- A character of several bytes: its bytes after the first continue it, and its number is made of
their bits. -/
theorem scalar?_eq_some {least lead : Nat} {tail : Text} {c : Char}
    (h : scalar? least lead tail = some c) :
    (∀ b ∈ tail, 128 ≤ b.toNat ∧ b.toNat < 192) ∧ least ≤ c.val.toNat ∧
      c.val.toNat = tail.foldl (fun n b => 64 * n + b.toNat % 64) lead := by
  simp only [scalar?] at h
  split at h
  · next hguard =>
      rw [Bool.and_eq_true, decide_eq_true_eq] at hguard
      obtain ⟨hall, hleast, hvalid⟩ := hguard
      have hval : c.val.toNat = tail.foldl (fun n b => 64 * n + b.toNat % 64) lead := by
        injection h with h
        rw [← h, Char.ofNat, dif_pos hvalid]
        rfl
      refine ⟨?_, hval ▸ hleast, hval⟩
      intro b hb
      have hcontinues := List.all_eq_true.1 hall b hb
      simpa [isContinuation, UInt8.le_iff_toNat_le, UInt8.lt_iff_toNat_lt] using hcontinues
  · cases h

theorem ofNat_eq_of_toNat {n : Nat} {b : UInt8} (h : n = b.toNat) : UInt8.ofNat n = b := by
  rw [h, UInt8.ofNat_toNat]

section bytes

variable {b x y z : UInt8} {c : Char}

theorem utf8EncodeChar_one (h : b.toNat < 128) (hc : c.val.toNat = b.toNat) :
    String.utf8EncodeChar c = [b] := by
  simp only [String.utf8EncodeChar, hc]
  rw [if_pos (by omega), UInt8.ofNat_toNat]

theorem utf8EncodeChar_two (hlo : 192 ≤ b.toNat) (hhi : b.toNat < 224)
    (h : scalar? 0x80 (b.toNat - 0xC0) [x] = some c) : String.utf8EncodeChar c = [b, x] := by
  obtain ⟨htail, hleast, hval⟩ := scalar?_eq_some h
  have hx := htail x (List.mem_cons_self ..)
  simp only [List.foldl_cons, List.foldl_nil] at hval
  simp only [String.utf8EncodeChar]
  rw [if_neg (by omega), if_pos (by omega), ofNat_eq_of_toNat (b := b) (by omega),
    ofNat_eq_of_toNat (b := x) (by omega)]

theorem utf8EncodeChar_three (hlo : 224 ≤ b.toNat) (hhi : b.toNat < 240)
    (h : scalar? 0x800 (b.toNat - 0xE0) [x, y] = some c) :
    String.utf8EncodeChar c = [b, x, y] := by
  obtain ⟨htail, hleast, hval⟩ := scalar?_eq_some h
  have hx := htail x (by simp)
  have hy := htail y (by simp)
  simp only [List.foldl_cons, List.foldl_nil] at hval
  simp only [String.utf8EncodeChar]
  rw [if_neg (by omega), if_neg (by omega), if_pos (by omega), ofNat_eq_of_toNat (b := b) (by omega),
    ofNat_eq_of_toNat (b := x) (by omega), ofNat_eq_of_toNat (b := y) (by omega)]

theorem utf8EncodeChar_four (hlo : 240 ≤ b.toNat) (hhi : b.toNat < 248)
    (h : scalar? 0x10000 (b.toNat - 0xF0) [x, y, z] = some c) :
    String.utf8EncodeChar c = [b, x, y, z] := by
  obtain ⟨htail, hleast, hval⟩ := scalar?_eq_some h
  have hx := htail x (by simp)
  have hy := htail y (by simp)
  have hz := htail z (by simp)
  simp only [List.foldl_cons, List.foldl_nil] at hval
  simp only [String.utf8EncodeChar]
  rw [if_neg (by omega), if_neg (by omega), if_neg (by omega), ofNat_eq_of_toNat (b := b) (by omega),
    ofNat_eq_of_toNat (b := x) (by omega), ofNat_eq_of_toNat (b := y) (by omega),
    ofNat_eq_of_toNat (b := z) (by omega)]

end bytes

theorem eq_of_map_pair {α β : Type} {o : Option α} {r r' : β} {c : α}
    (h : o.map (·, r') = some (c, r)) : o = some c ∧ r' = r := by
  obtain ⟨c', ho, hpair⟩ := Option.map_eq_some_iff.1 h
  injection hpair with hc hr
  exact ⟨hc ▸ ho, hr⟩

/-- **What a byte is joined with**: stray bytes that together with it are the bytes of a character. -/
theorem join?_eq_some {b : UInt8} {rest r : List Glyph} {c : Char} (h : join? b rest = some (c, r)) :
    ∃ tail : Text, rest = tail.map Glyph.stray ++ r ∧ String.utf8EncodeChar c = b :: tail := by
  simp only [join?, UInt8.lt_iff_toNat_lt] at h
  -- the cases are the numbers of bytes that the first byte announces
  split at h
  · next hone =>
      injection h with h
      injection h with hc hr
      have hval : c.val.toNat = b.toNat := by
        rw [← hc]
        exact toNat_char b
      exact ⟨[], hr, utf8EncodeChar_one hone hval⟩
  split at h
  · cases h
  next hlow =>
  split at h
  · next htwo =>
      split at h
      · next x r' =>
          obtain ⟨hc, rfl⟩ := eq_of_map_pair h
          exact ⟨[x], rfl, utf8EncodeChar_two (Nat.le_of_not_lt hlow) htwo hc⟩
      · cases h
  next hlow =>
  split at h
  · next hthree =>
      split at h
      · next x y r' =>
          obtain ⟨hc, rfl⟩ := eq_of_map_pair h
          exact ⟨[x, y], rfl, utf8EncodeChar_three (Nat.le_of_not_lt hlow) hthree hc⟩
      · cases h
  next hlow =>
  split at h
  · next hfour =>
      split at h
      · next x y z r' =>
          obtain ⟨hc, rfl⟩ := eq_of_map_pair h
          exact ⟨[x, y, z], rfl, utf8EncodeChar_four (Nat.le_of_not_lt hlow) hfour hc⟩
      · cases h
  · cases h

theorem encode_stray (t : Text) : encode (t.map Glyph.stray) = t := by
  induction t with
  | nil => rfl
  | cons b t ih => rw [List.map_cons, encode_cons, ih]; rfl

/-- **Decoding loses nothing.** -/
theorem encode_decode (t : Text) : encode (decode t) = t := by
  induction t with
  | nil => rfl
  | cons b t ih =>
      rw [decode_cons, attach]
      cases hjoin : join? b (decode t) with
      | none => rw [encode_cons, ih]; rfl
      | some q =>
          obtain ⟨tail, hrest, hbytes⟩ := join?_eq_some hjoin
          rw [hrest, encode_append, encode_stray] at ih
          rw [encode_cons, Glyph.bytes, hbytes, ← ih]
          rfl

/-! ### Decoding in two parts -/

/-- A byte is joined with stray bytes alone, so a character ends what it can be joined with. -/
theorem join?_append (b : UInt8) (gs : List Glyph) (c : Char) (hs : List Glyph) :
    join? b (gs ++ .char c :: hs) = (join? b gs).map fun q => (q.1, q.2 ++ .char c :: hs) := by
  simp only [join?]
  split
  · rfl
  split
  · rfl
  split
  · rcases gs with _ | ⟨_ | x, gs⟩ <;> simp [Option.map_map, Function.comp_def]
  split
  · rcases gs with _ | ⟨_ | x, _ | ⟨_ | y, gs⟩⟩ <;> simp [Option.map_map, Function.comp_def]
  split
  · rcases gs with _ | ⟨_ | x, _ | ⟨_ | y, _ | ⟨_ | z, gs⟩⟩⟩ <;>
      simp [Option.map_map, Function.comp_def]
  · rfl

theorem attach_append (b : UInt8) (gs : List Glyph) (c : Char) (hs : List Glyph) :
    attach b (gs ++ .char c :: hs) = attach b gs ++ .char c :: hs := by
  rw [attach, attach, join?_append]
  cases join? b gs <;> rfl

/-- A text is decoded in two parts if the second starts with a character. -/
theorem decode_append_of_char (s : Text) {t : Text} {c : Char} {hs : List Glyph}
    (h : decode t = .char c :: hs) : decode (s ++ t) = decode s ++ decode t := by
  induction s with
  | nil => rfl
  | cons a s ih =>
      rw [List.cons_append, decode_cons, ih, h, attach_append, ← decode_cons]

/-- A text is decoded in two parts if the second starts with a byte of ASCII. -/
theorem decode_append (s t : Text) {b : UInt8} (h : b < 0x80) :
    decode (s ++ b :: t) = decode s ++ decode (b :: t) :=
  decode_append_of_char s ((decode_cons b t).trans (attach_ascii _ h))

/-! ### Trimming -/

/-- The text without the white space before it. -/
def trimStart (t : Text) : Text := encode ((decode t).dropWhile (Glyph.satisfies isBlank))

/-- Trimming the start takes away an end of the text. -/
theorem trimStart_suffix (t : Text) : trimStart t <:+ t := by
  refine ⟨encode ((decode t).takeWhile (Glyph.satisfies isBlank)), ?_⟩
  rw [trimStart, ← encode_append, List.takeWhile_append_dropWhile, encode_decode]

/-- What is dropped from the front of a list ends before an element that fails the test. -/
theorem dropWhile_append_cons {α : Type} {p : α → Bool} {x : α} (l m : List α) (h : p x = false) :
    (l ++ x :: m).dropWhile p = l.dropWhile p ++ x :: m := by
  induction l with
  | nil => rw [List.nil_append, List.dropWhile_cons, h]; rfl
  | cons a l ih =>
      rw [List.cons_append, List.dropWhile_cons, List.dropWhile_cons]
      split
      · exact ih
      · rfl

theorem decode_cons_of_isPlainByte {b : UInt8} (h : isPlainByte b = true) (t : Text) :
    decode (b :: t) = .char (Char.ofNat b.toNat) :: decode t := by
  rw [decode_cons, attach_ascii _ (lt_of_isPlainByte h)]

/-- A plain byte in front stays. -/
theorem trimStart_cons_of_isPlainByte {b : UInt8} (h : isPlainByte b = true) (t : Text) :
    trimStart (b :: t) = b :: t := by
  have hblank : Glyph.satisfies isBlank (.char (Char.ofNat b.toNat)) = false :=
    isBlank_of_isPlainByte h
  rw [trimStart, decode_cons_of_isPlainByte h, List.dropWhile_cons, hblank,
    if_neg Bool.false_ne_true, ← decode_cons_of_isPlainByte h, encode_decode]

/-- A plain byte in front stays when both ends are trimmed. -/
theorem trim_cons_of_isPlainByte {b : UInt8} (h : isPlainByte b = true) (t : Text) :
    ∃ s, trim (b :: t) = b :: s := by
  have hblank : Glyph.satisfies isBlank (.char (Char.ofNat b.toNat)) = false :=
    isBlank_of_isPlainByte h
  refine ⟨encode ((decode t).reverse.dropWhile (Glyph.satisfies isBlank)).reverse, ?_⟩
  rw [trim, decode_cons_of_isPlainByte h, List.dropWhile_cons, hblank, if_neg Bool.false_ne_true,
    List.reverse_cons, dropWhile_append_cons _ _ hblank, List.reverse_append, List.reverse_singleton,
    List.singleton_append, encode_cons, bytes_of_isPlainByte h, List.singleton_append]

/-- **A plain end stays.** -/
theorem trim_append_of_isPlain (s : Text) {b : UInt8} {t : Text} (h : IsPlain (b :: t)) :
    trim (s ++ b :: t) = trimStart s ++ b :: t := by
  obtain ⟨hb, ht⟩ := h.of_cons
  have hblank : ∀ g ∈ decode (b :: t), Glyph.satisfies isBlank g = false := by
    intro g hg
    rw [decode_of_isPlain h] at hg
    obtain ⟨c, hc, rfl⟩ := List.mem_map.1 hg
    exact isBlank_of_isPlainByte (h c hc)
  have hstart : (decode (s ++ b :: t)).dropWhile (Glyph.satisfies isBlank)
      = (decode s).dropWhile (Glyph.satisfies isBlank) ++ decode (b :: t) := by
    rw [decode_append s t (lt_of_isPlainByte hb), decode_cons_of_isPlainByte hb]
    exact dropWhile_append_cons _ _ (isBlank_of_isPlainByte hb)
  have hend : ∀ gs, ((gs ++ decode (b :: t)).reverse.dropWhile (Glyph.satisfies isBlank)).reverse
      = gs ++ decode (b :: t) := by
    intro gs
    have hkept : (decode (b :: t)).reverse.dropWhile (Glyph.satisfies isBlank)
        = (decode (b :: t)).reverse :=
      dropWhile_of_forall fun g hg => hblank g (List.mem_reverse.1 hg)
    rw [List.reverse_append, List.dropWhile_append, hkept,
      if_neg (by simp [decode_cons_of_isPlainByte hb]), ← List.reverse_append, List.reverse_reverse]
  rw [trim, hstart, hend, encode_append, encode_decode, trimStart]

end HackToolchain.Text
