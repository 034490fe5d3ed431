/-
**White space, told from the bytes.**

Trimming and cutting into tokens work on glyphs.  What they do can be said of the bytes alone: trimming
takes away the bytes of white space characters at the two ends of a text, and what is left neither
starts nor ends with the bytes of such a character.

This rests on reading glyphs back.  The bytes of a character are read as this character, whatever
stands before and after them.  A stray byte is read as such a byte again if nothing that follows it
completes a character, and taking glyphs away at the two ends of a text completes none.

Main definitions:

* `Text.Settled` — glyphs that are read back;
* `Text.IsWhite` — the bytes of white space characters;
* `Text.TrimsTo` — **what trimming does**, said of the bytes.

Main results:

* `Text.decode_char_append` — **the bytes of a character are read as this character**;
* `Text.Settled.decode_encode`, `Text.settled_decode` — settled glyphs are read back, and the glyphs of
  a text are settled;
* `Text.trim_eq_iff` — **trimming a text gives what is left without the white space around it**;
* `Text.trim_append_of_isWhite` — white space at the end makes no difference;
* `Text.tokens_append_space` — a word in front of a space is a token.
-/
import HackToolchain.Proofs.Text.Trimming

set_option relaxedAutoImplicit false
set_option autoImplicit false

namespace HackToolchain.Text

/-! ### Characters are read back -/

/-- A byte of six bits after the mark of a continuation byte. -/
theorem continuation_ofNat (n : Nat) :
    isContinuation (UInt8.ofNat (n % 64 + 128)) = true ∧
      (UInt8.ofNat (n % 64 + 128)).toNat % 64 = n % 64 := by
  have htoNat : (UInt8.ofNat (n % 64 + 128)).toNat = n % 64 + 128 :=
    UInt8.toNat_ofNat_of_lt (show n % 64 + 128 < 256 by omega)
  constructor
  · rw [isContinuation, Bool.and_eq_true, decide_eq_true_eq, decide_eq_true_eq,
      UInt8.le_iff_toNat_le, UInt8.lt_iff_toNat_lt, htoNat]
    exact ⟨show 128 ≤ n % 64 + 128 by omega, show n % 64 + 128 < 192 by omega⟩
  · rw [htoNat]
    omega

/-- A continuation byte starts no character. -/
theorem attach_of_isContinuation {b : UInt8} (h : isContinuation b = true) (rest : List Glyph) :
    attach b rest = .stray b :: rest := by
  simp only [isContinuation, Bool.and_eq_true, decide_eq_true_eq] at h
  have hnone : join? b rest = none := by
    simp only [join?]
    rw [if_neg (UInt8.not_lt.2 h.1), if_pos h.2]
  rw [attach, hnone]

/-- Continuation bytes are stray until a byte in front of them takes them up. -/
theorem decode_continuations {tail : Text} (h : tail.all isContinuation = true) (t : Text) :
    decode (tail ++ t) = tail.map Glyph.stray ++ decode t := by
  induction tail with
  | nil => rfl
  | cons b tail ih =>
      rw [List.all_cons, Bool.and_eq_true] at h
      rw [List.cons_append, decode_cons, ih h.2, attach_of_isContinuation h.1]
      rfl

/-- A character is found again from its bits. -/
theorem scalar?_of_foldl {least lead : Nat} {tail : Text} {c : Char}
    (htail : tail.all isContinuation = true) (hleast : least ≤ c.val.toNat)
    (hval : tail.foldl (fun n b => 64 * n + b.toNat % 64) lead = c.val.toNat) :
    scalar? least lead tail = some c := by
  have hvalid : c.val.toNat.isValidChar := c.valid
  simp only [scalar?, htail, hval, hleast, hvalid, and_self, decide_true, Bool.and_self, if_true]
  exact congrArg some (Char.ofNat_toNat c)

section lead

variable {b x y z : UInt8}

theorem join?_two (hlo : 192 ≤ b.toNat) (hhi : b.toNat < 224) (r : List Glyph) :
    join? b (.stray x :: r) = (scalar? 0x80 (b.toNat - 0xC0) [x]).map (·, r) := by
  have hrange : ¬b < 0x80 ∧ ¬b < 0xC0 ∧ b < 0xE0 := by
    simp only [UInt8.lt_iff_toNat_lt]
    exact ⟨show ¬b.toNat < 128 by omega, show ¬b.toNat < 192 by omega, hhi⟩
  simp only [join?, hrange, if_false, if_true]

theorem join?_three (hlo : 224 ≤ b.toNat) (hhi : b.toNat < 240) (r : List Glyph) :
    join? b (.stray x :: .stray y :: r)
      = (scalar? 0x800 (b.toNat - 0xE0) [x, y]).map (·, r) := by
  have hrange : ¬b < 0x80 ∧ ¬b < 0xC0 ∧ ¬b < 0xE0 ∧ b < 0xF0 := by
    simp only [UInt8.lt_iff_toNat_lt]
    exact ⟨show ¬b.toNat < 128 by omega, show ¬b.toNat < 192 by omega,
      show ¬b.toNat < 224 by omega, hhi⟩
  simp only [join?, hrange, if_false, if_true]

theorem join?_four (hlo : 240 ≤ b.toNat) (hhi : b.toNat < 248) (r : List Glyph) :
    join? b (.stray x :: .stray y :: .stray z :: r)
      = (scalar? 0x10000 (b.toNat - 0xF0) [x, y, z]).map (·, r) := by
  have hrange : ¬b < 0x80 ∧ ¬b < 0xC0 ∧ ¬b < 0xE0 ∧ ¬b < 0xF0 ∧ b < 0xF8 := by
    simp only [UInt8.lt_iff_toNat_lt]
    exact ⟨show ¬b.toNat < 128 by omega, show ¬b.toNat < 192 by omega,
      show ¬b.toNat < 224 by omega, show ¬b.toNat < 240 by omega, hhi⟩
  simp only [join?, hrange, if_false, if_true]

end lead

/-- The first byte of a character takes up the others, which all continue it. -/
theorem exists_lead (c : Char) : ∃ b tail, String.utf8EncodeChar c = b :: tail ∧
    tail.all isContinuation = true ∧ ∀ r, join? b (tail.map Glyph.stray ++ r) = some (c, r) := by
  have hvalid : c.val.toNat < 1114112 := by
    rcases (c.valid : c.val.toNat.isValidChar) with h | h <;> omega
  have hbyte : ∀ n : Nat, n < 256 → (UInt8.ofNat n).toNat = n := fun n h =>
    UInt8.toNat_ofNat_of_lt h
  obtain ⟨hx, hxval⟩ := continuation_ofNat c.val.toNat
  obtain ⟨hy, hyval⟩ := continuation_ofNat (c.val.toNat / 64)
  obtain ⟨hz, hzval⟩ := continuation_ofNat (c.val.toNat / 4096)
  simp only [String.utf8EncodeChar]
  -- the cases are the numbers of bytes
  split
  · next hone =>
      have hb := hbyte c.val.toNat (by omega)
      have hascii : UInt8.ofNat c.val.toNat < 0x80 := by
        rw [UInt8.lt_iff_toNat_lt, hb]
        exact Nat.lt_succ_of_le hone
      refine ⟨_, [], rfl, rfl, fun r => ?_⟩
      simp only [join?, if_pos hascii, hb]
      exact congrArg (fun c => some (c, r)) (Char.ofNat_toNat c)
  split
  · next hone htwo =>
      have hb := hbyte (c.val.toNat / 64 % 32 + 192) (by omega)
      have htail : List.all [UInt8.ofNat (c.val.toNat % 64 + 128)] isContinuation = true := by
        simp only [List.all_cons, List.all_nil, hx, Bool.and_self]
      refine ⟨_, _, rfl, htail, fun r => ?_⟩
      rw [List.map_singleton, List.singleton_append, join?_two (by omega) (by omega),
        scalar?_of_foldl (c := c) htail (by omega)
          (by simp only [List.foldl_cons, List.foldl_nil, hxval]; omega)]
      rfl
  split
  · next htwo hthree =>
      have hb := hbyte (c.val.toNat / 4096 % 16 + 224) (by omega)
      have htail : List.all [UInt8.ofNat (c.val.toNat / 64 % 64 + 128),
          UInt8.ofNat (c.val.toNat % 64 + 128)] isContinuation = true := by
        simp only [List.all_cons, List.all_nil, hx, hy, Bool.and_self]
      refine ⟨_, _, rfl, htail, fun r => ?_⟩
      rw [List.map_cons, List.map_singleton, List.cons_append, List.singleton_append,
        join?_three (by omega) (by omega), scalar?_of_foldl (c := c) htail (by omega)
          (by simp only [List.foldl_cons, List.foldl_nil, hxval, hyval]; omega)]
      rfl
  · next hthree =>
      have hb := hbyte (c.val.toNat / 262144 % 8 + 240) (by omega)
      have htail : List.all [UInt8.ofNat (c.val.toNat / 4096 % 64 + 128),
          UInt8.ofNat (c.val.toNat / 64 % 64 + 128), UInt8.ofNat (c.val.toNat % 64 + 128)]
          isContinuation = true := by
        simp only [List.all_cons, List.all_nil, hx, hy, hz, Bool.and_self]
      refine ⟨_, _, rfl, htail, fun r => ?_⟩
      rw [List.map_cons, List.map_cons, List.map_singleton, List.cons_append, List.cons_append,
        List.singleton_append, join?_four (by omega) (by omega),
        scalar?_of_foldl (c := c) htail (by omega)
          (by simp only [List.foldl_cons, List.foldl_nil, hxval, hyval, hzval]; omega)]
      rfl

/-- **The bytes of a character are read as this character**, whatever follows. -/
theorem decode_char_append (c : Char) (t : Text) :
    decode (String.utf8EncodeChar c ++ t) = .char c :: decode t := by
  obtain ⟨b, tail, hbytes, htail, hjoin⟩ := exists_lead c
  rw [hbytes, List.cons_append, decode_cons, decode_continuations htail, attach, hjoin]

/-- A character ends what stands before it. -/
theorem decode_append_char (t : Text) (c : Char) :
    decode (t ++ String.utf8EncodeChar c) = decode t ++ [.char c] := by
  have hchar : decode (String.utf8EncodeChar c) = [.char c] := by
    have h := decode_char_append c []
    rwa [List.append_nil] at h
  rw [decode_append_of_char t hchar, hchar]

/-! ### Glyphs are read back -/

/-- What a byte is joined with stays when more glyphs follow. -/
theorem join?_append_cases (b : UInt8) (gs hs : List Glyph) :
    join? b gs = none ∨ join? b (gs ++ hs) = (join? b gs).map fun q => (q.1, q.2 ++ hs) := by
  simp only [join?]
  split
  · exact Or.inr rfl
  split
  · exact Or.inl rfl
  split
  · rcases gs with _ | ⟨_ | x, gs⟩ <;> simp [Option.map_map, Function.comp_def]
  split
  · rcases gs with _ | ⟨_ | x, _ | ⟨_ | y, gs⟩⟩ <;> simp [Option.map_map, Function.comp_def]
  split
  · rcases gs with _ | ⟨_ | x, _ | ⟨_ | y, _ | ⟨_ | z, gs⟩⟩⟩ <;>
      simp [Option.map_map, Function.comp_def]
  · exact Or.inl rfl

/-- No stray byte of the glyphs completes a character with those that follow it. -/
def Settled : List Glyph → Prop
  | [] => True
  | .char _ :: gs => Settled gs
  | .stray b :: gs => join? b gs = none ∧ Settled gs

theorem Settled.of_append_right {gs hs : List Glyph} (h : Settled (gs ++ hs)) : Settled hs := by
  induction gs with
  | nil => exact h
  | cons g gs ih =>
      cases g with
      | char c => exact ih h
      | stray b => exact ih h.2

/-- What completes no character completes none either when less follows. -/
theorem Settled.of_append_left {gs hs : List Glyph} (h : Settled (gs ++ hs)) : Settled gs := by
  induction gs with
  | nil => trivial
  | cons g gs ih =>
      cases g with
      | char c => exact ih h
      | stray b =>
          refine ⟨?_, ih h.2⟩
          rcases join?_append_cases b gs hs with hnone | hmap
          · exact hnone
          · exact Option.map_eq_none_iff.1 (hmap.symm.trans h.1)

/-- **The glyphs of a text are settled.** -/
theorem settled_decode (t : Text) : Settled (decode t) := by
  induction t with
  | nil => trivial
  | cons b t ih =>
      rw [decode_cons, attach]
      cases hjoin : join? b (decode t) with
      | none => exact ⟨hjoin, ih⟩
      | some q =>
          obtain ⟨tail, hrest, -⟩ := join?_eq_some hjoin
          rw [hrest] at ih
          exact ih.of_append_right

/-- **Settled glyphs are read back.** -/
theorem Settled.decode_encode {gs : List Glyph} (h : Settled gs) : decode (encode gs) = gs := by
  induction gs with
  | nil => rfl
  | cons g gs ih =>
      cases g with
      | char c => rw [encode_cons, Glyph.bytes, decode_char_append, ih h]
      | stray b =>
          rw [encode_cons, Glyph.bytes, List.singleton_append, decode_cons, ih h.2, attach, h.1]

/-! ### White space -/

/-- The bytes of characters that all count as white space. -/
def IsWhite (t : Text) : Prop :=
  ∃ cs : List Char, (∀ c ∈ cs, isBlank c = true) ∧ t = cs.flatMap String.utf8EncodeChar

theorem isWhite_nil : IsWhite [] := ⟨[], List.forall_mem_nil _, rfl⟩

theorem IsWhite.append {s t : Text} (hs : IsWhite s) (ht : IsWhite t) : IsWhite (s ++ t) := by
  obtain ⟨cs, hcs, rfl⟩ := hs
  obtain ⟨ds, hds, rfl⟩ := ht
  refine ⟨cs ++ ds, ?_, List.flatMap_append.symm⟩
  intro c hc
  rcases List.mem_append.1 hc with hc | hc
  · exact hcs c hc
  · exact hds c hc

/-- Blank glyphs have the bytes of white space. -/
theorem isWhite_encode {gs : List Glyph} (h : ∀ g ∈ gs, g.satisfies isBlank = true) :
    IsWhite (encode gs) := by
  induction gs with
  | nil => exact isWhite_nil
  | cons g gs ih =>
      rw [List.forall_mem_cons] at h
      cases g with
      | stray b => cases h.1
      | char c =>
          have hchar : IsWhite (String.utf8EncodeChar c) :=
            ⟨[c], List.forall_mem_singleton.2 h.1, (List.flatMap_singleton ..).symm⟩
          exact hchar.append (ih h.2)

/-- White space at the start of a text is read as blank glyphs. -/
theorem IsWhite.decode_append {s : Text} (hs : IsWhite s) (t : Text) :
    ∃ gs, (∀ g ∈ gs, g.satisfies isBlank = true) ∧ decode (s ++ t) = gs ++ decode t := by
  obtain ⟨cs, hcs, rfl⟩ := hs
  refine ⟨cs.map .char, ?_, ?_⟩
  · intro g hg
    obtain ⟨c, hc, rfl⟩ := List.mem_map.1 hg
    exact hcs c hc
  · clear hcs
    induction cs with
    | nil => rfl
    | cons c cs ih =>
        rw [List.flatMap_cons, List.append_assoc, decode_char_append, ih, List.map_cons]
        rfl

/-- White space at the end of a text is read as blank glyphs. -/
theorem IsWhite.append_decode {s : Text} (hs : IsWhite s) (t : Text) :
    ∃ gs, (∀ g ∈ gs, g.satisfies isBlank = true) ∧ decode (t ++ s) = decode t ++ gs := by
  obtain ⟨gs, hgs, hdecode⟩ := hs.decode_append []
  rw [List.append_nil, decode_nil, List.append_nil] at hdecode
  refine ⟨gs, hgs, ?_⟩
  cases gs with
  | nil =>
      have hempty : s = [] := by rw [← encode_decode s, hdecode]; rfl
      rw [hempty, List.append_nil, List.append_nil]
  | cons g gs =>
      cases g with
      | stray b => cases hgs _ (List.mem_cons_self ..)
      | char c => rw [decode_append_of_char t hdecode, hdecode]

/-! ### Trimming -/

/-- **What trimming does**: white space is taken away at the two ends, and what is left neither starts
nor ends with a white space character. -/
structure TrimsTo (s t : Text) : Prop where
  around : ∃ l r, IsWhite l ∧ IsWhite r ∧ s = l ++ t ++ r
  start : ∀ c, isBlank c = true → ¬String.utf8EncodeChar c <+: t
  stop : ∀ c, isBlank c = true → ¬String.utf8EncodeChar c <:+ t

section Ends

variable {α : Type} {p : α → Bool} {l m r : List α}

/-- What satisfies a test is dropped up to the first element that does not. -/
theorem dropWhile_append_eq (hl : ∀ a ∈ l, p a = true) (hm : ∀ a, m.head? = some a → p a = false) :
    (l ++ m).dropWhile p = m := by
  rw [List.dropWhile_append_of_pos hl]
  cases m with
  | nil => rfl
  | cons a m => rw [List.dropWhile_cons, hm a rfl]; rfl

/-- A list of which what satisfies a test is dropped at both ends. -/
theorem dropWhile_both (hl : ∀ a ∈ l, p a = true) (hr : ∀ a ∈ r, p a = true)
    (hhead : ∀ a, m.head? = some a → p a = false)
    (hlast : ∀ a, m.getLast? = some a → p a = false) :
    (((l ++ m ++ r).dropWhile p).reverse.dropWhile p).reverse = m := by
  have hr' : ∀ a ∈ r.reverse, p a = true := by
    intro a ha
    exact hr a (List.mem_reverse.1 ha)
  have hfront : (l ++ m ++ r).dropWhile p = if m = [] then [] else m ++ r := by
    cases m with
    | nil =>
        have hall : ∀ a ∈ l ++ r, p a = true := by
          intro a ha
          exact (List.mem_append.1 ha).elim (hl a) (hr a)
        rw [List.append_nil, if_pos rfl, ← List.append_nil (l ++ r)]
        exact dropWhile_append_eq hall nofun
    | cons a m =>
        rw [List.append_assoc, if_neg (List.cons_ne_nil a m)]
        exact dropWhile_append_eq hl hhead
  rw [hfront]
  split
  · next hm => rw [hm]; rfl
  · rw [List.reverse_append, dropWhile_append_eq hr', List.reverse_reverse]
    intro a ha
    rw [List.head?_reverse] at ha
    exact hlast a ha

/-- What is left begins with an element that fails the test. -/
theorem eq_false_of_head?_dropWhile {a : α} (h : (l.dropWhile p).head? = some a) : p a = false := by
  have hnot := List.head?_dropWhile_not p l
  rw [h] at hnot
  exact hnot

/-- Dropping at both ends leaves the middle of a list. -/
theorem exists_dropWhile_both (p : α → Bool) (l : List α) :
    ∃ before after, l = before ++ ((l.dropWhile p).reverse.dropWhile p).reverse ++ after ∧
      (∀ a ∈ before, p a = true) ∧ (∀ a ∈ after, p a = true) ∧
      (∀ a, ((l.dropWhile p).reverse.dropWhile p).reverse.head? = some a → p a = false) ∧
      ∀ a, ((l.dropWhile p).reverse.dropWhile p).reverse.getLast? = some a → p a = false := by
  have hinner : l.dropWhile p = ((l.dropWhile p).reverse.dropWhile p).reverse
      ++ ((l.dropWhile p).reverse.takeWhile p).reverse := by
    rw [← List.reverse_append, List.takeWhile_append_dropWhile, List.reverse_reverse]
  refine ⟨l.takeWhile p, ((l.dropWhile p).reverse.takeWhile p).reverse, ?_, ?_, ?_, ?_, ?_⟩
  · rw [List.append_assoc, ← hinner, List.takeWhile_append_dropWhile]
  · intro a ha
    exact List.all_eq_true.1 List.all_takeWhile a ha
  · intro a ha
    exact List.all_eq_true.1 List.all_takeWhile a (List.mem_reverse.1 ha)
  · intro a ha
    refine eq_false_of_head?_dropWhile (l := l) ?_
    rw [hinner, List.head?_append, ha]
    rfl
  · intro a ha
    rw [List.getLast?_reverse] at ha
    exact eq_false_of_head?_dropWhile ha

end Ends

/-- The glyphs of a trimmed text. -/
theorem decode_trim (s : Text) : decode (trim s) = (((decode s).dropWhile
    (Glyph.satisfies isBlank)).reverse.dropWhile (Glyph.satisfies isBlank)).reverse := by
  obtain ⟨before, after, hsplit, -⟩ := exists_dropWhile_both (Glyph.satisfies isBlank) (decode s)
  have hsettled := settled_decode s
  rw [hsplit] at hsettled
  exact hsettled.of_append_left.of_append_right.decode_encode

/-- **Trimming takes white space away at the two ends, and leaves none there.** -/
theorem trimsTo_trim (s : Text) : TrimsTo s (trim s) := by
  obtain ⟨before, after, hsplit, hbefore, hafter, hhead, hlast⟩ :=
    exists_dropWhile_both (Glyph.satisfies isBlank) (decode s)
  rw [← decode_trim] at hsplit hhead hlast
  refine ⟨⟨encode before, encode after, isWhite_encode hbefore, isWhite_encode hafter, ?_⟩, ?_, ?_⟩
  · conv => lhs; rw [← encode_decode s, hsplit, encode_append, encode_append, encode_decode]
  · rintro c hc ⟨t, ht⟩
    have hfirst : (decode (trim s)).head? = some (.char c) := by
      rw [← ht, decode_char_append]
      rfl
    exact absurd (hc.symm.trans (hhead _ hfirst)) nofun
  · rintro c hc ⟨t, ht⟩
    have hfinal : (decode (trim s)).getLast? = some (.char c) := by
      rw [← ht, decode_append_char]
      exact List.getLast?_concat ..
    exact absurd (hc.symm.trans (hlast _ hfinal)) nofun

/-- A glyph at the start of a text that is blank is a white space character there. -/
theorem TrimsTo.head?_decode {s t : Text} (h : TrimsTo s t) (g : Glyph)
    (hg : (decode t).head? = some g) : g.satisfies isBlank = false := by
  rw [← Bool.not_eq_true]
  intro hblank
  obtain ⟨gs, hgs⟩ := List.head?_eq_some_iff.1 hg
  cases g with
  | stray b => cases hblank
  | char c =>
      refine h.start c hblank ⟨encode gs, ?_⟩
      rw [← encode_decode t, hgs]
      rfl

/-- A glyph at the end of a text that is blank is a white space character there. -/
theorem TrimsTo.getLast?_decode {s t : Text} (h : TrimsTo s t) (g : Glyph)
    (hg : (decode t).getLast? = some g) : g.satisfies isBlank = false := by
  rw [← Bool.not_eq_true]
  intro hblank
  obtain ⟨gs, hgs⟩ := List.getLast?_eq_some_iff.1 hg
  cases g with
  | stray b => cases hblank
  | char c =>
      refine h.stop c hblank ⟨encode gs, ?_⟩
      rw [← encode_decode t, hgs, encode_append, encode_cons, encode_nil, List.append_nil]
      rfl

/-- Nothing else is left when white space is taken away. -/
theorem TrimsTo.trim_eq {s t : Text} (h : TrimsTo s t) : trim s = t := by
  obtain ⟨l, r, hl, hr, hs⟩ := h.around
  obtain ⟨gs, hgs, hleft⟩ := hl.decode_append (t ++ r)
  obtain ⟨hs', hhs, hright⟩ := hr.append_decode t
  have hdecode : decode s = gs ++ decode t ++ hs' := by
    rw [hs, List.append_assoc, hleft, hright, List.append_assoc]
  have hboth := dropWhile_both hgs hhs h.head?_decode h.getLast?_decode
  rw [trim, hdecode, hboth, encode_decode]

/-- **Trimming a text gives what is left of it without the white space around it.** -/
theorem trim_eq_iff {s t : Text} : trim s = t ↔ TrimsTo s t := by
  constructor
  · rintro rfl
    exact trimsTo_trim s
  · exact TrimsTo.trim_eq

/-- Trimming leaves a part of the text. -/
theorem trim_infix_self (s : Text) : trim s <:+: s := by
  obtain ⟨l, r, -, -, hs⟩ := (trimsTo_trim s).around
  exact ⟨l, r, hs.symm⟩

/-- Trimming twice is trimming once. -/
theorem trim_trim (s : Text) : trim (trim s) = trim s := by
  obtain ⟨-, hstart, hstop⟩ := trimsTo_trim s
  exact TrimsTo.trim_eq ⟨⟨[], [], isWhite_nil, isWhite_nil, by simp⟩, hstart, hstop⟩

/-- **White space at the end makes no difference.** -/
theorem trim_append_of_isWhite (s : Text) {w : Text} (hw : IsWhite w) : trim (s ++ w) = trim s := by
  obtain ⟨⟨l, r, hl, hr, hs⟩, hstart, hstop⟩ := trimsTo_trim s
  refine TrimsTo.trim_eq ⟨⟨l, r ++ w, hl, hr.append hw, ?_⟩, hstart, hstop⟩
  conv => lhs; rw [hs]
  rw [List.append_assoc]

/-! ### Tokens -/

theorem pieces_decode_of_isPlain {w : Text} (h : IsPlain w) :
    pieces (Glyph.satisfies isBlank) (decode w) = [decode w] := by
  refine pieces_of_forall ?_
  intro g hg
  rw [decode_of_isPlain h] at hg
  obtain ⟨b, hb, rfl⟩ := List.mem_map.1 hg
  exact isBlank_of_isPlainByte (h b hb)

theorem isEmpty_decode_of_isPlain {w : Text} (h : IsPlain w) (hne : w ≠ []) :
    (decode w).isEmpty = false := by
  rw [decode_of_isPlain h, List.isEmpty_map]
  exact List.isEmpty_eq_false_iff.2 hne

/-- A word is its only token. -/
theorem tokens_of_isPlain {w : Text} (h : IsPlain w) (hne : w ≠ []) : tokens w = [w] := by
  rw [tokens, pieces_decode_of_isPlain h]
  simp [isEmpty_decode_of_isPlain h hne, encode_decode]

/-- **A word in front of a space is a token.** -/
theorem tokens_append_space {w : Text} (h : IsPlain w) (hne : w ≠ []) (t : Text) :
    tokens (w ++ 32 :: t) = w :: tokens t := by
  have hspace : decode (32 :: t) = .char ' ' :: decode t := by
    rw [decode_cons, attach_ascii _ (by decide)]
    rfl
  rw [tokens, decode_append w t (by decide), hspace, pieces_append_cons _ _ (by decide),
    pieces_decode_of_isPlain h, List.singleton_append,
    List.filter_cons_of_pos (by rw [isEmpty_decode_of_isPlain h hne]; rfl), List.map_cons,
    encode_decode]
  rfl

end HackToolchain.Text
