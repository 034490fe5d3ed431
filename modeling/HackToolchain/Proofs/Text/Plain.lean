/-
**Plain texts.**

A text is *plain* if all its bytes are visible ASCII characters other than the slash.  Nothing that
is done to a line before it is read changes a plain text: it holds no line feed to be cut at, no
comment to be dropped, and no white space to be trimmed.  Names and numerals are plain, so written
assembly whose names are well formed is read exactly as it was written.

Main definitions:

* `Text.isPlainByte`, `Text.IsPlain` — plain bytes and plain texts.

Main results:

* `Text.trim_of_isPlain`, `Text.code_of_isPlain`, `Item.layOut_of_isPlain` — trimming, dropping the
  comment and laying out leave a plain text alone;
* `Text.isPlain_of_isName`, `Text.isName_of_isSymbol` — names are plain, and symbols are names;
* `Numeral.readNat?_ofNat` — **a numeral is read back**.
-/
import HackToolchain.Assembly.Item
import HackToolchain.Assembly.Statement

set_option relaxedAutoImplicit false
set_option autoImplicit false

namespace HackToolchain

/-! ### Signs of assembly -/

theorem ascii_at : ascii "@" = [64] := by decide

theorem ascii_open : ascii "(" = [40] := by decide

theorem ascii_dot : ascii "." = [46] := by decide

theorem ascii_dollar : ascii "$" = [36] := by decide

theorem ascii_remark : ascii "// " = [47, 47, 32] := by decide

namespace Text

/-! ### Plain bytes and plain texts -/

/-- A visible ASCII character other than the slash. -/
def isPlainByte (b : UInt8) : Bool := 33 ≤ b && b ≤ 126 && b != 47

theorem isPlainByte_iff {b : UInt8} :
    isPlainByte b = true ↔ 33 ≤ b.toNat ∧ b.toNat ≤ 126 ∧ b.toNat ≠ 47 := by
  simp [isPlainByte, UInt8.le_iff_toNat_le, ← UInt8.toNat_inj, and_assoc]

/-- All bytes are plain. -/
def IsPlain (t : Text) : Prop := ∀ b ∈ t, isPlainByte b = true

instance (t : Text) : Decidable (IsPlain t) := List.decidableBAll _ t

theorem IsPlain.append {s t : Text} (hs : IsPlain s) (ht : IsPlain t) : IsPlain (s ++ t) := by
  intro b hb
  rcases List.mem_append.1 hb with hb | hb
  · exact hs b hb
  · exact ht b hb

theorem IsPlain.of_cons {b : UInt8} {t : Text} (h : IsPlain (b :: t)) :
    isPlainByte b = true ∧ IsPlain t :=
  ⟨h b (List.mem_cons_self ..), fun c hc => h c (List.mem_cons_of_mem _ hc)⟩

theorem isPlain_of_all {p : UInt8 → Bool} {t : Text} (hp : ∀ b, p b = true → isPlainByte b = true)
    (h : t.all p = true) : IsPlain t := by
  intro b hb
  exact hp b (List.all_eq_true.1 h b hb)

theorem lt_of_isPlainByte {b : UInt8} (h : isPlainByte b = true) : b < 0x80 := by
  have hb := isPlainByte_iff.1 h
  rw [UInt8.lt_iff_toNat_lt]
  exact Nat.lt_of_le_of_lt hb.2.1 (by decide)

/-- The character of a byte has the same number. -/
theorem toNat_char (b : UInt8) : (Char.ofNat b.toNat).toNat = b.toNat := by
  have hvalid : b.toNat.isValidChar := Or.inl (Nat.lt_trans b.toNat_lt (by decide))
  rw [Char.ofNat, dif_pos hvalid]
  rfl

theorem isBlank_of_isPlainByte {b : UInt8} (h : isPlainByte b = true) :
    isBlank (Char.ofNat b.toNat) = false := by
  have hb := isPlainByte_iff.1 h
  simp only [isBlank, toNat_char, blankRanges, List.any_cons, List.any_nil,
    Bool.or_eq_false_iff, decide_eq_false_iff_not, and_true]
  omega

theorem bytes_of_isPlainByte {b : UInt8} (h : isPlainByte b = true) :
    (Glyph.char (Char.ofNat b.toNat)).bytes = [b] := by
  have hb := isPlainByte_iff.1 h
  have hc : (Char.ofNat b.toNat).val.toNat = b.toNat := toNat_char b
  simp only [Glyph.bytes, String.utf8EncodeChar, hc]
  rw [if_pos (by omega), UInt8.ofNat_toNat]

theorem ne_of_isPlainByte {b c : UInt8} (hb : isPlainByte b = true) (hc : isPlainByte c = false) :
    b ≠ c := by
  rintro rfl
  rw [hb] at hc
  cases hc

/-! ### What is done to a line before it is read -/

/-- The glyphs of a plain text are its bytes, one by one. -/
theorem decode_of_isPlain {t : Text} (h : IsPlain t) :
    decode t = t.map fun b => Glyph.char (Char.ofNat b.toNat) := by
  induction t with
  | nil => rfl
  | cons b t ih =>
      obtain ⟨hb, ht⟩ := h.of_cons
      rw [decode_cons, attach_ascii _ (lt_of_isPlainByte hb), ih ht]
      rfl

theorem encode_of_isPlain {t : Text} (h : IsPlain t) :
    encode (t.map fun b => Glyph.char (Char.ofNat b.toNat)) = t := by
  induction t with
  | nil => rfl
  | cons b t ih =>
      obtain ⟨hb, ht⟩ := h.of_cons
      rw [List.map_cons, encode_cons, bytes_of_isPlainByte hb, ih ht]
      rfl

/-- Nothing is dropped from the front of a list whose elements all fail the test. -/
theorem dropWhile_of_forall {α : Type} {p : α → Bool} {l : List α} (h : ∀ a ∈ l, p a = false) :
    l.dropWhile p = l := by
  cases l with
  | nil => rfl
  | cons a l => rw [List.dropWhile_cons, h a (List.mem_cons_self ..)]; rfl

/-- **Trimming leaves a plain text alone.** -/
theorem trim_of_isPlain {t : Text} (h : IsPlain t) : trim t = t := by
  have hblank : ∀ g ∈ t.map (fun b => Glyph.char (Char.ofNat b.toNat)),
      Glyph.satisfies isBlank g = false := by
    intro g hg
    obtain ⟨b, hb, rfl⟩ := List.mem_map.1 hg
    exact isBlank_of_isPlainByte (h b hb)
  rw [trim, decode_of_isPlain h, dropWhile_of_forall hblank,
    dropWhile_of_forall (fun g hg => hblank g (List.mem_reverse.1 hg)), List.reverse_reverse,
    encode_of_isPlain h]

/-- A plain text holds no comment. -/
theorem code_of_isPlain {t : Text} (h : IsPlain t) : code t = t := by
  induction t with
  | nil => rfl
  | cons b t ih =>
      obtain ⟨hb, ht⟩ := h.of_cons
      rw [code_cons, if_neg (fun hs => ne_of_isPlainByte hb rfl hs.1), ih ht]

/-- A list is not cut if none of its elements satisfies the test. -/
theorem pieces_of_forall {α : Type} {p : α → Bool} {l : List α} (h : ∀ a ∈ l, p a = false) :
    pieces p l = [l] := by
  induction l with
  | nil => rfl
  | cons a l ih =>
      rw [List.forall_mem_cons] at h
      have hcut := pieces_cons_of_neg l h.1
      simp only [ih h.2, List.head_cons, List.tail_cons] at hcut
      exact hcut

/-- A text is not cut at a byte that it does not hold. -/
theorem pieces_of_not_mem {c : UInt8} {t : Text} (h : c ∉ t) : pieces (· == c) t = [t] := by
  refine pieces_of_forall fun b hb => beq_false_of_ne ?_
  rintro rfl
  exact h hb

/-- The pieces before and after an element at which a list is cut. -/
theorem pieces_append_cons {α : Type} {p : α → Bool} {a : α} (l m : List α) (h : p a = true) :
    pieces p (l ++ a :: m) = pieces p l ++ pieces p m := by
  have hfold : (l ++ a :: m).foldr (piecesStep p) ([], [])
      = ((l.foldr (piecesStep p) ([], [])).1, (l.foldr (piecesStep p) ([], [])).2 ++ pieces p m) := by
    induction l with
    | nil => simp [piecesStep, h, pieces]
    | cons b l ih =>
        rw [List.cons_append, List.foldr_cons, ih, List.foldr_cons, piecesStep, piecesStep]
        split <;> rfl
  rw [pieces, hfold]
  rfl

/-- No element of a piece satisfies the test. -/
theorem eq_false_of_mem_pieces {α : Type} {p : α → Bool} {l m : List α} (h : m ∈ pieces p l) {a : α}
    (ha : a ∈ m) : p a = false := by
  induction l generalizing m with
  | nil =>
      rw [List.mem_singleton.1 h] at ha
      cases ha
  | cons b l ih =>
      cases hb : p b with
      | true =>
          rw [pieces_cons_of_pos l hb] at h
          rcases List.mem_cons.1 h with rfl | h
          · cases ha
          · exact ih h ha
      | false =>
          rw [pieces_cons_of_neg l hb] at h
          rcases List.mem_cons.1 h with rfl | h
          · rcases List.mem_cons.1 ha with rfl | ha
            · exact hb
            · exact ih (List.head_mem _) ha
          · exact ih (List.mem_of_mem_tail h) ha

theorem lineFeed_not_mem_of_isPlain {t : Text} (h : IsPlain t) : lineFeed ∉ t := by
  intro hmem
  exact ne_of_isPlainByte (h _ hmem) (by decide) rfl

end Text

/-- **A plain text that is not empty stands on one line.** -/
theorem Item.layOut_of_isPlain {t : Text} (h : t.IsPlain) (hne : t ≠ []) : Item.layOut t = [t] := by
  rw [Item.layOut, Text.pieces_of_not_mem (Text.lineFeed_not_mem_of_isPlain h),
    List.map_singleton, Text.trim_of_isPlain h]
  cases t with
  | nil => exact absurd rfl hne
  | cons b t => rfl

/-! ### Names -/

namespace Text

theorem isLetter_iff {b : UInt8} : isLetter b = true ↔
    (97 ≤ b.toNat ∧ b.toNat ≤ 122) ∨ (65 ≤ b.toNat ∧ b.toNat ≤ 90) := by
  simp [isLetter, UInt8.le_iff_toNat_le]

theorem isNameStart_iff {b : UInt8} : isNameStart b = true ↔
    isLetter b = true ∨ b.toNat = 95 ∨ b.toNat = 46 ∨ b.toNat = 36 ∨ b.toNat = 58 := by
  simp [isNameStart, ← UInt8.toNat_inj, or_assoc]

theorem isDigit_iff {b : UInt8} : Numeral.isDigit b = true ↔ 48 ≤ b.toNat ∧ b.toNat ≤ 57 := by
  simp [Numeral.isDigit, UInt8.le_iff_toNat_le]

theorem isPlainByte_of_isNameByte (b : UInt8) (h : isNameByte b = true) : isPlainByte b = true := by
  rw [isNameByte, Bool.or_eq_true, isNameStart_iff, isLetter_iff, isDigit_iff] at h
  rw [isPlainByte_iff]
  omega

theorem isNameStart_of_isSymbolStart {b : UInt8} (h : isSymbolStart b = true) :
    isNameStart b = true := by
  simp only [isSymbolStart, isWordStart, isUnderscore, Bool.or_eq_true, beq_iff_eq] at h
  simp only [isNameStart, Bool.or_eq_true, beq_iff_eq]
  rcases h with h | h
  · exact Or.inl (Or.inl h)
  · exact Or.inr h

theorem isNameByte_of_isSymbolByte {b : UInt8} (h : isSymbolByte b = true) :
    isNameByte b = true := by
  simp only [isSymbolByte, Bool.or_eq_true, beq_iff_eq] at h
  rw [isNameByte, Bool.or_eq_true]
  rcases h with (h | h) | rfl
  · exact Or.inl (isNameStart_of_isSymbolStart h)
  · exact Or.inr h
  · exact Or.inl rfl

theorem isNameByte_of_isNameStart {b : UInt8} (h : isNameStart b = true) : isNameByte b = true := by
  simp [isNameByte, h]

theorem isNameByte_of_isDigit {b : UInt8} (h : Numeral.isDigit b = true) : isNameByte b = true := by
  simp [isNameByte, h]

/-- All bytes of a name may stand in a name. -/
theorem all_of_isName {t : Text} (h : isName t = true) : t.all isNameByte = true := by
  cases t with
  | nil => rfl
  | cons b t =>
      simp only [isName, Bool.and_eq_true] at h
      simp only [List.all_cons, isNameByte_of_isNameStart h.1, h.2, Bool.and_self]

theorem isPlain_of_isName {t : Text} (h : isName t = true) : IsPlain t :=
  isPlain_of_all isPlainByte_of_isNameByte (all_of_isName h)

/-- A dot and bytes of names are plain. -/
theorem isPlain_dotted {w : Text} (hw : w.all isNameByte = true) : IsPlain (46 :: w) :=
  isPlain_of_all isPlainByte_of_isNameByte (by rw [List.all_cons, hw]; rfl)

/-- A name may be continued by any bytes of names. -/
theorem isName_append {s t : Text} (hs : isName s = true) (ht : t.all isNameByte = true) :
    isName (s ++ t) = true := by
  cases s with
  | nil => simp [isName] at hs
  | cons b s =>
      simp only [isName, Bool.and_eq_true, List.cons_append, List.all_append] at hs ⊢
      exact ⟨hs.1, hs.2, ht⟩

/-- A symbol is a name. -/
theorem isName_of_isSymbol {t : Text} (h : isSymbol t = true) : isName t = true := by
  cases t with
  | nil => simp [isSymbol] at h
  | cons b t =>
      simp only [isSymbol, Bool.and_eq_true, List.all_eq_true] at h
      simp only [isName, Bool.and_eq_true, List.all_eq_true]
      exact ⟨isNameStart_of_isSymbolStart h.1, fun c hc => isNameByte_of_isSymbolByte (h.2 c hc)⟩

end Text

/-! ### Numerals -/

namespace Numeral

theorem isDigit_digit {n : Nat} (h : n < 10) : isDigit (digit n) = true := by
  revert n
  decide +kernel

theorem digitValue_digit {n : Nat} (h : n < 10) : digitValue (digit n) = n := by
  revert n
  decide +kernel

/-- A numeral has digits only. -/
theorem all_isDigit_ofNat (n : Nat) : (ofNat n).all isDigit = true := by
  induction n using Nat.strongRecOn with
  | _ n ih =>
      rcases Nat.lt_or_ge n 10 with h | h
      · rw [ofNat_of_lt h, List.all_cons, isDigit_digit h]; rfl
      · rw [ofNat_of_ge h, List.all_append, ih (n / 10) (by omega), List.all_cons,
          isDigit_digit (Nat.mod_lt n (by omega))]
        rfl

theorem ofNat_ne_nil (n : Nat) : ofNat n ≠ [] := by
  rcases Nat.lt_or_ge n 10 with h | h
  · rw [ofNat_of_lt h]; simp
  · rw [ofNat_of_ge h]; simp

/-- **The digits of a number have its value.** -/
@[simp] theorem value_ofNat (n : Nat) : value (ofNat n) = n := by
  induction n using Nat.strongRecOn with
  | _ n ih =>
      rcases Nat.lt_or_ge n 10 with h | h
      · rw [ofNat_of_lt h]
        simp [value, digitValue_digit h]
      · have hq : List.foldl (fun n b => 10 * n + digitValue b) 0 (ofNat (n / 10)) = n / 10 :=
          ih (n / 10) (by omega)
        rw [ofNat_of_ge h, value, List.foldl_append, hq]
        simp only [List.foldl_cons, List.foldl_nil, digitValue_digit (Nat.mod_lt n (by omega : 10 > 0))]
        omega

/-- Counting stops at the cap, and a value past it does not come back. -/
theorem foldl_capped (cap : Nat) (t : Text) (m : Nat) :
    t.foldl (fun n b => min cap (10 * n + digitValue b)) (min cap m)
      = min cap (t.foldl (fun n b => 10 * n + digitValue b) m) := by
  induction t generalizing m with
  | nil => rfl
  | cons b t ih =>
      have hstep : min cap (10 * min cap m + digitValue b) = min cap (10 * m + digitValue b) := by
        omega
      rw [List.foldl_cons, List.foldl_cons, hstep, ih]

theorem cappedValue_eq (cap : Nat) (t : Text) : cappedValue cap t = min cap (value t) := by
  have := foldl_capped cap t 0
  rwa [Nat.min_zero] at this

/-- Reading a numeral within the bound gives the value of its digits. -/
theorem readNat?_eq_some_iff {bound n : Nat} {t : Text} :
    readNat? bound t = some n ↔ t ≠ [] ∧ t.all isDigit = true ∧ value t = n ∧ n ≤ bound := by
  by_cases hguard : t.isEmpty = true ∨ t.all isDigit = false
  · have hnone : readNat? bound t = none := by
      rw [readNat?, if_pos (by simpa using hguard)]
    rw [hnone]
    constructor
    · intro h; cases h
    · rintro ⟨hne, hall, -, -⟩
      rcases hguard with h | h
      · exact absurd (List.isEmpty_iff.1 h) hne
      · rw [h] at hall; cases hall
  · have hne : t ≠ [] := fun h => hguard (Or.inl (by simp [h]))
    have hall : t.all isDigit = true := by
      cases h : t.all isDigit with
      | true => rfl
      | false => exact absurd (Or.inr h) hguard
    have hread : readNat? bound t = if min (bound + 1) (value t) ≤ bound
        then some (min (bound + 1) (value t)) else none := by
      rw [readNat?, if_neg (by simpa using hguard), cappedValue_eq]
    rw [hread]
    constructor
    · intro h
      split at h
      · refine ⟨hne, hall, ?_, ?_⟩ <;> injection h <;> omega
      · cases h
    · rintro ⟨-, -, hv, hle⟩
      rw [if_pos (by omega)]
      congr 1
      omega

/-- **A numeral is read back.** -/
theorem readNat?_ofNat {bound n : Nat} (h : n ≤ bound) : readNat? bound (ofNat n) = some n :=
  readNat?_eq_some_iff.2 ⟨ofNat_ne_nil n, all_isDigit_ofNat n, value_ofNat n, h⟩

/-- The bytes of a numeral may stand in a name. -/
theorem all_isNameByte_ofNat (n : Nat) : (ofNat n).all isNameByte = true := by
  rw [List.all_eq_true]
  intro b hb
  exact Text.isNameByte_of_isDigit (List.all_eq_true.1 (all_isDigit_ofNat n) b hb)

theorem isPlain_ofNat (n : Nat) : (ofNat n).IsPlain :=
  Text.isPlain_of_all Text.isPlainByte_of_isNameByte (all_isNameByte_ofNat n)

/-- A number that is not negative has the numeral of a natural number. -/
theorem ofInt_of_nonneg {n : Int} (h : 0 ≤ n) : ofInt n = ofNat n.toNat := by
  obtain ⟨m, rfl⟩ := Int.eq_ofNat_of_zero_le h
  rfl

end Numeral

end HackToolchain
