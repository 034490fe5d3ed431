/-
**Written assembly is read back.**

An item is *well formed* if its names are names, its numbers have fifteen bits, and its destination
can be written.  A well-formed item stands on one line, and the assembler reads from that line the
statement that the item is meant to be; comments and empty lines are read as nothing.

Main definitions:

* `Text.IsFragment` — the texts that may be a part of a compute instruction;
* `Item.WellFormed` — the items that are read as they are meant;
* `Target.address`, `Item.statement?`, `Item.operation?` — what a well-formed item is read as;
* `statement?` — the statement on a line, if there is one.

Main results:

* `Statement.parseCompute_text` — a compute instruction is read back;
* `Item.lines_of_wellFormed` — **a well-formed item is read back**.
-/
import HackToolchain.Proofs.Text.Plain

set_option relaxedAutoImplicit false
set_option autoImplicit false

namespace HackToolchain

/-! ### Cutting at a byte -/

theorem bne_of_not_mem {b : UInt8} {t : Text} (h : b ∉ t) : ∀ c ∈ t, (c != b) = true := by
  intro c hc
  rw [bne_iff_ne]
  rintro rfl
  exact h hc

theorem cutAt_of_not_mem {b : UInt8} {t : Text} (h : b ∉ t) : cutAt b t = none := by
  have hdrop : t.dropWhile (· != b) = [] := by
    have happend : (t ++ []).dropWhile (· != b) = [].dropWhile (· != b) :=
      List.dropWhile_append_of_pos (bne_of_not_mem h)
    simpa using happend
  simp [cutAt, hdrop]

theorem cutAt_append {b : UInt8} {s : Text} (t : Text) (h : b ∉ s) :
    cutAt b (s ++ b :: t) = some (s, t) := by
  have hs := bne_of_not_mem h
  have hdrop : (s ++ b :: t).dropWhile (· != b) = b :: t := by
    rw [List.dropWhile_append_of_pos hs, List.dropWhile_cons_of_neg (by simp)]
  have htake : (s ++ b :: t).takeWhile (· != b) = s := by
    rw [List.takeWhile_append_of_pos hs, List.takeWhile_cons_of_neg (by simp), List.append_nil]
  simp [cutAt, hdrop, htake]

/-! ### The parts of a compute instruction -/

namespace Text

/-- A byte that neither separates the parts of a compute instruction nor starts another
statement. -/
def isFragmentByte (b : UInt8) : Bool := isPlainByte b && b != 61 && b != 59 && b != 64 && b != 40

/-- A text that may be a part of a compute instruction. -/
def IsFragment (t : Text) : Prop := t ≠ [] ∧ t.all isFragmentByte = true

instance (t : Text) : Decidable t.IsFragment := inferInstanceAs (Decidable (_ ∧ _))

namespace IsFragment

variable {t : Text}

theorem isPlain (h : t.IsFragment) : t.IsPlain := by
  refine isPlain_of_all (fun b hb => ?_) h.2
  simp only [isFragmentByte, Bool.and_eq_true] at hb
  exact hb.1.1.1.1

theorem not_mem (h : t.IsFragment) {b : UInt8} (hb : isFragmentByte b = false) : b ∉ t := by
  intro hmem
  rw [List.all_eq_true.1 h.2 b hmem] at hb
  cases hb

/-- The first byte of a part starts neither an address instruction nor a label. -/
theorem head (h : t.IsFragment) : ∃ b s, t = b :: s ∧ b ≠ 64 ∧ b ≠ 40 := by
  cases t with
  | nil => exact absurd rfl h.1
  | cons b s =>
      refine ⟨b, s, rfl, ?_, ?_⟩
      · rintro rfl
        exact h.not_mem rfl (List.mem_cons_self ..)
      · rintro rfl
        exact h.not_mem rfl (List.mem_cons_self ..)

end IsFragment

end Text

theorem Comp.mem_all (c : Comp) : c ∈ Comp.all := by
  cases c with
  | same x | not x | neg x | succ x | onePlus x | pred x => cases x <;> decide
  | dPlus y | plusD y | dMinus y | minusD y | dAnd y | andD y | dOr y | orD y => cases y <;> decide
  | _ => decide

/-- **An expression is read back.** -/
theorem Comp.parse?_text (c : Comp) : Comp.parse? c.text = some c := by
  have hall : ∀ c ∈ Comp.all, Comp.parse? c.text = some c := by decide +kernel
  exact hall c c.mem_all

theorem Comp.isFragment_text (c : Comp) : c.text.IsFragment := by
  have hall : ∀ c ∈ Comp.all, c.text.IsFragment := by decide +kernel
  exact hall c c.mem_all

/-- The destinations that can be written, with the missing one. -/
def Dest.Writable (d : Dest) : Prop := d = [] ∨ d ∈ Dest.all

instance (d : Dest) : Decidable d.Writable := inferInstanceAs (Decidable (_ ∨ _))

theorem Dest.parse?_text {d : Dest} (h : d ∈ Dest.all) : Dest.parse? d.text = some d := by
  revert d
  decide +kernel

theorem Dest.isFragment_text {d : Dest} (h : d ∈ Dest.all) : Text.IsFragment (Dest.text d) := by
  revert d
  decide +kernel

theorem Dest.isEmpty_eq_false {d : Dest} (h : d ∈ Dest.all) : d.isEmpty = false := by
  cases d with
  | nil => exact absurd rfl (Dest.isFragment_text h).1
  | cons x d => rfl

theorem Jump.parse?_text (j : Jump) : Jump.parse? j.text = some j := by
  cases j <;> rfl

theorem Jump.isFragment_text (j : Jump) : j.text.IsFragment := by
  cases j <;> decide

namespace Compute

/-- The part of a written instruction before the expression. -/
def destText (c : Compute) : Text := if c.dest.isEmpty then [] else Dest.text c.dest ++ ascii "="

/-- The part of a written instruction after the expression. -/
def jumpText (c : Compute) : Text :=
  match c.jump with
  | none => []
  | some j => ascii ";" ++ j.text

theorem text_eq (c : Compute) : c.text = c.destText ++ c.comp.text ++ c.jumpText := rfl

theorem isPlain_jumpText (c : Compute) : c.jumpText.IsPlain := by
  unfold jumpText
  cases c.jump with
  | none => decide
  | some j => exact Text.IsPlain.append (by decide) j.isFragment_text.isPlain

theorem isPlain_text {c : Compute} (h : c.dest.Writable) : c.text.IsPlain := by
  have hdest : c.destText.IsPlain := by
    unfold destText
    rcases h with h | h
    · rw [h]; decide
    · split
      · decide
      · exact (Dest.isFragment_text h).isPlain.append (by decide)
  exact (hdest.append c.comp.isFragment_text.isPlain).append c.isPlain_jumpText

/-- The first byte of an instruction starts neither an address instruction nor a label. -/
theorem head_text {c : Compute} (h : c.dest.Writable) : ∃ b t, c.text = b :: t ∧ b ≠ 64 ∧ b ≠ 40 := by
  rw [text_eq, destText]
  rcases h with h | h
  · obtain ⟨b, t, ht, hb⟩ := c.comp.isFragment_text.head
    exact ⟨b, t ++ c.jumpText, by simp [h, ht], hb⟩
  · obtain ⟨b, t, ht, hb⟩ := (Dest.isFragment_text h).head
    refine ⟨b, t ++ ascii "=" ++ c.comp.text ++ c.jumpText, ?_, hb⟩
    rw [Dest.isEmpty_eq_false h, ht]
    simp

end Compute

namespace Statement

theorem parseJump_text (line : Text) (c : Compute) :
    parseJump line (c.comp.text ++ c.jumpText) = .ok (c.jump, c.comp.text) := by
  unfold Compute.jumpText parseJump
  cases c.jump with
  | none => rw [List.append_nil, cutAt_of_not_mem (c.comp.isFragment_text.not_mem rfl)]
  | some j =>
      have hcut : cutAt 59 (c.comp.text ++ (ascii ";" ++ j.text)) = some (c.comp.text, j.text) :=
        cutAt_append j.text (c.comp.isFragment_text.not_mem rfl)
      simp only [hcut, Jump.parse?_text]

theorem parseDest_text {c : Compute} (h : c.dest.Writable) :
    parseDest c.text = .ok (c.dest, c.comp.text ++ c.jumpText) := by
  have hrest : 61 ∉ c.comp.text ++ c.jumpText := by
    rw [List.mem_append, not_or]
    refine ⟨c.comp.isFragment_text.not_mem rfl, ?_⟩
    unfold Compute.jumpText
    cases c.jump with
    | none => simp
    | some j =>
        rw [List.mem_append, not_or]
        exact ⟨by decide, j.isFragment_text.not_mem rfl⟩
  rw [Compute.text_eq, Compute.destText, parseDest]
  rcases h with h | h
  · rw [h, List.isEmpty_nil, if_pos rfl, List.nil_append, cutAt_of_not_mem hrest]
  · have htext : (if c.dest.isEmpty = true then [] else Dest.text c.dest ++ ascii "=")
        ++ c.comp.text ++ c.jumpText = Dest.text c.dest ++ 61 :: (c.comp.text ++ c.jumpText) := by
      have : ascii "=" = [61] := by decide
      simp [Dest.isEmpty_eq_false h, this]
    rw [htext, cutAt_append _ ((Dest.isFragment_text h).not_mem rfl)]
    simp only [Dest.parse?_text h]

/-- **A compute instruction is read back.** -/
theorem parseCompute_text {c : Compute} (h : c.dest.Writable) : parseCompute c.text = .ok c := by
  rw [parseCompute, parseDest_text h]
  simp only [parseJump_text, Comp.parse?_text]

end Statement

/-! ### Items -/

/-- What the assembler reads from a written target. -/
def Target.address : Target → Address
  | number n => .constant n.toNat
  | symbol name =>
    match predefinedCells.lookup name with
    | some n => .predefined n
    | none => .symbol name

/-- Whether a target can be written: a number has fifteen bits, a name is a name. -/
def Target.WellFormed : Target → Prop
  | number n => 0 ≤ n ∧ n ≤ 32767
  | symbol name => isName name = true

instance : (t : Target) → Decidable t.WellFormed
  | .number n => inferInstanceAs (Decidable (0 ≤ n ∧ n ≤ 32767))
  | .symbol name => inferInstanceAs (Decidable (isName name = true))

namespace Item

/-- Whether an item is read as it is meant. -/
def WellFormed : Item → Prop
  | blank | comment _ => True
  | load t => t.WellFormed
  | compute c => c.dest.Writable
  | label name => isName name = true

/-- The statement that a well-formed item is read as. -/
def statement? : Item → Option Statement
  | blank | comment _ => none
  | load t => some (.operation (.load t.address))
  | compute c => some (.operation (.compute c))
  | label name => some (.label name)

/-- The operation that a well-formed item is read as. -/
def operation? : Item → Option Operation
  | load t => some (.load t.address)
  | compute c => some (.compute c)
  | _ => none

end Item

/-- The statement on a line, if there is one that is not refused. -/
def statement? (line : Text) : Option Statement :=
  let t := Text.trim (Text.code line)
  if t.isEmpty then none else (Statement.parse t).toOption

/-- On a plain line nothing is dropped before the statement is read. -/
theorem statement?_of_isPlain {t : Text} (h : t.IsPlain) (hne : t ≠ []) :
    statement? t = (Statement.parse t).toOption := by
  rw [statement?, Text.code_of_isPlain h, Text.trim_of_isPlain h]
  cases t with
  | nil => exact absurd rfl hne
  | cons b t => rfl

theorem isDigit_head_ofNat (n : Nat) : ∃ b t, Numeral.ofNat n = b :: t ∧ Numeral.isDigit b = true := by
  cases h : Numeral.ofNat n with
  | nil => exact absurd h (Numeral.ofNat_ne_nil n)
  | cons b t =>
      have hall := Numeral.all_isDigit_ofNat n
      rw [h, List.all_cons, Bool.and_eq_true] at hall
      exact ⟨b, t, rfl, hall.1⟩

theorem not_isDigit_of_isNameStart {b : UInt8} (h : isNameStart b = true) :
    Numeral.isDigit b = false := by
  rw [Text.isNameStart_iff, Text.isLetter_iff] at h
  rw [Bool.eq_false_iff, Ne, Text.isDigit_iff]
  omega

namespace Statement

/-- A line that starts like neither an address instruction nor a label is read as a computation. -/
theorem parse_of_ne {b : UInt8} (hat : b ≠ 64) (hopen : b ≠ 40) (t : Text) :
    parse (b :: t) = (parseCompute (b :: t)).map fun c => .operation (.compute c) := by
  unfold parse
  split
  · next h => injection h with h; exact absurd h hat
  · next h => injection h with h; exact absurd h hopen
  · rfl

theorem parseAddress_ofNat {n : Nat} (h : n ≤ 32767) :
    parseAddress (Numeral.ofNat n) = .ok (.constant n) := by
  obtain ⟨b, t, ht, hb⟩ := isDigit_head_ofNat n
  have hread : Numeral.readNat? 32767 (b :: t) = some n := by rw [← ht, Numeral.readNat?_ofNat h]
  rw [ht]
  simp only [parseAddress, hb, if_true, hread]

/-- A name is read as the predefined cell it names, if there is one, and otherwise as itself. -/
theorem parseAddress_of_isName {name : Text} (h : isName name = true) :
    parseAddress name = .ok (Target.symbol name).address := by
  cases name with
  | nil => simp [isName] at h
  | cons b t =>
      have hstart : isNameStart b = true := by
        simp only [isName, Bool.and_eq_true] at h
        exact h.1
      simp only [parseAddress, Target.address, not_isDigit_of_isNameStart hstart]
      cases hl : predefinedCells.lookup (b :: t) with
      | none => simp [h]
      | some n => simp

/-- **A target is read back.** -/
theorem parseAddress_text {t : Target} (h : t.WellFormed) : parseAddress t.text = .ok t.address := by
  cases t with
  | number n =>
      simp only [Target.WellFormed] at h
      rw [Target.text, Numeral.ofInt_of_nonneg h.1]
      exact parseAddress_ofNat (by omega)
  | symbol name => exact parseAddress_of_isName h

theorem parseLabel_text {name : Text} (h : isName name = true) :
    parseLabel (name ++ ascii ")") = .ok name := by
  have hclose : ascii ")" = [41] := by decide
  rw [parseLabel, hclose, List.getLast?_concat, List.dropLast_concat, if_pos ⟨rfl, h⟩]

end Statement

theorem Target.isPlain_text {t : Target} (h : t.WellFormed) : t.text.IsPlain := by
  cases t with
  | number n =>
      simp only [WellFormed] at h
      rw [text, Numeral.ofInt_of_nonneg h.1]
      exact Numeral.isPlain_ofNat _
  | symbol name => exact Text.isPlain_of_isName h

/-- A line with a comment and nothing before it holds no code. -/
theorem Text.code_comment (t : Text) : Text.code (ascii "// " ++ t) = [] := by
  rw [ascii_remark]
  exact (Text.code_cons 47 (47 :: 32 :: t)).trans (if_pos ⟨rfl, rfl⟩)

theorem statement?_comment (t : Text) : statement? (ascii "// " ++ t) = none := by
  rw [statement?, Text.code_comment]
  rfl

namespace Item

/-- A text that is plain and not empty is the only line of its item. -/
theorem exists_line_of_isPlain {t : Text} {s : Statement} (h : t.IsPlain) (hne : t ≠ [])
    (hparse : Statement.parse t = .ok s) :
    ∃ line, layOut t = [line] ∧ HackToolchain.statement? line = some s :=
  ⟨t, layOut_of_isPlain h hne, by rw [statement?_of_isPlain h hne, hparse]; rfl⟩

/-- **A well-formed item is read back**: it stands on one line, from which the assembler reads the
statement that the item is meant to be. -/
theorem lines_of_wellFormed {i : Item} (h : i.WellFormed) :
    ∃ line, i.lines = [line] ∧ HackToolchain.statement? line = i.statement? := by
  cases i with
  | blank => exact ⟨[], rfl, rfl⟩
  | comment t => exact ⟨_, rfl, statement?_comment t⟩
  | load t =>
      have hplain : (ascii "@" ++ t.text).IsPlain :=
        Text.IsPlain.append (by decide) (Target.isPlain_text h)
      have hparse : Statement.parse (ascii "@" ++ t.text) = .ok (.operation (.load t.address)) := by
        rw [ascii_at]
        change (Statement.parseAddress t.text).map _ = _
        rw [Statement.parseAddress_text h]
        rfl
      exact exists_line_of_isPlain hplain (by simp [Item.text, ascii_at]) hparse
  | compute c =>
      obtain ⟨b, t, ht, h64, h40⟩ := Compute.head_text h
      have hparse : Statement.parse c.text = .ok (.operation (.compute c)) := by
        rw [ht, Statement.parse_of_ne h64 h40, ← ht, Statement.parseCompute_text h]
        rfl
      exact exists_line_of_isPlain (Compute.isPlain_text h) (by simp [Item.text, ht]) hparse
  | label name =>
      have hplain : (ascii "(" ++ name ++ ascii ")").IsPlain :=
        (Text.IsPlain.append (by decide) (Text.isPlain_of_isName h)).append (by decide)
      have hparse : Statement.parse (ascii "(" ++ name ++ ascii ")") = .ok (.label name) := by
        rw [ascii_open]
        change (Statement.parseLabel (name ++ ascii ")")).map Statement.label = _
        rw [Statement.parseLabel_text h]
        rfl
      exact exists_line_of_isPlain hplain (by simp [Item.text, ascii_open]) hparse

end Item

end HackToolchain
