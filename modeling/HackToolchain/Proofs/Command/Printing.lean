/-
**Printed commands.**

A command is printed as its words with single spaces between them: the names of its opcode and its
segment in small letters, and its number without a plus sign and without leading zeros.  Among all the
lines that are read as a command, this is the one that the language itself writes.

Main definitions:

* `Command.operands`, `Command.words` — the words of a command.

Main results:

* `Text.tokens_intercalate` — plain words with single spaces between them are its tokens;
* `Numeral.writes_ofInt` — the digits of an integer write it;
* `Command.text_eq_intercalate`, `Command.tokens_text` — a command is printed as its words;
* `Command.parse_text` — **a command with operands in range is read back from its printed form**.
-/
import HackToolchain.Proofs.Command.Grammar
import HackToolchain.Proofs.Text.WhiteSpace

set_option relaxedAutoImplicit false
set_option autoImplicit false

namespace HackToolchain

/-! ### Words between spaces -/

/-- Plain words with single spaces between them are cut into these words. -/
theorem Text.tokens_intercalate {words : List Text} (h : ∀ w ∈ words, w.IsPlain ∧ w ≠ []) :
    tokens ((ascii " ").intercalate words) = words := by
  have hspace : ascii " " = [32] := by decide
  rw [hspace]
  induction words with
  | nil => rfl
  | cons w words ih =>
      obtain ⟨⟨hplain, hne⟩, hrest⟩ := List.forall_mem_cons.1 h
      cases words with
      | nil => rw [List.intercalate_singleton, tokens_of_isPlain hplain hne]
      | cons w' words =>
          rw [List.intercalate_cons_cons, List.append_assoc]
          exact (tokens_append_space hplain hne _).trans (congrArg (w :: ·) (ih hrest))

/-! ### Numbers -/

namespace Numeral

/-- **The digits of an integer write it.** -/
theorem writes_ofInt (n : Int) : Writes (ofInt n) n := by
  cases n with
  | ofNat n =>
      have h := Writes.plain (ofNat_ne_nil n) (all_isDigit_ofNat n)
      rwa [value_ofNat] at h
  | negSucc n =>
      have h := Writes.minus (ofNat_ne_nil (n + 1)) (all_isDigit_ofNat (n + 1))
      rwa [value_ofNat] at h

theorem isPlain_ofInt (n : Int) : (ofInt n).IsPlain := by
  cases n with
  | ofNat n => exact isPlain_ofNat n
  | negSucc n => exact List.forall_mem_cons.2 ⟨by decide, isPlain_ofNat (n + 1)⟩

theorem ofInt_ne_nil (n : Int) : ofInt n ≠ [] := by
  cases n with
  | ofNat n => exact ofNat_ne_nil n
  | negSucc n => exact List.cons_ne_nil _ _

end Numeral

/-! ### Names -/

theorem Opcode.ofNumber?_number (k : Opcode) : ofNumber? k.number = some k := by
  cases k with
  | operate o => cases o <;> rfl
  | _ => rfl

theorem Segment.ofNumber?_number (s : Segment) : ofNumber? s.number = some s := by
  cases s <;> rfl

@[simp] theorem Opcode.describe_number (k : Opcode) : describe k.number = k.name := by
  rw [describe, ofNumber?_number]

@[simp] theorem Segment.describe_number (s : Segment) : describe s.number = s.name := by
  rw [describe, ofNumber?_number]

theorem Opcode.isPlain_name (k : Opcode) : k.name.IsPlain ∧ k.name ≠ [] := by
  cases k with
  | operate o => cases o <;> decide
  | _ => decide

theorem Segment.isPlain_name (s : Segment) : s.name.IsPlain ∧ s.name ≠ [] := by
  cases s <;> decide

theorem Text.isPlain_of_isSymbol {t : Text} (h : isSymbol t = true) : t.IsPlain ∧ t ≠ [] := by
  refine ⟨isPlain_of_isName (isName_of_isSymbol h), ?_⟩
  rintro rfl
  cases h

namespace Command

/-! ### The words of a command -/

/-- The words after the opcode of a command. -/
def operands : Command → List Text
  | push s i | pop s i => [s.name, Numeral.ofInt i]
  | operate _ | ret => []
  | label name | jump name | jumpIf name => [name]
  | function name n | call name n => [name, Numeral.ofInt n]

/-- The words of a command. -/
def words (c : Command) : List Text := c.opcode.name :: c.operands

/-- **A command is printed as its words**, with single spaces between them. -/
theorem text_eq_intercalate (c : Command) : c.text = (ascii " ").intercalate c.words := by
  cases c with
  | operate o => cases o <;> rfl
  | _ => simp [text, record, Record.text, Opcode.ofNumber?_number, opcode, words, operands]

/-- The words of a command are plain. -/
theorem isPlain_of_mem_words {c : Command} (hc : c.Valid) {w : Text} (hw : w ∈ c.words) :
    w.IsPlain ∧ w ≠ [] := by
  rcases List.mem_cons.1 hw with rfl | hw
  · exact c.opcode.isPlain_name
  · cases c with
    | push s i | pop s i =>
        rcases List.mem_pair.1 hw with rfl | rfl
        · exact s.isPlain_name
        · exact ⟨Numeral.isPlain_ofInt i, Numeral.ofInt_ne_nil i⟩
    | operate o => cases hw
    | ret => cases hw
    | label name | jump name | jumpIf name =>
        rw [List.mem_singleton.1 hw]
        exact Text.isPlain_of_isSymbol hc
    | function name n | call name n =>
        rcases List.mem_pair.1 hw with rfl | rfl
        · exact Text.isPlain_of_isSymbol hc.1
        · exact ⟨Numeral.isPlain_ofInt n, Numeral.ofInt_ne_nil n⟩

/-- The tokens of a printed command are its words. -/
theorem tokens_text {c : Command} (hc : c.Valid) : Text.tokens c.text = c.words := by
  rw [text_eq_intercalate]
  exact Text.tokens_intercalate fun _ hw => isPlain_of_mem_words hc hw

/-- The words of a command follow the grammar. -/
theorem written_words {c : Command} (hc : c.Valid) : Written c.words c.record := by
  cases c with
  | push s i | pop s i =>
      obtain ⟨hlo, hhi, hsign⟩ := hc
      exact .cell rfl rfl rfl ⟨Numeral.writes_ofInt i, hlo, hhi⟩ hsign
  | operate o => exact .nothing rfl rfl
  | ret => exact .nothing rfl rfl
  | label name | jump name | jumpIf name => exact .name rfl rfl hc
  | function name n | call name n =>
      obtain ⟨hname, hlo, hhi⟩ := hc
      exact .nameAndCount rfl rfl hname ⟨Numeral.writes_ofInt n, by omega, hhi⟩ hlo

/-- A command is determined by its fields. -/
theorem record_injective {c c' : Command} (h : c.record = c'.record) : c = c' := by
  have hcommand := command_record c
  rw [h, command_record] at hcommand
  injection hcommand with hcommand
  exact hcommand.symm

/-- **A command with operands in range is read back from its printed form.** -/
theorem parse_text {c : Command} (hc : c.Valid) : parse c.text = .ok c := by
  obtain ⟨c', hparse, hrecord⟩ := (written_words hc).ofTokens_eq
  rw [parse, tokens_text hc, hparse, record_injective hrecord]

end Command

end HackToolchain
