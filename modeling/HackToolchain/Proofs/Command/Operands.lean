/-
**Operands of commands that have been read.**

Reading a command checks its operands: names are symbols, numbers have sixteen bits, and only a
constant may be negative.  What comes later relies on these checks and makes no others.

Main definitions:

* `Command.declared?`, `Command.target?` — the names that a command declares and continues at;
* `Command.cell?`, `Command.staticIndex?` — the cell that a command uses;
* `Command.Valid` — the operands of a command are in range.

Main results:

* `Command.valid_of_parse` — **every command that is read has operands in range**.
-/
import HackToolchain.Command.Parse
import HackToolchain.Proofs.Text.Plain

set_option relaxedAutoImplicit false
set_option autoImplicit false

namespace HackToolchain

namespace Numeral

/-- What is made of a numeral that is read is made of its number. -/
theorem map_readNat?_eq_some_iff {bound : Nat} {t : Text} {f : Int → Int} {n : Int} :
    ((readNat? bound t).bind fun m => some (m : Int)).map f = some n ↔
      ∃ m : Nat, readNat? bound t = some m ∧ f m = n := by
  cases readNat? bound t with
  | none => exact iff_of_false nofun (fun ⟨_, h, _⟩ => nomatch h)
  | some m => simp

/-- An integer that is read lies in the range of its bound. -/
theorem readInt?_bounds {bound : Nat} {t : Text} {n : Int} (h : readInt? bound t = some n) :
    -(bound : Int) - 1 ≤ n ∧ n ≤ bound := by
  unfold readInt? at h
  -- a plus sign, a minus sign, or none
  split at h
  all_goals
    obtain ⟨m, hm, rfl⟩ := map_readNat?_eq_some_iff.1 h
    have hle := (readNat?_eq_some_iff.1 hm).2.2.2
    omega

end Numeral

namespace Command

/-! ### Names in commands -/

/-- The name that a command declares. -/
def declared? : Command → Option Text
  | label name | function name _ => some name
  | _ => none

/-- The name that a command continues at. -/
def target? : Command → Option Text
  | jump name | jumpIf name | call name _ => some name
  | _ => none

/-- The segment and the index of the cell that a command uses. -/
def cell? : Command → Option (Segment × Int)
  | push s i | pop s i => some (s, i)
  | _ => none

/-- The index of the static cell that a command uses. -/
def staticIndex? : Command → Option Int
  | push .statics i | pop .statics i => some i
  | _ => none

/-! ### Operands in range -/

/-- The operands of a command are in range. -/
def Valid : Command → Prop
  | push s i | pop s i => -32768 ≤ i ∧ i ≤ 32767 ∧ (s ≠ .constant → 0 ≤ i)
  | operate _ | ret => True
  | label name | jump name | jumpIf name => Text.isSymbol name = true
  | function name n | call name n => Text.isSymbol name = true ∧ 0 ≤ n ∧ n ≤ 32767

/-- The static cell that a command uses, among all cells. -/
theorem staticIndex?_eq_some_iff {c : Command} {i : Int} :
    c.staticIndex? = some i ↔ c.cell? = some (.statics, i) := by
  cases c with
  | push s j | pop s j => cases s <;> simp [staticIndex?, cell?]
  | _ => simp [staticIndex?, cell?]

/-- The index of a cell is in range, and negative for constants only. -/
theorem valid_cell {c : Command} (hc : c.Valid) {s : Segment} {i : Int} (h : c.cell? = some (s, i)) :
    -32768 ≤ i ∧ i ≤ 32767 ∧ (s ≠ .constant → 0 ≤ i) := by
  cases c with
  | push s' j | pop s' j =>
      injection h with h
      injection h with hs hi
      exact hs ▸ hi ▸ hc
  | _ => cases h

/-- The index of a static cell is in range. -/
theorem valid_static {c : Command} (hc : c.Valid) {i : Int} (h : c.staticIndex? = some i) :
    0 ≤ i ∧ i ≤ 32767 := by
  obtain ⟨-, hhi, hlo⟩ := valid_cell hc (staticIndex?_eq_some_iff.1 h)
  exact ⟨hlo (by decide), hhi⟩

/-- Declared names are symbols. -/
theorem isSymbol_of_declared? {c : Command} (hc : c.Valid) {name : Text}
    (h : c.declared? = some name) : Text.isSymbol name = true := by
  cases c with
  | label x => injection h with h; exact h ▸ hc
  | function x n => injection h with h; exact h ▸ hc.1
  | _ => cases h

theorem parseInteger_bounds {word : Text} {n : Int} (h : parseInteger word = .ok n) :
    -32768 ≤ n ∧ n ≤ 32767 := by
  unfold parseInteger at h
  split at h
  · next m hm =>
      injection h with h
      subst h
      have := Numeral.readInt?_bounds hm
      omega
  · cases h

theorem parseSymbol_eq_ok {word name : Text} (h : parseSymbol word = .ok name) :
    Text.isSymbol name = true := by
  unfold parseSymbol at h
  split at h
  · next hs => injection h with h; rwa [← h]
  · cases h

/-- A cell has a segment and an index in range, negative for constants only. -/
theorem parseCell_eq_ok {k : Opcode} {make : Segment → Int → Command} {operands : List Text}
    {c : Command} (h : parseCell k make operands = .ok c) :
    ∃ s i, c = make s i ∧ -32768 ≤ i ∧ i ≤ 32767 ∧ (s ≠ .constant → 0 ≤ i) := by
  unfold parseCell at h
  split at h
  · cases h
  · cases h
  · split at h
    · cases h
    · next s _ =>
        split at h
        · cases h
        · split at h
          · cases h
          · next n hn =>
              split at h
              · cases h
              · next hneg =>
                  injection h with h
                  obtain ⟨hlo, hhi⟩ := parseInteger_bounds hn
                  refine ⟨s, n, h.symm, hlo, hhi, fun hs => ?_⟩
                  rcases Int.lt_or_le n 0 with hlt | hle
                  · exact absurd ⟨hs, hlt⟩ hneg
                  · exact hle

theorem parseLabel_eq_ok {k : Opcode} {make : Text → Command} {operands : List Text} {c : Command}
    (h : parseLabel k make operands = .ok c) : ∃ name, c = make name ∧ Text.isSymbol name = true := by
  unfold parseLabel at h
  split at h
  · split at h
    · cases h
    · next name hname =>
        injection h with h
        exact ⟨name, h.symm, parseSymbol_eq_ok hname⟩
  · cases h

theorem parseNameAndCount_eq_ok {k : Opcode} {make : Text → Int → Command} {operands : List Text}
    {c : Command} (h : parseNameAndCount k make operands = .ok c) :
    ∃ name n, c = make name n ∧ Text.isSymbol name = true ∧ 0 ≤ n ∧ n ≤ 32767 := by
  unfold parseNameAndCount at h
  split at h
  · cases h
  · cases h
  · split at h
    · cases h
    · next name hname =>
        split at h
        · cases h
        · split at h
          · cases h
          · next n hn =>
              split at h
              · cases h
              · next hneg =>
                  injection h with h
                  have := parseInteger_bounds hn
                  exact ⟨name, n, h.symm, parseSymbol_eq_ok hname, by omega, by omega⟩

theorem parseNothing_eq_ok {k : Opcode} {c c' : Command} {operands : List Text}
    (h : parseNothing k c operands = .ok c') : c' = c := by
  unfold parseNothing at h
  split at h
  · injection h with h; exact h.symm
  · cases h

theorem valid_of_ofOperands {k : Opcode} {operands : List Text} {c : Command}
    (h : ofOperands k operands = .ok c) : c.Valid := by
  cases k with
  | push | pop =>
      obtain ⟨s, i, rfl, hi⟩ := parseCell_eq_ok h
      exact hi
  | operate o => rw [parseNothing_eq_ok h]; trivial
  | ret => rw [parseNothing_eq_ok h]; trivial
  | label | jump | jumpIf =>
      obtain ⟨name, rfl, hname⟩ := parseLabel_eq_ok h
      exact hname
  | function | call =>
      obtain ⟨name, n, rfl, hn⟩ := parseNameAndCount_eq_ok h
      exact hn

/-- **Every command that is read has operands in range.** -/
theorem valid_of_parse {line : Text} {c : Command} (h : parse line = .ok c) : c.Valid := by
  unfold parse ofTokens at h
  split at h
  · cases h
  · split at h
    · cases h
    · exact valid_of_ofOperands h

end Command

end HackToolchain
