/-
**The grammar of commands.**

A line is a command if its tokens follow one of four patterns: an opcode alone, an opcode with a
segment and an index, with a name, or with a name and a count.  The patterns are stated here apart
from the order in which a reader checks them, and so are the two kinds of faults that a line with a
known opcode and a fitting number of operands can have.

Main definitions:

* `Numeral.Writes` — decimal digits after at most one sign write an integer;
* `OperandShape`, `Opcode.shape` — the four patterns;
* `Command.Written` — **the grammar**: tokens, and the four fields that they stand for;
* `Command.UnknownSegment`, `Command.BadOperand` — tokens that come close to a pattern.

Main results:

* `Opcode.keywords_eq`, `Segment.keywords_eq` — the tables of keywords hold the names that are
  printed;
* `Numeral.readInt?_eq_some_iff`, `Opcode.parse?_eq_some_iff`, `Segment.parse?_eq_some_iff` — what
  is read as a number, an opcode and a segment;
* `Command.read_ofTokens` — each list of tokens is read as the grammar says;
* `Command.parse_follows_grammar` — **exactly the lines of the grammar are commands, and each other
  line has the fault that the grammar says**.
-/
import HackToolchain.Proofs.Codegen.Sessions

set_option relaxedAutoImplicit false
set_option autoImplicit false

namespace HackToolchain

/-! ### Integers -/

namespace Numeral

/-- Decimal digits after at most one sign write an integer. -/
inductive Writes : Text → Int → Prop
  | plain {t : Text} (hne : t ≠ []) (hdigits : t.all isDigit = true) : Writes t (value t)
  | plus {t : Text} (hne : t ≠ []) (hdigits : t.all isDigit = true) : Writes (43 :: t) (value t)
  | minus {t : Text} (hne : t ≠ []) (hdigits : t.all isDigit = true) :
      Writes (45 :: t) (-(value t : Int))

/-- **What is read as an integer** writes it, and the integer is within the bounds. -/
theorem readInt?_eq_some_iff {bound : Nat} {t : Text} {n : Int} :
    readInt? bound t = some n ↔ Writes t n ∧ -(bound : Int) - 1 ≤ n ∧ n ≤ bound := by
  constructor
  · intro h
    refine ⟨?_, readInt?_bounds h⟩
    unfold readInt? at h
    split at h
    all_goals
      obtain ⟨m, hm, rfl⟩ := map_readNat?_eq_some_iff.1 h
      obtain ⟨hne, hdigits, rfl, -⟩ := readNat?_eq_some_iff.1 hm
    · exact .plus hne hdigits
    · exact .minus hne hdigits
    · exact .plain hne hdigits
  · rintro ⟨hwrites, hlo, hhi⟩
    cases hwrites with
    | @plain t hne hdigits =>
        have hread := readNat?_eq_some_iff.2 ⟨hne, hdigits, rfl, (by omega : value t ≤ bound)⟩
        -- a sign is no digit
        unfold readInt?
        split
        · rw [List.all_cons] at hdigits; cases hdigits
        · rw [List.all_cons] at hdigits; cases hdigits
        · exact map_readNat?_eq_some_iff.2 ⟨_, hread, rfl⟩
    | @plus t hne hdigits =>
        have hread := readNat?_eq_some_iff.2 ⟨hne, hdigits, rfl, (by omega : value t ≤ bound)⟩
        exact map_readNat?_eq_some_iff.2 ⟨_, hread, rfl⟩
    | @minus t hne hdigits =>
        have hread := readNat?_eq_some_iff.2 ⟨hne, hdigits, rfl, (by omega : value t ≤ bound + 1)⟩
        exact map_readNat?_eq_some_iff.2 ⟨_, hread, rfl⟩

end Numeral

/-! ### Keywords -/

/-- A word spells a name if the two are the same in capital letters. -/
def Spells (word name : Text) : Prop := Text.upper word = Text.upper name

theorem Opcode.mem_all (k : Opcode) : k ∈ Opcode.all := by
  cases k with
  | operate o => cases o <;> decide
  | _ => decide

theorem Segment.mem_all (s : Segment) : s ∈ Segment.all := by
  cases s <;> decide

/-- The keywords of the opcodes are their names in capital letters. -/
theorem Opcode.keywords_eq : Opcode.keywords = Opcode.all.map fun k => (Text.upper k.name, k) := by
  decide +kernel

/-- The keywords of the segments are their names in capital letters. -/
theorem Segment.keywords_eq : Segment.keywords = Segment.all.map fun s => (Text.upper s.name, s) := by
  decide +kernel

theorem Opcode.parse?_eq_some_iff {word : Text} {k : Opcode} :
    Opcode.parse? word = some k ↔ Spells word k.name := by
  have hnodup : (Opcode.all.map fun k => Text.upper k.name).Nodup := by decide +kernel
  rw [Opcode.parse?, Opcode.keywords_eq, lookup_map_eq_some_iff hnodup]
  exact and_iff_right k.mem_all

theorem Segment.parse?_eq_some_iff {word : Text} {s : Segment} :
    Segment.parse? word = some s ↔ Spells word s.name := by
  have hnodup : (Segment.all.map fun s => Text.upper s.name).Nodup := by decide +kernel
  rw [Segment.parse?, Segment.keywords_eq, lookup_map_eq_some_iff hnodup]
  exact and_iff_right s.mem_all

theorem Segment.parse?_eq_none_iff {word : Text} :
    Segment.parse? word = none ↔ ∀ s : Segment, ¬Spells word s.name := by
  simp only [Option.eq_none_iff_forall_ne_some, ne_eq, Segment.parse?_eq_some_iff]

/-! ### The grammar -/

/-- What follows an opcode. -/
inductive OperandShape where
  /-- Nothing. -/
  | nothing
  /-- A segment and an index. -/
  | cell
  /-- A name. -/
  | name
  /-- A name and a count. -/
  | nameAndCount
  deriving DecidableEq

/-- What follows an opcode. -/
def Opcode.shape : Opcode → OperandShape
  | .operate _ | .ret => .nothing
  | .push | .pop => .cell
  | .label | .jump | .jumpIf => .name
  | .function | .call => .nameAndCount

namespace Command

/-- A word writes an integer of sixteen bits. -/
def IsInteger (word : Text) (n : Int) : Prop := Numeral.Writes word n ∧ -32768 ≤ n ∧ n ≤ 32767

/-- **The grammar of commands**: tokens, and the fields of the command that they stand for.  Fields
that are not mentioned are zero or empty. -/
inductive Written : List Text → Record → Prop
  | nothing {word : Text} {k : Opcode} (hk : Spells word k.name) (hshape : k.shape = .nothing) :
      Written [word] { kind := k.number }
  | cell {word segment index : Text} {k : Opcode} {s : Segment} {n : Int}
      (hk : Spells word k.name) (hshape : k.shape = .cell) (hs : Spells segment s.name)
      (hn : IsInteger index n) (hsign : s ≠ .constant → 0 ≤ n) :
      Written [word, segment, index] { kind := k.number, segment := s.number, index := n }
  | name {word name : Text} {k : Opcode} (hk : Spells word k.name) (hshape : k.shape = .name)
      (hname : Text.isSymbol name = true) : Written [word, name] { kind := k.number, name }
  | nameAndCount {word name count : Text} {k : Opcode} {n : Int} (hk : Spells word k.name)
      (hshape : k.shape = .nameAndCount) (hname : Text.isSymbol name = true)
      (hn : IsInteger count n) (hsign : 0 ≤ n) :
      Written [word, name, count] { kind := k.number, index := n, name }

/-- One or two operands after an opcode that takes a cell, of which the first is no segment. -/
inductive UnknownSegment : List Text → Prop
  | mk {word segment : Text} {rest : List Text} {k : Opcode} (hk : Spells word k.name)
      (hshape : k.shape = .cell) (hs : ∀ s : Segment, ¬Spells segment s.name)
      (hrest : rest.length ≤ 1) : UnknownSegment (word :: segment :: rest)

/-- Operands that fit in number, with a segment that is known if there is one, of which a name or a
number is missing or wrong. -/
inductive BadOperand : List Text → Prop
  | missingIndex {word segment : Text} {k : Opcode} {s : Segment} (hk : Spells word k.name)
      (hshape : k.shape = .cell) (hs : Spells segment s.name) : BadOperand [word, segment]
  | badIndex {word segment index : Text} {k : Opcode} {s : Segment} (hk : Spells word k.name)
      (hshape : k.shape = .cell) (hs : Spells segment s.name)
      (hn : ∀ n, IsInteger index n → s ≠ .constant ∧ n < 0) : BadOperand [word, segment, index]
  | badName {word name : Text} {k : Opcode} (hk : Spells word k.name) (hshape : k.shape = .name)
      (hname : Text.isSymbol name = false) : BadOperand [word, name]
  | missingCount {word name : Text} {k : Opcode} (hk : Spells word k.name)
      (hshape : k.shape = .nameAndCount) : BadOperand [word, name]
  | badNameOrCount {word name count : Text} {k : Opcode} (hk : Spells word k.name)
      (hshape : k.shape = .nameAndCount)
      (h : Text.isSymbol name = false ∨ ∀ n, IsInteger count n → n < 0) :
      BadOperand [word, name, count]

/-! ### What the reader does with operands -/

theorem parseInteger_eq_ok_iff {word : Text} {n : Int} :
    parseInteger word = .ok n ↔ IsInteger word n := by
  have hread : Numeral.readInt? 32767 word = some n ↔ IsInteger word n :=
    Numeral.readInt?_eq_some_iff
  rw [← hread, parseInteger]
  cases Numeral.readInt? 32767 word with
  | none => exact iff_of_false nofun nofun
  | some m => simp

theorem IsInteger.unique {word : Text} {m n : Int} (hm : IsInteger word m) (hn : IsInteger word n) :
    m = n := by
  have h := (parseInteger_eq_ok_iff.2 hm).symm.trans (parseInteger_eq_ok_iff.2 hn)
  injection h

theorem parseInteger_eq_error {word : Text} {f : Fault} (h : parseInteger word = .error f) :
    f.kind = .invalidOperand ∧ ∀ n, ¬IsInteger word n := by
  refine ⟨?_, fun n hn => ?_⟩
  · unfold parseInteger at h
    split at h
    · cases h
    · injection h with h
      rw [← h]
      rfl
  · rw [parseInteger_eq_ok_iff.2 hn] at h
    cases h

theorem parseSymbol_of_isSymbol {word : Text} (h : Text.isSymbol word = true) :
    parseSymbol word = .ok word := if_pos h

theorem parseSymbol_of_not_isSymbol {word : Text} (h : Text.isSymbol word = false) :
    parseSymbol word = .error (.badSymbol word) := if_neg (by rw [h]; exact Bool.false_ne_true)

theorem ofOperands_nothing {k : Opcode} (h : k.shape = .nothing) :
    ∃ c : Command, c.record = { kind := k.number } ∧
      ∀ operands, ofOperands k operands = parseNothing k c operands := by
  cases k with
  | operate o => exact ⟨.operate o, rfl, fun _ => rfl⟩
  | ret => exact ⟨.ret, rfl, fun _ => rfl⟩
  | _ => cases h

theorem ofOperands_cell {k : Opcode} (h : k.shape = .cell) :
    ∃ make : Segment → Int → Command,
      (∀ s n, (make s n).record = { kind := k.number, segment := s.number, index := n }) ∧
      ∀ operands, ofOperands k operands = parseCell k make operands := by
  cases k with
  | push => exact ⟨.push, fun _ _ => rfl, fun _ => rfl⟩
  | pop => exact ⟨.pop, fun _ _ => rfl, fun _ => rfl⟩
  | _ => cases h

theorem ofOperands_name {k : Opcode} (h : k.shape = .name) :
    ∃ make : Text → Command, (∀ name, (make name).record = { kind := k.number, name }) ∧
      ∀ operands, ofOperands k operands = parseLabel k make operands := by
  cases k with
  | label => exact ⟨.label, fun _ => rfl, fun _ => rfl⟩
  | jump => exact ⟨.jump, fun _ => rfl, fun _ => rfl⟩
  | jumpIf => exact ⟨.jumpIf, fun _ => rfl, fun _ => rfl⟩
  | _ => cases h

theorem ofOperands_nameAndCount {k : Opcode} (h : k.shape = .nameAndCount) :
    ∃ make : Text → Int → Command,
      (∀ name n, (make name n).record = { kind := k.number, index := n, name }) ∧
      ∀ operands, ofOperands k operands = parseNameAndCount k make operands := by
  cases k with
  | function => exact ⟨.function, fun _ _ => rfl, fun _ => rfl⟩
  | call => exact ⟨.call, fun _ _ => rfl, fun _ => rfl⟩
  | _ => cases h

theorem ofTokens_of_spells {word : Text} {k : Opcode} (h : Spells word k.name)
    (operands : List Text) : ofTokens (word :: operands) = ofOperands k operands := by
  rw [ofTokens, Opcode.parse?_eq_some_iff.2 h]

/-! ### From the grammar to the reader -/

/-- **What the grammar says is read.** -/
theorem Written.ofTokens_eq {tokens : List Text} {r : Record} (h : Written tokens r) :
    ∃ c, ofTokens tokens = .ok c ∧ c.record = r := by
  cases h with
  | nothing hk hshape =>
      obtain ⟨c, hrecord, hparse⟩ := ofOperands_nothing hshape
      exact ⟨c, (ofTokens_of_spells hk _).trans (hparse _), hrecord⟩
  | cell hk hshape hs hn hsign =>
      obtain ⟨make, hrecord, hparse⟩ := ofOperands_cell hshape
      refine ⟨make _ _, ?_, hrecord _ _⟩
      rw [ofTokens_of_spells hk, hparse]
      simp only [parseCell, Segment.parse?_eq_some_iff.2 hs, parseInteger_eq_ok_iff.2 hn]
      exact if_neg fun hneg => absurd (hsign hneg.1) (Int.not_le.2 hneg.2)
  | name hk hshape hname =>
      obtain ⟨make, hrecord, hparse⟩ := ofOperands_name hshape
      refine ⟨make _, ?_, hrecord _⟩
      rw [ofTokens_of_spells hk, hparse, parseLabel, parseSymbol_of_isSymbol hname]
  | nameAndCount hk hshape hname hn hsign =>
      obtain ⟨make, hrecord, hparse⟩ := ofOperands_nameAndCount hshape
      refine ⟨make _ _, ?_, hrecord _ _⟩
      rw [ofTokens_of_spells hk, hparse]
      simp only [parseNameAndCount, parseSymbol_of_isSymbol hname, parseInteger_eq_ok_iff.2 hn]
      exact if_neg (Int.not_lt.2 hsign)

/-- A segment that is unknown is reported. -/
theorem UnknownSegment.ofTokens_eq {tokens : List Text} (h : UnknownSegment tokens) :
    ∃ f, ofTokens tokens = .error f ∧ f.kind = .unknownSegment := by
  obtain ⟨hk, hshape, hs, hrest⟩ := h
  rename_i word segment rest k
  have hnone := Segment.parse?_eq_none_iff.2 hs
  obtain ⟨make, -, hparse⟩ := ofOperands_cell hshape
  refine ⟨.unknownSegment segment, ?_, rfl⟩
  rw [ofTokens_of_spells hk, hparse]
  match rest, hrest with
  | [], _ => simp only [parseCell, hnone]
  | [index], _ => simp only [parseCell, hnone]

/-- An operand that is missing or wrong is reported. -/
theorem BadOperand.ofTokens_eq {tokens : List Text} (h : BadOperand tokens) :
    ∃ f, ofTokens tokens = .error f ∧ f.kind = .invalidOperand := by
  cases h with
  | @missingIndex word segment k s hk hshape hs =>
      obtain ⟨make, -, hparse⟩ := ofOperands_cell hshape
      refine ⟨.missingIndex k s, ?_, rfl⟩
      rw [ofTokens_of_spells hk, hparse]
      simp only [parseCell, Segment.parse?_eq_some_iff.2 hs]
  | @badIndex word segment index k s hk hshape hs hn =>
      obtain ⟨make, -, hparse⟩ := ofOperands_cell hshape
      rw [ofTokens_of_spells hk, hparse]
      simp only [parseCell, Segment.parse?_eq_some_iff.2 hs]
      cases hindex : parseInteger index with
      | error f => exact ⟨f, rfl, (parseInteger_eq_error hindex).1⟩
      | ok n => exact ⟨_, if_pos (hn n (parseInteger_eq_ok_iff.1 hindex)), rfl⟩
  | @badName word name k hk hshape hname =>
      obtain ⟨make, -, hparse⟩ := ofOperands_name hshape
      refine ⟨.badSymbol name, ?_, rfl⟩
      rw [ofTokens_of_spells hk, hparse, parseLabel, parseSymbol_of_not_isSymbol hname]
  | @missingCount word name k hk hshape =>
      obtain ⟨make, -, hparse⟩ := ofOperands_nameAndCount hshape
      rw [ofTokens_of_spells hk, hparse]
      cases hname : Text.isSymbol name with
      | false =>
          refine ⟨.badSymbol name, ?_, rfl⟩
          simp only [parseNameAndCount, parseSymbol_of_not_isSymbol hname]
      | true =>
          refine ⟨.missingCount k name, ?_, rfl⟩
          simp only [parseNameAndCount, parseSymbol_of_isSymbol hname]
  | @badNameOrCount word name count k hk hshape hbad =>
      obtain ⟨make, -, hparse⟩ := ofOperands_nameAndCount hshape
      rw [ofTokens_of_spells hk, hparse]
      cases hname : Text.isSymbol name with
      | false =>
          refine ⟨.badSymbol name, ?_, rfl⟩
          simp only [parseNameAndCount, parseSymbol_of_not_isSymbol hname]
      | true =>
          have hcount := hbad.resolve_left (by rw [hname]; nofun)
          simp only [parseNameAndCount, parseSymbol_of_isSymbol hname]
          cases hn : parseInteger count with
          | error f => exact ⟨f, rfl, (parseInteger_eq_error hn).1⟩
          | ok n => exact ⟨_, if_pos (hcount n (parseInteger_eq_ok_iff.1 hn)), rfl⟩

/-! ### From the reader to the grammar -/

/-- What can be read from tokens. -/
inductive Read (tokens : List Text) : Except Fault Command → Prop
  | written {c : Command} (h : Written tokens c.record) : Read tokens (.ok c)
  | unknownSegment {f : Fault} (hf : f.kind = .unknownSegment) (h : UnknownSegment tokens) :
      Read tokens (.error f)
  | badOperand {f : Fault} (hf : f.kind = .invalidOperand) (h : BadOperand tokens) :
      Read tokens (.error f)
  | unrecognized {f : Fault} (hf : f.kind = .unrecognizedCommand) : Read tokens (.error f)

section Operands

variable {word : Text} {k : Opcode} (hk : Spells word k.name)

include hk

theorem read_parseNothing (hshape : k.shape = .nothing) {c : Command}
    (hrecord : c.record = { kind := k.number }) (operands : List Text) :
    Read (word :: operands) (parseNothing k c operands) := by
  unfold parseNothing
  split
  · refine .written ?_
    rw [hrecord]
    exact .nothing hk hshape
  · exact .unrecognized rfl

theorem read_parseCell (hshape : k.shape = .cell) {make : Segment → Int → Command}
    (hrecord : ∀ s n, (make s n).record = { kind := k.number, segment := s.number, index := n })
    (operands : List Text) : Read (word :: operands) (parseCell k make operands) := by
  match operands with
  | [] | _ :: _ :: _ :: _ => exact .unrecognized rfl
  | [segment] =>
      cases hs : Segment.parse? segment with
      | none =>
          simp only [parseCell, hs]
          exact .unknownSegment rfl (.mk hk hshape (Segment.parse?_eq_none_iff.1 hs) (by simp))
      | some s =>
          simp only [parseCell, hs]
          exact .badOperand rfl (.missingIndex hk hshape (Segment.parse?_eq_some_iff.1 hs))
  | [segment, index] =>
      cases hs : Segment.parse? segment with
      | none =>
          simp only [parseCell, hs]
          exact .unknownSegment rfl (.mk hk hshape (Segment.parse?_eq_none_iff.1 hs) (by simp))
      | some s =>
          have hspells := Segment.parse?_eq_some_iff.1 hs
          simp only [parseCell, hs]
          cases hn : parseInteger index with
          | error f =>
              obtain ⟨hf, hbad⟩ := parseInteger_eq_error hn
              exact .badOperand hf (.badIndex hk hshape hspells fun m hm => absurd hm (hbad m))
          | ok n =>
              have hint := parseInteger_eq_ok_iff.1 hn
              dsimp only
              split
              · next hneg =>
                  refine .badOperand rfl (.badIndex hk hshape hspells fun m hm => ?_)
                  rwa [hm.unique hint]
              · next hneg =>
                  refine .written ?_
                  rw [hrecord]
                  exact .cell hk hshape hspells hint fun hs =>
                    Int.not_lt.1 fun hlt => hneg ⟨hs, hlt⟩

theorem read_parseLabel (hshape : k.shape = .name) {make : Text → Command}
    (hrecord : ∀ name, (make name).record = { kind := k.number, name }) (operands : List Text) :
    Read (word :: operands) (parseLabel k make operands) := by
  match operands with
  | [] | _ :: _ :: _ => exact .unrecognized rfl
  | [name] =>
      cases hname : Text.isSymbol name with
      | false =>
          rw [parseLabel, parseSymbol_of_not_isSymbol hname]
          exact .badOperand rfl (.badName hk hshape hname)
      | true =>
          rw [parseLabel, parseSymbol_of_isSymbol hname]
          refine .written ?_
          rw [hrecord]
          exact .name hk hshape hname

theorem read_parseNameAndCount (hshape : k.shape = .nameAndCount) {make : Text → Int → Command}
    (hrecord : ∀ name n, (make name n).record = { kind := k.number, index := n, name })
    (operands : List Text) : Read (word :: operands) (parseNameAndCount k make operands) := by
  match operands with
  | [] | _ :: _ :: _ :: _ => exact .unrecognized rfl
  | [name] =>
      cases hname : Text.isSymbol name with
      | false =>
          simp only [parseNameAndCount, parseSymbol_of_not_isSymbol hname]
          exact .badOperand rfl (.missingCount hk hshape)
      | true =>
          simp only [parseNameAndCount, parseSymbol_of_isSymbol hname]
          exact .badOperand rfl (.missingCount hk hshape)
  | [name, count] =>
      cases hname : Text.isSymbol name with
      | false =>
          simp only [parseNameAndCount, parseSymbol_of_not_isSymbol hname]
          exact .badOperand rfl (.badNameOrCount hk hshape (Or.inl hname))
      | true =>
          simp only [parseNameAndCount, parseSymbol_of_isSymbol hname]
          cases hn : parseInteger count with
          | error f =>
              obtain ⟨hf, hbad⟩ := parseInteger_eq_error hn
              exact .badOperand hf
                (.badNameOrCount hk hshape (Or.inr fun m hm => absurd hm (hbad m)))
          | ok n =>
              have hint := parseInteger_eq_ok_iff.1 hn
              dsimp only
              split
              · next hneg =>
                  refine .badOperand rfl (.badNameOrCount hk hshape (Or.inr fun m hm => ?_))
                  rwa [hm.unique hint]
              · next hneg =>
                  refine .written ?_
                  rw [hrecord]
                  exact .nameAndCount hk hshape hname hint (Int.not_lt.1 hneg)

end Operands

/-- **Each list of tokens is read as the grammar says.** -/
theorem read_ofTokens (tokens : List Text) : Read tokens (ofTokens tokens) := by
  cases tokens with
  | nil => exact .unrecognized rfl
  | cons word operands =>
      cases hk : Opcode.parse? word with
      | none =>
          rw [ofTokens, hk]
          exact .unrecognized rfl
      | some k =>
          have hspells := Opcode.parse?_eq_some_iff.1 hk
          rw [ofTokens_of_spells hspells]
          cases hshape : k.shape with
          | nothing =>
              obtain ⟨c, hrecord, hparse⟩ := ofOperands_nothing hshape
              exact hparse operands ▸ read_parseNothing hspells hshape hrecord operands
          | cell =>
              obtain ⟨make, hrecord, hparse⟩ := ofOperands_cell hshape
              exact hparse operands ▸ read_parseCell hspells hshape hrecord operands
          | name =>
              obtain ⟨make, hrecord, hparse⟩ := ofOperands_name hshape
              exact hparse operands ▸ read_parseLabel hspells hshape hrecord operands
          | nameAndCount =>
              obtain ⟨make, hrecord, hparse⟩ := ofOperands_nameAndCount hshape
              exact hparse operands ▸ read_parseNameAndCount hspells hshape hrecord operands

/-! ### Lines -/

/-- A command that is read is understood by the generator: what it refuses it refuses for a bound,
for a count or for a missing function. -/
theorem kind_of_refused {line : Text} {c : Command} (h : parse line = .ok c) {g g' : Generator}
    {f : Fault} (hf : g.perform (.write c.record) = (g', .error f)) :
    f.kind = .segmentBounds ∨ f.kind = .invalidOperand ∨ f.kind = .missingFrame := by
  have hwrite : g.write c = (g', .error f) := by
    simpa only [Generator.perform, command_record] using hf
  cases Generator.refused_of_write (valid_of_parse h) hwrite with
  | pointer | temp => exact Or.inl rfl
  | statics _ hfound => cases hfound <;> exact Or.inl rfl
  | arguments => exact Or.inr (Or.inl rfl)
  | ret => exact Or.inr (Or.inr rfl)

section Lines

variable {line : Text}

theorem read_parse (line : Text) : Read (Text.tokens line) (parse line) := read_ofTokens _

/-- A line has one fault. -/
theorem kind_unique {kind kind' : FaultKind} (h : ∃ f, parse line = .error f ∧ f.kind = kind)
    (h' : ∃ f, parse line = .error f ∧ f.kind = kind') : kind = kind' := by
  obtain ⟨f, hf, rfl⟩ := h
  obtain ⟨f', hf', rfl⟩ := h'
  rw [hf] at hf'
  injection hf' with hf'
  rw [hf']

theorem map_record_parse_iff {r : Record} :
    (parse line).map record = .ok r ↔ Written (Text.tokens line) r := by
  rw [map_eq_ok_iff]
  constructor
  · rintro ⟨c, hc, rfl⟩
    have hread := read_parse line
    rw [hc] at hread
    cases hread with
    | written h => exact h
  · intro h
    exact h.ofTokens_eq

theorem unknownSegment_iff : (∃ f, parse line = .error f ∧ f.kind = .unknownSegment) ↔
    UnknownSegment (Text.tokens line) := by
  constructor
  · rintro ⟨f, hf, hkind⟩
    have hread := read_parse line
    rw [hf] at hread
    cases hread with
    | unknownSegment _ h => exact h
    | badOperand hother | unrecognized hother => rw [hkind] at hother; cases hother
  · intro h
    exact h.ofTokens_eq

theorem invalidOperand_iff : (∃ f, parse line = .error f ∧ f.kind = .invalidOperand) ↔
    BadOperand (Text.tokens line) := by
  constructor
  · rintro ⟨f, hf, hkind⟩
    have hread := read_parse line
    rw [hf] at hread
    cases hread with
    | badOperand _ h => exact h
    | unknownSegment hother | unrecognized hother => rw [hkind] at hother; cases hother
  · intro h
    exact h.ofTokens_eq

/-- What is neither a command nor close to one is not recognized. -/
theorem unrecognizedCommand_iff :
    (∃ f, parse line = .error f ∧ f.kind = .unrecognizedCommand) ↔
      (∀ r, ¬Written (Text.tokens line) r) ∧ ¬UnknownSegment (Text.tokens line) ∧
        ¬BadOperand (Text.tokens line) := by
  constructor
  · intro herror
    refine ⟨fun r h => ?_, fun h => ?_, fun h => ?_⟩
    · obtain ⟨f, hf, -⟩ := herror
      rw [← map_record_parse_iff, hf] at h
      cases h
    · cases kind_unique herror (unknownSegment_iff.2 h)
    · cases kind_unique herror (invalidOperand_iff.2 h)
  · rintro ⟨hnot, hnotSegment, hnotOperand⟩
    have hread := read_parse line
    generalize parse line = x at hread ⊢
    cases hread with
    | written h => exact absurd h (hnot _)
    | unknownSegment _ h => exact absurd h hnotSegment
    | badOperand _ h => exact absurd h hnotOperand
    | unrecognized hf => exact ⟨_, rfl, hf⟩

end Lines

/-- **Exactly the lines of the grammar are commands, and each other line has the fault that the
grammar says.**  The fields of a command hold its parts and nothing else, and the generator finds
the command in them again. -/
theorem parse_follows_grammar (line : Text) :
    (∀ r, (parse line).map record = .ok r ↔ Written (Text.tokens line) r) ∧
    ((∃ f, parse line = .error f ∧ f.kind = .unknownSegment) ↔ UnknownSegment (Text.tokens line)) ∧
    ((∃ f, parse line = .error f ∧ f.kind = .invalidOperand) ↔ BadOperand (Text.tokens line)) ∧
    ((∃ f, parse line = .error f ∧ f.kind = .unrecognizedCommand) ↔
      (∀ r, ¬Written (Text.tokens line) r) ∧ ¬UnknownSegment (Text.tokens line) ∧
        ¬BadOperand (Text.tokens line)) ∧
    ∀ c, parse line = .ok c → c.record.command = .ok c ∧
      ∀ (g g' : Generator) (f : Fault), g.perform (.write c.record) = (g', .error f) →
        f.kind = .segmentBounds ∨ f.kind = .invalidOperand ∨ f.kind = .missingFrame := by
  refine ⟨fun r => map_record_parse_iff, unknownSegment_iff, invalidOperand_iff,
    unrecognizedCommand_iff, ?_⟩
  intro c hc
  refine ⟨command_record c, ?_⟩
  intro g g' f hf
  exact kind_of_refused hc hf

/-- The least constant in odd spelling is a command, which has its four fields and is found in them
again; a negative index of another segment is an operand that is wrong. -/
theorem odd_spelling_follows_grammar :
    Written [ascii "PuSh", ascii "CONSTANT", ascii "-032768"]
        { kind := 0, segment := 1, index := -32768 } ∧
      (push .constant (-32768)).record.command = .ok (push .constant (-32768)) ∧
      BadOperand [ascii "pop", ascii "local", ascii "-1"] := by
  have hline : parse (ascii "  PuSh\tCONSTANT -032768") = .ok (push .constant (-32768)) := by
    decide +kernel
  have htokens : Text.tokens (ascii "  PuSh\tCONSTANT -032768")
      = [ascii "PuSh", ascii "CONSTANT", ascii "-032768"] := by decide +kernel
  obtain ⟨hwritten, -, -, -, hfound⟩ := parse_follows_grammar (ascii "  PuSh\tCONSTANT -032768")
  obtain ⟨-, -, hbad, -, -⟩ := parse_follows_grammar (ascii "pop local -1")
  refine ⟨?_, (hfound _ hline).1, ?_⟩
  · rw [← htokens]
    exact (hwritten _).1 (by rw [hline]; rfl)
  · have hrefused : parse (ascii "pop local -1") = .error (.negativeIndex (-1) .locals) := by
      decide +kernel
    exact hbad.1 ⟨_, hrefused, rfl⟩

end Command

end HackToolchain
