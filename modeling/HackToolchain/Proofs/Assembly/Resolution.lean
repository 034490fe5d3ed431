/-
**How names are resolved.**

A name on an `@` line may be declared as a label long after it, or never.  Which of the two it is
can be told from the lines alone, without reading them as the assembler does: the label of a line
stands between its brackets, and the symbol of a line is what follows the sign `@`, if that is
neither a number nor predefined.  The tables of an assembled program are described here by the
labels and the symbols of its lines.

Main definitions:

* `symbolOn?`, `labelOn?`, `holdsInstruction` — what a line refers to, what it declares, and whether
  it takes an address;
* `variableNames` — the symbols that are declared nowhere, in the order of their first reference;
* `Program.Resolves` — the tables and the codes of a program are those of the lines.

Main results:

* `Assembler.foldl_allot` — cells are allotted in the order of first references;
* `isName_of_addressValue?` — only names are resolved;
* `resolves_of_assemble` — **an assembled program resolves the names on its lines**.
-/
import HackToolchain.Proofs.Assembly.Malformed

set_option relaxedAutoImplicit false
set_option autoImplicit false

namespace HackToolchain

/-! ### The names on a line -/

/-- The symbol that a line refers to: what follows the sign `@`, unless it is a number or
predefined. -/
def symbolOn? (line : Text) : Option Text :=
  match Text.trim (Text.code line) with
  | 64 :: x => if x.all Numeral.isDigit || isPredefined x then none else some x
  | _ => none

/-- The name that a line declares: what stands between its brackets. -/
def labelOn? (line : Text) : Option Text :=
  match Text.trim (Text.code line) with
  | 40 :: t => if t.getLast? = some 41 then some t.dropLast else none
  | _ => none

/-- Whether a line takes an address: it holds code, and it does not start like a label. -/
def holdsInstruction (line : Text) : Bool :=
  match Text.trim (Text.code line) with
  | [] => false
  | b :: _ => b != 40

/-- The symbols that are referred to and declared nowhere, in the order of their first reference. -/
def variableNames (lines : List Text) : List Text :=
  ((lines.filterMap symbolOn?).filter fun x => !(lines.filterMap labelOn?).contains x).eraseDups

/-- The name that an operation refers to and that is to be resolved. -/
def Operation.reference? : Operation → Option Text
  | .load (.symbol name) => some name
  | _ => none

theorem Operation.eq_of_reference? {o : Operation} {name : Text} (h : o.reference? = some name) :
    o = .load (.symbol name) := by
  unfold reference? at h
  split at h
  · injection h with h
    rw [h]
  · cases h

theorem mem_variableNames {lines : List Text} {name : Text} :
    name ∈ variableNames lines ↔ (∃ line ∈ lines, symbolOn? line = some name) ∧
      ∀ line ∈ lines, labelOn? line ≠ some name := by
  rw [variableNames, List.mem_eraseDups, List.mem_filter, List.mem_filterMap]
  simp

namespace Statement

/-- What a line that is not empty can be read as. -/
theorem parse_cons_eq_ok {b : UInt8} {t : Text} {st : Statement} (h : parse (b :: t) = .ok st) :
    (b = 64 ∧ ∃ a, parseAddress t = .ok a ∧ st = .operation (.load a)) ∨
      (b = 40 ∧ t.getLast? = some 41 ∧ isName t.dropLast = true ∧ st = .label t.dropLast) ∨
      (b ≠ 64 ∧ b ≠ 40 ∧ ∃ c, st = .operation (.compute c)) := by
  by_cases hat : b = 64
  · subst hat
    obtain ⟨a, ha, hst⟩ := map_eq_ok_iff.1 h
    exact Or.inl ⟨rfl, a, ha, hst.symm⟩
  · by_cases hopen : b = 40
    · subst hopen
      obtain ⟨name, hname, hst⟩ := map_eq_ok_iff.1 h
      unfold parseLabel at hname
      split at hname
      · next hlabel =>
          injection hname with hname
          exact Or.inr (Or.inl ⟨rfl, hlabel.1, hlabel.2, by rw [← hst, hname]⟩)
      · cases hname
    · rw [parse_of_ne hat hopen] at h
      obtain ⟨c, -, hst⟩ := map_eq_ok_iff.1 h
      exact Or.inr (Or.inr ⟨hat, hopen, c, hst.symm⟩)

/-- What can follow the sign `@`. -/
theorem parseAddress_eq_ok {x : Text} {a : Address} (h : parseAddress x = .ok a) :
    (x.all Numeral.isDigit = true ∧ ∃ n, a = .constant n) ∨
      (x.all Numeral.isDigit = false ∧ isPredefined x = true ∧ ∃ n, a = .predefined n) ∨
      (x.all Numeral.isDigit = false ∧ isPredefined x = false ∧ isName x = true ∧
        a = .symbol x) := by
  unfold parseAddress at h
  split at h
  · cases h
  · next b t =>
      split at h
      · split at h
        · next n hn =>
            injection h with h
            exact Or.inl ⟨(Numeral.readNat?_eq_some_iff.1 hn).2.1, n, h.symm⟩
        · cases h
      · next hb =>
          have hdigits : (b :: t).all Numeral.isDigit = false := by
            rw [List.all_cons, Bool.eq_false_iff.2 hb, Bool.false_and]
          split at h
          · next n hn =>
              injection h with h
              exact Or.inr (Or.inl ⟨hdigits, by rw [isPredefined, hn]; rfl, n, h.symm⟩)
          · next hn =>
              split at h
              · next hname =>
                  injection h with h
                  exact Or.inr (Or.inr ⟨hdigits, by rw [isPredefined, hn]; rfl, hname, h.symm⟩)
              · cases h

/-- The symbol of an address, by its text. -/
theorem reference?_of_parseAddress {x : Text} {a : Address} (h : parseAddress x = .ok a) :
    (Operation.load a).reference?
      = if x.all Numeral.isDigit || isPredefined x then none else some x := by
  obtain ⟨hdigits, n, rfl⟩ | ⟨hdigits, hpredefined, n, rfl⟩ | ⟨hdigits, hpredefined, -, rfl⟩ :=
    parseAddress_eq_ok h
  · rw [hdigits]; rfl
  · rw [hdigits, hpredefined]; rfl
  · rw [hdigits, hpredefined]; rfl

theorem isName_of_parseAddress {x name : Text} (h : parseAddress x = .ok (.symbol name)) :
    isName name = true := by
  obtain ⟨-, n, ha⟩ | ⟨-, -, n, ha⟩ | ⟨-, -, hname, ha⟩ := parseAddress_eq_ok h
  · cases ha
  · cases ha
  · injection ha with ha
    rwa [ha]

end Statement

theorem statement?_of_operationOn? {line : Text} {o : Operation} (h : operationOn? line = some o) :
    statement? line = some (.operation o) := by
  unfold operationOn? at h
  split at h
  · next hs => injection h with h; rw [hs, h]
  · cases h

/-- What is declared, and what is referred to, is a name. -/
theorem isName_of_statement? {line name : Text}
    (h : statement? line = some (.label name) ∨
      statement? line = some (.operation (.load (.symbol name)))) : isName name = true := by
  unfold statement? at h
  generalize Text.trim (Text.code line) = t at h
  cases t with
  | nil => rcases h with h | h <;> cases h
  | cons b t =>
      simp only [List.isEmpty_cons, Bool.false_eq_true, if_false] at h
      cases hparse : Statement.parse (b :: t) with
      | error f => rw [hparse] at h; rcases h with h | h <;> cases h
      | ok st =>
          rw [hparse] at h
          simp only [Except.toOption, Option.some.injEq] at h
          obtain ⟨-, a, ha, rfl⟩ | ⟨-, -, hname, rfl⟩ | ⟨-, -, c, rfl⟩ :=
            Statement.parse_cons_eq_ok hparse
          · rcases h with h | h
            · cases h
            · injection h with h
              injection h with h
              subst h
              exact Statement.isName_of_parseAddress ha
          · rcases h with h | h
            · injection h with h
              exact h ▸ hname
            · cases h
          · rcases h with h | h <;> cases h

/-- **What is found on a readable line is what the assembler reads.** -/
theorem names_of_readableLine {line : Text} (h : ReadableLine line) :
    symbolOn? line = (operationOn? line).bind Operation.reference? ∧
      (∀ name, labelOn? line = some name ↔ statement? line = some (.label name)) ∧
      holdsInstruction line = (operationOn? line).isSome := by
  unfold ReadableLine Text.holdsCode at h
  unfold symbolOn? labelOn? holdsInstruction operationOn? statement?
  generalize Text.trim (Text.code line) = t at h ⊢
  cases t with
  | nil =>
      refine ⟨rfl, fun name => ?_, rfl⟩
      constructor <;> intro h <;> cases h
  | cons b t =>
      obtain ⟨st, hst⟩ := h rfl
      simp only [List.isEmpty_cons, Bool.false_eq_true, if_false, hst, Except.toOption]
      obtain ⟨rfl, a, ha, rfl⟩ | ⟨rfl, hlast, -, rfl⟩ | ⟨hat, hopen, c, rfl⟩ :=
        Statement.parse_cons_eq_ok hst
      · refine ⟨(Statement.reference?_of_parseAddress ha).symm, fun name => ?_, rfl⟩
        constructor <;> intro h <;> cases h
      · refine ⟨rfl, fun name => ?_, rfl⟩
        simp only [hlast, if_true, Option.some.injEq, Statement.label.injEq]
      · simp [hat, hopen, Operation.reference?]

/-! ### The names on all lines -/

theorem instructionCount_eq_countP {lines : List Text} (h : ∀ line ∈ lines, ReadableLine line) :
    instructionCount lines = lines.countP holdsInstruction := by
  rw [instructionCount, operations, List.length_filterMap_eq_countP]
  refine List.countP_congr fun line hline => ?_
  rw [(names_of_readableLine (h line hline)).2.2]

theorem filterMap_symbolOn? {lines : List Text} (h : ∀ line ∈ lines, ReadableLine line) :
    lines.filterMap symbolOn? = (operations lines).filterMap Operation.reference? := by
  rw [operations, List.filterMap_filterMap]
  exact List.filterMap_congr fun line hline => (names_of_readableLine (h line hline)).1

/-- **A name has no label exactly if it is declared on no line.** -/
theorem labels_find?_eq_none_iff {lines : List Text} {p : Program} (h : assemble lines = .ok p)
    {name : Text} : p.labels.find? name = none ↔ ∀ line ∈ lines, labelOn? line ≠ some name := by
  have hreadable := readable_of_assemble h
  constructor
  · intro hnone line hline hlabel
    obtain ⟨before, after, hlines⟩ := List.append_of_mem hline
    have hs := ((names_of_readableLine (hreadable line hline)).2.1 name).1 hlabel
    rw [(labels_find?_iff h).2 ⟨before, line, after, hlines, hs, rfl⟩] at hnone
    cases hnone
  · intro hall
    cases hfind : p.labels.find? name with
    | none => rfl
    | some n =>
        obtain ⟨before, line, after, hlines, hs, -⟩ := (labels_find?_iff h).1 hfind
        have hline : line ∈ lines := by rw [hlines]; simp
        exact absurd (((names_of_readableLine (hreadable line hline)).2.1 name).2 hs)
          (hall line hline)

/-! ### Cells in the order of first references -/

namespace Assembler

variable {labels : SymbolTable}

/-- The names that are no labels. -/
def unlabelled (labels : SymbolTable) (names : List Text) : List Text :=
  names.filter fun x => (labels.find? x).isNone

theorem keys_zipIdx (ks : List Text) (n : Nat) : SymbolTable.keys (ks.zipIdx n) = ks :=
  List.zipIdx_map_fst n ks

theorem find?_zipIdx_eq_none_iff {ks : List Text} {n : Nat} {name : Text} :
    SymbolTable.find? (ks.zipIdx n) name = none ↔ name ∉ ks := by
  rw [SymbolTable.find?_eq_none_iff, keys_zipIdx]

/-- A reference to a label, or to a variable that has a cell, changes nothing. -/
theorem allot_of_known {ks : List Text} {n : Nat} {name : Text}
    (h : labels.find? name ≠ none ∨ name ∈ ks) :
    allot labels (ks.zipIdx n) name = ks.zipIdx n := by
  refine if_pos ?_
  rw [Bool.or_eq_true, Option.isSome_iff_ne_none, Option.isSome_iff_ne_none, Ne, Ne,
    find?_zipIdx_eq_none_iff, Decidable.not_not]
  exact h

/-- A reference to a new variable takes the next cell. -/
theorem allot_of_new {ks : List Text} {name : Text} (hlabel : labels.find? name = none)
    (hnew : name ∉ ks) :
    allot labels (ks.zipIdx Program.variableBase) name
      = (ks ++ [name]).zipIdx Program.variableBase := by
  have hnone := find?_zipIdx_eq_none_iff (n := Program.variableBase).2 hnew
  unfold allot
  rw [hlabel, hnone, List.zipIdx_append, List.length_zipIdx]
  rfl

/-- **Cells are allotted in the order of first references.**  After the names `ks`, the names that
are referred to, are no labels and are not among `ks` get cells, each at its first reference. -/
theorem foldl_allot (names ks : List Text) :
    names.foldl (allot labels) (ks.zipIdx Program.variableBase) =
      (ks ++ ((unlabelled labels names).filter fun x => !ks.contains x).eraseDups).zipIdx
        Program.variableBase := by
  induction names generalizing ks with
  | nil => simp [unlabelled]
  | cons name names ih =>
      rw [List.foldl_cons]
      cases hlabel : labels.find? name with
      | some n =>
          have hdrop : unlabelled labels (name :: names) = unlabelled labels names :=
            List.filter_cons_of_neg (by simp [hlabel])
          rw [allot_of_known (Or.inl (by simp [hlabel])), ih, hdrop]
      | none =>
          have hkeep : unlabelled labels (name :: names) = name :: unlabelled labels names :=
            List.filter_cons_of_pos (by simp [hlabel])
          rw [hkeep]
          by_cases hmem : name ∈ ks
          · rw [allot_of_known (Or.inr hmem), ih, List.filter_cons_of_neg (by simpa using hmem)]
          · rw [allot_of_new hlabel hmem, ih, List.filter_cons_of_pos (by simpa using hmem),
              List.eraseDups_cons, List.filter_filter, List.append_assoc, List.singleton_append]
            -- a name that has its cell now is left out of the rest
            congr 5
            funext x
            simp [Bool.and_comm, beq_eq_decide]

end Assembler

/-- **The variables of a program**, with their cells. -/
theorem cells_of_assemble {lines : List Text} {p : Program} (h : assemble lines = .ok p) :
    p.cells = (variableNames lines).zipIdx Program.variableBase := by
  have hunlabelled : ∀ names, Assembler.unlabelled p.labels names
      = names.filter fun x => !(lines.filterMap labelOn?).contains x := by
    intro names
    refine List.filter_congr fun x _ => ?_
    rw [Bool.eq_iff_iff, Option.isNone_iff_eq_none, labels_find?_eq_none_iff h]
    simp
  have hreadable := readable_of_assemble h
  obtain ⟨a, ha, rfl⟩ := assemble_eq_ok h
  have hops : a.operationsRead = operations lines := by
    rw [Assembler.operationsRead_addLines ha]
    rfl
  have hnames : a.code.toList.filterMap Assembler.reference? = lines.filterMap symbolOn? := by
    rw [filterMap_symbolOn? hreadable, ← hops, Assembler.operationsRead, List.filterMap_map]
    rfl
  calc a.cells = (lines.filterMap symbolOn?).foldl (Assembler.allot a.labels) [] := by
        rw [Assembler.cells, hnames]
    _ = ((Assembler.unlabelled a.labels (lines.filterMap symbolOn?)).filter
          fun x => !List.contains [] x).eraseDups.zipIdx Program.variableBase :=
        Assembler.foldl_allot (lines.filterMap symbolOn?) []
    _ = (variableNames lines).zipIdx Program.variableBase := by
        simp only [List.contains_nil, Bool.not_false, List.filter_true]
        exact congrArg (fun names => names.eraseDups.zipIdx Program.variableBase) (hunlabelled _)

/-- The check of variables looks at the addresses only if there are many of them, and finds an
address of the stack exactly if there is one. -/
theorem checkVariables_eq_error_iff {lines : List Text} {p : Program} (h : assemble lines = .ok p) :
    (∃ e, p.checkVariables = .error e) ↔ ∃ name n, p.cells.find? name = some n ∧ 256 ≤ n := by
  have hok : (∃ e, p.checkVariables = .error e) ↔ ¬p.checkVariables = .ok () := by
    cases p.checkVariables with
    | error e => exact iff_of_true ⟨e, rfl⟩ nofun
    | ok u => exact iff_of_false nofun (not_not_intro rfl)
  rw [hok, Program.checkVariables, Program.checkTable_eq_ok_iff, not_or]
  constructor
  · rintro ⟨-, hall⟩
    simp only [not_forall, Nat.not_lt] at hall
    obtain ⟨⟨name, n⟩, hmem, hn⟩ := hall
    exact ⟨name, n, (SymbolTable.find?_eq_some_iff (allotted_of_assemble h).nodup).2 hmem, hn⟩
  · rintro ⟨name, n, hfind, hn⟩
    obtain ⟨-, hlt⟩ := cell_bounds h hfind
    have hbase : Program.variableBase = 16 := rfl
    refine ⟨by omega, fun hall => ?_⟩
    have := hall _ (SymbolTable.mem_of_find? hfind)
    omega

/-- **Only names are resolved.** -/
theorem isName_of_addressValue? {lines : List Text} {p : Program} (h : assemble lines = .ok p)
    {name : Text} {n : Nat} (hn : p.addressValue? (.symbol name) = some n) :
    isName name = true := by
  have hstatement : ∃ line ∈ lines, statement? line = some (.label name) ∨
      statement? line = some (.operation (.load (.symbol name))) := by
    rcases Option.or_eq_some_iff.1 hn with hlabel | ⟨-, hcell⟩
    · obtain ⟨before, line, after, hlines, hs, -⟩ := (labels_find?_iff h).1 hlabel
      exact ⟨line, by rw [hlines]; simp, Or.inl hs⟩
    · have hkey : name ∈ p.cells.keys :=
        List.mem_map.2 ⟨_, SymbolTable.mem_of_find? hcell, rfl⟩
      obtain ⟨line, hline, ho⟩ := List.mem_filterMap.1 ((mem_keys_cells_iff h).1 hkey).1
      exact ⟨line, hline, Or.inr (statement?_of_operationOn? ho)⟩
  obtain ⟨line, -, hs⟩ := hstatement
  exact isName_of_statement? hs

/-! ### The lines of an assembled program -/

section Assembled

variable {lines : List Text} {p : Program} (h : assemble lines = .ok p)

include h

theorem instructionCount_before {before after : List Text} {line : Text}
    (hlines : lines = before ++ line :: after) :
    instructionCount before = before.countP holdsInstruction := by
  refine instructionCount_eq_countP fun line' hline' => readable_of_assemble h line' ?_
  rw [hlines]
  exact List.mem_append_left _ hline'

theorem labels_find?_iff_labelOn? {name : Text} {n : Nat} :
    p.labels.find? name = some n ↔ ∃ before line after, lines = before ++ line :: after ∧
      labelOn? line = some name ∧ n = before.countP holdsInstruction := by
  rw [labels_find?_iff h]
  refine exists_congr fun before => exists_congr fun line => exists_congr fun after => ?_
  refine and_congr_right fun hlines => ?_
  have hline := readable_of_assemble h line (by rw [hlines]; simp)
  rw [(names_of_readableLine hline).2.1 name, instructionCount_before h hlines]

theorem exists_cells_find?_iff {name : Text} : (∃ n, p.cells.find? name = some n) ↔
    (∃ line ∈ lines, symbolOn? line = some name) ∧
      ∀ line ∈ lines, labelOn? line ≠ some name := by
  rw [← Option.isSome_iff_exists, Option.isSome_iff_ne_none, Ne, SymbolTable.find?_eq_none_iff,
    Decidable.not_not, cells_of_assemble h, Assembler.keys_zipIdx, mem_variableNames]

/-- A reference is resolved, and its instruction carries the address. -/
theorem code_of_symbolOn? {before after : List Text} {line name : Text}
    (hlines : lines = before ++ line :: after) (hsymbol : symbolOn? line = some name) :
    ∃ n, (p.labels.find? name = some n ∨ p.cells.find? name = some n) ∧
      p.codes[before.countP holdsInstruction]? = some (Word.ofAddress n).digits := by
  have hcount := instructionCount_before h hlines
  subst hlines
  have hline := readable_of_assemble h line (by simp)
  rw [(names_of_readableLine hline).1] at hsymbol
  obtain ⟨o, ho, href⟩ := Option.bind_eq_some_iff.1 hsymbol
  obtain rfl := Operation.eq_of_reference? href
  have hmem : Operation.load (.symbol name) ∈ operations (before ++ line :: after) :=
    List.mem_filterMap.2 ⟨line, by simp, ho⟩
  obtain ⟨n, hn⟩ := addressValue?_isSome h hmem
  refine ⟨n, Option.or_eq_some_iff.1 hn |>.imp id And.right, ?_⟩
  rw [codes_of_assemble h, List.getElem?_map, ← hcount,
    word_of_operation h (statement?_of_operationOn? ho), resolve_load hn]
  rfl

end Assembled

/-! ### Resolution -/

/-- The tables and the codes of a program are those of the lines. -/
structure Program.Resolves (p : Program) (lines : List Text) : Prop where
  /-- A label has the number of instructions before its declaration. -/
  labels : ∀ name n, p.labels.find? name = some n ↔ ∃ before line after,
    lines = before ++ line :: after ∧ labelOn? line = some name ∧
      n = before.countP holdsInstruction
  /-- The variables are the symbols that are referred to and declared nowhere. -/
  cellNames : ∀ name, (∃ n, p.cells.find? name = some n) ↔
    (∃ line ∈ lines, symbolOn? line = some name) ∧ ∀ line ∈ lines, labelOn? line ≠ some name
  /-- They are numbered from 16 on in the order of their first reference. -/
  cells : p.cells = (variableNames lines).zipIdx 16
  /-- Their cells are those from 16 on, without gaps. -/
  addresses : p.cells.map Prod.snd = List.range' 16 p.cells.length
  /-- No two variables share a cell. -/
  injective : ∀ x y n, p.cells.find? x = some n → p.cells.find? y = some n → x = y
  /-- No name is a label and a variable. -/
  disjoint : ∀ name, p.labels.find? name = none ∨ p.cells.find? name = none
  /-- A reference carries the address of its label or variable. -/
  references : ∀ before line after name, lines = before ++ line :: after →
    symbolOn? line = some name →
    ∃ n, (p.labels.find? name = some n ∨ p.cells.find? name = some n) ∧
      p.codes[before.countP holdsInstruction]? = some (Word.ofAddress n).digits
  /-- The check of variables fails exactly if a variable has a cell of the stack. -/
  check : (∃ e, p.checkVariables = .error e) ↔ ∃ name n, p.cells.find? name = some n ∧ 256 ≤ n

/-- **An assembled program resolves the names on its lines.**  References may stand before or behind
the declarations; what is a label and what is a variable is decided by all lines together. -/
theorem resolves_of_assemble {lines : List Text} {p : Program} (h : assemble lines = .ok p) :
    p.Resolves lines := by
  have hallotted := allotted_of_assemble h
  constructor
  · intro name n
    exact labels_find?_iff_labelOn? h
  · intro name
    exact exists_cells_find?_iff h
  · exact cells_of_assemble h
  · exact hallotted.addresses
  · intro x y n hx hy
    exact hallotted.eq_of_find? hx hy
  · intro name
    cases hfind : p.cells.find? name with
    | none => exact Or.inr rfl
    | some n =>
        have hundeclared := ((exists_cells_find?_iff h).1 ⟨n, hfind⟩).2
        exact Or.inl ((labels_find?_eq_none_iff h).2 hundeclared)
  · intro before line after name hlines hsymbol
    exact code_of_symbolOn? h hlines hsymbol
  · exact checkVariables_eq_error_iff h

/-- A forward reference to a label, a variable that is named twice, a number and a predefined
cell. -/
def forwardReferences : List Text :=
  [ascii "@END", ascii "@x // first", ascii "(LOOP)", ascii "@7", ascii "@R3", ascii "@y",
    ascii "@x", ascii "D;JGT", ascii "@LOOP", ascii "(END)"]

/-- The first line is resolved by the last one, and the two variables get the first two cells. -/
theorem forwardReferences_resolved :
    ∃ p, assemble forwardReferences = .ok p ∧ p.labels.find? (ascii "END") = some 8 ∧
      p.cells = [(ascii "x", 16), (ascii "y", 17)] ∧
      p.codes[0]? = some (ascii "0000000000001000") := by
  have hok : (assemble forwardReferences).toOption.isSome = true := by decide +kernel
  cases h : assemble forwardReferences with
  | error e => rw [h] at hok; cases hok
  | ok p =>
      have hp := resolves_of_assemble h
      have hend : p.labels.find? (ascii "END") = some 8 :=
        (hp.labels _ _).2 ⟨forwardReferences.dropLast, ascii "(END)", [], rfl, by decide, by decide⟩
      have hcells : p.cells = [(ascii "x", 16), (ascii "y", 17)] :=
        hp.cells.trans (by decide +kernel)
      obtain ⟨n, hn, hcode⟩ :=
        hp.references [] (ascii "@END") forwardReferences.tail (ascii "END") rfl (by decide)
      have hn8 : n = 8 := by
        rcases hn with hn | hn
        · rw [hend] at hn
          injection hn with hn
          exact hn.symm
        · rcases hp.disjoint (ascii "END") with hnone | hnone
          · rw [hend] at hnone; cases hnone
          · rw [hn] at hnone; cases hnone
      subst hn8
      exact ⟨p, rfl, hend, hcells, hcode.trans (by decide)⟩

end HackToolchain
