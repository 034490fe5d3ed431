/-
**What an assembled program holds.**

Reading lines one after the other adds instructions and labels to a state, and finishing resolves
the names.  Here the program is described by the lines alone: its words are the operations of the
lines in order, each with its name resolved, and its labels are the declarations of the lines, each
with the number of operations before it.

Main definitions:

* `operations`, `instructionCount` — the operations of a list of lines, and their number;
* `declarations` — the labels of a list of lines with their addresses;
* `SymbolTable.keys` — the names in a table;
* `Assembler.Allotted` — the tables of variables that the assembler makes;
* `Program.addressValue?` — the number that an address is resolved to.

Main results:

* `Assembler.addLine_cases` — what reading a line does;
* `labels_find?_iff` — **a label has the number of operations before its declaration**;
* `mem_keys_cells_iff` — **the variables are the names that are referred to and are no labels**;
* `words_of_assemble`, `instruction_of_line` — **the words are the resolved operations of the
  lines**.
-/
import HackToolchain.Assembly.Assembler
import HackToolchain.Proofs.Assembly.Written
import HackToolchain.Proofs.Sequences
import HackToolchain.Proofs.Word

set_option relaxedAutoImplicit false
set_option autoImplicit false

namespace HackToolchain

/-! ### Operations and declarations of lines -/

/-- The operation on a line, if it holds one. -/
def operationOn? (line : Text) : Option Operation :=
  match statement? line with
  | some (.operation o) => some o
  | _ => none

/-- The operations of a list of lines. -/
def operations (lines : List Text) : List Operation := lines.filterMap operationOn?

/-- The number of instructions of a list of lines. -/
def instructionCount (lines : List Text) : Nat := (operations lines).length

@[simp] theorem operations_nil : operations [] = [] := rfl

@[simp] theorem operations_append (s t : List Text) :
    operations (s ++ t) = operations s ++ operations t := List.filterMap_append

@[simp] theorem instructionCount_nil : instructionCount [] = 0 := rfl

@[simp] theorem instructionCount_append (s t : List Text) :
    instructionCount (s ++ t) = instructionCount s + instructionCount t := by
  simp [instructionCount]

/-- The labels of a list of lines with their addresses, when `n` instructions stand before the
lines. -/
def declarations (n : Nat) : List Text → SymbolTable
  | [] => []
  | line :: rest =>
    match statement? line with
    | some (.label name) => (name, n) :: declarations n rest
    | some (.operation _) => declarations (n + 1) rest
    | none => declarations n rest

theorem operations_cons_none {line : Text} {rest : List Text} (h : statement? line = none) :
    operations (line :: rest) = operations rest := by
  simp [operations, operationOn?, h]

theorem operations_cons_label {line name : Text} {rest : List Text}
    (h : statement? line = some (.label name)) : operations (line :: rest) = operations rest := by
  simp [operations, operationOn?, h]

theorem operations_cons_operation {line : Text} {o : Operation} {rest : List Text}
    (h : statement? line = some (.operation o)) :
    operations (line :: rest) = o :: operations rest := by
  simp [operations, operationOn?, h]

theorem declarations_append (n : Nat) (s t : List Text) :
    declarations n (s ++ t) = declarations n s ++ declarations (n + instructionCount s) t := by
  induction s generalizing n with
  | nil => simp [declarations]
  | cons line s ih =>
      simp only [List.cons_append, declarations, instructionCount]
      cases h : statement? line with
      | none => simp only [ih, operations_cons_none h, instructionCount]
      | some st =>
          cases st with
          | label name => simp only [ih, operations_cons_label h, instructionCount, List.cons_append]
          | operation o =>
              simp only [ih, operations_cons_operation h, instructionCount, List.length_cons]
              congr 2
              omega

/-- The address of a declaration is the number of operations before it. -/
theorem mem_declarations_iff {n a : Nat} {name : Text} {lines : List Text} :
    (name, a) ∈ declarations n lines ↔
      ∃ before line after, lines = before ++ line :: after ∧
        statement? line = some (.label name) ∧ a = n + instructionCount before := by
  constructor
  · intro h
    induction lines generalizing n with
    | nil => simp [declarations] at h
    | cons line lines ih =>
        -- unless the first line is the declaration, it goes to the lines before
        have later : ∀ m, (name, a) ∈ declarations m lines → m = n + instructionCount [line] →
            ∃ before l after, line :: lines = before ++ l :: after ∧
              statement? l = some (.label name) ∧ a = n + instructionCount before := by
          intro m hm hcount
          obtain ⟨before, l, after, hlines, hl, ha⟩ := ih hm
          refine ⟨line :: before, l, after, by rw [hlines]; rfl, hl, ?_⟩
          rw [← List.singleton_append, instructionCount_append]
          omega
        simp only [declarations] at h
        cases hs : statement? line with
        | none =>
            rw [hs] at h
            exact later n h (by simp [instructionCount, operations_cons_none hs])
        | some st =>
            rw [hs] at h
            cases st with
            | label name' =>
                rcases List.mem_cons.1 h with h | h
                · injection h with hname ha
                  subst hname ha
                  exact ⟨[], line, lines, rfl, hs, by simp⟩
                · exact later n h (by simp [instructionCount, operations_cons_label hs])
            | operation o =>
                exact later (n + 1) h (by simp [instructionCount, operations_cons_operation hs])
  · rintro ⟨before, line, after, rfl, hs, rfl⟩
    rw [declarations_append]
    simp [declarations, hs]

/-! ### Reading lines -/

namespace Assembler

/-- The state after a line number has been counted. -/
def count (a : Assembler) : Assembler := { a with line := a.line + 1 }

/-- The instruction that an operation on a line becomes. -/
def instructionOn (a : Assembler) (line : Text) (o : Operation) : ReadInstruction :=
  { operation := o, line := a.line + 1, source := Text.trim (Text.code line) }

/-- **What reading a line does**: an empty line is counted, an operation is appended, and a label
that is not yet declared is declared. -/
theorem addLine_cases {a b : Assembler} {line : Text} (h : a.addLine line = (b, .ok ())) :
    (statement? line = none ∧ Text.trim (Text.code line) = [] ∧ b = a.count) ∨
    (∃ o, statement? line = some (.operation o) ∧
      b = { a.count with code := a.code.push (a.instructionOn line o) }) ∨
    (∃ name, statement? line = some (.label name) ∧ a.labels.find? name = none ∧
      b = { a.count with labels := (name, a.code.size) :: a.labels }) := by
  simp only [addLine] at h
  by_cases ht : (Text.trim (Text.code line)).isEmpty = true
  · rw [if_pos ht] at h
    injection h with hb _
    exact .inl ⟨by simp [statement?, ht], List.isEmpty_iff.1 ht, hb.symm⟩
  · rw [if_neg ht] at h
    cases hs : Statement.parse (Text.trim (Text.code line)) with
    | error f => rw [hs] at h; injection h with _ he; cases he
    | ok st =>
        rw [hs] at h
        have hst : statement? line = some st := by simp [statement?, ht, hs, Except.toOption]
        cases st with
        | operation o =>
            injection h with hb _
            exact .inr (.inl ⟨o, hst, hb.symm⟩)
        | label name =>
            simp only [addStatement] at h
            cases hf : SymbolTable.find? a.labels name with
            | some n => rw [hf] at h; injection h with _ he; cases he
            | none =>
                rw [hf] at h
                injection h with hb _
                exact .inr (.inr ⟨name, hst, hf, hb.symm⟩)

/-- Reading a list of lines is reading the first and then the others. -/
theorem addLines_cons {a c : Assembler} {line : Text} {rest : List Text}
    (h : a.addLines (line :: rest) = (c, .ok ())) :
    ∃ b, a.addLine line = (b, .ok ()) ∧ b.addLines rest = (c, .ok ()) := by
  simp only [addLines] at h
  cases hb : a.addLine line with
  | mk b r =>
      rw [hb] at h
      cases r with
      | ok u => exact ⟨b, rfl, h⟩
      | error e => injection h with _ he; cases he

/-- The operations read so far. -/
def operationsRead (a : Assembler) : List Operation := a.code.toList.map ReadInstruction.operation

/-- Reading lines appends their operations. -/
theorem operationsRead_addLines {a b : Assembler} {lines : List Text}
    (h : a.addLines lines = (b, .ok ())) :
    b.operationsRead = a.operationsRead ++ operations lines := by
  induction lines generalizing a with
  | nil =>
      simp only [addLines] at h
      injection h with h _
      simp [h]
  | cons line lines ih =>
      obtain ⟨c, hc, hb⟩ := addLines_cons h
      rw [ih hb]
      obtain ⟨hs, -, rfl⟩ | ⟨o, hs, rfl⟩ | ⟨name, hs, -, rfl⟩ := addLine_cases hc
      · rw [operations_cons_none hs]; rfl
      · rw [operations_cons_operation hs]
        simp [operationsRead, instructionOn]
      · rw [operations_cons_label hs]; rfl

/-- Reading lines puts their declarations in front of the labels. -/
theorem labels_addLines {a b : Assembler} {lines : List Text}
    (h : a.addLines lines = (b, .ok ())) :
    b.labels = (declarations a.code.size lines).reverse ++ a.labels := by
  induction lines generalizing a with
  | nil =>
      simp only [addLines] at h
      injection h with h _
      simp [declarations, h]
  | cons line lines ih =>
      obtain ⟨c, hc, hb⟩ := addLines_cons h
      rw [ih hb]
      obtain ⟨hs, -, rfl⟩ | ⟨o, hs, rfl⟩ | ⟨name, hs, -, rfl⟩ := addLine_cases hc
      · simp [declarations, hs, count]
      · simp [declarations, hs, count]
      · simp [declarations, hs, count]

/-- No label is declared twice. -/
theorem nodup_labels_addLines {a b : Assembler} {lines : List Text}
    (h : a.addLines lines = (b, .ok ())) (ha : (a.labels.map Prod.fst).Nodup) :
    (b.labels.map Prod.fst).Nodup := by
  induction lines generalizing a with
  | nil =>
      simp only [addLines] at h
      injection h with h _
      rwa [← h]
  | cons line lines ih =>
      obtain ⟨c, hc, hb⟩ := addLines_cons h
      refine ih hb ?_
      obtain ⟨-, -, rfl⟩ | ⟨o, -, rfl⟩ | ⟨name, -, hf, rfl⟩ := addLine_cases hc
      · exact ha
      · exact ha
      · rw [List.map_cons, List.nodup_cons]
        refine ⟨?_, ha⟩
        intro hmem
        obtain ⟨p, hp, hname⟩ := List.mem_map.1 hmem
        have hne : ∀ q ∈ a.labels, name ≠ q.1 := by
          simpa [SymbolTable.find?, List.lookup_eq_none_iff] using hf
        exact hne p hp hname.symm

/-- Reading lines in two parts. -/
theorem addLines_append {a c : Assembler} {s t : List Text} :
    a.addLines (s ++ t) = (c, .ok ()) ↔
      ∃ b, a.addLines s = (b, .ok ()) ∧ b.addLines t = (c, .ok ()) := by
  induction s generalizing a with
  | nil => simp [addLines]
  | cons line s ih =>
      rw [List.cons_append]
      constructor
      · intro h
        obtain ⟨a', ha', h⟩ := addLines_cons h
        obtain ⟨b, hb, ht⟩ := ih.1 h
        exact ⟨b, by simp only [addLines, ha', hb], ht⟩
      · rintro ⟨b, hb, ht⟩
        obtain ⟨a', ha', hb⟩ := addLines_cons hb
        simp only [addLines, ha']
        exact ih.2 ⟨b, hb, ht⟩

/-- What has been read stays. -/
theorem code_addLines {a b : Assembler} {lines : List Text} (h : a.addLines lines = (b, .ok ())) :
    a.code.toList <+: b.code.toList := by
  induction lines generalizing a with
  | nil =>
      simp only [addLines] at h
      injection h with h _
      subst h
      exact List.prefix_rfl
  | cons line lines ih =>
      obtain ⟨c, hc, hb⟩ := addLines_cons h
      refine List.IsPrefix.trans ?_ (ih hb)
      obtain ⟨-, -, rfl⟩ | ⟨o, -, rfl⟩ | ⟨name, -, -, rfl⟩ := addLine_cases hc
      · exact List.prefix_rfl
      · rw [Array.toList_push]
        exact List.prefix_append _ _
      · exact List.prefix_rfl

end Assembler

/-- An assembled program is what is finished after all its lines have been read. -/
theorem assemble_eq_ok {lines : List Text} {p : Program} (h : assemble lines = .ok p) :
    ∃ a : Assembler, ({} : Assembler).addLines lines = (a, .ok ()) ∧ p = a.finish := by
  simp only [assemble] at h
  cases hr : ({} : Assembler).addLines lines with
  | mk a r =>
      rw [hr] at h
      cases r with
      | ok u => injection h with h; exact ⟨a, rfl, h.symm⟩
      | error e => cases h

/-- Where a line stands in the reading of a program. -/
theorem addLine_of_assemble {before after : List Text} {line : Text} {p : Program}
    (h : assemble (before ++ line :: after) = .ok p) :
    ∃ a b c : Assembler, ({} : Assembler).addLines before = (a, .ok ()) ∧
      a.addLine line = (b, .ok ()) ∧ b.addLines after = (c, .ok ()) ∧ p = c.finish := by
  obtain ⟨c, hc, hp⟩ := assemble_eq_ok h
  obtain ⟨a, ha, hc⟩ := Assembler.addLines_append.1 hc
  obtain ⟨b, hb, hc⟩ := Assembler.addLines_cons hc
  exact ⟨a, b, c, ha, hb, hc, hp⟩

/-! ### Tables -/

namespace SymbolTable

/-- The names in a table. -/
def keys (t : SymbolTable) : List Text := t.map Prod.fst

theorem find?_eq_none_iff {t : SymbolTable} {name : Text} : t.find? name = none ↔ name ∉ t.keys := by
  simp only [find?, keys, List.lookup_eq_none_iff, List.mem_map, not_exists, not_and, bne_iff_ne]
  constructor
  · intro h p hp hname
    exact h p hp hname.symm
  · intro h p hp hname
    exact h p hp hname.symm

theorem exists_find?_of_mem_keys {t : SymbolTable} {name : Text} (h : name ∈ t.keys) :
    ∃ n, t.find? name = some n := by
  cases hf : t.find? name with
  | none => exact absurd h (find?_eq_none_iff.1 hf)
  | some n => exact ⟨n, rfl⟩

theorem mem_of_find? {t : SymbolTable} {name : Text} {n : Nat} (h : t.find? name = some n) :
    (name, n) ∈ t := mem_of_lookup h

/-- In a table without repetition every entry is found. -/
theorem find?_eq_some_iff {t : SymbolTable} (ht : t.keys.Nodup) {name : Text} {n : Nat} :
    t.find? name = some n ↔ (name, n) ∈ t := lookup_eq_some_iff_mem ht

end SymbolTable

/-! ### Labels of a program -/

theorem labels_of_assemble {lines : List Text} {p : Program} (h : assemble lines = .ok p) :
    p.labels = (declarations 0 lines).reverse ∧ p.labels.keys.Nodup := by
  obtain ⟨a, ha, rfl⟩ := assemble_eq_ok h
  refine ⟨?_, Assembler.nodup_labels_addLines ha List.nodup_nil⟩
  have hlabels := Assembler.labels_addLines ha
  rw [List.append_nil] at hlabels
  exact hlabels

/-- **A label has the number of operations before its declaration.** -/
theorem labels_find?_iff {lines : List Text} {p : Program} (h : assemble lines = .ok p)
    {name : Text} {n : Nat} :
    p.labels.find? name = some n ↔
      ∃ before line after, lines = before ++ line :: after ∧
        statement? line = some (.label name) ∧ n = instructionCount before := by
  obtain ⟨hlabels, hnodup⟩ := labels_of_assemble h
  rw [SymbolTable.find?_eq_some_iff hnodup, hlabels, List.mem_reverse, mem_declarations_iff]
  simp only [Nat.zero_add]

/-! ### Variables of a program -/

namespace Assembler

variable {labels : SymbolTable}

/-- A reference adds its name to the variables, unless it is a label or is there already. -/
theorem mem_keys_allot {cells : SymbolTable} {name x : Text} :
    x ∈ (allot labels cells name).keys ↔ x ∈ cells.keys ∨ (x = name ∧ labels.find? name = none) := by
  unfold allot
  split
  · next h =>
      constructor
      · exact Or.inl
      · rintro (hx | ⟨rfl, hl⟩)
        · exact hx
        · rw [hl, Option.isSome_none, Bool.false_or] at h
          by_cases hx : x ∈ cells.keys
          · exact hx
          · rw [SymbolTable.find?_eq_none_iff.2 hx] at h
            cases h
  · next h =>
      have hl : labels.find? name = none := by
        cases hl : labels.find? name with
        | none => rfl
        | some n => rw [hl] at h; simp at h
      simp [SymbolTable.keys, hl]

theorem mem_keys_foldl_allot {names : List Text} {cells : SymbolTable} {x : Text} :
    x ∈ (names.foldl (allot labels) cells).keys ↔
      x ∈ cells.keys ∨ (x ∈ names ∧ labels.find? x = none) := by
  induction names generalizing cells with
  | nil => simp
  | cons name names ih =>
      rw [List.foldl_cons, ih, mem_keys_allot, List.mem_cons]
      constructor
      · rintro ((hx | ⟨rfl, hl⟩) | ⟨hx, hl⟩)
        · exact Or.inl hx
        · exact Or.inr ⟨Or.inl rfl, hl⟩
        · exact Or.inr ⟨Or.inr hx, hl⟩
      · rintro (hx | ⟨rfl | hx, hl⟩)
        · exact Or.inl (Or.inl hx)
        · exact Or.inl (Or.inr ⟨rfl, hl⟩)
        · exact Or.inr ⟨hx, hl⟩

/-- A table of variables: no name twice, and the cells numbered without gaps from the first one
on. -/
structure Allotted (cells : SymbolTable) : Prop where
  nodup : cells.keys.Nodup
  addresses : cells.map Prod.snd = List.range' Program.variableBase cells.length

theorem Allotted.allot {cells : SymbolTable} (h : Allotted cells) (name : Text) :
    Allotted (allot labels cells name) := by
  unfold Assembler.allot
  split
  · exact h
  · next hnone =>
      have hc : cells.find? name = none := by
        cases hc : cells.find? name with
        | none => rfl
        | some n => rw [hc] at hnone; simp at hnone
      constructor
      · rw [SymbolTable.keys, List.map_append, List.nodup_append]
        refine ⟨h.nodup, by simp, ?_⟩
        intro a ha b hb hab
        rw [List.map_singleton, List.mem_singleton] at hb
        subst hab hb
        exact SymbolTable.find?_eq_none_iff.1 hc ha
      · rw [List.map_append, h.addresses, List.length_append, List.length_singleton,
          List.range'_concat]
        simp

theorem Allotted.foldl_allot {names : List Text} {cells : SymbolTable} (h : Allotted cells) :
    Allotted (names.foldl (Assembler.allot labels) cells) := by
  induction names generalizing cells with
  | nil => exact h
  | cons name names ih => exact ih (h.allot name)

theorem allotted_nil : Allotted [] := ⟨List.nodup_nil, rfl⟩

end Assembler

/-- The variables of a program are numbered without gaps. -/
theorem allotted_of_assemble {lines : List Text} {p : Program} (h : assemble lines = .ok p) :
    Assembler.Allotted p.cells := by
  obtain ⟨a, -, rfl⟩ := assemble_eq_ok h
  exact Assembler.allotted_nil.foldl_allot

/-- The cells of variables start at the first one and end before the first plus their number. -/
theorem cell_bounds {lines : List Text} {p : Program} (h : assemble lines = .ok p) {name : Text}
    {n : Nat} (hn : p.cells.find? name = some n) :
    Program.variableBase ≤ n ∧ n < Program.variableBase + p.cells.length := by
  have hmem : n ∈ p.cells.map Prod.snd :=
    List.mem_map.2 ⟨(name, n), SymbolTable.mem_of_find? hn, rfl⟩
  rw [(allotted_of_assemble h).addresses, List.mem_range'_1] at hmem
  exact hmem

/-- Different variables have different cells. -/
theorem Assembler.Allotted.eq_of_find? {cells : SymbolTable} (h : Allotted cells) {x y : Text}
    {n : Nat} (hx : cells.find? x = some n) (hy : cells.find? y = some n) : x = y := by
  have hnodup : (cells.map Prod.snd).Nodup := by
    rw [h.addresses]
    exact List.nodup_range'
  obtain ⟨j, hj, hxj⟩ := List.getElem_of_mem (SymbolTable.mem_of_find? hx)
  obtain ⟨k, hk, hyk⟩ := List.getElem_of_mem (SymbolTable.mem_of_find? hy)
  have hj' : j < (cells.map Prod.snd).length := by rwa [List.length_map]
  have hk' : k < (cells.map Prod.snd).length := by rwa [List.length_map]
  have hcells : (cells.map Prod.snd)[j] = (cells.map Prod.snd)[k] := by
    rw [List.getElem_map, List.getElem_map, hxj, hyk]
  have hjk := (List.getElem_inj hnodup).1 hcells
  subst hjk
  rw [hxj] at hyk
  injection hyk

/-- **All variables lie below the stack** if they are few, or if none of their cells is one of the
stack. -/
theorem Program.checkTable_eq_ok_iff {cells : SymbolTable} :
    checkTable cells = .ok () ↔ cells.length ≤ 240 ∨ ∀ q ∈ cells, q.2 < 256 := by
  have hmisplaced : checkTable cells = .ok () ↔ misplaced cells = [] := by
    unfold checkTable
    split
    · next hnone => simp [hnone]
    · next hsome => simp [hsome]
  have hroom : stackBase - variableBase = 240 := rfl
  rw [hmisplaced, misplaced, hroom]
  by_cases hfew : cells.length ≤ 240
  · rw [if_pos hfew]
    exact ⟨fun _ => Or.inl hfew, fun _ => rfl⟩
  · rw [if_neg hfew, List.filter_eq_nil_iff]
    constructor
    · intro h
      exact Or.inr fun q hq => Nat.lt_of_not_le fun hle => h q hq (decide_eq_true hle)
    · rintro (h | h)
      · exact absurd h hfew
      · intro q hq hle
        exact absurd (h q hq) (Nat.not_lt_of_le (of_decide_eq_true hle))

/-- The variables of a program that passes the check have the cells between 16 and 255. -/
theorem cell_bounds_of_checkVariables {lines : List Text} {p : Program}
    (h : assemble lines = .ok p) (hcheck : p.checkVariables = .ok ()) {name : Text} {n : Nat}
    (hn : p.cells.find? name = some n) : 16 ≤ n ∧ n ≤ 255 := by
  obtain ⟨hlo, hhi⟩ := cell_bounds h hn
  simp only [Program.variableBase] at hlo hhi
  rcases Program.checkTable_eq_ok_iff.1 hcheck with hfew | hbelow
  · omega
  · have := hbelow _ (SymbolTable.mem_of_find? hn)
    omega

/-- **The variables are the names that are referred to and are no labels.** -/
theorem mem_keys_cells_iff {lines : List Text} {p : Program} (h : assemble lines = .ok p)
    {name : Text} :
    name ∈ p.cells.keys ↔
      Operation.load (.symbol name) ∈ operations lines ∧ p.labels.find? name = none := by
  obtain ⟨a, ha, rfl⟩ := assemble_eq_ok h
  have hops : a.operationsRead = operations lines := by
    rw [Assembler.operationsRead_addLines ha]
    rfl
  have hrefs : name ∈ a.code.toList.filterMap Assembler.reference? ↔
      Operation.load (.symbol name) ∈ a.operationsRead := by
    rw [List.mem_filterMap, Assembler.operationsRead, List.mem_map]
    refine exists_congr fun i => and_congr_right fun _ => ?_
    unfold Assembler.reference?
    split
    · next x hx => simp [hx]
    · next hx =>
        constructor
        · intro h; cases h
        · intro h; exact absurd h (hx name)
  have hkeys : name ∈ a.finish.cells.keys ↔
      name ∈ SymbolTable.keys [] ∨
        (name ∈ a.code.toList.filterMap Assembler.reference? ∧ a.labels.find? name = none) :=
    Assembler.mem_keys_foldl_allot
  rw [hkeys, ← hops, ← hrefs]
  constructor
  · rintro (hnil | hmem)
    · cases hnil
    · exact hmem
  · exact Or.inr

/-! ### Words of a program -/

/-- The number that an address is resolved to. -/
def Program.addressValue? (p : Program) : Address → Option Nat
  | .constant n | .predefined n => some n
  | .symbol name => (p.labels.find? name).or (p.cells.find? name)

/-- Every address of an assembled program is resolved. -/
theorem addressValue?_isSome {lines : List Text} {p : Program} (h : assemble lines = .ok p)
    {a : Address} (ha : Operation.load a ∈ operations lines) : ∃ n, p.addressValue? a = some n := by
  cases a with
  | constant n => exact ⟨n, rfl⟩
  | predefined n => exact ⟨n, rfl⟩
  | symbol name =>
      cases hl : p.labels.find? name with
      | some n => exact ⟨n, by simp [Program.addressValue?, hl]⟩
      | none =>
          obtain ⟨n, hc⟩ := SymbolTable.exists_find?_of_mem_keys ((mem_keys_cells_iff h).2 ⟨ha, hl⟩)
          exact ⟨n, by simp [Program.addressValue?, hl, hc]⟩

/-- The word of a load carries the number that its address is resolved to. -/
theorem resolve_load {p : Program} {a : Address} {n : Nat} (h : p.addressValue? a = some n) :
    (Assembler.resolve p.labels p.cells (.load a)).2 = Word.ofAddress n := by
  cases a with
  | constant m => injection h with h; rw [Assembler.resolve, h]
  | predefined m => injection h with h; rw [Assembler.resolve, h]
  | symbol name =>
      simp only [Program.addressValue?] at h
      simp only [Assembler.resolve]
      cases hl : p.labels.find? name with
      | some m =>
          rw [hl] at h
          injection h with h
          rw [h]
      | none =>
          rw [hl, Option.none_or] at h
          simp [h]

/-- **The words are the resolved operations of the lines.** -/
theorem words_of_assemble {lines : List Text} {p : Program} (h : assemble lines = .ok p) :
    p.words = (operations lines).map fun o => (Assembler.resolve p.labels p.cells o).2 := by
  obtain ⟨a, ha, rfl⟩ := assemble_eq_ok h
  have hops : a.operationsRead = operations lines := by
    rw [Assembler.operationsRead_addLines ha]
    rfl
  rw [← hops, Assembler.operationsRead, Program.words, Assembler.finish, List.map_map, List.map_map]
  refine List.map_congr_left fun i _ => ?_
  simp only [Function.comp_apply, Instruction.word, Word.readBinary_digits]

/-- **The instruction of a line**: it stands behind the instructions of the lines before, it shows
the line without comment and surrounding white space, and its word is the resolved operation. -/
theorem instruction_of_line {before after : List Text} {line : Text} {o : Operation} {p : Program}
    (h : assemble (before ++ line :: after) = .ok p) (hs : statement? line = some (.operation o)) :
    ∃ i, p.instructions[instructionCount before]? = some i ∧
      i.source = Text.trim (Text.code line) ∧
      i.word = (Assembler.resolve p.labels p.cells o).2 := by
  obtain ⟨a, b, c, ha, hb, hc, rfl⟩ := addLine_of_assemble h
  have hsize : a.code.toList.length = instructionCount before := by
    have hread := congrArg List.length (Assembler.operationsRead_addLines ha)
    simpa [Assembler.operationsRead, instructionCount] using hread
  have hget : c.code.toList[instructionCount before]? = some (a.instructionOn line o) := by
    obtain ⟨hnone, -⟩ | ⟨o', ho', rfl⟩ | ⟨name, hlabel, -⟩ := Assembler.addLine_cases hb
    · rw [hs] at hnone; cases hnone
    · rw [hs] at ho'
      injection ho' with ho'
      injection ho' with ho'
      obtain ⟨rest, hrest⟩ := Assembler.code_addLines hc
      rw [← hrest, Array.toList_push, ← hsize, ho']
      simp
    · rw [hs] at hlabel; injection hlabel with hlabel; cases hlabel
  refine ⟨_, by rw [Assembler.finish, List.getElem?_map, hget]; rfl, rfl, ?_⟩
  simp only [Instruction.word, Word.readBinary_digits]
  rfl

/-- A line that starts with the sign `@` is read as an address. -/
theorem statement?_of_address {before after : List Text} {line x : Text} {p : Program}
    (h : assemble (before ++ line :: after) = .ok p) (hx : Text.trim (Text.code line) = 64 :: x) :
    ∃ a, Statement.parseAddress x = .ok a ∧ statement? line = some (.operation (.load a)) := by
  obtain ⟨a, b, -, -, hb, -⟩ := addLine_of_assemble h
  have hstatement : statement? line
      = ((Statement.parseAddress x).map fun a => .operation (.load a)).toOption := by
    rw [statement?, hx]
    rfl
  have hsome : ∃ st, statement? line = some st := by
    obtain ⟨-, hempty, -⟩ | ⟨o, ho, -⟩ | ⟨name, hlabel, -⟩ := Assembler.addLine_cases hb
    · rw [hx] at hempty; cases hempty
    · exact ⟨_, ho⟩
    · exact ⟨_, hlabel⟩
  obtain ⟨st, hst⟩ := hsome
  cases haddress : Statement.parseAddress x with
  | error f => rw [hstatement, haddress] at hst; cases hst
  | ok a => exact ⟨a, rfl, by rw [hstatement, haddress]; rfl⟩

/-- The printed codes are the binary digits of the words. -/
theorem codes_of_assemble {lines : List Text} {p : Program} (h : assemble lines = .ok p) :
    p.codes = p.words.map Word.digits := by
  obtain ⟨a, -, rfl⟩ := assemble_eq_ok h
  simp only [Program.codes, Program.words, Assembler.finish, List.map_map]
  refine List.map_congr_left fun i _ => ?_
  simp only [Function.comp_apply, Instruction.word, Word.readBinary_digits]

theorem length_instructions {lines : List Text} {p : Program} (h : assemble lines = .ok p) :
    p.instructions.length = instructionCount lines := by
  have := congrArg List.length (words_of_assemble h)
  simpa [Program.words, instructionCount] using this

end HackToolchain
