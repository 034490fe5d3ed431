/-
**Where written code ends up in a program.**

Items are *installed* in a program at an address if the words from that address on are those of the
items, and the labels among the items have the addresses at which they stand.  Well-formed items
are installed wherever they are written, whatever stands before and after them.  This is all that
later proofs need to know about the assembler.

Main definitions:

* `codeSize` — the number of instructions of a list of items;
* `Program.value?` — the number that a target is resolved to;
* `Program.Installed` — the items stand in the program from an address on.

Main results:

* `Program.installed_append` — code in sequence is installed in sequence;
* `installed_of_assemble` — **well-formed items are installed where they are written**;
* `label_mem_of_find?`, `load_mem_of_cell` — where labels and variables come from.
-/
import HackToolchain.Proofs.Assembly.Linking

set_option relaxedAutoImplicit false
set_option autoImplicit false

namespace HackToolchain

/-! ### Operations of items -/

/-- The number of instructions of a list of items. -/
def codeSize (is : List Item) : Nat := (is.filterMap Item.operation?).length

@[simp] theorem codeSize_nil : codeSize [] = 0 := rfl

@[simp] theorem codeSize_append (is js : List Item) : codeSize (is ++ js) = codeSize is + codeSize js := by
  simp [codeSize]

@[simp] theorem codeSize_load (t : Target) (is : List Item) :
    codeSize (.load t :: is) = codeSize is + 1 := rfl

@[simp] theorem codeSize_compute (c : Compute) (is : List Item) :
    codeSize (.compute c :: is) = codeSize is + 1 := rfl

@[simp] theorem codeSize_label (name : Text) (is : List Item) :
    codeSize (.label name :: is) = codeSize is := rfl

@[simp] theorem codeSize_blank (is : List Item) : codeSize (.blank :: is) = codeSize is := rfl

@[simp] theorem codeSize_comment (t : Text) (is : List Item) :
    codeSize (.comment t :: is) = codeSize is := rfl

@[simp] theorem render_cons (i : Item) (is : List Item) : render (i :: is) = i.lines ++ render is :=
  List.flatMap_cons

/-- The operation on the line of a well-formed item. -/
theorem operationOn?_of_statement? {line : Text} {i : Item}
    (h : HackToolchain.statement? line = i.statement?) : operationOn? line = i.operation? := by
  rw [operationOn?, h]
  cases i <;> rfl

/-- Well-formed items are read as their operations. -/
theorem operations_render {is : List Item} (h : ∀ i ∈ is, i.WellFormed) :
    operations (render is) = is.filterMap Item.operation? := by
  induction is with
  | nil => rfl
  | cons i is ih =>
      obtain ⟨line, hline, hs⟩ := Item.lines_of_wellFormed (h i (List.mem_cons_self ..))
      rw [render_cons, hline, operations_append, ih fun j hj => h j (List.mem_cons_of_mem _ hj)]
      simp only [operations, List.filterMap_cons, List.filterMap_nil, operationOn?_of_statement? hs]
      cases i.operation? <;> rfl

theorem instructionCount_render {is : List Item} (h : ∀ i ∈ is, i.WellFormed) :
    instructionCount (render is) = codeSize is := by
  rw [instructionCount, operations_render h, codeSize]

/-! ### Installed code -/

namespace Program

/-- The number that a target is resolved to. -/
def value? (p : Program) (t : Target) : Option Nat := p.addressValue? t.address

/-- A label whose name is not predefined has its address. -/
theorem value?_of_label {p : Program} {name : Text} {n : Nat}
    (hname : predefinedCells.lookup name = none) (h : p.labels.find? name = some n) :
    p.value? (.symbol name) = some n := by
  simp [value?, Target.address, hname, addressValue?, h]

/-- The items stand in the program from the address `k` on: their words are there, and their labels
have the addresses at which they stand. -/
def Installed (p : Program) : (k : Nat) → List Item → Prop
  | _, [] => True
  | k, .load t :: is =>
    (∃ n, p.value? t = some n ∧ p.words[k]? = some (Word.ofAddress n)) ∧ p.Installed (k + 1) is
  | k, .compute c :: is => p.words[k]? = some c.word ∧ p.Installed (k + 1) is
  | k, .label name :: is => p.labels.find? name = some k ∧ p.Installed k is
  | k, .blank :: is => p.Installed k is
  | k, .comment _ :: is => p.Installed k is

/-- **Code in sequence is installed in sequence.** -/
theorem installed_append {p : Program} {k : Nat} {is js : List Item} :
    p.Installed k (is ++ js) ↔ p.Installed k is ∧ p.Installed (k + codeSize is) js := by
  induction is generalizing k with
  | nil => simp [Installed]
  | cons i is ih =>
      have hadd : k + 1 + codeSize is = k + (codeSize is + 1) := by omega
      cases i with
      | load t => simp only [List.cons_append, Installed, ih, codeSize_load, hadd, and_assoc]
      | compute c => simp only [List.cons_append, Installed, ih, codeSize_compute, hadd, and_assoc]
      | label name => simp only [List.cons_append, Installed, ih, codeSize_label, and_assoc]
      | blank => simp only [List.cons_append, Installed, ih, codeSize_blank]
      | comment t => simp only [List.cons_append, Installed, ih, codeSize_comment]

namespace Installed

variable {p : Program} {k : Nat} {is : List Item}

/-- Each of the installed items is installed somewhere. -/
theorem of_mem (h : p.Installed k is) {i : Item} (hi : i ∈ is) : ∃ k', p.Installed k' [i] := by
  obtain ⟨before, after, rfl⟩ := List.append_of_mem hi
  rw [← List.singleton_append, installed_append, installed_append] at h
  exact ⟨_, h.2.1⟩

/-- The targets of installed items are resolved. -/
theorem load (h : p.Installed k is) {t : Target} (ht : Item.load t ∈ is) :
    ∃ n, p.value? t = some n := by
  obtain ⟨k', ⟨n, hn, -⟩, -⟩ := h.of_mem ht
  exact ⟨n, hn⟩

/-- The labels among installed items are labels of the program. -/
theorem label (h : p.Installed k is) {name : Text} (hname : Item.label name ∈ is) :
    ∃ n, p.labels.find? name = some n := by
  obtain ⟨k', hn, -⟩ := h.of_mem hname
  exact ⟨k', hn⟩

end Installed

end Program

/-- The word at the address of an operation is the resolved operation. -/
theorem word_of_operation {before after : List Text} {line : Text} {o : Operation} {p : Program}
    (h : assemble (before ++ line :: after) = .ok p)
    (hs : HackToolchain.statement? line = some (.operation o)) :
    p.words[instructionCount before]? = some (Assembler.resolve p.labels p.cells o).2 := by
  rw [words_of_assemble h, operations_append, operations_cons_operation hs, instructionCount]
  simp

/-- **Well-formed items are installed where they are written**, whatever lines stand before and
after them. -/
theorem installed_of_assemble {is : List Item} {before after : List Text} {p : Program}
    (h : assemble (before ++ render is ++ after) = .ok p) (hw : ∀ i ∈ is, i.WellFormed) :
    p.Installed (instructionCount before) is := by
  induction is generalizing before with
  | nil => trivial
  | cons i is ih =>
      obtain ⟨line, hline, hs⟩ := Item.lines_of_wellFormed (hw i (List.mem_cons_self ..))
      have hlines : before ++ render (i :: is) ++ after
          = before ++ line :: (render is ++ after) := by
        rw [render_cons, hline]
        simp
      have hlines' : before ++ line :: (render is ++ after)
          = before ++ [line] ++ render is ++ after := by simp
      rw [hlines] at h
      -- the rest is installed after the line of the first item
      have hrest := ih (hlines' ▸ h) fun j hj => hw j (List.mem_cons_of_mem _ hj)
      have hcount : instructionCount (before ++ [line]) =
          instructionCount before + i.operation?.toList.length := by
        rw [instructionCount_append]
        simp only [instructionCount, operations, List.filterMap_cons, List.filterMap_nil,
          operationOn?_of_statement? hs]
        cases i.operation? <;> rfl
      rw [hcount] at hrest
      cases i with
      | load t =>
          have hmem : Operation.load t.address ∈ operations (before ++ line :: (render is ++ after)) := by
            rw [operations_append, operations_cons_operation hs]
            simp
          obtain ⟨n, hn⟩ := addressValue?_isSome h hmem
          refine ⟨⟨n, hn, ?_⟩, hrest⟩
          rw [word_of_operation h hs, resolve_load hn]
      | compute c => exact ⟨word_of_operation h hs, hrest⟩
      | label name => exact ⟨(labels_find?_iff h).2 ⟨before, line, _, rfl, hs, rfl⟩, hrest⟩
      | blank => exact hrest
      | comment t => exact hrest

/-! ### Labels and variables of written code -/

/-- The labels of a program of well-formed items are the labels among the items. -/
theorem label_mem_of_find? {is : List Item} {p : Program} (h : assemble (render is) = .ok p)
    (hw : ∀ i ∈ is, i.WellFormed) {name : Text} {n : Nat} (hn : p.labels.find? name = some n) :
    Item.label name ∈ is := by
  obtain ⟨before, line, after, hlines, hs, -⟩ := (labels_find?_iff h).1 hn
  have hline : line ∈ render is := by rw [hlines]; simp
  obtain ⟨i, hi, hline⟩ := List.mem_flatMap.1 hline
  obtain ⟨line', hline', hs'⟩ := Item.lines_of_wellFormed (hw i hi)
  rw [hline', List.mem_singleton] at hline
  rw [← hline, hs] at hs'
  cases i with
  | label name' =>
      injection hs' with hs'
      injection hs' with hs'
      exact hs' ▸ hi
  | load t => cases hs'
  | compute c => cases hs'
  | blank => cases hs'
  | comment t => cases hs'

/-- A variable of a program of well-formed items is referred to by an item, and it is neither
predefined nor a label. -/
theorem load_mem_of_cell {is : List Item} {p : Program} (h : assemble (render is) = .ok p)
    (hw : ∀ i ∈ is, i.WellFormed) {name : Text} (hname : name ∈ p.cells.keys) :
    Item.load (.symbol name) ∈ is ∧ predefinedCells.lookup name = none ∧
      p.labels.find? name = none := by
  obtain ⟨hload, hlabel⟩ := (mem_keys_cells_iff h).1 hname
  rw [operations_render hw] at hload
  obtain ⟨i, hi, ho⟩ := List.mem_filterMap.1 hload
  cases i with
  | load t =>
      injection ho with ho
      injection ho with ho
      cases t with
      | number n => cases ho
      | symbol x =>
          simp only [Target.address] at ho
          split at ho
          · cases ho
          · next hnone =>
              injection ho with ho
              subst ho
              exact ⟨hi, hnone, hlabel⟩
  | compute c => cases ho
  | label x => cases ho
  | blank => cases ho
  | comment t => cases ho

end HackToolchain
