/-
**Sessions with the assembler.**

A session overwrites its own instructions each time a program is finished, and it goes on after lines
that were refused.  Neither can be seen in a later program: every program that a session gives is the
program of the lines added so far, with an empty line in the place of each that was refused.

The proof compares a session with an `Assembler` that reads the same lines, and never resolves anything
before the end.  Each instruction of the session holds the line, the source and the name of the
instruction that was read; only what finishing fills in may be out of date, and it is filled in again
before it is looked at.

Main definitions:

* `Draft.Holds` — a draft holds all that does not change when names are resolved;
* `AssemblySession.Mirrors` — a session holds what an assembler has read;
* `AssemblySession.run` — steps one after the other, each with what it gave;
* `keptLines` — the lines of a session, with an empty line for each that was refused.

Main results:

* `AssemblySession.foldl_fill` — **what filling in does to the instructions**;
* `AssemblySession.Mirrors.addLine`, `AssemblySession.Mirrors.finish` — reading a line and finishing a
  program, compared;
* `AssemblySession.Mirrors.perform`, `AssemblySession.Mirrors.run` — **what a step and a run preserve**;
* `AssemblySession.finish_addText` — a session that starts with a text gives the program of the text;
* `AssemblySession.programs_eq_assemble_kept` — **every program of a session is the program of its kept
  lines**, wherever programs were finished before.
-/
import HackToolchain.Assembly.Session
import HackToolchain.Proofs.Assembly.Accepted

set_option relaxedAutoImplicit false
set_option autoImplicit false

namespace HackToolchain

namespace Assembler

/-! ### References -/

/-- The names that are to be resolved, with the indices of their instructions. -/
def indexedReferences (code : List ReadInstruction) : List (Nat × Text) :=
  code.zipIdx.filterMap fun p => (reference? p.1).map fun name => (p.2, name)

theorem mem_indexedReferences {code : List ReadInstruction} {k : Nat} {name : Text} :
    (k, name) ∈ indexedReferences code ↔ ∃ i, code[k]? = some i ∧ reference? i = some name := by
  rw [indexedReferences, List.mem_filterMap]
  constructor
  · rintro ⟨⟨i, j⟩, hmem, h⟩
    obtain ⟨x, hx, hpair⟩ := Option.map_eq_some_iff.1 h
    injection hpair with hj hname
    subst hj hname
    exact ⟨i, List.mem_zipIdx_iff_getElem?.1 hmem, hx⟩
  · rintro ⟨i, hi, hname⟩
    exact ⟨(i, k), List.mem_zipIdx_iff_getElem?.2 hi, by rw [hname]; rfl⟩

theorem map_snd_indexedReferences (code : List ReadInstruction) :
    (indexedReferences code).map Prod.snd = code.filterMap reference? := by
  have hsnd : ∀ p : ReadInstruction × Nat,
      ((reference? p.1).map fun name => (p.2, name)).map Prod.snd = reference? p.1 := by
    intro p
    cases reference? p.1 <;> rfl
  have hzip : code = code.zipIdx.map Prod.fst := (List.zipIdx_map_fst 0 code).symm
  rw [indexedReferences, List.map_filterMap]
  simp only [hsnd]
  conv => rhs; rw [hzip]
  rw [List.filterMap_map]
  rfl

/-- No instruction has two indices. -/
theorem nodup_indexedReferences (code : List ReadInstruction) :
    ((indexedReferences code).map Prod.fst).Nodup := by
  have hnodup : (code.zipIdx.map Prod.snd).Nodup := by
    rw [List.zipIdx_map_snd]
    exact List.nodup_range'
  rw [List.Nodup, List.pairwise_map] at hnodup ⊢
  rw [indexedReferences, List.pairwise_filterMap]
  refine hnodup.imp ?_
  intro p q hne x hx y hy
  obtain ⟨-, -, rfl⟩ := Option.map_eq_some_iff.1 hx
  obtain ⟨-, -, rfl⟩ := Option.map_eq_some_iff.1 hy
  exact hne

theorem indexedReferences_concat (code : List ReadInstruction) (i : ReadInstruction) :
    indexedReferences (code ++ [i])
      = indexedReferences code ++ ((reference? i).map fun name => (code.length, name)).toList := by
  rw [indexedReferences, List.zipIdx_append, List.filterMap_append, Nat.zero_add]
  cases h : reference? i <;> simp [indexedReferences, List.zipIdx, h]

/-- What an instruction that names neither a label nor a variable is resolved to does not depend on
the tables. -/
theorem resolve_of_reference?_eq_none {i : ReadInstruction} (h : reference? i = none)
    (labels cells labels' cells' : SymbolTable) :
    resolve labels cells i.operation = resolve labels' cells' i.operation := by
  unfold reference? at h
  cases ho : i.operation with
  | compute c => rfl
  | load a =>
      cases a with
      | constant n | predefined n => rfl
      | symbol name => rw [ho] at h; cases h

theorem operation_of_reference? {i : ReadInstruction} {name : Text} (h : reference? i = some name) :
    i.operation = .load (.symbol name) := by
  unfold reference? at h
  split at h
  · next x hx => injection h with h; rw [hx, h]
  · cases h

/-- A variable keeps its cell when others are given cells. -/
theorem find?_foldl_allot {labels cells : SymbolTable} {name : Text} {n : Nat}
    (h : cells.find? name = some n) (names : List Text) :
    SymbolTable.find? (names.foldl (allot labels) cells) name = some n := by
  induction names generalizing cells with
  | nil => exact h
  | cons x names ih =>
      rw [List.foldl_cons]
      refine ih ?_
      unfold allot
      split
      · exact h
      · simp only [SymbolTable.find?] at h ⊢
        rw [List.lookup_append, h]
        rfl

/-- A name that is no label has a cell once it has been met. -/
theorem exists_find?_allot {labels : SymbolTable} {name : Text}
    (h : labels.find? name = none) (cells : SymbolTable) : ∃ n, (allot labels cells name).find? name = some n :=
  SymbolTable.exists_find?_of_mem_keys (mem_keys_allot.2 (Or.inr ⟨rfl, h⟩))

/-- What a name is resolved to when it is met is what it is resolved to in the end. -/
theorem resolve_foldl_allot (labels cells : SymbolTable) (name : Text) (names : List Text) :
    resolve labels (names.foldl (allot labels) (allot labels cells name)) (.load (.symbol name))
      = resolve labels (allot labels cells name) (.load (.symbol name)) := by
  simp only [resolve]
  cases hl : labels.find? name with
  | some n => rfl
  | none =>
      obtain ⟨n, hn⟩ := exists_find?_allot hl cells
      rw [hn, find?_foldl_allot hn]

end Assembler

/-! ### Filling in -/

/-- The draft with its name resolved. -/
def Draft.resolved (labels cells : SymbolTable) (d : Draft) : Draft :=
  let r := Assembler.resolve labels cells (.load (.symbol d.symbol))
  { d with kind := r.1, code := r.2.digits }

namespace AssemblySession

theorem fill_eq {labels : SymbolTable} {drafts : Array Draft} {cells : SymbolTable} {k : Nat} {d : Draft}
    (h : drafts[k]? = some d) :
    fill labels (drafts, cells) k
      = (drafts.setIfInBounds k (d.resolved labels (Assembler.allot labels cells d.symbol)),
        Assembler.allot labels cells d.symbol) := by
  simp only [fill, h]
  rfl

/-- **What filling in does to the instructions**: the names are given cells in the order in which they
are met, the instructions that name them are resolved with the table that results in the end, and all
other instructions stay as they are. -/
theorem foldl_fill (labels cells : SymbolTable) {refs : List (Nat × Text)}
    (hnodup : (refs.map Prod.fst).Nodup) {drafts : Array Draft}
    (hrefs : ∀ q ∈ refs, ∃ d, drafts[q.1]? = some d ∧ d.symbol = q.2) :
    ((refs.map Prod.fst).foldl (fill labels) (drafts, cells)).2
        = (refs.map Prod.snd).foldl (Assembler.allot labels) cells ∧
      ∀ k, ((refs.map Prod.fst).foldl (fill labels) (drafts, cells)).1[k]?
        = if k ∈ refs.map Prod.fst then (drafts[k]?).map
            (Draft.resolved labels ((refs.map Prod.snd).foldl (Assembler.allot labels) cells))
          else drafts[k]? := by
  induction refs generalizing drafts cells with
  | nil => exact ⟨rfl, fun k => (if_neg List.not_mem_nil).symm⟩
  | cons q refs ih =>
      obtain ⟨d, hd, hsymbol⟩ := hrefs q (List.mem_cons_self ..)
      rw [List.map_cons, List.nodup_cons] at hnodup
      -- the other instructions are met as they were
      have hother : ∀ r ∈ refs, ∃ e, (drafts.setIfInBounds q.1
          (d.resolved labels (Assembler.allot labels cells q.2)))[r.1]? = some e ∧ e.symbol = r.2 := by
        intro r hr
        have hne : q.1 ≠ r.1 := by
          intro heq
          exact hnodup.1 (heq ▸ List.mem_map_of_mem hr)
        obtain ⟨e, he, hname⟩ := hrefs r (List.mem_cons_of_mem _ hr)
        exact ⟨e, by rw [Array.getElem?_setIfInBounds_ne hne, he], hname⟩
      obtain ⟨hcells, hdrafts⟩ := ih (Assembler.allot labels cells q.2) hnodup.2 hother
      rw [List.map_cons, List.map_cons, List.foldl_cons, List.foldl_cons, fill_eq hd, hsymbol]
      refine ⟨hcells, fun k => ?_⟩
      rw [hdrafts k]
      by_cases hk : q.1 = k
      · subst hk
        have hsize : q.1 < drafts.size := (Array.getElem?_eq_some_iff.1 hd).1
        rw [if_neg hnodup.1, if_pos (List.mem_cons_self ..), hd, Option.map_some,
          Array.getElem?_setIfInBounds_self_of_lt hsize]
        simp only [Draft.resolved, hsymbol, Assembler.resolve_foldl_allot]
      · have hmem : k ∈ q.1 :: refs.map Prod.fst ↔ k ∈ refs.map Prod.fst := by
          rw [List.mem_cons]
          exact ⟨fun h => h.resolve_left fun heq => hk heq.symm, Or.inr⟩
        simp only [hmem, Array.getElem?_setIfInBounds_ne hk]

theorem size_foldl_fill (labels : SymbolTable) (indices : List Nat) (drafts : Array Draft)
    (cells : SymbolTable) :
    (indices.foldl (fill labels) (drafts, cells)).1.size = drafts.size := by
  induction indices generalizing drafts cells with
  | nil => rfl
  | cons k indices ih =>
      rw [List.foldl_cons]
      cases hd : drafts[k]? with
      | none => simp only [fill, hd, ih]
      | some d => rw [fill_eq hd, ih, Array.size_setIfInBounds]

end AssemblySession

/-! ### Sessions and assemblers -/

/-- The instruction that a read instruction becomes. -/
def ReadInstruction.resolved (labels cells : SymbolTable) (i : ReadInstruction) : Instruction :=
  let r := Assembler.resolve labels cells i.operation
  { kind := r.1, code := r.2.digits, line := i.line, source := i.source }

/-- The draft holds all of the instruction that does not change when names are resolved. -/
structure Draft.Holds (d : Draft) (i : ReadInstruction) : Prop where
  line : d.line = i.line
  source : d.source = i.source
  symbol : ∀ name, Assembler.reference? i = some name → d.symbol = name
  complete : Assembler.reference? i = none → d.toInstruction = i.resolved [] []

namespace Draft.Holds

variable {d : Draft} {i : ReadInstruction}

/-- Resolving the name of a draft changes nothing that is held. -/
theorem resolve_symbol (h : d.Holds i) {name : Text} (hname : Assembler.reference? i = some name)
    (labels cells : SymbolTable) : (d.resolved labels cells).Holds i where
  line := h.line
  source := h.source
  symbol := h.symbol
  complete := fun hnone => by rw [hname] at hnone; cases hnone

/-- A draft whose name has been resolved is the instruction. -/
theorem toInstruction_resolved (h : d.Holds i) {name : Text}
    (hname : Assembler.reference? i = some name) (labels cells : SymbolTable) :
    (d.resolved labels cells).toInstruction = i.resolved labels cells := by
  simp only [Draft.resolved, ReadInstruction.resolved, h.line, h.source, h.symbol name hname,
    Assembler.operation_of_reference? hname]

/-- A draft without a name is the instruction, however names are resolved. -/
theorem toInstruction_eq (h : d.Holds i) (hname : Assembler.reference? i = none)
    (labels cells : SymbolTable) : d.toInstruction = i.resolved labels cells := by
  rw [h.complete hname, ReadInstruction.resolved, ReadInstruction.resolved,
    Assembler.resolve_of_reference?_eq_none hname [] [] labels cells]

end Draft.Holds

namespace AssemblySession

/-- The session holds what the assembler has read. -/
structure Mirrors (s : AssemblySession) (a : Assembler) : Prop where
  line : s.line = a.line
  labels : s.labels = a.labels
  size : s.drafts.size = a.code.size
  holds : ∀ {k : Nat} {d : Draft} {i : ReadInstruction},
    s.drafts[k]? = some d → a.code[k]? = some i → d.Holds i
  references : s.references.toList = (Assembler.indexedReferences a.code.toList).map Prod.fst

namespace Mirrors

variable {s : AssemblySession} {a : Assembler}

theorem start : Mirrors {} {} where
  line := rfl
  labels := rfl
  size := rfl
  holds := by intro k d i h; cases h
  references := rfl

/-- Each instruction that was read has its draft. -/
theorem exists_draft (h : Mirrors s a) {k : Nat} {i : ReadInstruction} (hi : a.code[k]? = some i) :
    ∃ d, s.drafts[k]? = some d ∧ d.Holds i := by
  have hk : k < s.drafts.size := by
    rw [h.size]
    exact (Array.getElem?_eq_some_iff.1 hi).1
  exact ⟨s.drafts[k], Array.getElem?_eq_getElem hk, h.holds (Array.getElem?_eq_getElem hk) hi⟩

theorem count (h : Mirrors s a) : Mirrors { s with line := s.line + 1 } a.count where
  line := congrArg (· + 1) h.line
  labels := h.labels
  size := h.size
  holds := h.holds
  references := h.references

/-- An instruction and its draft are added together. -/
theorem push (h : Mirrors s a) {d : Draft} {i : ReadInstruction} (hd : d.Holds i)
    {indices : Array Nat} (hindices : indices.toList = s.references.toList
      ++ ((Assembler.reference? i).map fun _ => s.drafts.size).toList) :
    Mirrors { s with drafts := s.drafts.push d, references := indices }
      { a with code := a.code.push i } where
  line := h.line
  labels := h.labels
  size := by rw [Array.size_push, Array.size_push, h.size]
  holds := by
    intro k e j he hj
    rw [Array.getElem?_push] at he hj
    rw [h.size] at he
    split at hj
    · next hk =>
        rw [if_pos hk] at he
        injection he with he
        injection hj with hj
        rw [← he, ← hj]
        exact hd
    · next hk =>
        rw [if_neg hk] at he
        exact h.holds he hj
  references := by
    rw [hindices, h.references, Array.toList_push, Assembler.indexedReferences_concat, List.map_append,
      h.size]
    cases Assembler.reference? i <;> rfl

theorem addOperation (h : Mirrors s a) (source : Text) (o : Operation) :
    Mirrors (s.addOperation source o)
      { a with code := a.code.push { operation := o, line := a.line, source } } := by
  have hcomplete : ∀ d : Draft, Assembler.reference? ⟨o, a.line, source⟩ = none →
      d.toInstruction = ReadInstruction.resolved [] [] ⟨o, a.line, source⟩ →
      Mirrors (s.push d) { a with code := a.code.push ⟨o, a.line, source⟩ } := by
    intro d hnone hd
    refine h.push (d := d) ⟨congrArg Instruction.line hd, congrArg Instruction.source hd, ?_, fun _ => hd⟩
      ?_
    · intro name hname
      rw [hnone] at hname
      cases hname
    · rw [hnone]
      exact (List.append_nil _).symm
  cases o with
  | compute c => exact hcomplete _ rfl (by rw [h.line]; rfl)
  | load t =>
      cases t with
      | constant n | predefined n => exact hcomplete _ rfl (by rw [h.line]; rfl)
      | symbol name =>
          refine h.push ⟨h.line, rfl, ?_, ?_⟩ (Array.toList_push ..)
          · rintro x hx
            injection hx
          · intro hnone
            cases hnone

/-- A session and an assembler take a statement alike: a label that was declared before is refused. -/
theorem addStatement (h : Mirrors s a) (source : Text) (st : Statement) :
    (s.addStatement source st).2 = (a.addStatement source st).2 ∧
      Mirrors (s.addStatement source st).1 (a.addStatement source st).1 := by
  cases st with
  | operation o => exact ⟨rfl, h.addOperation source o⟩
  | label name =>
      simp only [AssemblySession.addStatement, Assembler.addStatement, h.labels]
      cases a.labels.find? name with
      | some n => exact ⟨by rw [h.line], h⟩
      | none =>
          have hlabels : (name, s.drafts.size) :: a.labels = (name, a.code.size) :: a.labels := by
            rw [h.size]
          exact ⟨rfl, h.line, hlabels, h.size, h.holds, h.references⟩

/-- **A session and an assembler read a line alike**, and refuse it alike. -/
theorem addLine (h : Mirrors s a) (line : Text) :
    (s.addLine line).2 = (a.addLine line).2 ∧ Mirrors (s.addLine line).1 (a.addLine line).1 := by
  simp only [AssemblySession.addLine, Assembler.addLine]
  split
  · exact ⟨rfl, h.count⟩
  · cases Statement.parse (Text.trim (Text.code line)) with
    | error f => exact ⟨by rw [h.line], h.count⟩
    | ok st => exact h.count.addStatement _ st

/-- A session and an assembler read the same lines up to the first that they refuse. -/
theorem addLines (h : Mirrors s a) (lines : List Text) :
    (s.addLines lines).2 = (a.addLines lines).2 ∧
      Mirrors (s.addLines lines).1 (a.addLines lines).1 := by
  induction lines generalizing s a with
  | nil => exact ⟨rfl, h⟩
  | cons line lines ih =>
      obtain ⟨hanswer, hnext⟩ := h.addLine line
      simp only [AssemblySession.addLines, Assembler.addLines]
      rcases hs : s.addLine line with ⟨s', r⟩
      rcases ha : a.addLine line with ⟨a', r'⟩
      rw [hs, ha] at hanswer hnext
      dsimp only at hanswer hnext
      subst hanswer
      cases r with
      | ok u => exact ih hnext
      | error e => exact ⟨rfl, hnext⟩

/-- A session and an assembler read a text alike. -/
theorem addText (h : Mirrors s a) (t : Text) :
    (s.addText t).2 = (a.addText t).2 ∧ Mirrors (s.addText t).1 (a.addText t).1 := by
  obtain ⟨hanswer, hnext⟩ := h.addLines (Text.readLines Assembler.lineLimit t).lines
  simp only [AssemblySession.addText, Assembler.addText]
  rcases hs : s.addLines (Text.readLines Assembler.lineLimit t).lines with ⟨s', r⟩
  rcases ha : a.addLines (Text.readLines Assembler.lineLimit t).lines with ⟨a', r'⟩
  rw [hs, ha] at hanswer hnext
  dsimp only at hanswer hnext
  subst hanswer
  cases r with
  | ok u => exact ⟨rfl, hnext⟩
  | error e => exact ⟨rfl, hnext⟩

/-- The indices and names that are met in finishing are those of the instructions that were read. -/
theorem foldl_fill_references (h : Mirrors s a) :
    (s.references.foldl (fill s.labels) (s.drafts, [])).2 = a.cells ∧
      ∀ k : Nat, s.finish.1.drafts[k]? = if k ∈ s.references.toList
        then (s.drafts[k]?).map (Draft.resolved a.labels a.cells) else s.drafts[k]? := by
  have hrefs : ∀ q ∈ Assembler.indexedReferences a.code.toList,
      ∃ d, s.drafts[q.1]? = some d ∧ d.symbol = q.2 := by
    rintro ⟨k, name⟩ hq
    obtain ⟨i, hi, hname⟩ := Assembler.mem_indexedReferences.1 hq
    rw [Array.getElem?_toList] at hi
    obtain ⟨d, hd, hholds⟩ := h.exists_draft hi
    exact ⟨d, hd, hholds.symbol name hname⟩
  have hfill := foldl_fill s.labels []
    (Assembler.nodup_indexedReferences a.code.toList) hrefs
  rw [← h.references, Array.foldl_toList, Assembler.map_snd_indexedReferences, h.labels] at hfill
  rw [AssemblySession.finish, h.labels]
  exact hfill

/-- After finishing, each draft still holds its instruction, and is what the instruction becomes. -/
theorem exists_filled (h : Mirrors s a) {k : Nat} {i : ReadInstruction} (hi : a.code[k]? = some i) :
    ∃ d, s.finish.1.drafts[k]? = some d ∧ d.Holds i ∧
      d.toInstruction = i.resolved a.labels a.cells := by
  obtain ⟨d, hd, hholds⟩ := h.exists_draft hi
  have hmem : k ∈ s.references.toList ↔ ∃ name, Assembler.reference? i = some name := by
    rw [h.references, List.mem_map]
    constructor
    · rintro ⟨⟨_, name⟩, hq, rfl⟩
      obtain ⟨j, hj, hname⟩ := Assembler.mem_indexedReferences.1 hq
      rw [Array.getElem?_toList, hi] at hj
      injection hj with hj
      exact ⟨name, hj ▸ hname⟩
    · rintro ⟨name, hname⟩
      exact ⟨(k, name), Assembler.mem_indexedReferences.2 ⟨i, by rw [Array.getElem?_toList, hi], hname⟩,
        rfl⟩
  rw [h.foldl_fill_references.2 k, hd]
  cases hname : Assembler.reference? i with
  | some name =>
      rw [if_pos (hmem.2 ⟨name, hname⟩)]
      exact ⟨_, rfl, hholds.resolve_symbol hname _ _, hholds.toInstruction_resolved hname _ _⟩
  | none =>
      rw [if_neg fun hk => by obtain ⟨x, hx⟩ := hmem.1 hk; rw [hname] at hx; cases hx]
      exact ⟨d, rfl, hholds, hholds.toInstruction_eq hname _ _⟩

/-- **The program of a session is the program that the assembler has read**, and finishing it changes
nothing that is held. -/
theorem finish (h : Mirrors s a) : s.finish.2 = a.finish ∧ Mirrors s.finish.1 a := by
  have hsize : s.finish.1.drafts.size = a.code.size := by
    rw [← h.size, AssemblySession.finish, ← Array.foldl_toList]
    exact size_foldl_fill ..
  have hmirrors : Mirrors s.finish.1 a :=
    { line := h.line
      labels := h.labels
      size := hsize
      holds := by
        intro k d i hd hi
        obtain ⟨e, he, hholds, -⟩ := h.exists_filled hi
        rw [hd] at he
        injection he with he
        exact he ▸ hholds
      references := h.references }
  refine ⟨?_, hmirrors⟩
  have hinstructions : s.finish.1.drafts.toList.map Draft.toInstruction
      = a.code.toList.map (ReadInstruction.resolved a.labels a.cells) := by
    refine List.ext_getElem? fun k => ?_
    rw [List.getElem?_map, List.getElem?_map, Array.getElem?_toList, Array.getElem?_toList]
    cases hi : a.code[k]? with
    | none =>
        rw [Array.getElem?_eq_none_iff.2 (hsize ▸ Array.getElem?_eq_none_iff.1 hi)]
        rfl
    | some i =>
        obtain ⟨d, hd, -, hd'⟩ := h.exists_filled hi
        rw [hd, Option.map_some, Option.map_some, hd']
  calc s.finish.2
    _ = { instructions := s.finish.1.drafts.toList.map Draft.toInstruction
          labels := s.labels
          cells := (s.references.foldl (fill s.labels) (s.drafts, [])).2 } := rfl
    _ = a.finish := by rw [hinstructions, h.foldl_fill_references.1, h.labels]; rfl

end Mirrors

end AssemblySession

/-! ### Runs -/

/-- The line that a step kept: an empty one, if the line was refused. -/
def keptLine? : AssemblyStep × AssemblyAnswer → Option Text
  | (.line t, .accepted) => some t
  | (.line _, _) => some []
  | (.finish, _) => none

/-- The lines that a run kept. -/
def keptLines (log : List (AssemblyStep × AssemblyAnswer)) : List Text := log.filterMap keptLine?

namespace AssemblySession

/-- The session after steps, and the steps with what each of them gave. -/
def run (s : AssemblySession) :
    List AssemblyStep → AssemblySession × List (AssemblyStep × AssemblyAnswer)
  | [] => (s, [])
  | x :: xs =>
    let r := s.perform x
    let rest := r.1.run xs
    (rest.1, (x, r.2) :: rest.2)

theorem run_append (s : AssemblySession) (xs ys : List AssemblyStep) :
    s.run (xs ++ ys) = (((s.run xs).1.run ys).1, (s.run xs).2 ++ ((s.run xs).1.run ys).2) := by
  induction xs generalizing s with
  | nil => rfl
  | cons x xs ih => simp only [List.cons_append, run, ih]

theorem length_run (s : AssemblySession) (xs : List AssemblyStep) : (s.run xs).2.length = xs.length := by
  induction xs generalizing s with
  | nil => rfl
  | cons x xs ih => exact congrArg (· + 1) (ih _)

theorem perform_line (s : AssemblySession) (t : Text) :
    s.perform (.line t) = ((s.addLine t).1, match (s.addLine t).2 with
      | .ok () => .accepted
      | .error e => .refused e) := by
  simp only [perform]
  rcases s.addLine t with ⟨s', _ | _⟩ <;> rfl

end AssemblySession

/-- Of a refused line only the number stays, as of an empty one. -/
theorem Assembler.addLine_of_refused {a : Assembler} {line : Text} {e : AssemblyError}
    (h : (a.addLine line).2 = .error e) : (a.addLine line).1 = a.count := by
  simp only [addLine] at h ⊢
  split at h
  · cases h
  · next ht =>
      rw [if_neg ht]
      cases hs : Statement.parse (Text.trim (Text.code line)) with
      | error f => rfl
      | ok st =>
          rw [hs] at h
          cases st with
          | operation o => cases h
          | label name =>
              simp only [addStatement] at h ⊢
              cases hn : a.labels.find? name with
              | some n => rfl
              | none => rw [hn] at h; cases h

namespace AssemblySession.Mirrors

variable {s : AssemblySession} {a : Assembler}

/-- **What a step preserves**: the session holds what is read from the lines that were kept. -/
theorem perform (h : Mirrors s a) (x : AssemblyStep) :
    ∃ b, a.addLines (keptLines [(x, (s.perform x).2)]) = (b, .ok ()) ∧ Mirrors (s.perform x).1 b := by
  cases x with
  | finish => exact ⟨a, rfl, h.finish.2⟩
  | line t =>
      obtain ⟨hanswer, hnext⟩ := h.addLine t
      rw [perform_line]
      refine ⟨(a.addLine t).1, ?_, hnext⟩
      cases hr : (a.addLine t).2 with
      | ok u =>
          rw [hanswer, hr]
          simp only [keptLines, keptLine?, List.filterMap_cons, List.filterMap_nil, Assembler.addLines]
          rw [show a.addLine t = ((a.addLine t).1, .ok ()) from Prod.ext rfl hr]
      | error e =>
          rw [hanswer, hr, Assembler.addLine_of_refused hr]
          rfl

/-- **What a run preserves.** -/
theorem run (h : Mirrors s a) (xs : List AssemblyStep) :
    ∃ b, a.addLines (keptLines (s.run xs).2) = (b, .ok ()) ∧ Mirrors (s.run xs).1 b := by
  induction xs generalizing s a with
  | nil => exact ⟨a, rfl, h⟩
  | cons x xs ih =>
      obtain ⟨b, hb, hstep⟩ := h.perform x
      obtain ⟨c, hc, hrun⟩ := ih hstep
      refine ⟨c, ?_, hrun⟩
      have hkept : keptLines (s.run (x :: xs)).2
          = keptLines [(x, (s.perform x).2)] ++ keptLines ((s.perform x).1.run xs).2 :=
        List.filterMap_append (l := [_])
      rw [hkept]
      exact Assembler.addLines_append.2 ⟨b, hb, hc⟩

/-- Which lines are kept does not depend on where programs were finished. -/
theorem keptLines_filter (h : Mirrors s a) {s' : AssemblySession} (h' : Mirrors s' a)
    (xs : List AssemblyStep) :
    keptLines (s'.run (xs.filter (· ≠ .finish))).2 = keptLines (s.run xs).2 := by
  induction xs generalizing s s' a with
  | nil => rfl
  | cons x xs ih =>
      cases x with
      | finish => exact ih h.finish.2 h'
      | line t =>
          obtain ⟨hanswer, hnext⟩ := h.addLine t
          obtain ⟨hanswer', hnext'⟩ := h'.addLine t
          have hrest := ih hnext hnext'
          rw [List.filter_cons_of_pos (by simp)]
          simp only [AssemblySession.run, perform_line, hanswer, hanswer', keptLines,
            List.filterMap_cons] at hrest ⊢
          rw [hrest]

end AssemblySession.Mirrors

namespace AssemblySession

/-- A session that starts with a text gives the program of the text. -/
theorem finish_addText (t : Text) :
    (({} : AssemblySession).addText t).2.map
        (fun _ => (({} : AssemblySession).addText t).1.finish.2) = assembleText t := by
  obtain ⟨hanswer, hnext⟩ := Mirrors.start.addText t
  rw [hanswer, hnext.finish.1, assembleText]
  rcases ({} : Assembler).addText t with ⟨a, _ | _⟩ <;> rfl

/-- The program that is finished after a run is the program of the lines that were kept. -/
theorem perform_finish_run (xs : List AssemblyStep) :
    ∃ p, ((({} : AssemblySession).run xs).1.perform .finish).2 = .program p ∧
      assemble (keptLines (({} : AssemblySession).run xs).2) = .ok p := by
  obtain ⟨b, hb, hrun⟩ := Mirrors.start.run xs
  exact ⟨b.finish, congrArg _ hrun.finish.1, by rw [assemble, hb]⟩

/-- **Every program of a session is the program of its kept lines.**  After any steps a program can be
finished; the lines kept so far are accepted, and give this program; and it is the program that is
given if none was finished before. -/
theorem programs_eq_assemble_kept (before after : List AssemblyStep) :
    ∃ p, (({} : AssemblySession).run (before ++ .finish :: after)).2[before.length]?
        = some (.finish, .program p) ∧
      assemble (keptLines
        ((({} : AssemblySession).run (before ++ .finish :: after)).2.take before.length)) = .ok p ∧
      (({} : AssemblySession).run (before.filter (· ≠ .finish) ++ [.finish])).2.getLast?
        = some (.finish, .program p) := by
  obtain ⟨p, hp, hkept⟩ := perform_finish_run before
  obtain ⟨q, hq, hkept'⟩ := perform_finish_run (before.filter (· ≠ .finish))
  have hlength := length_run {} before
  refine ⟨p, ?_, ?_, ?_⟩
  · rw [run_append, List.getElem?_append_right (Nat.le_of_eq hlength), hlength, Nat.sub_self, ← hp]
    rfl
  · rw [run_append, List.take_left' hlength, hkept]
  · rw [Mirrors.start.keptLines_filter Mirrors.start, hkept] at hkept'
    injection hkept' with hpq
    rw [run_append, List.getLast?_append, hpq, ← hq]
    rfl

-- a name that was a variable in the first program is a label in the second
example :
    (({} : AssemblySession).run
        [.line (ascii "@x"), .finish, .line (ascii "(x)"), .finish]).2.filterMap
      (fun r => match r.2 with
        | .program p => some (p.labels, p.cells)
        | _ => none)
      = [([], [(ascii "x", 16)]), ([(ascii "x", 1)], [])] := by
  decide +kernel

end AssemblySession

end HackToolchain
