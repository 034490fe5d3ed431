/-
**What units are compiled.**

A unit is compiled if its entry function has a proper name, all of its lines are commands, and the
commands keep within the limits of the machine.  The limits are stated here for a sequence of commands
as it stands, without a generator: indices of cells, the number of static cells, the number of
arguments, and that a function has been started before one is left.  The generator checks them one
command at a time and from what it remembers.  This module shows that it remembers enough, and that a
unit is refused for the first line that is no command or, if there is none, for the first command that
breaks a limit.

Main definitions:

* `sourceLines`, `CompilationUnit.stream` — the lines and the commands of a unit, in the order in which
  they are compiled;
* `CompilationUnit.Readable`, `CompileOptions.BadEntry` — all lines are commands, the entry function
  has no proper name;
* `namedStatics` — the static cells that commands use in named modules;
* `WithinLimits` — **the limits**;
* `Violates` — the way in which a command breaks a limit after other commands;
* `Generator.Tracks` — what the generator remembers of the commands so far.

Main results:

* `WithinLimits.not_violates`, `WithinLimits.concat` — what the limits ask of one more command;
* `withinLimits_concat_iff` — commands are within the limits as long as none of them breaks one;
* `Generator.Tracks.write_eq_error_iff`, `Generator.Tracks.wrote` — what one command does;
* `Generator.list_cases` — what all commands do;
* `CompilationUnit.compiles_iff_within_limits` — **which units are compiled, and for which line the
  others are refused**.
-/
import Mathlib.Data.Finset.Card
import HackToolchain.Proofs.Unit.Listing
import HackToolchain.Proofs.Codegen.Names

set_option relaxedAutoImplicit false
set_option autoImplicit false

namespace HackToolchain

/-! ### Lines and commands in order -/

/-- The lines of modules, each with the name of its module. -/
def sourceLines (modules : List Module) : List (Text × SourceLine) :=
  modules.flatMap fun m => m.lines.map fun l => (m.name, l)

/-- The commands among the lines of a unit, those of the module that declares the entry function
first. -/
def CompilationUnit.stream (u : CompilationUnit) (entry : Text) : List PlacedCommand :=
  (sourceLines (orderModules u.modules entry)).filterMap fun q =>
    match Command.parse q.2.text with
    | .ok command => some { module := q.1, line := q.2, command }
    | .error _ => none

/-- All lines of a unit are commands. -/
def CompilationUnit.Readable (u : CompilationUnit) : Prop :=
  ∀ m ∈ u.modules, ∀ l ∈ m.lines, ∃ c, Command.parse l.text = .ok c

/-- The function to call first has a name that is no symbol. -/
def CompileOptions.BadEntry (o : CompileOptions) : Prop :=
  o.bootstrap = true ∧ o.entry ≠ [] ∧ Text.isSymbol o.entry = false

/-- A command that starts a function. -/
def Command.startsFunction : Command → Bool
  | function .. => true
  | _ => false

/-! ### The limits -/

/-- The static cell that a command uses in a named module. -/
def PlacedCommand.namedStatic? (c : PlacedCommand) : Option (Text × Int) :=
  if c.module = [] then none else c.command.staticIndex?.map (c.module, ·)

/-- The static cells that commands use in named modules. -/
def namedStatics (cs : List PlacedCommand) : List (Text × Int) :=
  cs.filterMap PlacedCommand.namedStatic?

/-- **The limits** that commands have to keep. -/
structure WithinLimits (cs : List PlacedCommand) : Prop where
  pointer : ∀ c ∈ cs, ∀ i, c.command.cell? = some (.pointer, i) → i ≤ 1
  temp : ∀ c ∈ cs, ∀ i, c.command.cell? = some (.temp, i) → i ≤ 7
  statics : ∀ c ∈ cs, ∀ i, c.command.staticIndex? = some i → i ≤ 239
  /-- Named modules use at most 240 static cells. -/
  budget : (namedStatics cs).toFinset.card ≤ 240
  arguments : ∀ c ∈ cs, ∀ name n, c.command = .call name n → n ≤ 32762
  /-- A function is started before one is left. -/
  frames : ∀ k c, cs[k]? = some c → c.command = .ret →
    ∃ c' ∈ cs.take k, c'.command.startsFunction = true

/-- The way in which a command breaks a limit after the commands `before`. -/
inductive Violates (before : List PlacedCommand) (c : PlacedCommand) : Fault → Prop
  | pointer {i : Int} (hcell : c.command.cell? = some (.pointer, i)) (hi : 1 < i) :
      Violates before c (.pointerBounds i)
  | temp {i : Int} (hcell : c.command.cell? = some (.temp, i)) (hi : 7 < i) :
      Violates before c (.tempBounds i)
  | statics {i : Int} (hindex : c.command.staticIndex? = some i) (hi : 239 < i) :
      Violates before c (.staticBounds i)
  | budget {i : Int} (hindex : c.command.staticIndex? = some i) (hi : i ≤ 239)
      (hmodule : c.module ≠ []) (hnew : (c.module, i) ∉ namedStatics before)
      (hfull : (namedStatics before).toFinset.card = 240) :
      Violates before c (.staticBudget (Generator.staticSymbol c.module i))
  | arguments {name : Text} {n : Int} (hcall : c.command = .call name n) (hn : 32762 < n) :
      Violates before c (.tooManyArguments n)
  | frame (hret : c.command = .ret) (hnone : ∀ c' ∈ before, c'.command.startsFunction = false) :
      Violates before c .noFunction

/-- The kind of fault of a command that breaks a limit. -/
def Command.limitKind : Command → FaultKind
  | call .. => .invalidOperand
  | ret => .missingFrame
  | _ => .segmentBounds

theorem Violates.kind_eq {before : List PlacedCommand} {c : PlacedCommand} {f : Fault}
    (h : Violates before c f) : f.kind = c.command.limitKind := by
  have hcell : ∀ {s i}, c.command.cell? = some (s, i) → c.command.limitKind = .segmentBounds := by
    intro s i hcell
    cases hc : c.command with
    | push s' i' | pop s' i' => rfl
    | _ => rw [hc] at hcell; cases hcell
  cases h with
  | pointer h | temp h => exact (hcell h).symm
  | statics h | budget h => exact (hcell (Command.staticIndex?_eq_some_iff.1 h)).symm
  | arguments hcall => rw [hcall]; rfl
  | frame hret => rw [hret]; rfl

theorem namedStatics_append (cs ds : List PlacedCommand) :
    namedStatics (cs ++ ds) = namedStatics cs ++ namedStatics ds := List.filterMap_append

theorem namedStatics_concat_of_none {before : List PlacedCommand} {c : PlacedCommand}
    (h : c.namedStatic? = none) : namedStatics (before ++ [c]) = namedStatics before := by
  rw [namedStatics_append, namedStatics, namedStatics, List.filterMap_cons_none h,
    List.filterMap_nil, List.append_nil]

theorem namedStatics_concat_of_some {before : List PlacedCommand} {c : PlacedCommand} {q : Text × Int}
    (h : c.namedStatic? = some q) : namedStatics (before ++ [c]) = namedStatics before ++ [q] := by
  rw [namedStatics_append, namedStatics, namedStatics, List.filterMap_cons_some h,
    List.filterMap_nil]

theorem PlacedCommand.namedStatic?_eq_some_iff {c : PlacedCommand} {q : Text × Int} :
    c.namedStatic? = some q ↔
      c.module ≠ [] ∧ q.1 = c.module ∧ c.command.staticIndex? = some q.2 := by
  unfold namedStatic?
  split
  · next hempty => simp [hempty]
  · next hne =>
      rw [Option.map_eq_some_iff]
      constructor
      · rintro ⟨i, hi, rfl⟩
        exact ⟨hne, rfl, hi⟩
      · rintro ⟨-, hmodule, hi⟩
        exact ⟨q.2, hi, by rw [← hmodule]⟩

/-- The number of different elements after one more. -/
theorem card_toFinset_concat {α : Type} [DecidableEq α] (xs : List α) (x : α) :
    (xs ++ [x]).toFinset.card = if x ∈ xs then xs.toFinset.card else xs.toFinset.card + 1 := by
  have hinsert : (xs ++ [x]).toFinset = insert x xs.toFinset := by
    ext y
    simp
  rw [hinsert]
  split
  · next hmem => rw [Finset.insert_eq_of_mem (List.mem_toFinset.2 hmem)]
  · next hnot => rw [Finset.card_insert_of_notMem (fun hmem => hnot (List.mem_toFinset.1 hmem))]

theorem withinLimits_nil : WithinLimits [] where
  pointer c hc := by cases hc
  temp c hc := by cases hc
  statics c hc := by cases hc
  budget := Nat.zero_le _
  arguments c hc := by cases hc
  frames k c hk := by cases hk

/-- The first of several commands are within the limits if all of them are. -/
theorem WithinLimits.of_append {cs ds : List PlacedCommand} (h : WithinLimits (cs ++ ds)) :
    WithinLimits cs where
  pointer c hc := h.pointer c (List.mem_append_left _ hc)
  temp c hc := h.temp c (List.mem_append_left _ hc)
  statics c hc := h.statics c (List.mem_append_left _ hc)
  budget := by
    refine le_trans (Finset.card_le_card fun q hq => ?_) h.budget
    rw [namedStatics_append, List.mem_toFinset]
    exact List.mem_append_left _ (List.mem_toFinset.1 hq)
  arguments c hc := h.arguments c (List.mem_append_left _ hc)
  frames k c hk hret := by
    obtain ⟨hlt, -⟩ := List.getElem?_eq_some_iff.1 hk
    have hframe := h.frames k c (by rw [List.getElem?_append_left hlt]; exact hk) hret
    rwa [List.take_append_of_le_length (Nat.le_of_lt hlt)] at hframe

/-- One more command keeps to the number of static cells unless it uses a new one too many. -/
theorem card_namedStatics_concat_le_iff {before : List PlacedCommand} {c : PlacedCommand}
    (h : (namedStatics before).toFinset.card ≤ 240) :
    (namedStatics (before ++ [c])).toFinset.card ≤ 240 ↔ ∀ q, c.namedStatic? = some q →
      q ∉ namedStatics before → (namedStatics before).toFinset.card ≠ 240 := by
  cases hstatic : c.namedStatic? with
  | none =>
      rw [namedStatics_concat_of_none hstatic]
      exact iff_of_true h fun q hq => by cases hq
  | some q =>
      rw [namedStatics_concat_of_some hstatic, card_toFinset_concat]
      constructor
      · intro hle q' hq' hnew hfull
        obtain rfl := Option.some.inj hq'
        rw [if_neg hnew, hfull] at hle
        omega
      · intro hother
        split
        · exact h
        · next hnew =>
            have hfull := hother q rfl hnew
            omega

namespace WithinLimits

variable {before : List PlacedCommand} {c : PlacedCommand}

/-- The last of several commands within the limits breaks none. -/
theorem not_violates (h : WithinLimits (before ++ [c])) (f : Fault) : ¬Violates before c f := by
  have hc : c ∈ before ++ [c] := List.mem_append_right _ (List.mem_singleton_self c)
  intro hviolates
  cases hviolates with
  | pointer hcell hi => exact Int.not_lt.2 (h.pointer c hc _ hcell) hi
  | temp hcell hi => exact Int.not_lt.2 (h.temp c hc _ hcell) hi
  | statics hindex hi => exact Int.not_lt.2 (h.statics c hc _ hindex) hi
  | @budget i hindex hi hmodule hnew hfull =>
      have hstatic : c.namedStatic? = some (c.module, i) :=
        PlacedCommand.namedStatic?_eq_some_iff.2 ⟨hmodule, rfl, hindex⟩
      exact (card_namedStatics_concat_le_iff h.of_append.budget).1 h.budget _ hstatic hnew hfull
  | arguments hcall hn => exact Int.not_lt.2 (h.arguments c hc _ _ hcall) hn
  | frame hret hnone =>
      obtain ⟨c', hc', hstarts⟩ := h.frames before.length c (by simp) hret
      rw [List.take_left' rfl] at hc'
      rw [hnone c' hc'] at hstarts
      cases hstarts

/-- A function is started before one is left, also with one more command. -/
theorem frames_concat (h : WithinLimits before)
    (hc : c.command = .ret → ∃ c' ∈ before, c'.command.startsFunction = true) (k : Nat)
    (d : PlacedCommand) (hk : (before ++ [c])[k]? = some d) (hret : d.command = .ret) :
    ∃ c' ∈ (before ++ [c]).take k, c'.command.startsFunction = true := by
  by_cases hlt : k < before.length
  · rw [List.getElem?_append_left hlt] at hk
    rw [List.take_append_of_le_length (Nat.le_of_lt hlt)]
    exact h.frames k d hk hret
  · -- the command is the last one, and all others stand before it
    obtain ⟨hle, -⟩ := List.getElem?_eq_some_iff.1 hk
    rw [List.length_append, List.length_singleton] at hle
    obtain rfl : k = before.length := by omega
    rw [List.getElem?_concat_length] at hk
    obtain rfl := Option.some.inj hk
    rw [List.take_left' rfl]
    exact hc hret

/-- A command that breaks no limit keeps the commands within the limits. -/
theorem concat (h : WithinLimits before) (hnot : ∀ f, ¬Violates before c f) :
    WithinLimits (before ++ [c]) where
  pointer := List.forall_mem_append.2 ⟨h.pointer, List.forall_mem_singleton.2 fun _ hcell =>
    Int.not_lt.1 fun hi => hnot _ (.pointer hcell hi)⟩
  temp := List.forall_mem_append.2 ⟨h.temp, List.forall_mem_singleton.2 fun _ hcell =>
    Int.not_lt.1 fun hi => hnot _ (.temp hcell hi)⟩
  statics := List.forall_mem_append.2 ⟨h.statics, List.forall_mem_singleton.2 fun _ hindex =>
    Int.not_lt.1 fun hi => hnot _ (.statics hindex hi)⟩
  budget := by
    refine (card_namedStatics_concat_le_iff h.budget).2 fun q hstatic hnew hfull => ?_
    obtain ⟨hmodule, hq, hindex⟩ := PlacedCommand.namedStatic?_eq_some_iff.1 hstatic
    by_cases hi : q.2 ≤ 239
    · exact hnot _ (.budget hindex hi hmodule (by rw [← hq]; exact hnew) hfull)
    · exact hnot _ (.statics hindex (by omega))
  arguments := List.forall_mem_append.2 ⟨h.arguments, List.forall_mem_singleton.2 fun _ _ hcall =>
    Int.not_lt.1 fun hn => hnot _ (.arguments hcall hn)⟩
  frames := by
    refine h.frames_concat fun hret => ?_
    by_contra hnone
    refine hnot _ (.frame hret fun c' hc' => ?_)
    by_contra hstarts
    exact hnone ⟨c', hc', Bool.eq_true_of_not_eq_false hstarts⟩

end WithinLimits

/-- **Commands are within the limits as long as none of them breaks one.** -/
theorem withinLimits_concat_iff {before : List PlacedCommand} {c : PlacedCommand} :
    WithinLimits (before ++ [c]) ↔ WithinLimits before ∧ ∀ f, ¬Violates before c f :=
  ⟨fun h => ⟨h.of_append, h.not_violates⟩, fun ⟨h, hnot⟩ => h.concat hnot⟩

/-! ### What the generator remembers -/

theorem Command.eq_of_cell? {c : Command} {s : Segment} {i : Int} (h : c.cell? = some (s, i)) :
    c = .push s i ∨ c = .pop s i := by
  cases c with
  | push s' i' | pop s' i' => simpa [cell?] using h
  | _ => cases h

namespace Generator

/-- What the generator remembers of the commands so far: the static cells that they use in named
modules, each of them once, and whether a function has been started. -/
structure Tracks (g : Generator) (before : List PlacedCommand) : Prop where
  mode : g.mode = .index
  statics : ∃ cells : List (Text × Int), cells.Nodup ∧
    g.statics = cells.map (fun q => staticSymbol q.1 q.2) ∧ ∀ q, q ∈ cells ↔ q ∈ namedStatics before
  nonneg : ∀ q ∈ namedStatics before, 0 ≤ q.2
  frame : g.function = [] ↔ ∀ c ∈ before, c.command.startsFunction = false

theorem tracks_nil {g : Generator} (hmode : g.mode = .index) (hstatics : g.statics = [])
    (hfunction : g.function = []) : g.Tracks [] where
  mode := hmode
  statics := ⟨[], List.nodup_nil, hstatics, fun _ => Iff.rfl⟩
  nonneg q hq := by cases hq
  frame := ⟨fun _ => List.forall_mem_nil _, fun _ => hfunction⟩

/-- A refused cell. -/
theorem write_eq_error_of_place {g : Generator} {c : Command} {s : Segment} {i : Int} {f : Fault}
    (hcell : c.cell? = some (s, i)) (h : (g.place s i).2 = .error f) : (g.write c).2 = .error f := by
  rcases Command.eq_of_cell? hcell with rfl | rfl
  · simp only [write, h]; rfl
  · simp only [write, h]; rfl

/-- A command leaves behind a function if it starts one or there was one before. -/
theorem function_of_wrote {g g' : Generator} {c : Command} {code : List Item}
    (h : g.Wrote c g' code) (hc : c.Valid) :
    g'.function = [] ↔ g.function = [] ∧ c.startsFunction = false := by
  have hkept : g'.function = g.function → c.startsFunction = false →
      (g'.function = [] ↔ g.function = [] ∧ c.startsFunction = false) := by
    intro hfunction hstarts
    rw [hfunction, hstarts]
    exact ⟨fun hnone => ⟨hnone, rfl⟩, fun hnone => hnone.1⟩
  cases h with
  | push hpl | pop hpl =>
      refine hkept ?_ rfl
      cases hpl with
      | statics ht => cases found_of_staticTarget ht (hc.2.2 (by decide)) hc.2.1 <;> rfl
      | _ => rfl
  | operate o => exact hkept (by cases o <;> rfl) rfl
  | function name n =>
      have hname : name ≠ [] := fun hnil => Text.not_isEmpty_of_isSymbol hc.1 (by rw [hnil]; rfl)
      exact ⟨fun hnil => absurd hnil hname, fun hnil => by cases hnil.2⟩
  | _ => exact hkept rfl rfl

namespace Tracks

variable {g : Generator} {before : List PlacedCommand}

/-- The symbol of a static cell is remembered exactly if the cell has been used. -/
theorem mem_statics_iff (h : g.Tracks before) {module : Text} {i : Int} (hi : 0 ≤ i) :
    staticSymbol module i ∈ g.statics ↔ (module, i) ∈ namedStatics before := by
  obtain ⟨cells, -, hstatics, hcells⟩ := h.statics
  rw [hstatics, List.mem_map]
  constructor
  · rintro ⟨q, hq, hsymbol⟩
    have hmem := (hcells q).1 hq
    obtain ⟨hmodule, hindex⟩ := staticSymbol_inj (h.nonneg q hmem) hi hsymbol
    rwa [← hmodule, ← hindex]
  · intro hmem
    exact ⟨_, (hcells _).2 hmem, rfl⟩

/-- As many symbols are remembered as cells have been used. -/
theorem length_statics (h : g.Tracks before) :
    g.statics.length = (namedStatics before).toFinset.card := by
  obtain ⟨cells, hnodup, hstatics, hcells⟩ := h.statics
  have hsame : (namedStatics before).toFinset = cells.toFinset := by
    ext q
    rw [List.mem_toFinset, List.mem_toFinset, hcells]
  rw [hstatics, List.length_map, hsame, List.toFinset_card_of_nodup hnodup]

/-- The symbol under which a static cell of a command is found. -/
theorem staticName? (h : g.Tracks before) (c : PlacedCommand) (i : Int) :
    { g with module := c.module }.staticName? i
      = if c.module = [] then none else some (staticSymbol c.module i) := by
  rw [staticName?_index (show { g with module := c.module }.mode = .index from h.mode)]
  simp only [List.isEmpty_iff]

/-- A refused command breaks a limit. -/
theorem violates_of_refused (h : g.Tracks before) (hwithin : WithinLimits before) {c : PlacedCommand}
    (hc : c.command.Valid) {g' : Generator} {f : Fault}
    (hrefused : { g with module := c.module }.Refused c.command g' f) : Violates before c f := by
  generalize hcommand : c.command = command at hrefused
  cases hrefused with
  | pointer hcell hi => exact .pointer (hcommand ▸ hcell) hi
  | temp hcell hi => exact .temp (hcommand ▸ hcell) hi
  | @statics _ i _ _ hindex hfound =>
      rw [← hcommand] at hindex
      cases hfound with
      | past hi => exact .statics hindex hi
      | full hi hs hmem hfull =>
          rw [h.staticName?] at hs
          split at hs
          · cases hs
          · next hmodule =>
              injection hs with hs
              subst hs
              have hnew := (h.mem_statics_iff (Command.valid_static hc hindex).1).not.1 hmem
              have hcard := h.length_statics
              have hbudget := hwithin.budget
              refine .budget hindex hi hmodule hnew ?_
              change 240 ≤ g.statics.length at hfull
              omega
  | arguments name hn => exact .arguments hcommand hn
  | ret hfunction => exact .frame hcommand (h.frame.1 hfunction)

/-- A command that breaks a limit is refused. -/
theorem write_of_violates (h : g.Tracks before) {c : PlacedCommand} (hc : c.command.Valid) {f : Fault}
    (hviolates : Violates before c f) :
    ({ g with module := c.module }.write c.command).2 = .error f := by
  -- where a static cell is looked for
  have hfound : ∀ {i}, c.command.staticIndex? = some i → ∀ {f},
      (∀ g' r, { g with module := c.module }.Found i g' r → r = .error f) →
      ({ g with module := c.module }.write c.command).2 = .error f := by
    intro i hindex f hresult
    obtain ⟨hlo, hhi⟩ := Command.valid_static hc hindex
    refine write_eq_error_of_place (Command.staticIndex?_eq_some_iff.1 hindex) ?_
    cases ht : { g with module := c.module }.staticTarget i with
    | mk g' r =>
        have herror := hresult g' r (found_of_staticTarget ht hlo hhi)
        simp only [place, ht, herror]
        rfl
  cases hviolates with
  | pointer hcell hi =>
      refine write_eq_error_of_place hcell ?_
      simp only [place, pointerTarget]
      rw [if_neg (by omega), if_neg (by omega)]
      rfl
  | temp hcell hi =>
      refine write_eq_error_of_place hcell ?_
      simp only [place, tempTarget]
      rw [if_pos (by omega)]
      rfl
  | statics hindex hi =>
      refine hfound hindex fun g' r hr => ?_
      cases hr with
      | past => rfl
      | number hle | known hle | taken hle | full hle => omega
  | @budget i hindex hi hmodule hnew hfull =>
      have hlo := (Command.valid_static hc hindex).1
      have hname := h.staticName? c i
      rw [if_neg hmodule] at hname
      refine hfound hindex fun g' r hr => ?_
      cases hr with
      | past hgt => omega
      | number hle hs => rw [hname] at hs; cases hs
      | known hle hs hmem =>
          rw [hname] at hs
          injection hs with hs
          exact absurd ((h.mem_statics_iff hlo).1 (hs ▸ hmem)) hnew
      | taken hle hs hmem hroom =>
          have hcard := h.length_statics
          change g.statics.length < 240 at hroom
          omega
      | full hle hs hmem =>
          rw [hname] at hs
          injection hs with hs
          rw [hs]
  | arguments hcall hn =>
      rw [hcall] at hc ⊢
      obtain ⟨-, hlo, hhi⟩ := hc
      rw [write, Numeral.wrap_of_lt (by omega) (by omega), if_pos (by omega)]
  | frame hret hnone =>
      have hfunction : g.function.isEmpty = true := List.isEmpty_iff.2 (h.frame.2 hnone)
      rw [hret, write, if_pos hfunction]

/-- **A command is refused exactly if it breaks a limit.** -/
theorem write_eq_error_iff (h : g.Tracks before) (hwithin : WithinLimits before) {c : PlacedCommand}
    (hc : c.command.Valid) {f : Fault} :
    ({ g with module := c.module }.write c.command).2 = .error f ↔ Violates before c f := by
  constructor
  · intro hf
    cases hw : { g with module := c.module }.write c.command with
    | mk g' r =>
        obtain rfl : r = .error f := by rwa [hw] at hf
        exact h.violates_of_refused hwithin hc (refused_of_write hc hw)
  · exact h.write_of_violates hc

/-- A cell that has been used before, or is no cell of a named module, is remembered already. -/
theorem of_known (h : g.Tracks before) {c : PlacedCommand} {g' : Generator} (hmode : g'.mode = .index)
    (hframe : g'.function = [] ↔ ∀ c' ∈ before ++ [c], c'.command.startsFunction = false)
    (hstatics : g'.statics = g.statics)
    (hknown : ∀ q, c.namedStatic? = some q → q ∈ namedStatics before) :
    g'.Tracks (before ++ [c]) := by
  have hmem : ∀ q, q ∈ namedStatics (before ++ [c]) ↔ q ∈ namedStatics before := by
    intro q
    cases hstatic : c.namedStatic? with
    | none => rw [namedStatics_concat_of_none hstatic]
    | some q' =>
        rw [namedStatics_concat_of_some hstatic, List.mem_append, List.mem_singleton]
        constructor
        · rintro (hq | rfl)
          · exact hq
          · exact hknown q hstatic
        · exact Or.inl
  obtain ⟨cells, hnodup, hcells, hiff⟩ := h.statics
  exact ⟨hmode, ⟨cells, hnodup, hstatics.trans hcells, fun q => (hiff q).trans (hmem q).symm⟩,
    fun q hq => h.nonneg q ((hmem q).1 hq), hframe⟩

/-- A new cell of a named module is remembered by its symbol. -/
theorem of_new (h : g.Tracks before) {c : PlacedCommand} {g' : Generator} (hmode : g'.mode = .index)
    (hframe : g'.function = [] ↔ ∀ c' ∈ before ++ [c], c'.command.startsFunction = false)
    {q : Text × Int} (hq : c.namedStatic? = some q) (hlo : 0 ≤ q.2) (hnew : q ∉ namedStatics before)
    (hstatics : g'.statics = g.statics ++ [staticSymbol q.1 q.2]) : g'.Tracks (before ++ [c]) := by
  have hconcat : namedStatics (before ++ [c]) = namedStatics before ++ [q] :=
    namedStatics_concat_of_some hq
  obtain ⟨cells, hnodup, hcells, hiff⟩ := h.statics
  refine ⟨hmode, ⟨cells ++ [q], ?_, ?_, fun q' => ?_⟩, fun q' hq' => ?_, hframe⟩
  · have hnodup' := List.Nodup.concat (fun hold => hnew ((hiff q).1 hold)) hnodup
    rwa [List.concat_eq_append] at hnodup'
  · rw [hstatics, List.map_append, ← hcells]
    rfl
  · rw [hconcat, List.mem_append, List.mem_append, hiff]
  · rw [hconcat] at hq'
    rcases List.mem_append.1 hq' with hq' | hq'
    · exact h.nonneg q' hq'
    · rw [List.mem_singleton.1 hq']
      exact hlo

/-- **A command that is written is remembered.** -/
theorem wrote (h : g.Tracks before) {c : PlacedCommand} (hc : c.command.Valid) {g' : Generator}
    {code : List Item} (hwrite : { g with module := c.module }.write c.command = (g', .ok code)) :
    g'.Tracks (before ++ [c]) := by
  have hwrote := wrote_of_write hc hwrite
  have hmode : g'.mode = .index := by
    have hkept := mode_write { g with module := c.module } c.command
    rw [hwrite] at hkept
    exact hkept.trans h.mode
  have hframe : g'.function = [] ↔ ∀ c' ∈ before ++ [c], c'.command.startsFunction = false := by
    rw [function_of_wrote hwrote hc, List.forall_mem_append, List.forall_mem_singleton]
    exact and_congr_left' h.frame
  cases hindex : c.command.staticIndex? with
  | none =>
      have hstatics := statics_eq_of_wrote hwrote hindex
      refine h.of_known hmode hframe hstatics fun q hq => ?_
      have hsome := (PlacedCommand.namedStatic?_eq_some_iff.1 hq).2.2
      rw [hindex] at hsome
      cases hsome
  | some i =>
      have hlo := (Command.valid_static hc hindex).1
      have hname := h.staticName? c i
      have hcell : c.namedStatic? = if c.module = [] then none else some (c.module, i) := by
        rw [PlacedCommand.namedStatic?, hindex]
        rfl
      obtain ⟨t, hfound, -⟩ := found_of_wrote hwrote hc hindex
      -- in an unnamed module the cell has no symbol, and in a named one it has its own
      by_cases hmodule : c.module = []
      · rw [if_pos hmodule] at hname hcell
        cases hfound with
        | number => exact h.of_known hmode hframe rfl fun q hq => by rw [hcell] at hq; cases hq
        | known hi hs | taken hi hs => rw [hname] at hs; cases hs
      · rw [if_neg hmodule] at hname hcell
        cases hfound with
        | number hi hs => rw [hname] at hs; cases hs
        | known hi hs hmem =>
            rw [hname] at hs
            injection hs with hs
            refine h.of_known hmode hframe rfl fun q hq => ?_
            rw [hcell] at hq
            injection hq with hq
            rw [← hq]
            exact (h.mem_statics_iff hlo).1 (hs ▸ hmem)
        | taken hi hs hmem hroom =>
            rw [hname] at hs
            injection hs with hs
            subst hs
            exact h.of_new hmode hframe hcell hlo (fun hold => hmem ((h.mem_statics_iff hlo).2 hold)) rfl

end Tracks

/-- **All commands are written, or the first one that breaks a limit is refused.**  The induction is on
the commands; those before them have been written and are remembered. -/
theorem list_cases (annotate : Bool) {g : Generator} {before cs : List PlacedCommand}
    (h : g.Tracks before) (hwithin : WithinLimits before) (hcs : ∀ c ∈ cs, c.command.Valid) :
    ((∃ r, g.list annotate cs = .ok r) ∧ WithinLimits (before ++ cs)) ∨
      ∃ done c rest f, cs = done ++ c :: rest ∧ WithinLimits (before ++ done) ∧
        Violates (before ++ done) c f ∧ g.list annotate cs = .error (.line c.module c.line f) := by
  induction cs generalizing g before with
  | nil =>
      rw [List.append_nil]
      exact Or.inl ⟨⟨_, rfl⟩, hwithin⟩
  | cons c cs ih =>
      have hc := hcs c (List.mem_cons_self ..)
      cases hw : { g with module := c.module }.write c.command with
      | mk g' result =>
          cases result with
          | error f =>
              refine Or.inr ⟨[], c, cs, f, rfl, ?_, ?_, ?_⟩
              · rwa [List.append_nil]
              · rw [List.append_nil]
                exact (h.write_eq_error_iff hwithin hc).1 (by rw [hw])
              · simp only [list, writePlaced, hw]
          | ok code =>
              have hnone : ∀ f, ¬Violates before c f := by
                intro f hviolates
                have herror := (h.write_eq_error_iff hwithin hc).2 hviolates
                rw [hw] at herror
                cases herror
              have hnext := ih (h.wrote hc hw) (withinLimits_concat_iff.2 ⟨hwithin, hnone⟩)
                fun c' hc' => hcs c' (List.mem_cons_of_mem _ hc')
              rw [List.append_assoc, List.singleton_append] at hnext
              rcases hnext with ⟨⟨r, hr⟩, hall⟩ | ⟨done, c', rest, f, hrest, hdone, hviolates, herror⟩
              · refine Or.inl ⟨?_, hall⟩
                simp only [list, writePlaced, hw, hr]
                exact ⟨_, rfl⟩
              · rw [List.append_assoc, List.singleton_append] at hdone hviolates
                refine Or.inr ⟨c :: done, c', rest, f, by rw [hrest]; rfl, hdone, hviolates, ?_⟩
                simp only [list, writePlaced, hw, herror]
                rfl

end Generator

/-! ### Reading the lines of a unit -/

namespace CompilationUnit

variable {u : CompilationUnit}

theorem placeCommand_eq_ok_iff {module : Text} {l : SourceLine} {c : PlacedCommand} :
    placeCommand module l = .ok c ↔
      ∃ command, Command.parse l.text = .ok command ∧ c = { module, line := l, command } := by
  unfold placeCommand
  cases Command.parse l.text with
  | error f => simp
  | ok command => simp [eq_comm]

theorem placeCommand_eq_error_iff {module : Text} {l : SourceLine} {e : CompileError} :
    placeCommand module l = .error e ↔
      ∃ f, Command.parse l.text = .error f ∧ e = .line module l f := by
  unfold placeCommand
  cases Command.parse l.text with
  | error f => simp [eq_comm]
  | ok command => simp

/-- The commands of a unit that can be read are its stream of commands. -/
theorem eq_stream_of_commands {entry : Text} {cs : List PlacedCommand}
    (h : u.commands entry = .ok cs) : cs = u.stream entry := by
  have hread : ∀ (ls : List (Text × SourceLine)) (cs : List PlacedCommand),
      (ls.mapM fun q => placeCommand q.1 q.2) = .ok cs →
      cs = ls.filterMap fun q => match Command.parse q.2.text with
        | .ok command => some { module := q.1, line := q.2, command }
        | .error _ => none := by
    intro ls
    induction ls with
    | nil =>
        intro cs hcs
        injection hcs with hcs
        exact hcs.symm
    | cons q ls ih =>
        intro cs hcs
        obtain ⟨c, cs', hc, hrest, rfl⟩ := mapM_cons_eq_ok hcs
        obtain ⟨command, hparse, rfl⟩ := placeCommand_eq_ok_iff.1 hc
        rw [List.filterMap_cons, ← ih cs' hrest]
        simp only [hparse]
  exact hread _ cs h

/-- A line of a unit is a line of one of its modules. -/
theorem mem_sourceLines {entry : Text} {q : Text × SourceLine} :
    q ∈ sourceLines (orderModules u.modules entry) ↔
      ∃ m ∈ u.modules, ∃ l ∈ m.lines, q = (m.name, l) := by
  simp only [sourceLines, List.mem_flatMap, mem_orderModules, List.mem_map, eq_comm]

/-- The commands of a unit can be read if all of its lines are commands; otherwise the first line that
is none is reported. -/
theorem commands_cases (u : CompilationUnit) (entry : Text) :
    (u.Readable ∧ u.commands entry = .ok (u.stream entry)) ∨
    ∃ before module line after f,
      sourceLines (orderModules u.modules entry) = before ++ (module, line) :: after ∧
      (∀ q ∈ before, ∃ c, Command.parse q.2.text = .ok c) ∧
      Command.parse line.text = .error f ∧ u.commands entry = .error (.line module line f) := by
  cases h : u.commands entry with
  | ok cs =>
      refine Or.inl ⟨fun m hm l hl => ?_, by rw [eq_stream_of_commands h]⟩
      obtain ⟨c, -, hc⟩ := mem_of_mapM h (mem_sourceLines.2 ⟨m, hm, l, hl, rfl⟩)
      obtain ⟨command, hparse, -⟩ := placeCommand_eq_ok_iff.1 hc
      exact ⟨command, hparse⟩
  | error e =>
      obtain ⟨before, ⟨module, line⟩, after, hsplit, hbefore, he⟩ := mapM_eq_error h
      obtain ⟨f, hparse, rfl⟩ := placeCommand_eq_error_iff.1 he
      refine Or.inr ⟨before, module, line, after, f, hsplit, fun q hq => ?_, hparse, rfl⟩
      obtain ⟨c, hc⟩ := hbefore q hq
      obtain ⟨command, hparse, -⟩ := placeCommand_eq_ok_iff.1 hc
      exact ⟨command, hparse⟩

theorem function_preamble (u : CompilationUnit) (o : CompileOptions) :
    (u.preamble o).1.function = [] := by
  have hstart : ∀ (g : Generator) (entry : Text), (g.start entry).1.function = g.function := by
    intro g entry
    unfold Generator.start
    split <;> rfl
  simp only [preamble]
  split
  · rw [hstart]
  · rfl

/-- **How compiling a unit ends** if its entry function has a proper name: with its assembly, at the
first line that is no command, or at the first command that breaks a limit. -/
theorem compile_cases {o : CompileOptions} (hmode : o.statics = .index)
    (hentry : ¬o.BadEntry) :
    ((∃ lines, u.compile o = .ok lines) ∧ u.Readable ∧ WithinLimits (u.stream o.entry)) ∨
    (∃ before module line after f,
      sourceLines (orderModules u.modules o.entry) = before ++ (module, line) :: after ∧
      (∀ q ∈ before, ∃ c, Command.parse q.2.text = .ok c) ∧
      Command.parse line.text = .error f ∧ u.compile o = .error (.line module line f)) ∨
    (u.Readable ∧ ∃ before c after f, u.stream o.entry = before ++ c :: after ∧ WithinLimits before ∧
      Violates before c f ∧ u.compile o = .error (.line c.module c.line f)) := by
  have hgood : ¬(o.bootstrap = true ∧ o.entry ≠ [] ∧ Text.isSymbol o.entry = false) := hentry
  rcases commands_cases u o.entry with
    ⟨hparse, hcommands⟩ | ⟨before, module, line, after, f, hsplit, hbefore, hf, hcommands⟩
  · have htracks : (u.preamble o).1.Tracks [] :=
      Generator.tracks_nil ((mode_preamble u o).trans hmode) (statics_preamble u o)
        (function_preamble u o)
    have hlist := Generator.list_cases o.annotate htracks withinLimits_nil
      (valid_of_mem_commands hcommands)
    simp only [List.nil_append] at hlist
    rcases hlist with ⟨⟨r, hr⟩, hwithin⟩ | ⟨done, c, rest, f, hsplit, hwithin, hviolates, herror⟩
    · refine Or.inl ⟨?_, hparse, hwithin⟩
      simp only [compile, items_eq, listing, if_neg hgood, hcommands, hr]
      exact ⟨_, rfl⟩
    · refine Or.inr (Or.inr ⟨hparse, done, c, rest, f, hsplit, hwithin, hviolates, ?_⟩)
      simp only [compile, items_eq, listing, if_neg hgood, hcommands, herror]
      rfl
  · refine Or.inr (Or.inl ⟨before, module, line, after, f, hsplit, hbefore, hf, ?_⟩)
    simp only [compile, items_eq, listing, if_neg hgood, hcommands]
    rfl

/-- **Which units are compiled, and for which line the others are refused.**  If the entry function has
a proper name, a unit is refused for the first of its lines that is no command or, if all are, for the
first command that breaks a limit; the fault is that of the line or the one that belongs to the
limit. -/
theorem compiles_iff_within_limits {u : CompilationUnit} {o : CompileOptions}
    (hmode : o.statics = .index) :
    ((∃ lines, u.compile o = .ok lines) ↔
      ¬o.BadEntry ∧ u.Readable ∧ WithinLimits (u.stream o.entry)) ∧
    (¬o.BadEntry → ∀ e, u.compile o = .error e →
      (∃ before module line after f,
        sourceLines (orderModules u.modules o.entry) = before ++ (module, line) :: after ∧
        (∀ q ∈ before, ∃ c, Command.parse q.2.text = .ok c) ∧
        Command.parse line.text = .error f ∧ e = .line module line f) ∨
      (u.Readable ∧ ∃ before c after f, u.stream o.entry = before ++ c :: after ∧
        WithinLimits before ∧ ¬WithinLimits (before ++ [c]) ∧ Violates before c f ∧
        f.kind = c.command.limitKind ∧ e = .line c.module c.line f)) := by
  refine ⟨⟨fun ⟨lines, hlines⟩ => ?_, fun ⟨hentry, hparse, hwithin⟩ => ?_⟩, fun hentry e he => ?_⟩
  · have hentry : ¬o.BadEntry := by
      rintro ⟨hboot, hne, hsymbol⟩
      simp only [compile, items, if_pos (And.intro hboot (And.intro hne hsymbol))] at hlines
      cases hlines
    rcases compile_cases hmode hentry with
      ⟨-, hok⟩ | ⟨_, _, _, _, _, -, -, -, herror⟩ | ⟨-, _, _, _, _, -, -, -, herror⟩
    · exact ⟨hentry, hok⟩
    · rw [hlines] at herror; cases herror
    · rw [hlines] at herror; cases herror
  · rcases compile_cases hmode hentry with
      ⟨hok, -⟩ | ⟨before, module, line, after, f, hsplit, -, hf, -⟩ |
        ⟨-, before, c, after, f, hsplit, -, hviolates, -⟩
    · exact hok
    · have hmem : (module, line) ∈ sourceLines (orderModules u.modules o.entry) := by
        rw [hsplit]
        exact List.mem_append_right _ (List.mem_cons_self ..)
      obtain ⟨m, hm, l, hl, heq⟩ := mem_sourceLines.1 hmem
      obtain ⟨c, hc⟩ := hparse m hm l hl
      injection heq with hmodule hline
      rw [hline, hc] at hf
      cases hf
    · rw [hsplit, ← List.singleton_append, ← List.append_assoc] at hwithin
      exact absurd hviolates ((withinLimits_concat_iff.1 hwithin.of_append).2 f)
  · rcases compile_cases hmode hentry with
      ⟨⟨lines, hlines⟩, -⟩ | ⟨before, module, line, after, f, hsplit, hbefore, hf, herror⟩ |
        ⟨hparse, before, c, after, f, hsplit, hwithin, hviolates, herror⟩
    · rw [hlines] at he; cases he
    · rw [herror] at he
      injection he with he
      exact Or.inl ⟨before, module, line, after, f, hsplit, hbefore, hf, he.symm⟩
    · rw [herror] at he
      injection he with he
      refine Or.inr ⟨hparse, before, c, after, f, hsplit, hwithin, fun hboth => ?_, hviolates,
        hviolates.kind_eq, he.symm⟩
      exact (withinLimits_concat_iff.1 hboth).2 f hviolates

end CompilationUnit

/-- A unit whose second module declares the entry function and so is compiled first. -/
def overstepping : CompilationUnit where
  modules := [
    { name := ascii "A", lines := [⟨1, ascii "return"⟩, ⟨2, ascii "push temp 8"⟩] },
    { name := ascii "Sys", lines := [⟨1, ascii "function Sys.init 0"⟩] }]

/-- The unit is refused for the second line of its first module, not for the first. -/
theorem overstepping_refused :
    overstepping.compile {} = .error (.line (ascii "A") ⟨2, ascii "push temp 8"⟩ (.tempBounds 8)) ∧
      ¬WithinLimits (overstepping.stream (ascii "Sys.init")) ∧
      ∃ before c after, overstepping.stream (ascii "Sys.init") = before ++ c :: after ∧
        c.line = ⟨2, ascii "push temp 8"⟩ ∧ WithinLimits before ∧ Violates before c (.tempBounds 8) := by
  have hcompile : overstepping.compile {}
      = .error (.line (ascii "A") ⟨2, ascii "push temp 8"⟩ (.tempBounds 8)) := by decide +kernel
  have hentry : ¬({} : CompileOptions).BadEntry := by
    rintro ⟨-, -, hsymbol⟩
    revert hsymbol
    decide
  have hparse : overstepping.Readable := by
    simp only [CompilationUnit.Readable, overstepping, List.forall_mem_cons]
    exact ⟨⟨⟨_, rfl⟩, ⟨_, rfl⟩, List.forall_mem_nil _⟩, ⟨⟨_, rfl⟩, List.forall_mem_nil _⟩,
      List.forall_mem_nil _⟩
  obtain ⟨haccepted, hrefused⟩ :=
    CompilationUnit.compiles_iff_within_limits (u := overstepping) (o := {}) rfl
  refine ⟨hcompile, fun hwithin => ?_, ?_⟩
  · obtain ⟨lines, hlines⟩ := haccepted.2 ⟨hentry, hparse, hwithin⟩
    rw [hcompile] at hlines
    cases hlines
  · rcases hrefused hentry _ hcompile with
      ⟨_, _, line, _, f, -, -, hf, he⟩ | ⟨-, before, c, after, f, hsplit, hwithin, -, hviolates, -, he⟩
    · injection he with _ hline
      rw [← hline] at hf
      cases hf
    · injection he with _ hline hfault
      exact ⟨before, c, after, hsplit, hline.symm, hwithin, hfault ▸ hviolates⟩

end HackToolchain
