/-
**What a refused command leaves behind.**

A command is refused before anything is written for it, and nearly always before anything is
remembered of it.  The exception is the budget of static cells: if cells are named by occurrence, a
use is numbered first and the budget is looked at afterwards.  So a command that is refused for the
budget has taken a number, and the static cells after it in the function have other names than they
would have had without it.  No other refusal can be noticed later.

Main definitions:

* `Answer`, `Generator.answers` — what can be seen of actions: their lines or faults, and the
  function after each of them;
* `Fault.isBudget` — the refusals for the budget of static cells.

Main results:

* `Generator.write_refused` — **the states in which a command can be refused**;
* `Generator.refused_command_traceless_iff` — **a refused command can be noticed later exactly if it
  was refused for the budget and cells are named by occurrence**.
-/
import HackToolchain.Proofs.Codegen.Sessions
import HackToolchain.Proofs.Unit.Listing

set_option relaxedAutoImplicit false
set_option autoImplicit false

namespace HackToolchain

/-! ### What can be seen of actions -/

/-- What can be seen of an action: the lines that it writes, or why it writes none, and the current
function after it. -/
structure Answer where
  lines : Except Fault (List Text)
  function : Text

/-- What can be seen of actions, one after the other. -/
def Generator.answers (g : Generator) : List Action → List Answer
  | [] => []
  | a :: as =>
    let r := g.perform a
    { lines := r.2.map render, function := r.1.function } :: r.1.answers as

/-- The refusals for the budget of static cells. -/
def Fault.isBudget : Fault → Bool
  | staticBudget _ => true
  | _ => false

namespace Generator

/-! ### Refused commands -/

/-- A symbol is refused for the budget only, and nothing is reserved. -/
theorem reserve_refused {g g' : Generator} {s : Text} {f : Fault}
    (h : g.reserve s = (g', .error f)) : g' = g ∧ f = .staticBudget s := by
  unfold reserve at h
  split at h
  · injection h with _ h
    cases h
  · split at h
    · injection h with hg h
      injection h with h
      exact ⟨hg.symm, h.symm⟩
    · injection h with _ h
      cases h

/-- A static cell is refused for its index, or for the budget after its use has been counted. -/
theorem staticTarget_refused {g g' : Generator} {i : Int} {f : Fault}
    (h : g.staticTarget i = (g', .error f)) :
    (f.isBudget = false ∧ g' = g) ∨
      ∃ s, f = .staticBudget s ∧ g.staticName? i = some s ∧ g' = g.countUse := by
  obtain ⟨mode, module, function, labels, staticUses, statics⟩ := g
  simp only [staticTarget] at h
  split at h
  · injection h with hg h
    injection h with h
    exact Or.inl ⟨by rw [← h]; rfl, hg.symm⟩
  · right
    cases mode with
    | occurrence =>
        dsimp only at h
        split at h
        · injection h with _ h
          cases h
        · next hfun =>
            obtain ⟨rfl, rfl⟩ := reserve_refused h
            exact ⟨_, rfl, if_neg hfun, rfl⟩
    | index =>
        dsimp only at h
        split at h
        · injection h with _ h
          cases h
        · next hmodule =>
            obtain ⟨rfl, rfl⟩ := reserve_refused h
            exact ⟨_, rfl, if_neg hmodule, rfl⟩

/-- A cell of any segment is refused in the same two ways. -/
theorem place_refused {g g' : Generator} {s : Segment} {i : Int} {f : Fault}
    (h : g.place s i = (g', .error f)) :
    (f.isBudget = false ∧ g' = g) ∨
      ∃ i s, f = .staticBudget s ∧ g.staticName? i = some s ∧ g' = g.countUse := by
  cases s with
  | constant | locals | arguments | this | that =>
      injection h with _ h
      cases h
  | pointer =>
      injection h with hg h
      unfold pointerTarget at h
      split at h
      · cases h
      · split at h
        · cases h
        · injection h with h
          exact Or.inl ⟨by rw [← h]; rfl, hg.symm⟩
  | temp =>
      injection h with hg h
      unfold tempTarget at h
      split at h
      · injection h with h
        exact Or.inl ⟨by rw [← h]; rfl, hg.symm⟩
      · cases h
  | statics =>
      cases ht : g.staticTarget i with
      | mk g'' r =>
          simp only [place, ht] at h
          injection h with hg h
          cases r with
          | ok t => cases h
          | error f' =>
              injection h with h
              subst hg h
              rcases staticTarget_refused ht with hplain | ⟨s, hbudget⟩
              · exact Or.inl hplain
              · exact Or.inr ⟨i, s, hbudget⟩

/-- **The states in which a command can be refused**, whatever its operands are: the state before it,
or, if the budget is used up, the state after its use of a static cell has been counted. -/
theorem write_refused {g g' : Generator} {c : Command} {f : Fault}
    (h : g.write c = (g', .error f)) :
    (f.isBudget = false ∧ g' = g) ∨
      ∃ i s, f = .staticBudget s ∧ g.staticName? i = some s ∧ g' = g.countUse := by
  cases c with
  | push s i | pop s i =>
      cases hp : g.place s i with
      | mk g'' r =>
          simp only [write, hp] at h
          injection h with hg h
          cases r with
          | ok pl => cases h
          | error f' =>
              injection h with h
              subst hg h
              exact place_refused hp
  | operate o | label name | jump name | jumpIf name | function name n =>
      injection h with _ h
      cases h
  | call name n =>
      rw [write] at h
      split at h
      · injection h with hg h
        injection h with h
        exact Or.inl ⟨by rw [← h]; rfl, hg.symm⟩
      · injection h with _ h
        cases h
  | ret =>
      rw [write] at h
      split at h
      · injection h with hg h
        injection h with h
        exact Or.inl ⟨by rw [← h]; rfl, hg.symm⟩
      · injection h with _ h
        cases h

/-- The fields of a record that hold no command are refused, too, and nothing is remembered of
them. -/
theorem perform_refused {g g' : Generator} {r : Record} {f : Fault}
    (h : g.perform (.write r) = (g', .error f)) :
    (f.isBudget = false ∧ g' = g) ∨
      ∃ i s, f = .staticBudget s ∧ g.staticName? i = some s ∧ g' = g.countUse := by
  simp only [perform] at h
  cases hr : r.command with
  | ok c =>
      rw [hr] at h
      exact write_refused h
  | error f' =>
      rw [hr] at h
      injection h with hg h
      injection h with h
      subst h
      refine Or.inl ⟨?_, hg.symm⟩
      unfold Record.command at hr
      split at hr
      · injection hr with hr
        rw [← hr]
        rfl
      · next k _ =>
          cases k with
          | push | pop =>
              dsimp only at hr
              split at hr
              · injection hr with hr
                rw [← hr]
                rfl
              · cases hr
          | _ => cases hr

/-! ### What can be noticed later -/

theorem mode_perform (g : Generator) (a : Action) : (g.perform a).1.mode = g.mode := by
  cases a with
  | enter module | remark t => rfl
  | start entry => exact mode_start g entry
  | write r =>
      simp only [perform]
      cases r.command with
      | error f => rfl
      | ok c => exact mode_write g c

/-- A session keeps the way of naming static cells. -/
theorem mode_session (g : Generator) (as : List Action) : (g.session as).1.mode = g.mode := by
  induction as generalizing g with
  | nil => rfl
  | cons a as ih => rw [session_cons, ih, mode_perform]

/-- By index, uses are not counted. -/
theorem countUse_index {g : Generator} (h : g.mode = .index) : g.countUse = g := by
  obtain ⟨mode, module, function, labels, staticUses, statics⟩ := g
  cases h
  rfl

theorem countUse_occurrence {g : Generator} (h : g.mode = .occurrence) :
    g.countUse = { g with staticUses := g.staticUses + 1 } := by
  simp only [countUse, h]

/-- By occurrence, the name of a cell changes with each use that is counted. -/
theorem staticName?_countUse {g : Generator} (hmode : g.mode = .occurrence) {i j : Int} {s : Text}
    (h : g.staticName? i = some s) : g.countUse.staticName? j ≠ some s := by
  intro h'
  rw [countUse_occurrence hmode] at h'
  simp only [staticName?, hmode] at h h'
  split at h
  · cases h
  · next hfun =>
      rw [if_neg hfun] at h'
      have hnames := h.trans h'.symm
      injection hnames with hnames
      have huses := Numeral.ofNat_inj (List.append_cancel_left hnames)
      omega

/-- A use that was counted is noticed at once: the same command is not refused again for the same
symbol. -/
theorem answers_countUse {g : Generator} (hmode : g.mode = .occurrence) {r : Record} {i : Int}
    {s : Text} (hname : g.staticName? i = some s)
    (h : g.perform (.write r) = (g.countUse, .error (.staticBudget s))) :
    g.countUse.answers [.write r] ≠ g.answers [.write r] := by
  intro hsame
  simp only [answers, h] at hsame
  injection hsame with hfirst
  injection hfirst with hlines
  cases hagain : g.countUse.perform (.write r) with
  | mk g'' result =>
      rw [hagain] at hlines
      cases result with
      | ok items => cases hlines
      | error f =>
          injection hlines with hf
          subst hf
          rcases perform_refused hagain with ⟨hno, -⟩ | ⟨j, s', hs', hname', -⟩
          · cases hno
          · injection hs' with hs'
            subst hs'
            exact staticName?_countUse hmode hname hname'

/-- **A refused command can be noticed later exactly if it was refused for the budget and static cells
are named by occurrence.**  Then, and only then, the number of uses has moved; everything else that the
generator remembers is as before. -/
theorem refused_command_traceless_iff {mode : StaticMode} {before : List Action} {g g' : Generator}
    {r : Record} {f : Fault} (hg : (({ mode } : Generator).session before).1 = g)
    (h : g.perform (.write r) = (g', .error f)) :
    ((∀ later, g'.answers later = g.answers later) ↔ ¬(mode = .occurrence ∧ f.isBudget = true)) ∧
      g' = { g with staticUses :=
        if mode = .occurrence ∧ f.isBudget = true then g.staticUses + 1 else g.staticUses } := by
  have hmode : g.mode = mode := by rw [← hg, mode_session]
  rcases perform_refused h with ⟨hno, rfl⟩ | ⟨i, s, rfl, hname, rfl⟩
  · have hnot : ¬(mode = .occurrence ∧ f.isBudget = true) := by
      rintro ⟨-, hyes⟩
      rw [hno] at hyes
      cases hyes
    rw [if_neg hnot]
    exact ⟨iff_of_true (fun _ => rfl) hnot, rfl⟩
  · cases mode with
    | index =>
        have hnot : ¬(StaticMode.index = .occurrence ∧ (Fault.staticBudget s).isBudget = true) := by
          rintro ⟨hmode, -⟩
          cases hmode
        rw [if_neg hnot, countUse_index hmode]
        exact ⟨iff_of_true (fun _ => rfl) hnot, rfl⟩
    | occurrence =>
        rw [if_pos ⟨rfl, rfl⟩]
        refine ⟨iff_of_false (fun hsame => ?_) (fun hnot => hnot ⟨rfl, rfl⟩),
          countUse_occurrence hmode⟩
        exact answers_countUse hmode hname h (hsame [.write r])

/-! ### A session that uses up the budget -/

/-- What is found when a static cell is looked for is what is pushed. -/
theorem perform_push_static {g g' : Generator} {i : Int} {t : Except Fault Target} (hlo : 0 ≤ i)
    (h : g.Found i g' t) (hhi : i ≤ 239) :
    g.perform (.write (Command.push .statics i).record)
      = (g', t.map fun t => Code.push (.direct t)) := by
  have htarget : g.staticTarget i = (g', t) := by
    rw [staticTarget_eq g hlo hhi]
    cases h with
    | past hi => omega
    | number hi hs => simp only [hs]
    | known hi hs hmem =>
        simp only [hs, reserve]
        exact if_pos hmem
    | taken hi hs hmem hroom =>
        simp only [hs, reserve]
        exact (if_neg hmem).trans (if_neg (Nat.not_le_of_lt hroom))
    | full hi hs hmem hfull =>
        simp only [hs, reserve]
        exact (if_neg hmem).trans (if_pos hfull)
  simp only [perform, Command.command_record, write, place, htarget]
  cases t <;> rfl

/-- The symbol of a use of a static cell that is named by occurrence. -/
def occurrenceSymbol (module : Text) (n : Nat) : Text := module ++ ascii ".static" ++ Numeral.ofNat n

theorem occurrenceSymbol_inj {module : Text} {m n : Nat}
    (h : occurrenceSymbol module m = occurrenceSymbol module n) : m = n :=
  Numeral.ofNat_inj (List.append_cancel_left h)

theorem staticName?_occurrence {g : Generator} (hmode : g.mode = .occurrence) (hmodule : g.module ≠ [])
    (hfun : g.function ≠ []) (i : Int) :
    g.staticName? i = some (occurrenceSymbol g.module g.staticUses) := by
  simp only [staticName?, hmode, List.isEmpty_iff, hfun, hmodule, if_false]
  rfl

/-- Up to 240 uses of static cells in the first function of a named module take a cell each. -/
theorem session_uses {g : Generator} (hmode : g.mode = .occurrence) (hmodule : g.module ≠ [])
    (hfun : g.function ≠ []) (hnone : g.statics = []) (huses : g.staticUses = 0) {n : Nat}
    (hn : n ≤ 240) :
    (g.session (List.replicate n (.write (Command.push .statics 0).record))).1
      = { g with staticUses := n, statics := (List.range n).map (occurrenceSymbol g.module) } := by
  induction n with
  | zero =>
      obtain ⟨mode, module, function, labels, staticUses, statics⟩ := g
      cases hnone
      cases huses
      rfl
  | succ n ih =>
      have hnew : occurrenceSymbol g.module n ∉ (List.range n).map (occurrenceSymbol g.module) := by
        intro hmem
        obtain ⟨m, hm, heq⟩ := List.mem_map.1 hmem
        have := List.mem_range.1 hm
        have := occurrenceSymbol_inj heq
        omega
      have hfound : { g with
          staticUses := n, statics := (List.range n).map (occurrenceSymbol g.module) }.Found 0 _ _ :=
        .taken (by decide)
          (staticName?_occurrence (g := { g with staticUses := n, statics := _ }) hmode hmodule hfun 0)
          hnew
          (by simp only [List.length_map, List.length_range]; omega)
      rw [List.replicate_succ', session_append, ih (by omega), session_cons,
        perform_push_static (Int.le_refl 0) hfound (by decide)]
      simp only [session, countUse, hmode, List.range_succ, List.map_append, List.map_singleton]

end Generator

/-- A session in which one function uses up all static cells, and another one is started in which
the first use of a static cell would be numbered 0. -/
def exhausting : List Action :=
  [.enter (ascii "A"), .write (Command.function (ascii "f") 0).record]
    ++ List.replicate 240 (.write (Command.push .statics 0).record)
    ++ [.write (Command.function (ascii "g") 0).record, .enter (ascii "B")]

/-- What the session leaves: all static symbols are those of the first function. -/
def exhausted : Generator where
  mode := .occurrence
  module := ascii "B"
  function := ascii "g"
  statics := (List.range 240).map (Generator.occurrenceSymbol (ascii "A"))

theorem session_exhausting :
    (({ mode := .occurrence } : Generator).session exhausting).1 = exhausted := by
  have huses := Generator.session_uses (n := 240)
    (g := { mode := .occurrence, module := ascii "A", function := ascii "f" }) rfl (by decide)
    (by decide) rfl rfl (Nat.le_refl _)
  have hfirst : (({ mode := .occurrence } : Generator).session
      [.enter (ascii "A"), .write (Command.function (ascii "f") 0).record]).1
        = { mode := .occurrence, module := ascii "A", function := ascii "f" } := rfl
  have hlast : ∀ g : Generator,
      (g.session [.write (Command.function (ascii "g") 0).record, .enter (ascii "B")]).1
        = { g with module := ascii "B", function := ascii "g", staticUses := 0 } := fun _ => rfl
  simp only [exhausting, Generator.session_append, hfirst, huses, hlast, exhausted]

/-- After the session, a use of a static cell in module `B` is refused for the budget, and because of
that a use in module `A` loads another cell than it would have loaded. -/
theorem exhausting_leaves_trace :
    ∃ g g', (({ mode := .occurrence } : Generator).session exhausting).1 = g ∧
      g.perform (.write (Command.push .statics 0).record)
        = (g', .error (.staticBudget (ascii "B.static0"))) ∧
      g' = { g with staticUses := 1 } ∧ ¬(∀ later, g'.answers later = g.answers later) ∧
      (g.session [.enter (ascii "A"), .write (Command.push .statics 0).record]).2.map Prod.snd
        = [.ok [], .ok (Code.push (.direct (.symbol (ascii "A.static0"))))] ∧
      (g'.session [.enter (ascii "A"), .write (Command.push .statics 0).record]).2.map Prod.snd
        = [.ok [], .ok (Code.push (.direct (.symbol (ascii "A.static1"))))] := by
  have hmodule : ascii "A" ≠ [] := by decide
  have hfun : exhausted.function ≠ [] := by decide
  have hlength : exhausted.statics.length = 240 := by
    rw [exhausted, List.length_map, List.length_range]
  have hname : exhausted.staticName? 0 = some (ascii "B.static0") := rfl
  have hnew : ascii "B.static0" ∉ exhausted.statics := by
    intro hmem
    obtain ⟨n, -, hn⟩ := List.mem_map.1 hmem
    cases hn
  have hfull := Generator.perform_push_static (Int.le_refl 0)
    (.full (by decide) hname hnew (Nat.le_of_eq hlength.symm)) (by decide)
  obtain ⟨hiff, hstate⟩ := Generator.refused_command_traceless_iff session_exhausting hfull
  -- in module `A` the symbols with the numbers 0 and 1 are known
  have hknown : ∀ n < 240, ({ exhausted with staticUses := n }.session
      [.enter (ascii "A"), .write (Command.push .statics 0).record]).2.map Prod.snd
        = [.ok [], .ok (Code.push (.direct
          (.symbol (Generator.occurrenceSymbol (ascii "A") n))))] := by
    intro n hn
    have hfound : { exhausted with staticUses := n, module := ascii "A" }.Found 0 _ _ :=
      .known (by decide)
        (Generator.staticName?_occurrence (g := { exhausted with staticUses := n, module := ascii "A" })
          rfl hmodule hfun 0)
        (List.mem_map.2 ⟨n, List.mem_range.2 hn, rfl⟩)
    have hpush := Generator.perform_push_static (Int.le_refl 0) hfound (by decide)
    simp only [Generator.session, List.map_cons, List.map_nil]
    exact congrArg (fun r => [.ok [], r]) (congrArg Prod.snd hpush)
  refine ⟨exhausted, _, session_exhausting, hfull, hstate, fun hsame => ?_, hknown 0 (by decide),
    hknown 1 (by decide)⟩
  exact hiff.1 hsame ⟨rfl, rfl⟩

end HackToolchain
