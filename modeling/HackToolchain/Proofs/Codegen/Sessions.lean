/-
**Sessions with a generator.**

A session is any sequence of actions.  A command that is refused writes nothing, and the session goes
on after it.  The generator counts static symbols when it writes code, long before the assembler gives
them cells.  This module shows that it counts the right ones: after every session, its static symbols
are those that the code of static accesses loads, so a refused command has reserved nothing and no
symbol has been missed.

Main definitions:

* `Generator.session` — actions one after the other, each with what it gave;
* `writtenItems` — what a session wrote;
* `Action.Read` — commands come from lines that have been read;
* `staticTargets` — where the code of a session finds static cells;
* `Generator.Accounts` — the static symbols of a generator are those in use, and there are at most
  240.

Main results:

* `Command.command_record` — a command is found again in its fields;
* `Generator.Accounts.write`, `Generator.Accounts.perform` — what one command and one action preserve;
* `Generator.Accounts.session` — **what a session preserves**.
-/
import Mathlib.Data.List.Nodup
import HackToolchain.Codegen.Session
import HackToolchain.Proofs.Codegen.Names

set_option relaxedAutoImplicit false
set_option autoImplicit false

namespace HackToolchain

/-! ### Actions one after the other -/

/-- A command is found again in its fields. -/
theorem Command.command_record (c : Command) : c.record.command = .ok c := by
  cases c with
  | push s i | pop s i => cases s <;> rfl
  | operate o => cases o <;> rfl
  | _ => rfl

/-- The state after actions, and the actions with what each of them gave. -/
def Generator.session (g : Generator) :
    List Action → Generator × List (Action × Except Fault (List Item))
  | [] => (g, [])
  | a :: as =>
    let r := g.perform a
    let s := r.1.session as
    (s.1, (a, r.2) :: s.2)

theorem Generator.session_cons (g : Generator) (a : Action) (as : List Action) :
    g.session (a :: as) = (((g.perform a).1.session as).1,
      (a, (g.perform a).2) :: ((g.perform a).1.session as).2) := rfl

theorem Generator.session_append (g : Generator) (as bs : List Action) :
    g.session (as ++ bs) = (((g.session as).1.session bs).1,
      (g.session as).2 ++ ((g.session as).1.session bs).2) := by
  induction as generalizing g with
  | nil => rfl
  | cons a as ih => rw [List.cons_append, session_cons, ih, session_cons, List.cons_append]

/-- What a session wrote. -/
def writtenItems (log : List (Action × Except Fault (List Item))) : List Item :=
  log.flatMap fun e => match e.2 with
    | .ok code => code
    | .error _ => []

theorem writtenItems_append (s t : List (Action × Except Fault (List Item))) :
    writtenItems (s ++ t) = writtenItems s ++ writtenItems t := List.flatMap_append

/-- A command that is written has been read from a line. -/
def Action.Read : Action → Prop
  | write r => ∃ line c, Command.parse line = .ok c ∧ r = c.record
  | _ => True

/-! ### Static cells in written code -/

/-- What an address instruction loads, besides the stack pointer. -/
def Item.cell? : Item → Option Target
  | load t => if t = .symbol (ascii "SP") then none else some t
  | _ => none

/-- Where the code of a command finds a static cell. -/
def Command.staticTargets (c : Command) : Except Fault (List Item) → List Target
  | .ok code => if c.staticIndex?.isSome then code.filterMap Item.cell? else []
  | .error _ => []

/-- Where the code of an action finds a static cell. -/
def Action.staticTargets (a : Action) (result : Except Fault (List Item)) : List Target :=
  match a with
  | write r =>
    match r.command with
    | .ok c => c.staticTargets result
    | .error _ => []
  | _ => []

/-- Where the code of a session finds static cells. -/
def staticTargets (log : List (Action × Except Fault (List Item))) : List Target :=
  log.flatMap fun e => e.1.staticTargets e.2

/-- The symbol of a static cell has a dot in it. -/
theorem Generator.dot_mem_staticName? {g : Generator} {i : Int} {s : Text}
    (h : g.staticName? i = some s) : 46 ∈ s := by
  have hdot : ascii ".static" = 46 :: ascii "static" := by decide
  unfold staticName? at h
  split at h
  · split at h
    · cases h
    · injection h with h
      rw [← h, hdot]
      simp
  · split at h
    · cases h
    · injection h with h
      rw [← h]
      exact dot_mem_staticSymbol _ _

/-- Code that pushes or pops a static cell loads the cell, and nothing else but the stack pointer. -/
theorem Generator.cells_of_found {g g' : Generator} {i : Int} {t : Target}
    (h : g.Found i g' (.ok t)) :
    (Code.push (.direct t)).filterMap Item.cell? = [t] ∧
      (Code.pop (.direct t)).filterMap Item.cell? = [t] := by
  have ht : t ≠ .symbol (ascii "SP") := by
    cases h with
    | number => intro hsp; cases hsp
    | known hi hs | taken hi hs =>
        intro hsp
        injection hsp with hsp
        have hdot := dot_mem_staticName? hs
        rw [hsp] at hdot
        exact absurd hdot (by decide)
  have hload : Item.cell? (.load t) = some t := if_neg ht
  constructor
  · simp only [Code.push, List.cons_append, List.nil_append, List.filterMap_cons, hload]
    rfl
  · simp only [Code.pop, List.filterMap_append, List.filterMap_cons, hload]
    rfl

namespace Generator

/-! ### The static symbols of a session -/

/-- The static symbols of a generator are those among the targets of static cells, without repetition,
and there are at most 240.  The other targets are numbers of static cells. -/
structure Accounts (g : Generator) (ts : List Target) : Prop where
  nodup : g.statics.Nodup
  length_le : g.statics.length ≤ 240
  mem_iff : ∀ s, s ∈ g.statics ↔ .symbol s ∈ ts
  bounds : ∀ n, .number n ∈ ts → 16 ≤ n ∧ n ≤ 255

theorem accounts_nil {g : Generator} (h : g.statics = []) : g.Accounts [] where
  nodup := by rw [h]; exact List.nodup_nil
  length_le := by rw [h]; exact Nat.zero_le _
  mem_iff s := by simp [h]
  bounds n hn := by cases hn

theorem Accounts.of_statics_eq {g g' : Generator} {ts : List Target} (h : g.Accounts ts)
    (hg : g'.statics = g.statics) : g'.Accounts ts where
  nodup := by rw [hg]; exact h.nodup
  length_le := by rw [hg]; exact h.length_le
  mem_iff s := by rw [hg]; exact h.mem_iff s
  bounds := h.bounds

/-- A refused command leaves the static symbols alone. -/
theorem statics_of_refused {g g' : Generator} {c : Command} {f : Fault} (h : g.Refused c g' f) :
    g'.statics = g.statics := by
  cases h with
  | statics hc hfound => cases hfound <;> rfl
  | _ => rfl

/-- A static cell that is found is accounted for. -/
theorem Accounts.found {g g' : Generator} {ts : List Target} {i : Int} {t : Target}
    (h : g.Accounts ts) (hlo : 0 ≤ i) (hfound : g.Found i g' (.ok t)) : g'.Accounts (ts ++ [t]) := by
  cases hfound with
  | number hi hs =>
      refine ⟨h.nodup, h.length_le, fun x => ?_, fun n hn => ?_⟩
      · rw [h.mem_iff]
        simp
      · rcases List.mem_append.1 hn with hn | hn
        · exact h.bounds n hn
        · injection List.mem_singleton.1 hn with hn
          omega
  | @known s hi hs hmem =>
      refine ⟨h.nodup, h.length_le, fun x => ?_, fun n hn => h.bounds n (by simpa using hn)⟩
      change x ∈ g.statics ↔ _
      rw [List.mem_append, ← h.mem_iff, List.mem_singleton, Target.symbol.injEq]
      constructor
      · exact Or.inl
      · rintro (hx | rfl)
        · exact hx
        · exact hmem
  | @taken s hi hs hmem hroom =>
      refine ⟨?_, ?_, fun x => ?_, fun n hn => h.bounds n (by simpa using hn)⟩
      · have hnodup := List.Nodup.concat hmem h.nodup
        rwa [List.concat_eq_append] at hnodup
      · rw [List.length_append, List.length_singleton]
        omega
      · rw [List.mem_append, List.mem_append, h.mem_iff, List.mem_singleton, List.mem_singleton,
          Target.symbol.injEq]

/-- **One command**, whether it is refused or not. -/
theorem Accounts.write {g : Generator} {ts : List Target} (h : g.Accounts ts) {c : Command}
    (hc : c.Valid) : (g.write c).1.Accounts (ts ++ c.staticTargets (g.write c).2) := by
  cases hw : g.write c with
  | mk g' result =>
      cases result with
      | error f =>
          simp only [Command.staticTargets, List.append_nil]
          exact h.of_statics_eq (statics_of_refused (refused_of_write hc hw))
      | ok code =>
          have hwrote := wrote_of_write hc hw
          cases hi : c.staticIndex? with
          | none =>
              simp only [Command.staticTargets, hi, Option.isSome_none, Bool.false_eq_true, if_false,
                List.append_nil]
              exact h.of_statics_eq (statics_eq_of_wrote hwrote hi)
          | some i =>
              obtain ⟨t, hfound, hcode⟩ := found_of_wrote hwrote hc hi
              have hcells : code.filterMap Item.cell? = [t] := by
                rcases hcode with ⟨-, rfl⟩ | ⟨-, rfl⟩
                · exact (cells_of_found hfound).1
                · exact (cells_of_found hfound).2
              simp only [Command.staticTargets, hi, Option.isSome_some, if_true, hcells]
              exact h.found (Command.valid_static hc hi).1 hfound

/-- **One action.** -/
theorem Accounts.perform {g : Generator} {ts : List Target} (h : g.Accounts ts) {a : Action}
    (ha : a.Read) : (g.perform a).1.Accounts (ts ++ a.staticTargets (g.perform a).2) := by
  cases a with
  | enter module | remark t =>
      simp only [Action.staticTargets, List.append_nil]
      exact h.of_statics_eq rfl
  | start entry =>
      simp only [Action.staticTargets, List.append_nil]
      refine h.of_statics_eq ?_
      simp only [Generator.perform, start]
      split <;> rfl
  | write r =>
      obtain ⟨line, c, hparse, rfl⟩ := ha
      simp only [Generator.perform, Action.staticTargets, Command.command_record]
      exact h.write (Command.valid_of_parse hparse)

/-- **A session.**  The induction is on the actions; what has been written before them is carried along
in `ts`. -/
theorem Accounts.session {g : Generator} {ts : List Target} (h : g.Accounts ts) {as : List Action}
    (has : ∀ a ∈ as, a.Read) :
    (g.session as).1.Accounts (ts ++ staticTargets (g.session as).2) := by
  induction as generalizing g ts with
  | nil =>
      rw [staticTargets, Generator.session, List.flatMap_nil, List.append_nil]
      exact h
  | cons a as ih =>
      have hone := h.perform (has a (List.mem_cons_self ..))
      have hrest := ih hone fun b hb => has b (List.mem_cons_of_mem _ hb)
      rw [session_cons, staticTargets, List.flatMap_cons, ← List.append_assoc]
      exact hrest

end Generator

end HackToolchain
