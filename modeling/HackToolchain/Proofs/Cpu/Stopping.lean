/-
**Where a run stops.**

A run to a place is bounded by a number of steps.  It looks whether it has arrived before each step
and once more after the last, so arriving with the last step that is allowed is no failure, and a step
that would fail is not made if the limit forbids it.

The steps themselves know neither the place nor the limit.  They are counted here apart from the run:
the machine after so many steps, and the first number of steps after which there is nothing more to do
or the next step fails.  Both limit and place enter only when this number is compared with the limit.

Main definitions:

* `Machine.after` — the machine after a number of steps;
* `Machine.EndsAfter`, `Machine.FirstEnd` — a number of steps after which a run can end, and the first
  of them;
* `Machine.Outcome` — **how a run ends**, said without running it.

Main results:

* `Machine.step_eq_of_fails` — a step that fails changes nothing but the count of steps;
* `Machine.steps_after` — each step on the way to the end counts as one;
* `Machine.outcome_runUntil`, `Machine.Outcome.unique` — a run ends in the one way that it can end;
* `Machine.runUntil_add` — a run that reached its limit can be continued;
* `Machine.runUntil_stops_first` — **a run stops at the first stopping point, and runs compose**.
-/
import HackToolchain.Cpu.Machine
import Mathlib.Order.Bounds.Basic

set_option relaxedAutoImplicit false
set_option autoImplicit false

namespace HackToolchain.Machine

variable {m : Machine} {target : Int} {limit k : Nat}

/-! ### One step -/

/-- A step that fails changes nothing but the count of steps. -/
theorem step_eq_of_fails {f : MemoryFault} (h : m.step.2 = .error f) :
    m.step = ({ m with steps := m.steps + 1 }, .error f) := by
  unfold step at h ⊢
  split at h
  · cases h
  · split at h
    · injection h with h
      rw [h]
    · cases h

/-- A machine that has not halted counts the step that it makes, whether the step fails or not. -/
theorem steps_step (h : m.halted = false) : m.step.1.steps = m.steps + 1 := by
  unfold halted at h
  unfold step
  split
  · next hfetch => rw [hfetch] at h; cases h
  · split <;> rfl

theorem halted_of_stopped_eq_false (h : m.stopped target = false) : m.halted = false := by
  rw [stopped, Bool.or_eq_false_iff] at h
  exact h.1

/-! ### Counting steps -/

/-- The machine after a number of steps. -/
def after : Nat → Machine → Machine
  | 0, m => m
  | k + 1, m => after k m.step.1

/-- After `k` steps a run to `target` can end: the machine has halted or stands at `target`, or its next
step fails. -/
def EndsAfter (m : Machine) (target : Int) (k : Nat) : Prop :=
  (m.after k).stopped target = true ∨ ∃ f, (m.after k).step.2 = .error f

/-- The least number of steps after which a run to `target` can end. -/
def FirstEnd (m : Machine) (target : Int) (k : Nat) : Prop := IsLeast { j | m.EndsAfter target j } k

/-- A run that does not end at once has made one step less than it will have made one step later. -/
theorem firstEnd_succ_iff (h : ¬m.EndsAfter target 0) :
    m.FirstEnd target (k + 1) ↔ m.step.1.FirstEnd target k := by
  constructor
  · rintro ⟨hend, hleast⟩
    refine ⟨hend, fun j hj => ?_⟩
    exact Nat.le_of_succ_le_succ (hleast (show m.EndsAfter target (j + 1) from hj))
  · rintro ⟨hend, hleast⟩
    refine ⟨hend, fun j hj => ?_⟩
    cases j with
    | zero => exact absurd hj h
    | succ j => exact Nat.succ_le_succ (hleast hj)

theorem firstEnd_zero (h : m.EndsAfter target 0) : m.FirstEnd target 0 :=
  ⟨h, fun _ _ => Nat.zero_le _⟩

/-- **Each step on the way to the end counts as one.** -/
theorem steps_after (h : ∀ j < k, ¬m.EndsAfter target j) : (m.after k).steps = m.steps + k := by
  induction k generalizing m with
  | zero => rfl
  | succ k ih =>
      have hnot : m.stopped target = false := by
        rw [← Bool.not_eq_true]
        exact fun hstopped => h 0 (Nat.succ_pos k) (Or.inl hstopped)
      have hrest := ih (m := m.step.1) fun j hj => h (j + 1) (Nat.succ_lt_succ hj)
      rw [after, hrest, steps_step (halted_of_stopped_eq_false hnot)]
      omega

/-! ### How a run ends -/

/-- **How a run to `target` of at most `limit` steps ends.**  Let `k` be the first number of steps after
which it can end.  If the machine has arrived then and `k` is within the limit, this is where the run
ends.  If it has not arrived and the limit allows one more step, this step is made and fails.  Otherwise
the run has made all steps that it may make. -/
inductive Outcome (m : Machine) (target : Int) (limit : Nat) : Machine × Except RunError Unit → Prop
  | arrived {k : Nat} (first : m.FirstEnd target k) (hk : k ≤ limit)
      (hstopped : (m.after k).stopped target = true) : Outcome m target limit (m.after k, .ok ())
  | failed {k : Nat} {f : MemoryFault} (first : m.FirstEnd target k) (hk : k < limit)
      (hrunning : (m.after k).stopped target = false) (hfails : (m.after k).step.2 = .error f) :
      Outcome m target limit ({ m.after k with steps := m.steps + k + 1 }, .error (.memory f))
  | exhausted (hlate : ∀ k, m.FirstEnd target k →
      limit ≤ k ∧ ((m.after k).stopped target = true → limit < k)) :
      Outcome m target limit (m.after limit, .error .stepLimit)

/-- A run that has not ended at once ends as it does when it is counted from the next step on. -/
theorem Outcome.of_step {r : Machine × Except RunError Unit} (h : ¬m.EndsAfter target 0)
    (hr : m.step.1.Outcome target limit r) : m.Outcome target (limit + 1) r := by
  have hnot : m.stopped target = false := by
    rw [← Bool.not_eq_true]
    exact fun hstopped => h (Or.inl hstopped)
  have hsteps := steps_step (halted_of_stopped_eq_false hnot)
  cases hr with
  | @arrived k first hk hstopped =>
      exact .arrived ((firstEnd_succ_iff h).2 first) (Nat.succ_le_succ hk) hstopped
  | @failed k f first hk hrunning hfails =>
      have hcount : m.step.1.steps + k + 1 = m.steps + (k + 1) + 1 := by omega
      rw [hcount]
      exact .failed ((firstEnd_succ_iff h).2 first) (Nat.succ_lt_succ hk) hrunning hfails
  | exhausted hlate =>
      refine .exhausted fun k hk => ?_
      cases k with
      | zero => exact absurd hk.1 h
      | succ k =>
          obtain ⟨hle, hlt⟩ := hlate k ((firstEnd_succ_iff h).1 hk)
          exact ⟨Nat.succ_le_succ hle, fun hstopped => Nat.succ_lt_succ (hlt hstopped)⟩

/-- A machine that has arrived stays as it is, whatever the limit. -/
theorem runUntil_of_stopped (h : m.stopped target = true) (limit : Nat) :
    m.runUntil target limit = (m, .ok ()) := by
  cases limit with
  | zero => rw [runUntil, if_pos h]
  | succ limit => rw [runUntil, if_pos h]

theorem runUntil_zero (h : m.stopped target = false) :
    m.runUntil target 0 = (m, .error .stepLimit) := by
  rw [runUntil, if_neg (by rw [h]; exact Bool.false_ne_true)]

/-- A machine that has not arrived makes a step, if it may. -/
theorem runUntil_succ (h : m.stopped target = false) (limit : Nat) :
    (m.step.2 = .ok () ∧ m.runUntil target (limit + 1) = m.step.1.runUntil target limit) ∨
      ∃ f, m.step.2 = .error f ∧ m.runUntil target (limit + 1)
        = ({ m with steps := m.steps + 1 }, .error (.memory f)) := by
  rw [runUntil, if_neg (by rw [h]; exact Bool.false_ne_true)]
  cases hresult : m.step.2 with
  | ok u =>
      have hstep : m.step = (m.step.1, .ok ()) := Prod.ext rfl hresult
      exact Or.inl ⟨rfl, by rw [hstep]⟩
  | error f => exact Or.inr ⟨f, rfl, by rw [step_eq_of_fails hresult]⟩

/-- **A run ends as it is said to end.** -/
theorem outcome_runUntil (m : Machine) (target : Int) (limit : Nat) :
    m.Outcome target limit (m.runUntil target limit) := by
  induction limit generalizing m with
  | zero =>
      cases hstopped : m.stopped target with
      | true =>
          rw [runUntil_of_stopped hstopped]
          exact .arrived (firstEnd_zero (Or.inl hstopped)) (Nat.le_refl 0) hstopped
      | false =>
          rw [runUntil_zero hstopped]
          refine .exhausted fun k hk => ⟨Nat.zero_le k, fun harrived => ?_⟩
          -- the machine arrives later, for it has not arrived yet
          cases k with
          | zero => exact absurd (hstopped.symm.trans harrived) Bool.false_ne_true
          | succ k => exact Nat.succ_pos k
  | succ limit ih =>
      cases hstopped : m.stopped target with
      | true =>
          rw [runUntil_of_stopped hstopped]
          exact .arrived (firstEnd_zero (Or.inl hstopped)) (Nat.zero_le _) hstopped
      | false =>
          rcases runUntil_succ hstopped limit with ⟨hok, hrun⟩ | ⟨f, hfails, hrun⟩
          · rw [hrun]
            refine (ih m.step.1).of_step ?_
            rintro (harrived | ⟨f, hfails⟩)
            · exact absurd (hstopped.symm.trans harrived) Bool.false_ne_true
            · exact absurd (hok.symm.trans hfails) nofun
          · rw [hrun]
            exact .failed (k := 0) (firstEnd_zero (Or.inr ⟨f, hfails⟩)) (Nat.succ_pos limit) hstopped
              hfails

/-- **A run can end in one way only.** -/
theorem Outcome.unique {r r' : Machine × Except RunError Unit} (h : m.Outcome target limit r)
    (h' : m.Outcome target limit r') : r = r' := by
  cases h with
  | arrived first hk hstopped =>
      cases h' with
      | arrived first' => rw [first.unique first']
      | failed first' _ hrunning =>
          rw [← first.unique first', hstopped] at hrunning
          cases hrunning
      | exhausted hlate => exact absurd ((hlate _ first).2 hstopped) (Nat.not_lt.2 hk)
  | failed first hk hrunning hfails =>
      cases h' with
      | arrived first' _ hstopped =>
          rw [← first.unique first', hrunning] at hstopped
          cases hstopped
      | failed first' _ _ hfails' =>
          obtain rfl := first.unique first'
          rw [hfails] at hfails'
          injection hfails' with hf
          rw [hf]
      | exhausted hlate => exact absurd (hlate _ first).1 (Nat.not_le.2 hk)
  | exhausted hlate =>
      cases h' with
      | arrived first hk hstopped => exact absurd ((hlate _ first).2 hstopped) (Nat.not_lt.2 hk)
      | failed first hk => exact absurd (hlate _ first).1 (Nat.not_le.2 hk)
      | exhausted => rfl

theorem runUntil_eq_iff {r : Machine × Except RunError Unit} :
    m.runUntil target limit = r ↔ m.Outcome target limit r := by
  constructor
  · rintro rfl
    exact outcome_runUntil m target limit
  · exact (outcome_runUntil m target limit).unique

/-! ### Runs one after the other -/

/-- A run that is completed has arrived. -/
theorem stopped_of_runUntil (h : (m.runUntil target limit).2 = .ok ()) :
    (m.runUntil target limit).1.stopped target = true := by
  have houtcome := outcome_runUntil m target limit
  generalize m.runUntil target limit = r at h houtcome
  cases houtcome with
  | arrived _ _ hstopped => exact hstopped
  | failed | exhausted => cases h

/-- **A run that reached its limit can be continued** as if the two limits had been one. -/
theorem runUntil_add (h : (m.runUntil target limit).2 = .error .stepLimit) (k : Nat) :
    (m.runUntil target limit).1.runUntil target k = m.runUntil target (limit + k) := by
  cases hstopped : m.stopped target with
  | true =>
      rw [runUntil_of_stopped hstopped] at h
      cases h
  | false =>
      induction limit generalizing m with
      | zero => rw [runUntil_zero hstopped, Nat.zero_add]
      | succ limit ih =>
          rw [Nat.succ_add]
          rcases runUntil_succ hstopped limit with ⟨hok, hrun⟩ | ⟨f, -, hrun⟩
          · have hnext : m.runUntil target (limit + k + 1) = m.step.1.runUntil target (limit + k) := by
              rcases runUntil_succ hstopped (limit + k) with ⟨-, hrun'⟩ | ⟨f, hfails, -⟩
              · exact hrun'
              · exact absurd (hok.symm.trans hfails) nofun
            rw [hrun] at h ⊢
            rw [hnext]
            refine ih h ?_
            rw [← Bool.not_eq_true]
            intro harrived
            rw [runUntil_of_stopped harrived] at h
            cases h
          · rw [hrun] at h
            cases h

/-- **A run stops at the first stopping point, and runs compose.**  A run ends in the way that is said
of it, and in no other; each step before the end counts as one.  A run that reached its limit is
continued by a second one to what a single run with both limits gives, and a run that is completed is
not changed by another one.  A step that fails raises the count of steps and changes nothing else. -/
theorem runUntil_stops_first (m : Machine) (target : Int) (n : Nat) :
    (∀ r, m.runUntil target n = r ↔ m.Outcome target n r) ∧
    (∀ k, (∀ j < k, ¬m.EndsAfter target j) → (m.after k).steps = m.steps + k) ∧
    ((m.runUntil target n).2 = .error .stepLimit →
      ∀ k, (m.runUntil target n).1.runUntil target k = m.runUntil target (n + k)) ∧
    ((m.runUntil target n).2 = .ok () →
      ∀ k, (m.runUntil target n).1.runUntil target k = m.runUntil target n) ∧
    ∀ f, m.step.2 = .error f → m.step.1 = { m with steps := m.steps + 1 } := by
  refine ⟨fun r => runUntil_eq_iff, fun k hk => steps_after hk, runUntil_add, ?_, ?_⟩
  · intro hok k
    rw [runUntil_of_stopped (stopped_of_runUntil hok)]
    exact Prod.ext rfl hok.symm
  · intro f hf
    rw [step_eq_of_fails hf]

/-- A program whose second instruction reads past the last cell of the memory. -/
def overreaching : Machine := .load [0xEEA0, 0xFC10]

/-- One step leads to the second instruction, which is as far as a run to it goes.  A run to another
place stops there if its limit is one step; what continues it fails, as a run with both limits does. -/
theorem overreaching_stops_first :
    overreaching.Outcome 1 1 (overreaching.after 1, .ok ()) ∧
    (overreaching.runUntil 1 1).1.runUntil 1 9 = overreaching.runUntil 1 1 ∧
    overreaching.Outcome 7 1 (overreaching.after 1, .error .stepLimit) ∧
    (overreaching.runUntil 7 1).1.runUntil 7 5 = overreaching.runUntil 7 6 ∧
    (overreaching.runUntil 7 6).2 = .error (.memory (.read 65535 1)) ∧
    (overreaching.after 1).step.1 = { overreaching.after 1 with steps := 2 } := by
  obtain ⟨houtcome, -, -, hagain, -⟩ := runUntil_stops_first overreaching 1 1
  obtain ⟨houtcome', -, hcontinue, -, -⟩ := runUntil_stops_first overreaching 7 1
  obtain ⟨-, -, -, -, hfails⟩ := runUntil_stops_first (overreaching.after 1) 7 1
  have hfault : (overreaching.after 1).step.2 = .error (.read 65535 1) := by decide +kernel
  refine ⟨(houtcome _).1 rfl, hagain (by decide +kernel) 9, (houtcome' _).1 rfl,
    hcontinue (by decide +kernel) 5, by decide +kernel, hfails _ hfault⟩

end HackToolchain.Machine
