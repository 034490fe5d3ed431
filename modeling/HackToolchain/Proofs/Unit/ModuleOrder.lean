/-
**The order of modules.**

The modules of a unit that start the entry function are compiled before the others.  A search puts the
modules of a directory in this order, and compiling a unit does so again.  The order is determined by
three facts: the modules that start the entry function come first, and neither they nor the others change
places among themselves.  So putting modules in order a second time changes nothing, the assembly of a
unit does not tell whether it was in order before, and the module in front tells whether the entry
function is called.

Main definitions:

* `Module.Starts` — a line of a module is a command that starts a function;
* `InOrder` — modules in their order for an entry function;
* `Listing.Calls` — what stands before the first command ends with a call.

Main results:

* `inOrder_iff` — **there is one order of modules**;
* `orderModules_orderModules` — modules in order stay as they are;
* `CompilationUnit.compile_ordered` — **a unit in order has the assembly of the unit**;
* `CompilationUnit.calls_iff` — **the entry function is called exactly if the first module starts it**;
* `FileTree.ordered_of_discover` — a search gives units in order;
* `order_of_modules_invisible` — all of this together.
-/
import HackToolchain.Files.Discover
import HackToolchain.Proofs.Unit.Listing
import Mathlib.Data.List.Basic

set_option relaxedAutoImplicit false
set_option autoImplicit false

namespace HackToolchain

/-! ### Modules that start a function -/

/-- A line of the module is a command that starts the function. -/
def Module.Starts (m : Module) (function : Text) : Prop :=
  ∃ l ∈ m.lines, ∃ n, Command.parse l.text = .ok (.function function n)

theorem Command.declaredFunction?_eq_some_iff {line name : Text} :
    declaredFunction? line = some name ↔ ∃ n, parse line = .ok (.function name n) := by
  unfold declaredFunction?
  constructor
  · intro h
    split at h
    · next x n hparse =>
        injection h with h
        exact ⟨n, by rw [hparse, h]⟩
    · cases h
  · rintro ⟨n, hparse⟩
    rw [hparse]

/-- **Which modules go first**: lines that are no commands are passed over. -/
theorem Module.declares_iff {m : Module} {function : Text} :
    m.declares function = true ↔ m.Starts function := by
  rw [declares, List.any_eq_true]
  refine exists_congr fun l => and_congr_right fun _ => ?_
  rw [beq_iff_eq, Command.declaredFunction?_eq_some_iff]

instance (m : Module) (function : Text) : Decidable (m.Starts function) :=
  decidable_of_iff (m.declares function = true) Module.declares_iff

@[simp] theorem Module.decide_starts (m : Module) (function : Text) :
    decide (m.Starts function) = m.declares function := by
  rw [Bool.eq_iff_iff, decide_eq_true_iff, declares_iff]

/-! ### Modules in order -/

/-- Modules in their order for an entry function: those that start it come first, and in both groups the
modules keep the order that they had. -/
structure InOrder (entry : Text) (modules ordered : List Module) : Prop where
  perm : ordered.Perm modules
  front : ordered.Pairwise fun m m' => m'.Starts entry → m.Starts entry
  starting : ordered.filter (fun m => decide (m.Starts entry))
    = modules.filter fun m => decide (m.Starts entry)
  others : ordered.filter (fun m => decide (¬m.Starts entry))
    = modules.filter fun m => decide (¬m.Starts entry)

/-- A list in which the elements that satisfy a test come first is made of its two groups. -/
theorem filter_append_filter_of_pairwise {α : Type} {p : α → Bool} {l : List α}
    (h : l.Pairwise fun a b => p b = true → p a = true) :
    l.filter p ++ l.filter (fun a => !p a) = l := by
  induction l with
  | nil => rfl
  | cons a l ih =>
      rw [List.pairwise_cons] at h
      cases ha : p a with
      | true => rw [List.filter_cons_of_pos ha, List.filter_cons_of_neg (by simp [ha]), List.cons_append,
          ih h.2]
      | false =>
          -- behind an element that fails the test all others fail it too
          have hnone : ∀ b ∈ l, p b = false := fun b hb =>
            Bool.eq_false_iff.2 fun hpb => Bool.false_ne_true (ha.symm.trans (h.1 b hb hpb))
          have hfront : (a :: l).filter p = [] :=
            List.filter_eq_nil_iff.2 (List.forall_mem_cons.2 ⟨by simp [ha], fun b hb => by simp [hnone b hb]⟩)
          have hback : (a :: l).filter (fun a => !p a) = a :: l :=
            List.filter_eq_self.2 (List.forall_mem_cons.2 ⟨by simp [ha], fun b hb => by simp [hnone b hb]⟩)
          rw [hfront, hback, List.nil_append]

/-- The two groups one after the other: what passes the test comes first. -/
theorem pairwise_filter_append_filter {α : Type} (p : α → Bool) (l : List α) :
    (l.filter p ++ l.filter fun a => !p a).Pairwise fun a b => p b = true → p a = true := by
  rw [List.pairwise_append]
  refine ⟨?_, ?_, fun a ha b _ _ => (List.mem_filter.1 ha).2⟩
  · exact List.pairwise_filter.2 (List.pairwise_of_forall fun a b ha _ _ => ha)
  · refine List.pairwise_filter.2 (List.pairwise_of_forall fun a b _ hb hpb => ?_)
    rw [hpb] at hb
    cases hb

theorem filter_orderModules (modules : List Module) (entry : Text) :
    (orderModules modules entry).filter (·.declares entry) = modules.filter (·.declares entry) ∧
      (orderModules modules entry).filter (!·.declares entry) = modules.filter (!·.declares entry) := by
  constructor
  · simp [orderModules, List.filter_append, List.filter_filter]
  · simp [orderModules, List.filter_append, List.filter_filter]

theorem inOrder_orderModules (modules : List Module) (entry : Text) :
    InOrder entry modules (orderModules modules entry) where
  perm := orderModules_perm modules entry
  front := by
    simp only [← Module.declares_iff]
    exact pairwise_filter_append_filter _ modules
  starting := by
    simp only [Module.decide_starts]
    exact (filter_orderModules modules entry).1
  others := by
    simp only [decide_not, Module.decide_starts]
    exact (filter_orderModules modules entry).2

/-- **There is one order of modules.** -/
theorem inOrder_iff {entry : Text} {modules ordered : List Module} :
    InOrder entry modules ordered ↔ ordered = orderModules modules entry := by
  constructor
  · intro h
    have hfront := h.front
    have hstarting := h.starting
    have hothers := h.others
    simp only [← Module.declares_iff] at hfront
    simp only [decide_not, Module.decide_starts] at hstarting hothers
    rw [← filter_append_filter_of_pairwise hfront, hstarting, hothers, orderModules]
  · rintro rfl
    exact inOrder_orderModules modules entry

/-- Modules in order stay as they are. -/
theorem orderModules_orderModules (modules : List Module) (entry : Text) :
    orderModules (orderModules modules entry) entry = orderModules modules entry := by
  obtain ⟨hstarting, hothers⟩ := filter_orderModules modules entry
  rw [orderModules, hstarting, hothers, orderModules]

/-- The module in front starts the entry function if any module does. -/
theorem head_starts_iff {modules : List Module} {entry : Text} :
    (∃ m, (orderModules modules entry).head? = some m ∧ m.Starts entry) ↔
      modules.any (·.declares entry) = true := by
  rw [List.any_eq_true]
  constructor
  · rintro ⟨m, hm, hstarts⟩
    exact ⟨m, mem_orderModules.1 (List.mem_of_head? hm), Module.declares_iff.2 hstarts⟩
  · rintro ⟨m, hm, hdeclares⟩
    have hmem : m ∈ orderModules modules entry := mem_orderModules.2 hm
    cases hordered : orderModules modules entry with
    | nil => rw [hordered] at hmem; cases hmem
    | cons first rest =>
        refine ⟨first, rfl, ?_⟩
        have hfront := (inOrder_orderModules modules entry).front
        rw [hordered, List.pairwise_cons] at hfront
        rw [hordered] at hmem
        rcases List.mem_cons.1 hmem with rfl | hmem
        · exact Module.declares_iff.1 hdeclares
        · exact hfront.1 m hmem (Module.declares_iff.1 hdeclares)

/-! ### Units in order -/

namespace CompilationUnit

/-- The unit with its modules in order. -/
def ordered (u : CompilationUnit) (entry : Text) : CompilationUnit :=
  { u with modules := orderModules u.modules entry }

theorem commands_ordered (u : CompilationUnit) (entry : Text) :
    (u.ordered entry).commands entry = u.commands entry := by
  rw [commands, commands, ordered, orderModules_orderModules]

theorem preamble_ordered (u : CompilationUnit) (o : CompileOptions) :
    (u.ordered o.entry).preamble o = u.preamble o := by
  have hany : (u.ordered o.entry).modules.any (·.declares o.entry)
      = u.modules.any (·.declares o.entry) := (orderModules_perm u.modules o.entry).any_eq
  simp only [preamble, hany]

/-- **A unit in order has the assembly of the unit**, or the same error. -/
theorem compile_ordered (u : CompilationUnit) (o : CompileOptions) :
    (u.ordered o.entry).compile o = u.compile o := by
  simp only [compile, items, commands_ordered, preamble_ordered]

end CompilationUnit

/-- What stands before the first command ends with a call of the function, without arguments. -/
def Listing.Calls (l : Listing) (name : Text) : Prop :=
  ∃ before back, l.preamble = before ++ Code.call name 0 back

/-- Code that ends with setting up the stack does not end with a call. -/
theorem Code.resetStack_ne_call {shown before : List Item} {name back : Text} :
    shown ++ resetStack ≠ before ++ call name 0 back := by
  intro h
  have hlast := congrArg List.getLast? h
  rw [call, ← List.append_assoc before, List.getLast?_append, List.getLast?_concat] at hlast
  cases hlast

/-- **The entry function is called exactly if the first module starts it.** -/
theorem CompilationUnit.calls_iff {u : CompilationUnit} {o : CompileOptions} {l : Listing}
    (h : u.listing o = .ok l) :
    l.Calls o.entry ↔ o.bootstrap = true ∧
      ∃ m, (orderModules u.modules o.entry).head? = some m ∧ m.Starts o.entry := by
  rw [head_starts_iff]
  rcases preamble_cases h with ⟨hoff, hpre⟩ | ⟨hon, code, hpre, ⟨hany, rfl⟩ | ⟨hany, rfl, -⟩⟩
  · refine iff_of_false ?_ fun hboth => Bool.false_ne_true (hoff.symm.trans hboth.1)
    rintro ⟨before, back, hcall⟩
    exact absurd (hpre.symm.trans hcall) (by simp [Code.call])
  · refine iff_of_false ?_ fun hboth => Bool.false_ne_true (hany.symm.trans hboth.2)
    rintro ⟨before, back, hcall⟩
    exact Code.resetStack_ne_call (hpre.symm.trans hcall)
  · refine iff_of_true ?_ ⟨hon, hany⟩
    exact ⟨_, _, hpre.trans (List.append_assoc ..).symm⟩

/-! ### Units that a search gives -/

namespace FileTree

variable {t : FileTree} {o : DiscoverOptions} {path : Text} {u : CompilationUnit}

theorem ordered_of_fileUnit (h : t.fileUnit o path = .ok u) : u.ordered o.entry = u := by
  unfold fileUnit at h
  split at h
  · cases h
  · next m _ =>
      injection h with h
      subst h
      cases hm : m.declares o.entry <;> simp [CompilationUnit.ordered, orderModules, hm]

theorem ordered_of_directoryUnit (h : t.directoryUnit o path = .ok u) : u.ordered o.entry = u := by
  simp only [directoryUnit] at h
  cases hentries : t.readDirectory path with
  | error e => rw [hentries] at h; cases h
  | ok entries =>
      rw [hentries] at h
      dsimp only at h
      split at h
      · cases h
      · injection h with h
        subst h
        simp only [CompilationUnit.ordered, orderModules_orderModules]

theorem ordered_of_entryUnit {name : Text} {e : Entry} (h : t.entryUnit o path name e = .ok (some u)) :
    u.ordered o.entry = u := by
  simp only [entryUnit] at h
  split at h
  · obtain ⟨u', hu', hsome⟩ := map_eq_ok_iff.1 h
    split at hsome
    · cases hsome
    · injection hsome with hsome
      exact hsome ▸ ordered_of_directoryUnit hu'
  · split at h
    · obtain ⟨u', hu', hsome⟩ := map_eq_ok_iff.1 h
      injection hsome with hsome
      exact hsome ▸ ordered_of_fileUnit hu'
    · cases h

/-- **A search gives units in order.** -/
theorem ordered_of_discover {root : Text} {units : List CompilationUnit}
    (h : t.discover o root = .ok units) : ∀ u ∈ units, u.ordered o.entry = u := by
  unfold discover at h
  split at h
  · cases h
  · split at h
    · obtain ⟨u, hu, rfl⟩ := map_eq_ok_iff.1 h
      exact List.forall_mem_singleton.2 (ordered_of_fileUnit hu)
    · cases h
  · split at h
    · split at h
      · cases h
      · next hu =>
          split at h
          · cases h
          · injection h with h
            exact h ▸ List.forall_mem_singleton.2 (ordered_of_directoryUnit hu)
    · split at h
      · cases h
      · obtain ⟨results, hresults, rfl⟩ := map_eq_ok_iff.1 h
        intro u hu
        obtain ⟨result, hmem, rfl⟩ := List.mem_filterMap.1 hu
        obtain ⟨p, -, hp⟩ := exists_of_mem_mapM hresults hmem
        exact ordered_of_entryUnit hp

end FileTree

/-- **The order of modules cannot be seen in the assembly.**  Putting modules in order is the only way to
bring those that start the entry function to the front without changing the order within the two groups,
and it changes nothing when it is done again.  So a unit in order, as a search gives it, is compiled with
the same result as the unit; and the entry function is called before the first command exactly if the
first module in order starts it. -/
theorem order_of_modules_invisible :
    (∀ (modules : List Module) (entry : Text),
      (∀ ordered, InOrder entry modules ordered ↔ ordered = orderModules modules entry) ∧
      orderModules (orderModules modules entry) entry = orderModules modules entry) ∧
    (∀ (u : CompilationUnit) (o : CompileOptions),
      (u.ordered o.entry).compile o = u.compile o ∧
      ∀ lines, u.compile o = .ok lines → ∃ l, u.listing o = .ok l ∧ lines = render l.items ∧
        (l.Calls o.entry ↔ o.bootstrap = true ∧
          ∃ m, (orderModules u.modules o.entry).head? = some m ∧ m.Starts o.entry)) ∧
    ∀ (t : FileTree) (o : DiscoverOptions) (root : Text) (units : List CompilationUnit),
      t.discover o root = .ok units → ∀ u ∈ units, u.ordered o.entry = u := by
  refine ⟨fun modules entry => ⟨fun _ => inOrder_iff, orderModules_orderModules modules entry⟩,
    fun u o => ⟨u.compile_ordered o, fun lines hcompile => ?_⟩, fun t o root units hdiscover => ?_⟩
  · obtain ⟨l, hlisting, hlines⟩ := CompilationUnit.compile_eq_ok_iff.1 hcompile
    exact ⟨l, hlisting, hlines, CompilationUnit.calls_iff hlisting⟩
  · exact FileTree.ordered_of_discover hdiscover

/-- A unit in which two modules start the entry function, both behind a module that stands there
twice. -/
def crowded : CompilationUnit where
  modules :=
    let idle : Module := { name := ascii "A", lines := [{ number := 1, text := ascii "neg" }] }
    let start : List SourceLine := [{ number := 3, text := ascii "FUNCTION Sys.init 0" }]
    [idle, { name := ascii "B", lines := start }, idle, { name := ascii "C", lines := start }]

/-- The two modules go to the front in their order, where they stay; the assembly is the same with the
modules in order, and starts with a call of the entry function. -/
theorem crowded_order_invisible :
    (orderModules crowded.modules defaultEntry).map Module.name
      = [ascii "B", ascii "C", ascii "A", ascii "A"] ∧
    (∃ lines l, crowded.compile {} = .ok lines ∧ (crowded.ordered defaultEntry).compile {} = .ok lines ∧
      crowded.listing {} = .ok l ∧ l.Calls defaultEntry) ∧
    ∃ units, ({} : FileTree).discover {} Path.here = .ok units ∧ ∀ u ∈ units, u.ordered [] = u := by
  obtain ⟨-, hunit, hsearch⟩ := order_of_modules_invisible
  refine ⟨by decide +kernel, ?_, [], by decide, hsearch {} {} Path.here [] (by decide)⟩
  obtain ⟨l, hlisting, hcompile, -⟩ :=
    CompilationUnit.exists_listing_of_test (u := crowded) (o := {}) (fun _ => True) (by decide +kernel)
  obtain ⟨hordered, hcalls⟩ := hunit crowded {}
  obtain ⟨l', hl', -, hiff⟩ := hcalls _ hcompile
  obtain rfl : l = l' := Except.ok.inj (hlisting.symm.trans hl')
  refine ⟨_, l, hcompile, hordered.trans hcompile, hlisting, hiff.2 ⟨rfl, ?_⟩⟩
  exact head_starts_iff.2 (by decide +kernel)

end HackToolchain
