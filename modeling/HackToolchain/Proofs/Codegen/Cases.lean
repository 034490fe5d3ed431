/-
**What the generator can have written.**

All later proofs about generated code go through the cases of this module: if a command has code,
its code is one of nine pieces, and the state of the generator has changed in one of a few ways; if
it has none, it is for one of a few reasons.

Main definitions:

* `Generator.staticSymbol`, `Generator.staticName?`, `Generator.staticOwner` — the names of static
  cells, and whose name they start with;
* `Generator.Found` — what looking for a static cell can give;
* `Generator.Wrote` — a command, the code that was written for it, and the states around it;
* `Generator.Refused` — a command, the reason why it has no code, and the states around it.

Main results:

* `Generator.found_of_staticTarget` — **the cases of looking for a static cell**;
* `Generator.wrote_of_write`, `Generator.refused_of_write` — **the cases of writing a command**;
* `Generator.statics_of_wrote` — the static symbols only grow, and there are at most 240 of them.
-/
import HackToolchain.Codegen.Generator
import HackToolchain.Proofs.Command.Operands

set_option relaxedAutoImplicit false
set_option autoImplicit false

namespace HackToolchain

/-- Numbers far from the limits of 64-bit arithmetic do not wrap. -/
theorem Numeral.wrap_of_lt {n : Int} (hlo : -65536 ≤ n) (hhi : n ≤ 65536) : wrap n = n := by
  unfold wrap
  exact Int.bmod_eq_of_le (by omega) (by omega)

/-- A symbol followed by a literal and a number is a name. -/
theorem Text.isName_numbered {owner : Text} {word : String} (hs : Text.isSymbol owner = true)
    (hw : (ascii word).all isNameByte = true) (n : Nat) :
    isName (owner ++ ascii word ++ Numeral.ofNat n) = true :=
  Text.isName_append (Text.isName_append (Text.isName_of_isSymbol hs) hw)
    (Numeral.all_isNameByte_ofNat n)

theorem Text.not_isEmpty_of_isSymbol {t : Text} (h : Text.isSymbol t = true) :
    ¬t.isEmpty = true := by
  cases t with
  | nil => cases h
  | cons b t => exact Bool.false_ne_true

namespace Generator

/-- The name of a static cell that is named after its index. -/
def staticSymbol (module : Text) (i : Int) : Text := module ++ ascii "." ++ Numeral.ofInt i

/-! ### Static cells -/

/-- The symbol under which a static cell is found, unless it is found at its number. -/
def staticName? (g : Generator) (i : Int) : Option Text :=
  match g.mode with
  | .occurrence =>
    if g.function.isEmpty then none
    else some ((if g.module.isEmpty then ascii "Static" else g.module) ++ ascii ".static"
      ++ Numeral.ofNat g.staticUses)
  | .index => if g.module.isEmpty then none else some (staticSymbol g.module i)

theorem staticName?_index {g : Generator} (hmode : g.mode = .index) (i : Int) :
    g.staticName? i = if g.module.isEmpty then none else some (staticSymbol g.module i) := by
  simp only [staticName?, hmode]

/-- The state after a use of a symbol has been counted. -/
def countUse (g : Generator) : Generator :=
  { g with staticUses := match g.mode with
      | .occurrence => g.staticUses + 1
      | .index => g.staticUses }

/-- What looking for a static cell can give. -/
inductive Found (g : Generator) (i : Int) : Generator → Except Fault Target → Prop
  /-- There is no such cell. -/
  | past (hi : 239 < i) : Found g i g (.error (.staticBounds i))
  /-- The cell is found at its number. -/
  | number (hi : i ≤ 239) (hs : g.staticName? i = none) : Found g i g (.ok (.number (16 + i)))
  /-- The symbol has been used before. -/
  | known {s : Text} (hi : i ≤ 239) (hs : g.staticName? i = some s) (hmem : s ∈ g.statics) :
      Found g i g.countUse (.ok (.symbol s))
  /-- The symbol is new and takes a cell. -/
  | taken {s : Text} (hi : i ≤ 239) (hs : g.staticName? i = some s) (hmem : s ∉ g.statics)
      (hroom : g.statics.length < 240) :
      Found g i { g.countUse with statics := g.statics ++ [s] } (.ok (.symbol s))
  /-- The symbol is new, and no cell is left. -/
  | full {s : Text} (hi : i ≤ 239) (hs : g.staticName? i = some s) (hmem : s ∉ g.statics)
      (hfull : 240 ≤ g.statics.length) : Found g i g.countUse (.error (.staticBudget s))

/-- A static cell is found at its number or under its symbol. -/
theorem staticTarget_eq (g : Generator) {i : Int} (hlo : 0 ≤ i) (hhi : i ≤ 239) :
    g.staticTarget i = match g.staticName? i with
      | none => (g, .ok (.number (16 + i)))
      | some s => g.countUse.reserve s := by
  have hwrap : Numeral.wrap (16 + i) = 16 + i := Numeral.wrap_of_lt (by omega) (by omega)
  obtain ⟨mode, module, function, labels, staticUses, statics⟩ := g
  simp only [staticTarget, hwrap, staticName?, countUse]
  rw [if_neg (by omega)]
  cases mode with
  | occurrence | index => dsimp only; split <;> rfl

/-- **The cases of looking for a static cell.** -/
theorem found_of_staticTarget {g g' : Generator} {i : Int} {r : Except Fault Target}
    (h : g.staticTarget i = (g', r)) (hlo : 0 ≤ i) (hhi : i ≤ 32767) : g.Found i g' r := by
  by_cases h239 : i ≤ 239
  · rw [staticTarget_eq g hlo h239] at h
    cases hs : g.staticName? i with
    | none =>
        simp only [hs] at h
        injection h with hg hr
        subst hg hr
        exact .number h239 hs
    | some s =>
        simp only [hs, reserve] at h
        split at h
        · next hmem =>
            injection h with hg hr
            subst hg hr
            exact .known h239 hs hmem
        · next hmem =>
            split at h
            · next hfull =>
                injection h with hg hr
                subst hg hr
                exact .full h239 hs hmem hfull
            · next hroom =>
                injection h with hg hr
                subst hg hr
                exact .taken h239 hs hmem (Nat.lt_of_not_le hroom)
  · have hwrap : Numeral.wrap (16 + i) = 16 + i := Numeral.wrap_of_lt (by omega) (by omega)
    simp only [staticTarget, hwrap] at h
    rw [if_pos (by omega)] at h
    injection h with hg hr
    subst hg hr
    exact .past (by omega)

/-- The symbol of a static cell can be written if the module is unnamed or named by a symbol. -/
theorem isName_staticName? {g : Generator} {i : Int} {s : Text} (h : g.staticName? i = some s)
    (hlo : 0 ≤ i) (hm : g.module = [] ∨ Text.isSymbol g.module = true) : isName s = true := by
  unfold staticName? at h
  split at h
  · split at h
    · cases h
    · injection h with h
      rw [← h]
      refine Text.isName_numbered ?_ (by decide) _
      rcases hm with hm | hm
      · rw [hm]; decide
      · rw [if_neg (Text.not_isEmpty_of_isSymbol hm)]; exact hm
  · split at h
    · cases h
    · next hne =>
        injection h with h
        rw [← h, staticSymbol, Numeral.ofInt_of_nonneg hlo]
        refine Text.isName_numbered ?_ (by decide) _
        exact hm.resolve_left fun hm => hne (by rw [hm]; rfl)

/-- The owner of a static symbol: the module, or a stand-in for an unnamed one. -/
def staticOwner (module : Text) : Text := if module.isEmpty then ascii "Static" else module

/-- The symbol of a static cell is its owner, followed by a dot and bytes of names. -/
theorem staticName?_eq_some {g : Generator} {i : Int} {s : Text} (h : g.staticName? i = some s)
    (hlo : 0 ≤ i) : ∃ w, s = staticOwner g.module ++ 46 :: w ∧ w.all isNameByte = true := by
  unfold staticName? at h
  split at h
  · split at h
    · cases h
    · injection h with h
      have hword : ascii ".static" = 46 :: ascii "static" := by decide
      refine ⟨ascii "static" ++ Numeral.ofNat g.staticUses, ?_, ?_⟩
      · rw [← h, staticOwner, hword]
        simp only [List.append_assoc, List.cons_append]
      · rw [List.all_append, Numeral.all_isNameByte_ofNat]
        decide
  · split at h
    · cases h
    · next hne =>
        injection h with h
        refine ⟨Numeral.ofNat i.toNat, ?_, Numeral.all_isNameByte_ofNat _⟩
        rw [← h, staticOwner, if_neg hne, staticSymbol, Numeral.ofInt_of_nonneg hlo, ascii_dot,
          List.append_assoc, List.singleton_append]

/-- A static cell that is found has one of 240 indices. -/
theorem Found.index_le {g g' : Generator} {i : Int} {t : Target} (h : g.Found i g' (.ok t)) :
    i ≤ 239 := by
  cases h <;> assumption

/-- **A static cell that is named after its index** is found at a number in an unnamed module, and
under its symbol in a named one. -/
theorem Found.target_index {g g' : Generator} {i : Int} {t : Target} (h : g.Found i g' (.ok t))
    (hmode : g.mode = .index) :
    t = if g.module.isEmpty then .number (16 + i) else .symbol (staticSymbol g.module i) := by
  have hname := staticName?_index hmode i
  by_cases hempty : g.module.isEmpty = true
  · rw [if_pos hempty] at hname ⊢
    cases h with
    | number => rfl
    | known hi hs | taken hi hs => rw [hname] at hs; cases hs
  · rw [if_neg hempty] at hname ⊢
    cases h with
    | number hi hs => rw [hname] at hs; cases hs
    | known hi hs | taken hi hs =>
        rw [hname] at hs
        injection hs with hs
        rw [hs]

/-! ### Places -/

/-- Where a cell of a segment with an index in range can be found. -/
inductive Placed (g : Generator) : Segment → Int → Generator → Place → Prop
  | constant (i : Int) : Placed g .constant i g (.value i)
  | locals (i : Int) : Placed g .locals i g (.indexed "LCL" i)
  | arguments (i : Int) : Placed g .arguments i g (.indexed "ARG" i)
  | this (i : Int) : Placed g .this i g (.indexed "THIS" i)
  | that (i : Int) : Placed g .that i g (.indexed "THAT" i)
  | pointerThis : Placed g .pointer 0 g (.direct (.symbol (ascii "THIS")))
  | pointerThat : Placed g .pointer 1 g (.direct (.symbol (ascii "THAT")))
  | temp {i : Int} (hi : i < 8) : Placed g .temp i g (.direct (.number (5 + i)))
  | statics {i : Int} {g' : Generator} {t : Target} (h : g.staticTarget i = (g', .ok t)) :
      Placed g .statics i g' (.direct t)

theorem placed_of_place {g g' : Generator} {s : Segment} {i : Int} {pl : Place}
    (h : g.place s i = (g', .ok pl)) (hlo : s ≠ .constant → 0 ≤ i) : g.Placed s i g' pl := by
  cases s with
  | constant | locals | arguments | this | that =>
      injection h with hg h
      injection h with h
      subst hg h
      constructor
  | pointer =>
      injection h with hg h
      subst hg
      unfold pointerTarget at h
      split at h
      · next hi => injection h with h; subst hi h; constructor
      · split at h
        · next hi => injection h with h; subst hi h; constructor
        · cases h
  | temp =>
      have hi := hlo (by decide)
      injection h with hg h
      subst hg
      unfold tempTarget at h
      split at h
      · cases h
      · injection h with h
        rw [Numeral.wrap_of_lt (by omega) (by omega)] at h
        subst h
        exact .temp (by omega)
  | statics =>
      cases ht : g.staticTarget i with
      | mk g'' r =>
          simp only [place, ht] at h
          injection h with hg h
          cases r with
          | error f => cases h
          | ok t =>
              injection h with h
              subst hg h
              exact .statics ht

/-! ### Commands -/

/-- A command, the code that was written for it, and the states before and after it. -/
inductive Wrote (g : Generator) : Command → Generator → List Item → Prop
  | push {s : Segment} {i : Int} {g' : Generator} {pl : Place} (h : g.Placed s i g' pl) :
      Wrote g (.push s i) g' (Code.push pl)
  | pop {s : Segment} {i : Int} {g' : Generator} {pl : Place} (h : g.Placed s i g' pl) :
      Wrote g (.pop s i) g' (Code.pop pl)
  | operate (o : Operator) : Wrote g (.operate o) (g.operate o).1 (g.operate o).2
  | label (name : Text) : Wrote g (.label name) g [.label name]
  | jump (name : Text) : Wrote g (.jump name) g (Code.goto name)
  | jumpIf (name : Text) : Wrote g (.jumpIf name) g (Code.gotoIf name)
  | function (name : Text) (n : Int) :
      Wrote g (.function name n) { g with function := name, staticUses := 0 } (Code.function name n)
  | call (name : Text) {n : Int} (hn : n ≤ 32762) :
      Wrote g (.call name n) { g with labels := g.labels + 1 }
        (Code.call name n (freshLabel "RETURN" g.labels))
  | ret : Wrote g .ret g Code.ret

/-- **The cases of writing a command** whose operands are in range. -/
theorem wrote_of_write {g g' : Generator} {c : Command} {code : List Item} (hc : c.Valid)
    (h : g.write c = (g', .ok code)) : g.Wrote c g' code := by
  cases c with
  | push s i | pop s i =>
      cases hp : g.place s i with
      | mk g'' r =>
          simp only [write, hp] at h
          injection h with hg h
          cases r with
          | error f => cases h
          | ok pl =>
              injection h with h
              subst hg h
              constructor
              exact placed_of_place hp hc.2.2
  | operate o =>
      injection h with hg h
      injection h with h
      subst hg h
      exact .operate o
  | label name | jump name | jumpIf name | function name n =>
      injection h with hg h
      injection h with h
      subst hg h
      constructor
  | call name n =>
      obtain ⟨-, hlo, hhi⟩ := hc
      rw [write, Numeral.wrap_of_lt (by omega) (by omega)] at h
      split at h
      · injection h with _ h; cases h
      · injection h with hg h
        injection h with h
        subst hg h
        exact .call name (by omega)
  | ret =>
      rw [write] at h
      split at h
      · injection h with _ h; cases h
      · injection h with hg h
        injection h with h
        subst hg h
        exact .ret

/-- A command that has no code, the reason, and the states before and after it. -/
inductive Refused (g : Generator) : Command → Generator → Fault → Prop
  | pointer {c : Command} {i : Int} (hc : c.cell? = some (.pointer, i)) (hi : 1 < i) :
      Refused g c g (.pointerBounds i)
  | temp {c : Command} {i : Int} (hc : c.cell? = some (.temp, i)) (hi : 7 < i) :
      Refused g c g (.tempBounds i)
  | statics {c : Command} {i : Int} {g' : Generator} {f : Fault} (hc : c.staticIndex? = some i)
      (h : g.Found i g' (.error f)) : Refused g c g' f
  | arguments (name : Text) {n : Int} (hn : 32762 < n) :
      Refused g (.call name n) g (.tooManyArguments n)
  | ret (h : g.function = []) : Refused g .ret g .noFunction

/-- A cell that has no place. -/
theorem refused_of_place {g g' : Generator} {c : Command} {s : Segment} {i : Int} {f : Fault}
    (hcell : c.cell? = some (s, i)) (hc : c.Valid) (h : g.place s i = (g', .error f)) :
    g.Refused c g' f := by
  obtain ⟨-, hhi, hlo⟩ := Command.valid_cell hc hcell
  cases s with
  | constant | locals | arguments | this | that => injection h with _ h; cases h
  | pointer =>
      have hi := hlo (by decide)
      injection h with hg h
      subst hg
      unfold pointerTarget at h
      split at h
      · cases h
      · split at h
        · cases h
        · injection h with h
          subst h
          exact .pointer hcell (by omega)
  | temp =>
      injection h with hg h
      subst hg
      unfold tempTarget at h
      split at h
      · injection h with h
        subst h
        exact .temp hcell (by omega)
      · cases h
  | statics =>
      cases ht : g.staticTarget i with
      | mk g'' r =>
          simp only [place, ht] at h
          injection h with hg h
          cases r with
          | ok t => cases h
          | error f' =>
              injection h with h
              subst hg h
              exact .statics (Command.staticIndex?_eq_some_iff.2 hcell)
                (found_of_staticTarget ht (hlo (by decide)) hhi)

/-- **The cases of refusing a command** whose operands are in range. -/
theorem refused_of_write {g g' : Generator} {c : Command} {f : Fault} (hc : c.Valid)
    (h : g.write c = (g', .error f)) : g.Refused c g' f := by
  cases c with
  | push s i | pop s i =>
      cases hp : g.place s i with
      | mk g'' r =>
          simp only [write, hp] at h
          injection h with hg h
          cases r with
          | ok pl => cases h
          | error f' =>
              injection h with h
              subst hg h
              exact refused_of_place rfl hc hp
  | operate o | label name | jump name | jumpIf name | function name n =>
      injection h with _ h
      cases h
  | call name n =>
      obtain ⟨-, hlo, hhi⟩ := hc
      rw [write, Numeral.wrap_of_lt (by omega) (by omega)] at h
      split at h
      · injection h with hg h
        injection h with h
        subst hg h
        exact .arguments name (by omega)
      · injection h with _ h; cases h
  | ret =>
      rw [write] at h
      split at h
      · next hempty =>
          injection h with hg h
          injection h with h
          subst hg h
          exact .ret (List.isEmpty_iff.1 hempty)
      · injection h with _ h; cases h

/-! ### Static symbols -/

/-- The code of a command that uses a static cell pushes or pops the cell where it is found. -/
theorem found_of_wrote {g g' : Generator} {c : Command} {code : List Item}
    (h : g.Wrote c g' code) (hc : c.Valid) {i : Int} (hi : c.staticIndex? = some i) :
    ∃ t, g.Found i g' (.ok t) ∧ ((c = .push .statics i ∧ code = Code.push (.direct t)) ∨
      (c = .pop .statics i ∧ code = Code.pop (.direct t))) := by
  obtain ⟨hlo, hhi⟩ := Command.valid_static hc hi
  cases h with
  | push hpl =>
      cases hpl with
      | statics ht =>
          injection hi with hi
          subst hi
          exact ⟨_, found_of_staticTarget ht hlo hhi, Or.inl ⟨rfl, rfl⟩⟩
      | _ => cases hi
  | pop hpl =>
      cases hpl with
      | statics ht =>
          injection hi with hi
          subst hi
          exact ⟨_, found_of_staticTarget ht hlo hhi, Or.inr ⟨rfl, rfl⟩⟩
      | _ => cases hi
  | _ => cases hi

theorem statics_operate (g : Generator) (o : Operator) : (g.operate o).1.statics = g.statics := by
  cases o <;> rfl

/-- A command that uses no static cell leaves the static symbols alone. -/
theorem statics_eq_of_wrote {g g' : Generator} {c : Command} {code : List Item}
    (h : g.Wrote c g' code) (hi : c.staticIndex? = none) : g'.statics = g.statics := by
  cases h with
  | push hpl | pop hpl =>
      cases hpl with
      | statics => cases hi
      | _ => rfl
  | operate o => exact statics_operate g o
  | _ => rfl

/-- **The static symbols only grow, and there are at most 240 of them.** -/
theorem statics_of_wrote {g g' : Generator} {c : Command} {code : List Item}
    (h : g.Wrote c g' code) (hc : c.Valid) :
    g.statics ⊆ g'.statics ∧ (g.statics.length ≤ 240 → g'.statics.length ≤ 240) := by
  cases hi : c.staticIndex? with
  | none => rw [statics_eq_of_wrote h hi]; exact ⟨List.Subset.refl _, id⟩
  | some i =>
      obtain ⟨t, hfound, -⟩ := found_of_wrote h hc hi
      cases hfound with
      | number | known => exact ⟨List.Subset.refl _, id⟩
      | taken hi hs hmem hroom =>
          refine ⟨List.subset_append_left .., fun _ => ?_⟩
          rw [List.length_append, List.length_singleton]
          omega

end Generator

end HackToolchain
