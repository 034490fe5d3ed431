/-
**Tables and sequences of steps.**

Tables are lists of keys with their values, and steps that may fail are made one after the other up
to the first that does.  This module holds what is used about the two in several places.

Main results:

* `lookup_eq_some_iff_mem`, `lookup_map_eq_some_iff` — looking up a key in a table without
  repetition;
* `mapM_cons_eq_ok`, `mapM_eq_error` — a sequence that succeeds, and one that fails;
* `exists_pairs_of_mapM` — the results of a sequence, each with the step that it comes from.
-/

set_option relaxedAutoImplicit false
set_option autoImplicit false

namespace HackToolchain

/-! ### Tables -/

section Tables

variable {α β : Type} [BEq α] [LawfulBEq α] {es : List (α × β)} {k : α} {v : β}

theorem mem_of_lookup (h : es.lookup k = some v) : (k, v) ∈ es := by
  obtain ⟨l, r, rfl, -⟩ := List.lookup_eq_some_iff.1 h
  simp

/-- In a table without repetition every entry is found. -/
theorem lookup_eq_some_iff_mem (hkeys : (es.map Prod.fst).Nodup) :
    es.lookup k = some v ↔ (k, v) ∈ es := by
  refine ⟨mem_of_lookup, ?_⟩
  intro h
  obtain ⟨l, r, rfl⟩ := List.append_of_mem h
  refine List.lookup_eq_some_iff.2 ⟨l, r, rfl, ?_⟩
  intro p hp
  rw [bne_iff_ne]
  intro hkey
  rw [List.map_append, List.nodup_append] at hkeys
  exact hkeys.2.2 p.1 (List.mem_map_of_mem hp) k (by simp) hkey.symm

/-- Looking up a key in the table of the keys of a list, in which no key stands twice. -/
theorem lookup_map_eq_some_iff {γ : Type} {l : List γ} {key : γ → α} (hkeys : (l.map key).Nodup)
    {w : α} {a : γ} : (l.map fun x => (key x, x)).lookup w = some a ↔ a ∈ l ∧ w = key a := by
  have hfst : ((l.map fun x => (key x, x)).map Prod.fst).Nodup := by
    rw [List.map_map]
    exact hkeys
  rw [lookup_eq_some_iff_mem hfst, List.mem_map]
  constructor
  · rintro ⟨x, hx, heq⟩
    obtain ⟨rfl, rfl⟩ := Prod.mk.inj heq
    exact ⟨hx, rfl⟩
  · rintro ⟨ha, rfl⟩
    exact ⟨a, ha, rfl⟩

end Tables

/-! ### Sequences of steps -/

/-- Steps that all succeed: the first one succeeds, and so do the others. -/
theorem mapM_cons_eq_ok {α β ε : Type} {f : α → Except ε β} {a : α} {l : List α} {r : List β}
    (h : (a :: l).mapM f = .ok r) : ∃ b r', f a = .ok b ∧ l.mapM f = .ok r' ∧ r = b :: r' := by
  rw [List.mapM_cons] at h
  cases ha : f a with
  | error e => simp only [ha, bind, Except.bind] at h; cases h
  | ok b =>
      cases hl : l.mapM f with
      | error e => simp only [ha, hl, bind, Except.bind] at h; cases h
      | ok r' =>
          simp only [ha, hl, bind, Except.bind, pure, Except.pure] at h
          injection h with h
          exact ⟨b, r', rfl, rfl, h.symm⟩

/-- Each result of a sequence of steps that all succeed comes from one of them. -/
theorem exists_of_mem_mapM {α β ε : Type} {f : α → Except ε β} {l : List α} {r : List β}
    (h : l.mapM f = .ok r) {b : β} (hb : b ∈ r) : ∃ a ∈ l, f a = .ok b := by
  induction l generalizing r with
  | nil => rw [List.mapM_nil] at h; injection h with h; rw [← h] at hb; cases hb
  | cons a l ih =>
      obtain ⟨b', r', ha, hl, rfl⟩ := mapM_cons_eq_ok h
      rcases List.mem_cons.1 hb with rfl | hb
      · exact ⟨a, List.mem_cons_self .., ha⟩
      · obtain ⟨a', ha', hf⟩ := ih hl hb
        exact ⟨a', List.mem_cons_of_mem _ ha', hf⟩

/-- Each of a sequence of steps that all succeed has its result. -/
theorem mem_of_mapM {α β ε : Type} {f : α → Except ε β} {l : List α} {r : List β}
    (h : l.mapM f = .ok r) {a : α} (ha : a ∈ l) : ∃ b ∈ r, f a = .ok b := by
  induction l generalizing r with
  | nil => cases ha
  | cons a' l ih =>
      obtain ⟨b, r', hb, hl, rfl⟩ := mapM_cons_eq_ok h
      rcases List.mem_cons.1 ha with rfl | ha
      · exact ⟨b, List.mem_cons_self .., hb⟩
      · obtain ⟨b', hb', hf⟩ := ih hl ha
        exact ⟨b', List.mem_cons_of_mem _ hb', hf⟩

/-- Steps succeed up to the first that fails. -/
theorem mapM_eq_error {α β ε : Type} {f : α → Except ε β} {l : List α} {e : ε}
    (h : l.mapM f = .error e) :
    ∃ before a after, l = before ++ a :: after ∧ (∀ b ∈ before, ∃ y, f b = .ok y) ∧
      f a = .error e := by
  induction l with
  | nil => rw [List.mapM_nil] at h; cases h
  | cons a l ih =>
      rw [List.mapM_cons] at h
      cases ha : f a with
      | error e' =>
          simp only [ha, bind, Except.bind] at h
          injection h with h
          exact ⟨[], a, l, rfl, List.forall_mem_nil _, by rw [ha, h]⟩
      | ok y =>
          cases hl : l.mapM f with
          | ok r => simp only [ha, hl, bind, Except.bind, pure, Except.pure] at h; cases h
          | error e' =>
              simp only [ha, hl, bind, Except.bind] at h
              injection h with h
              subst h
              obtain ⟨before, b, after, hsplit, hbefore, hb⟩ := ih hl
              refine ⟨a :: before, b, after, by rw [hsplit]; rfl, ?_, hb⟩
              exact List.forall_mem_cons.2 ⟨⟨y, ha⟩, hbefore⟩

/-- The results of a sequence of steps that all succeed, each with the step that it comes from. -/
theorem exists_pairs_of_mapM {α β ε : Type} {f : α → Except ε β} {l : List α} {r : List β}
    (h : l.mapM f = .ok r) :
    ∃ ps : List (α × β), ps.map Prod.fst = l ∧ ps.map Prod.snd = r ∧ ∀ p ∈ ps, f p.1 = .ok p.2 := by
  induction l generalizing r with
  | nil =>
      rw [List.mapM_nil] at h
      injection h with h
      exact ⟨[], rfl, h, List.forall_mem_nil _⟩
  | cons a l ih =>
      obtain ⟨b, r', hb, hl, rfl⟩ := mapM_cons_eq_ok h
      obtain ⟨ps, hfst, hsnd, hps⟩ := ih hl
      refine ⟨(a, b) :: ps, ?_, ?_, List.forall_mem_cons.2 ⟨hb, hps⟩⟩
      · rw [List.map_cons, hfst]
      · rw [List.map_cons, hsnd]

/-- A result that is only rewritten comes from a result. -/
theorem map_eq_ok_iff {α β ε : Type} {x : Except ε α} {g : α → β} {b : β} :
    x.map g = .ok b ↔ ∃ a, x = .ok a ∧ g a = b := by
  cases x with
  | error e => exact iff_of_false nofun (fun ⟨_, h, _⟩ => nomatch h)
  | ok a =>
      constructor
      · intro h
        injection h with h
        exact ⟨a, rfl, h⟩
      · rintro ⟨a', h, rfl⟩
        injection h with h
        rw [h]
        rfl

/-- A result that is only rewritten is there exactly if the result is. -/
theorem exists_map_eq_ok_iff {α β ε : Type} {x : Except ε α} {g : α → β} :
    (∃ b, x.map g = .ok b) ↔ ∃ a, x = .ok a := by
  cases x with
  | error e => exact iff_of_false (fun ⟨_, h⟩ => nomatch h) (fun ⟨_, h⟩ => nomatch h)
  | ok a => exact iff_of_true ⟨g a, rfl⟩ ⟨a, rfl⟩

/-- A sequence of steps succeeds exactly if each of them does. -/
theorem exists_mapM_eq_ok_iff {α β ε : Type} {f : α → Except ε β} {l : List α} :
    (∃ r, l.mapM f = .ok r) ↔ ∀ a ∈ l, ∃ b, f a = .ok b := by
  constructor
  · rintro ⟨r, hr⟩ a ha
    obtain ⟨b, -, hb⟩ := mem_of_mapM hr ha
    exact ⟨b, hb⟩
  · intro hall
    cases hl : l.mapM f with
    | ok r => exact ⟨r, rfl⟩
    | error e =>
        obtain ⟨before, a, after, rfl, -, ha⟩ := mapM_eq_error hl
        obtain ⟨b, hb⟩ := hall a (List.mem_append_right _ (List.mem_cons_self ..))
        rw [ha] at hb
        cases hb

end HackToolchain
