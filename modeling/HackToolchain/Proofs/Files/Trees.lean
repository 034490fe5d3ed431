/-
**Looking around in a file tree.**

A tree is well formed if every location stands in it once and all names are proper.  In such a tree
the list of a directory holds exactly the entries in it, each once, in the order of their names.

Paths are followed name by name, and cleaning a path looks at its text alone.  The two agree: a path
that leads somewhere leads to the same place when it is cleaned, since in a tree without links a step
up undoes the step before it.

Main definitions:

* `FileTree.WellFormed` — trees in which every location stands once and names are proper;
* `FileTree.LeadsTo` — the steps of a path lead to a directory.

Main results:

* `Text.le_iff` — texts are compared as lists of bytes;
* `FileTree.mem_children`, `FileTree.pairwise_children` — **the list of a directory**;
* `FileTree.walk_steps` — **a path and its clean form lead to the same entry**;
* `FileTree.find_join_eq_ok_iff`, `FileTree.findPlace_join_iff` — where a joined path leads.
-/
import Mathlib.Data.List.Sort
import HackToolchain.Files.Tree
import HackToolchain.Proofs.Files.Paths
import HackToolchain.Proofs.Sequences

set_option relaxedAutoImplicit false
set_option autoImplicit false

namespace HackToolchain

/-! ### The order of texts -/

namespace Text

/-- Texts are compared as lists of bytes. -/
theorem le_iff {s t : Text} : le s t = true ↔ s ≤ t := by
  induction s generalizing t with
  | nil => simp [le]
  | cons a s ih =>
      cases t with
      | nil => simp [le]
      | cons b t =>
          rw [List.cons_le_cons_iff, le]
          split
          · next hab => simp [ih, hab]
          · next hab => simp [hab]

end Text

/-! ### Sorting by name -/

section Sorting

variable {α : Type}

/-- Whether the name of a value comes before that of another. -/
def NameLe (p q : Text × α) : Prop := Text.le p.1 q.1 = true

instance (p q : Text × α) : Decidable (NameLe p q) := inferInstanceAs (Decidable (_ = true))

instance : Std.Total (@NameLe α) :=
  ⟨fun p q => (List.le_total p.1 q.1).imp Text.le_iff.2 Text.le_iff.2⟩

instance : IsTrans (Text × α) NameLe :=
  ⟨fun _ _ _ hpq hqr => Text.le_iff.2 (List.le_trans (Text.le_iff.1 hpq) (Text.le_iff.1 hqr))⟩

theorem insertByName_eq (p : Text × α) (l : List (Text × α)) :
    insertByName p l = l.orderedInsert NameLe p := by
  induction l with
  | nil => rfl
  | cons q l ih =>
      rw [insertByName, List.orderedInsert_cons, ih]
      rfl

theorem sortByName_eq (l : List (Text × α)) : sortByName l = l.insertionSort NameLe := by
  induction l with
  | nil => rfl
  | cons p l ih =>
      rw [List.insertionSort_cons, ← ih, ← insertByName_eq]
      rfl

theorem sortByName_perm (l : List (Text × α)) : (sortByName l).Perm l := by
  rw [sortByName_eq]
  exact List.perm_insertionSort NameLe l

/-- Values with different names stand in the strict order of their names. -/
theorem pairwise_sortByName {l : List (Text × α)} (h : (l.map Prod.fst).Nodup) :
    ((sortByName l).map Prod.fst).Pairwise (· < ·) := by
  have hle : ((sortByName l).map Prod.fst).Pairwise (· ≤ ·) := by
    rw [List.pairwise_map, sortByName_eq]
    exact (List.pairwise_insertionSort NameLe l).imp Text.le_iff.1
  have hne : ((sortByName l).map Prod.fst).Nodup := ((sortByName_perm l).map Prod.fst).nodup_iff.2 h
  exact (hle.and hne).imp fun hboth => Std.lt_of_le_of_ne hboth.1 hboth.2

end Sorting

namespace FileTree

/-! ### Well-formed trees -/

/-- Every location stands in the tree once, and all names are proper. -/
structure WellFormed (t : FileTree) : Prop where
  distinct : (t.entries.map Prod.fst).Nodup
  proper : ∀ p ∈ t.entries, ∀ n ∈ p.1, Path.IsProper n

instance (t : FileTree) : Decidable t.WellFormed :=
  decidable_of_iff ((t.entries.map Prod.fst).Nodup ∧ ∀ p ∈ t.entries, ∀ n ∈ p.1, Path.IsProper n)
    ⟨fun h => ⟨h.1, h.2⟩, fun h => ⟨h.distinct, h.proper⟩⟩

variable {t : FileTree} {l : Location} {n : Text} {e : Entry}

theorem WellFormed.find?_iff (ht : t.WellFormed) {k : Location} (hk : k ≠ []) :
    t.find? k = some e ↔ (k, e) ∈ t.entries := by
  rw [find?, if_neg hk]
  exact lookup_eq_some_iff_mem ht.distinct

theorem WellFormed.isProper (ht : t.WellFormed) (h : t.find? (l ++ [n]) = some e) :
    Path.IsProper n :=
  ht.proper _ ((ht.find?_iff (List.concat_ne_nil n l)).1 h) n (by simp)

/-! ### The list of a directory -/

/-- The name under which a location stands in the directory at `l`, if it does. -/
def nameIn? (l k : Location) : Option Text := if k.dropLast = l then k.getLast? else none

theorem nameIn?_eq_some_iff {k : Location} : nameIn? l k = some n ↔ k = l ++ [n] := by
  constructor
  · intro h
    simp only [nameIn?] at h
    split at h
    · next hl =>
        obtain ⟨k', rfl⟩ := List.getLast?_eq_some_iff.1 h
        rw [List.dropLast_concat] at hl
        rw [hl]
    · cases h
  · rintro rfl
    simp [nameIn?]

theorem children_eq (t : FileTree) (l : Location) :
    t.children l
      = sortByName (t.entries.filterMap fun p => (nameIn? l p.1).map fun n => (n, p.2)) := by
  rw [children]
  congr 1
  refine List.filterMap_congr fun p _ => ?_
  rw [nameIn?]
  split <;> rfl

/-- **The list of a directory** holds exactly the entries in it. -/
theorem mem_children (ht : t.WellFormed) :
    (n, e) ∈ t.children l ↔ t.find? (l ++ [n]) = some e := by
  rw [children_eq, (sortByName_perm _).mem_iff, List.mem_filterMap,
    ht.find?_iff (List.concat_ne_nil n l)]
  constructor
  · rintro ⟨⟨k, e'⟩, hp, hname⟩
    obtain ⟨n', hn', hpair⟩ := Option.map_eq_some_iff.1 hname
    injection hpair with hn he
    rw [← hn, ← he, ← nameIn?_eq_some_iff.1 hn']
    exact hp
  · intro hp
    exact ⟨(l ++ [n], e), hp, Option.map_eq_some_iff.2 ⟨n, nameIn?_eq_some_iff.2 rfl, rfl⟩⟩

/-- The entries of a directory stand in its list once each, in the order of their names. -/
theorem pairwise_children (ht : t.WellFormed) (l : Location) :
    ((t.children l).map Prod.fst).Pairwise (· < ·) := by
  rw [children_eq]
  refine pairwise_sortByName ?_
  have hnames : (t.entries.filterMap fun p => (nameIn? l p.1).map fun n => (n, p.2)).map Prod.fst
      = (t.entries.map Prod.fst).filterMap (nameIn? l) := by
    rw [List.map_filterMap, List.filterMap_map]
    refine List.filterMap_congr fun p _ => ?_
    simp [Option.map_map, Function.comp_def]
  rw [hnames]
  refine ht.distinct.filterMap ?_
  intro k k' n hk hk'
  rw [nameIn?_eq_some_iff.1 hk, nameIn?_eq_some_iff.1 hk']

/-! ### Following names -/

/-- The entry that names lead to stands at the location that they lead to. -/
theorem find?_of_walk {ns : List Text} {l' : Location} (h : t.walk l ns = .ok (l', e)) :
    t.find? l' = some e := by
  induction ns generalizing l with
  | nil =>
      rw [walk] at h
      split at h
      · cases h
      · next e' he =>
          injection h with h
          injection h with hl he'
          rw [← hl, ← he']
          exact he
  | cons n ns ih =>
      rw [walk] at h
      split at h
      · cases h
      · cases h
      · split at h
        · exact ih h
        · split at h
          · exact ih h
          · exact ih h

/-- Names can only be followed from a location at which something stands. -/
theorem exists_find?_of_walk {ns : List Text} {r : Location × Entry} (h : t.walk l ns = .ok r) :
    ∃ e, t.find? l = some e := by
  cases hf : t.find? l with
  | some e => exact ⟨e, rfl⟩
  | none => cases ns <;> simp [walk, hf] at h

theorem walk_nil (h : t.find? l = some e) : t.walk l [] = .ok (l, e) := by
  rw [walk, h]

/-- Following no name leads to where one is. -/
theorem eq_of_walk_nil {r : Location × Entry} (h : t.walk l [] = .ok r) : r.1 = l := by
  obtain ⟨e, he⟩ := exists_find?_of_walk h
  rw [walk_nil he] at h
  injection h with h
  rw [← h]

/-- What one name leads to. -/
def goTo (l : Location) (n : Text) : Location :=
  if n = [] ∨ n = Path.here then l else if n = Path.above then l.dropLast else l ++ [n]

theorem goTo_of_isProper (h : Path.IsProper n) : goTo l n = l ++ [n] := by
  rw [goTo, if_neg (not_or.2 ⟨h.nonempty, h.here⟩), if_neg h.above]

theorem walk_cons (h : t.find? l = some .directory) (n : Text) (ns : List Text) :
    t.walk l (n :: ns) = t.walk (goTo l n) ns := by
  rw [walk, h, goTo]
  dsimp only
  split
  · rfl
  · split <;> rfl

/-- Names are followed one after the other, from directory to directory. -/
theorem walk_cons_eq_ok_iff {ns : List Text} {r : Location × Entry} :
    t.walk l (n :: ns) = .ok r ↔ t.find? l = some .directory ∧ t.walk (goTo l n) ns = .ok r := by
  constructor
  · intro h
    have hdirectory : t.find? l = some .directory := by
      cases hf : t.find? l with
      | none => simp [walk, hf] at h
      | some e =>
          cases e with
          | directory => rfl
          | file content => simp [walk, hf] at h
    rw [walk_cons hdirectory] at h
    exact ⟨hdirectory, h⟩
  · rintro ⟨hdirectory, h⟩
    rw [walk_cons hdirectory]
    exact h

theorem walk_append_eq_ok_iff {ms ns : List Text} {r : Location × Entry} :
    t.walk l (ms ++ ns) = .ok r ↔ ∃ p, t.walk l ms = .ok p ∧ t.walk p.1 ns = .ok r := by
  induction ms generalizing l with
  | nil =>
      constructor
      · intro h
        obtain ⟨e, he⟩ := exists_find?_of_walk h
        exact ⟨(l, e), walk_nil he, h⟩
      · rintro ⟨p, hp, h⟩
        rw [eq_of_walk_nil hp] at h
        exact h
  | cons m ms ih =>
      rw [List.cons_append, walk_cons_eq_ok_iff, ih]
      constructor
      · rintro ⟨hdirectory, p, hp, h⟩
        exact ⟨p, walk_cons_eq_ok_iff.2 ⟨hdirectory, hp⟩, h⟩
      · rintro ⟨p, hp, h⟩
        obtain ⟨hdirectory, hp⟩ := walk_cons_eq_ok_iff.1 hp
        exact ⟨hdirectory, p, hp, h⟩

/-- A single name leads from a directory to what stands there. -/
theorem walk_singleton_eq_ok_iff {r : Location × Entry} :
    t.walk l [n] = .ok r ↔
      t.find? l = some .directory ∧ r.1 = goTo l n ∧ t.find? (goTo l n) = some r.2 := by
  rw [walk_cons_eq_ok_iff]
  refine and_congr_right fun _ => ?_
  constructor
  · intro h
    exact ⟨eq_of_walk_nil h, eq_of_walk_nil h ▸ find?_of_walk h⟩
  · rintro ⟨hr, hf⟩
    rw [walk_nil hf, ← hr]

/-! ### Clean paths -/

/-- Following the names of a path leads to where following what is left of them leads.  `done` are
the names that are left so far, the last first, and they lead to `l`. -/
theorem walk_foldl_cleanStep {rooted : Bool} {start : Location} (hstart : rooted = true → start = [])
    {ns done : List Text} (hns : ∀ n ∈ ns, Text.slash ∉ n) (hdone : Path.IsClean rooted done)
    {p r : Location × Entry} (hp : t.walk start done.reverse = .ok p) (hr : t.walk p.1 ns = .ok r) :
    t.walk start (ns.foldl (Path.cleanStep rooted) done).reverse = .ok r := by
  induction ns generalizing done p with
  | nil =>
      obtain ⟨l, e⟩ := p
      rw [walk_nil (find?_of_walk hp)] at hr
      injection hr with hr
      rw [← hr]
      exact hp
  | cons n ns ih =>
      rw [List.forall_mem_cons] at hns
      obtain ⟨hdirectory, hr⟩ := walk_cons_eq_ok_iff.1 hr
      obtain ⟨e, he⟩ := exists_find?_of_walk hr
      refine ih hns.2 (hdone.cleanStep hns.1) (p := (goTo p.1 n, e)) ?_ hr
      have hpush : t.walk start (done.reverse ++ [n]) = .ok (goTo p.1 n, e) :=
        walk_append_eq_ok_iff.2 ⟨p, hp, walk_singleton_eq_ok_iff.2 ⟨hdirectory, rfl, he⟩⟩
      by_cases hblank : n = [] ∨ n = Path.here
      · rw [Path.cleanStep_of_blank hblank, hp]
        have hstay : goTo p.1 n = p.1 := by rw [goTo, if_pos hblank]
        rw [hstay] at he ⊢
        have hentry : t.find? p.1 = some p.2 := find?_of_walk hp
        rw [hentry] at he
        injection he with he
        rw [← he]
      · by_cases habove : n = Path.above
        · subst habove
          cases done with
          | nil =>
              cases rooted with
              | true =>
                  -- there is nothing above the root
                  have hroot : p.1 = [] := (eq_of_walk_nil hp).trans (hstart rfl)
                  have hstay : goTo p.1 Path.above = [] := by rw [hroot]; rfl
                  rw [hstay] at he ⊢
                  rw [hstart rfl]
                  exact walk_nil he
              | false => exact hpush
          | cons last rest =>
              by_cases hlast : last = Path.above
              · subst hlast
                rw [← List.reverse_cons] at hpush
                exact hpush
              · -- the step up undoes the step that `last` was
                have hproper : Path.IsProper last :=
                  (hdone.step last (List.mem_cons_self ..)).resolve_left hlast
                have hpop : Path.cleanStep rooted (last :: rest) Path.above = rest := by
                  rw [Path.cleanStep, if_neg hblank, if_pos rfl]
                  exact if_neg hlast
                rw [List.reverse_cons] at hp
                obtain ⟨q, hq, hp⟩ := walk_append_eq_ok_iff.1 hp
                obtain ⟨hqdirectory, hpq, -⟩ := walk_singleton_eq_ok_iff.1 hp
                rw [goTo_of_isProper hproper] at hpq
                have hback : goTo p.1 Path.above = q.1 := by
                  rw [goTo, if_neg hblank, if_pos rfl, hpq, List.dropLast_concat]
                rw [hback] at he ⊢
                rw [hpop, hq]
                have hentry : t.find? q.1 = some q.2 := find?_of_walk hq
                rw [hentry] at he
                injection he with he
                rw [← he]
        · rw [not_or] at hblank
          rw [Path.cleanStep_of_isProper ⟨hblank.1, hblank.2, habove, hns.1⟩, List.reverse_cons]
          exact hpush

/-- **A path and its clean form lead to the same entry.** -/
theorem walk_steps {path : Text} {r : Location × Entry} (h : t.find path = .ok r) :
    t.walk (t.origin path) (Path.steps path) = .ok r := by
  rw [find] at h
  split at h
  · cases h
  · obtain ⟨e, he⟩ := exists_find?_of_walk h
    have hstart : Path.isRooted path = true → t.origin path = [] := fun hrooted => if_pos hrooted
    exact walk_foldl_cleanStep hstart (fun n hn => Path.slash_not_mem_of_names hn)
      (Path.isClean_nil _) (walk_nil he) h

/-- The steps of a path lead to the directory at a location. -/
def LeadsTo (t : FileTree) (path : Text) (l : Location) : Prop :=
  t.walk (t.origin path) (Path.steps path) = .ok (l, .directory)

theorem leadsTo_of_find {path : Text} (h : t.find path = .ok (l, .directory)) : t.LeadsTo path l :=
  walk_steps h

theorem ne_nil_of_find {path : Text} {r : Location × Entry} (h : t.find path = .ok r) :
    path ≠ [] := by
  rintro rfl
  cases h

theorem LeadsTo.unique {path : Text} {l l' : Location} (h : t.LeadsTo path l)
    (h' : t.LeadsTo path l') : l = l' := by
  rw [LeadsTo, h] at h'
  injection h' with h'
  exact congrArg Prod.fst h'

/-- The name `here` at the end asks for a directory. -/
theorem walk_here_eq_ok_iff {ns : List Text} {r : Location × Entry} :
    t.walk l (ns ++ [Path.here]) = .ok r ↔ t.walk l ns = .ok (r.1, .directory) ∧ r.2 = .directory := by
  have hstay (k : Location) : goTo k Path.here = k := by rw [goTo, if_pos (Or.inr rfl)]
  rw [walk_append_eq_ok_iff]
  constructor
  · rintro ⟨p, hp, hr⟩
    obtain ⟨hdirectory, hsame, hfind⟩ := walk_singleton_eq_ok_iff.1 hr
    have hentry : t.find? p.1 = some p.2 := find?_of_walk hp
    rw [hstay] at hsame hfind
    rw [hdirectory] at hfind hentry
    injection hfind with hfind
    injection hentry with hentry
    rw [hsame, hentry]
    exact ⟨hp, hfind.symm.trans hentry⟩
  · rintro ⟨hwalk, hr⟩
    refine ⟨_, hwalk, walk_singleton_eq_ok_iff.2 ?_⟩
    rw [hstay, hr]
    exact ⟨find?_of_walk hwalk, rfl, find?_of_walk hwalk⟩

/-- The place of a path is in the directory that all names but the last lead to. -/
theorem findPlace_eq_ok_iff {path : Text} {k : Location} :
    t.findPlace path = .ok k ↔ path ≠ [] ∧ ∃ l,
      t.walk (t.origin path) (Path.names path).dropLast = .ok (l, .directory) ∧
        k = l ++ (Path.names path).getLast?.toList := by
  rw [findPlace]
  dsimp only
  constructor
  · intro h
    split at h
    · cases h
    · next hne =>
        refine ⟨fun hnil => hne (List.isEmpty_iff.2 hnil), ?_⟩
        split at h
        · cases h
        · next l e hwalk =>
            injection h with h
            exact ⟨l, (walk_here_eq_ok_iff.1 hwalk).1, h.symm⟩
  · rintro ⟨hne, l, hwalk, rfl⟩
    rw [if_neg fun hempty => hne (List.isEmpty_iff.1 hempty),
      (walk_here_eq_ok_iff (r := (l, .directory))).2 ⟨hwalk, rfl⟩]

/-- An empty name at the start of a path from the root makes no difference. -/
theorem walk_origin (d : Text) (ns : List Text) :
    t.walk (t.origin d) ((if Path.isRooted d then [[]] else []) ++ ns) = t.walk (t.origin d) ns := by
  cases hrooted : Path.isRooted d with
  | false => rfl
  | true =>
      have horigin : t.origin d = [] := if_pos hrooted
      rw [horigin]
      exact walk_cons rfl [] ns

section Joined

variable {d : Text} (hd : d ≠ []) (hn : Path.IsProper n)

include hd

theorem origin_join : t.origin (Path.join d n) = t.origin d := by
  rw [origin, origin, Path.isRooted_join hd]

include hn

/-- Where a joined path leads. -/
theorem find_join : t.find (Path.join d n) = t.walk (t.origin d) (Path.steps d ++ [n]) := by
  rw [find, if_neg fun hempty => Path.join_ne_nil hd n (List.isEmpty_iff.1 hempty), origin_join hd,
    Path.names_join_isProper hd hn, walk_origin]

theorem find_join_eq_ok_iff {k : Location} :
    t.find (Path.join d n) = .ok (k, e) ↔
      ∃ l, t.LeadsTo d l ∧ k = l ++ [n] ∧ t.find? (l ++ [n]) = some e := by
  rw [find_join hd hn, walk_append_eq_ok_iff]
  constructor
  · rintro ⟨⟨l, e'⟩, hl, hk⟩
    obtain ⟨hdirectory, hk, he⟩ := walk_singleton_eq_ok_iff.1 hk
    rw [goTo_of_isProper hn] at hk he
    rw [find?_of_walk hl] at hdirectory
    injection hdirectory with hdirectory
    subst hdirectory
    exact ⟨l, hl, hk, he⟩
  · rintro ⟨l, hl, hk, he⟩
    refine ⟨(l, .directory), hl, walk_singleton_eq_ok_iff.2 ⟨find?_of_walk hl, ?_⟩⟩
    rw [goTo_of_isProper hn]
    exact ⟨hk, he⟩

/-- The steps of a joined path lead to a directory in the directory. -/
theorem leadsTo_join_iff {k : Location} :
    t.LeadsTo (Path.join d n) k ↔
      ∃ l, t.LeadsTo d l ∧ k = l ++ [n] ∧ t.find? (l ++ [n]) = some .directory := by
  rw [LeadsTo, origin_join hd, Path.steps_join hd hn, ← find_join hd hn, find_join_eq_ok_iff hd hn]

/-- **The place of a joined path** is under its name in the directory. -/
theorem findPlace_join_iff {k : Location} :
    t.findPlace (Path.join d n) = .ok k ↔ ∃ l, t.LeadsTo d l ∧ k = l ++ [n] := by
  have hnames : Path.names (Path.join d n)
      = ((if Path.isRooted d then [[]] else []) ++ Path.steps d) ++ [n] := by
    rw [Path.names_join_isProper hd hn, List.append_assoc]
  rw [findPlace_eq_ok_iff, hnames, List.dropLast_concat, List.getLast?_concat, origin_join hd,
    walk_origin, and_iff_right (Path.join_ne_nil hd n)]
  rfl

end Joined

end FileTree

end HackToolchain
