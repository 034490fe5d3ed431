/-
**Saving is all or nothing.**

A file is saved through a temporary file.  The temporary file is new, because its name is longer than
all names in the tree, and it is gone at the end.  So a save that fails leaves the tree as it was, and
a save that succeeds has put the content in its place and done nothing else.

Main definitions:

* `SaveStep.all`, `Device.Completes` — the calls that saving takes, and that none of them fails;
* `FileTree.SameDirectories` — two trees have the same directories;
* `FileTree.Savable` — what saving asks of the tree;
* `FileTree.storeAll` — the tree after several files have been put in their places.

Main results:

* `FileTree.remove_put` — removing what was put under a new location gives the tree back;
* `FileTree.SameDirectories.findPlace_iff` — places depend on the directories only;
* `FileTree.find_of_slash_mem_base` — a path for which no temporary file can be named leads to the
  root;
* `FileTree.openTemporary_cases`, `FileTree.replaceBy_cases` — the calls up to the temporary file, and
  those that follow;
* `FileTree.saveOn_cases`, `FileTree.save_cases` — **saving is all or nothing**;
* `FileTree.find?_storeAll`, `FileTree.find?_storeAll_of_mem` — what stands in a tree after several
  files have been put in their places.
-/
import HackToolchain.Files.Save
import HackToolchain.Proofs.Files.Trees

set_option relaxedAutoImplicit false
set_option autoImplicit false

namespace HackToolchain

/-- What is saved: the lines, each followed by a line feed, one after the other. -/
theorem Text.joinLines_eq_flatten (lines : List Text) :
    joinLines lines = (lines.map (· ++ [10])).flatten := List.flatMap_def

/-! ### Devices -/

/-- The calls that saving a number of lines takes. -/
def SaveStep.all (lines : Nat) : List SaveStep :=
  [create] ++ (List.range lines).map write ++ [flush, close, permit, replace]

namespace Device

variable {d : Device} {n : Nat} {lines : List Text}

/-- No call fails that saving a number of lines takes. -/
def Completes (d : Device) (n : Nat) : Prop := ∀ s ∈ SaveStep.all n, d.fault s = none

theorem completes_iff :
    d.Completes n ↔ d.fault .create = none ∧ (∀ i < n, d.fault (.write i) = none) ∧
      d.fault .flush = none ∧ d.fault .close = none ∧ d.fault .permit = none ∧
      d.fault .replace = none := by
  simp only [Completes, SaveStep.all, List.forall_mem_append, List.forall_mem_map, List.forall_mem_cons,
    List.mem_range, List.not_mem_nil, false_implies, implies_true, and_true, and_assoc]

theorem attempt_of_none {s : SaveStep} (h : d.fault s = none) (error : FileCause → FileError) :
    d.attempt s error = .ok () := by
  rw [attempt, h]

theorem attempt_of_some {s : SaveStep} {c : FileCause} (h : d.fault s = some c)
    (error : FileCause → FileError) : d.attempt s error = .error (error c) := by
  rw [attempt, h]

theorem firstFault?_eq_none_iff :
    d.firstFault? n lines = none ↔ ∀ i < lines.length, d.fault (.write (n + i)) = none := by
  induction lines generalizing n with
  | nil => simp [firstFault?]
  | cons line lines ih =>
      have hsplit : (∀ i < lines.length + 1, d.fault (.write (n + i)) = none) ↔
          d.fault (.write n) = none ∧
            ∀ i < lines.length, d.fault (.write (n + 1 + i)) = none := by
        rw [Nat.forall_lt_succ_left]
        simp only [Nat.add_zero, Nat.add_assoc, Nat.add_comm 1]
      rw [firstFault?, List.length_cons, hsplit, ← ih]
      cases d.fault (.write n) <;> simp

/-- Writing fails at a line or at the end. -/
theorem writeFault?_eq_none_iff :
    d.writeFault? lines = none ↔
      (∀ i < lines.length, d.fault (.write i) = none) ∧ d.fault .flush = none := by
  have hlines : d.firstFault? 0 lines = none ↔ ∀ i < lines.length, d.fault (.write (0 + i)) = none :=
    firstFault?_eq_none_iff
  simp only [Nat.zero_add] at hlines
  rw [← hlines, writeFault?]
  cases d.firstFault? 0 lines <;> simp

end Device

namespace FileTree

variable {t t' : FileTree} {l k : Location} {n path : Text} {e : Entry}

/-! ### Putting and removing -/

theorem putEntry_of_not_mem {es : List (Location × Entry)} (h : l ∉ es.map Prod.fst) (e : Entry) :
    putEntry l e es = es ++ [(l, e)] := by
  induction es with
  | nil => rfl
  | cons p es ih =>
      rw [List.map_cons, List.mem_cons, not_or] at h
      rw [putEntry, if_neg (Ne.symm h.1), ih h.2]
      rfl

/-- Of two entries that are put under the same location the second one stays. -/
theorem putEntry_putEntry (l : Location) (e e' : Entry) (es : List (Location × Entry)) :
    putEntry l e' (putEntry l e es) = putEntry l e' es := by
  induction es with
  | nil => exact if_pos rfl
  | cons p es ih =>
      obtain ⟨k, old⟩ := p
      by_cases hk : k = l
      · simp only [putEntry, if_pos hk, if_true]
      · simp only [putEntry, if_neg hk, ih]

theorem put_put (t : FileTree) (l : Location) (e e' : Entry) : (t.put l e).put l e' = t.put l e' := by
  simp only [put, putEntry_putEntry]

/-- Removing what was put under a new location gives the tree back. -/
theorem remove_put (h : l ∉ t.entries.map Prod.fst) (e : Entry) : (t.put l e).remove l = t := by
  have hkeep : ∀ p ∈ t.entries, (p.1 != l) = true := by
    intro p hp
    rw [bne_iff_ne]
    rintro rfl
    exact h (List.mem_map_of_mem hp)
  obtain ⟨entries, workingDirectory⟩ := t
  rw [put, remove]
  dsimp only at h hkeep ⊢
  rw [putEntry_of_not_mem h, List.filter_append, List.filter_eq_self.2 hkeep]
  simp

/-! ### New names -/

theorem le_foldl_max (names : List Text) (b : Nat) :
    b ≤ names.foldl (fun n name => max n name.length) b ∧
      ∀ n ∈ names, n.length ≤ names.foldl (fun n name => max n name.length) b := by
  induction names generalizing b with
  | nil => exact ⟨Nat.le_refl b, List.forall_mem_nil _⟩
  | cons n names ih =>
      obtain ⟨hstart, hrest⟩ := ih (max b n.length)
      refine ⟨Nat.le_trans (Nat.le_max_left ..) hstart, List.forall_mem_cons.2 ⟨?_, hrest⟩⟩
      exact Nat.le_trans (Nat.le_max_right ..) hstart

/-- No name in a tree is longer than the longest. -/
theorem length_le_longestName {p : Location × Entry} (hp : p ∈ t.entries) (hn : n ∈ p.1) :
    n.length ≤ t.longestName := by
  have hall (es : List (Location × Entry)) (b : Nat) :
      b ≤ es.foldl (fun n p => p.1.foldl (fun n name => max n name.length) n) b ∧
        ∀ p ∈ es, ∀ n ∈ p.1,
          n.length ≤ es.foldl (fun n p => p.1.foldl (fun n name => max n name.length) n) b := by
    induction es generalizing b with
    | nil => exact ⟨Nat.le_refl b, List.forall_mem_nil _⟩
    | cons p es ih =>
        obtain ⟨hstart, hnames⟩ := le_foldl_max p.1 b
        obtain ⟨hgrow, hrest⟩ := ih (p.1.foldl (fun n name => max n name.length) b)
        refine ⟨Nat.le_trans hstart hgrow, List.forall_mem_cons.2 ⟨?_, hrest⟩⟩
        intro n hn
        exact Nat.le_trans (hnames n hn) hgrow
  exact (hall t.entries 0).2 p hp n hn

/-- A name that is longer than all others is new. -/
theorem not_mem_of_longestName_lt (h : t.longestName < n.length) (l : Location) :
    l ++ [n] ∉ t.entries.map Prod.fst := by
  intro hmem
  obtain ⟨p, hp, hloc⟩ := List.mem_map.1 hmem
  have hn : n ∈ p.1 := by rw [hloc]; exact List.mem_append_right _ (List.mem_singleton.2 rfl)
  exact Nat.not_le_of_lt h (length_le_longestName hp hn)

theorem find?_eq_none_of_not_mem (hl : l ≠ []) (h : l ∉ t.entries.map Prod.fst) :
    t.find? l = none := by
  rw [find?, if_neg hl, List.lookup_eq_none_iff]
  intro p hp
  rw [bne_iff_ne]
  rintro rfl
  exact h (List.mem_map_of_mem hp)

/-! ### Directories stay -/

/-- Two trees have the same directories. -/
structure SameDirectories (t t' : FileTree) : Prop where
  start : t'.workingDirectory = t.workingDirectory
  directory : ∀ k, t'.find? k = some .directory ↔ t.find? k = some .directory

namespace SameDirectories

theorem refl (t : FileTree) : SameDirectories t t := ⟨rfl, fun _ => Iff.rfl⟩

theorem trans {t'' : FileTree} (h : SameDirectories t t') (h' : SameDirectories t' t'') :
    SameDirectories t t'' :=
  ⟨h'.start.trans h.start, fun k => (h'.directory k).trans (h.directory k)⟩

theorem origin_eq (h : SameDirectories t t') (path : Text) : t'.origin path = t.origin path := by
  rw [origin, origin, h.start]

/-- Names lead to the same directories. -/
theorem walk_iff (h : SameDirectories t t') {ns : List Text} :
    t'.walk l ns = .ok (k, .directory) ↔ t.walk l ns = .ok (k, .directory) := by
  induction ns generalizing l with
  | nil =>
      constructor
      · intro hwalk
        obtain rfl : k = l := eq_of_walk_nil hwalk
        exact walk_nil ((h.directory k).1 (find?_of_walk hwalk))
      · intro hwalk
        obtain rfl : k = l := eq_of_walk_nil hwalk
        exact walk_nil ((h.directory k).2 (find?_of_walk hwalk))
  | cons n ns ih => rw [walk_cons_eq_ok_iff, walk_cons_eq_ok_iff, h.directory, ih]

theorem find_iff (h : SameDirectories t t') :
    t'.find path = .ok (k, .directory) ↔ t.find path = .ok (k, .directory) := by
  rw [find, find]
  split
  · exact Iff.rfl
  · rw [h.origin_eq, h.walk_iff]

/-- **Places depend on the directories only.** -/
theorem findPlace_iff (h : SameDirectories t t') :
    t'.findPlace path = .ok k ↔ t.findPlace path = .ok k := by
  simp only [findPlace_eq_ok_iff, h.origin_eq, h.walk_iff]

end SameDirectories

/-- Putting a file where no directory is leaves the directories as they are. -/
theorem sameDirectories_put (hl : t.find? l ≠ some .directory) (content : Text) :
    SameDirectories t (t.put l (.file content)) := by
  refine ⟨rfl, fun k => ?_⟩
  by_cases hk : k = l
  · subst hk
    have hne : k ≠ [] := by
      rintro rfl
      exact hl rfl
    rw [find?_put_self t _ hne]
    exact iff_of_false (by simp) hl
  · rw [find?_put_of_ne t _ hk]

/-! ### Temporary files -/

/-- A file takes the place of what a path leads to, unless that is a directory. -/
theorem rename_eq_ok_iff {old : Location} (hold : t.find? old = some e) {shown new : Text} :
    t.rename old shown new = .ok t' ↔ (∀ k, t.find new ≠ .ok (k, .directory)) ∧
      ∃ place, t.findPlace new = .ok place ∧ t' = (t.remove old).put place e := by
  unfold rename
  cases hfind : t.find new with
  | error c => cases t.findPlace new <;> simp [hold, eq_comm]
  | ok r =>
      obtain ⟨k, _ | content⟩ := r
      · simp [Entry.isDirectory]
      · cases t.findPlace new <;> simp [hold, Entry.isDirectory, eq_comm]

/-- A temporary file has a name that is longer than all names in the tree. -/
theorem createTemporary_cases (t : FileTree) (directory stem : Text) :
    ((∀ l, t.find directory ≠ .ok (l, .directory)) ∧
      ∃ e, t.createTemporary directory stem = .error e) ∨
    ∃ l new, t.find directory = .ok (l, .directory) ∧ t.longestName < new.length ∧
      t.createTemporary directory stem
        = .ok (l ++ [new], temporaryPath directory stem, t.put (l ++ [new]) (.file [])) := by
  unfold createTemporary
  cases hfind : t.find directory with
  | error c => exact Or.inl ⟨nofun, _, rfl⟩
  | ok r =>
      obtain ⟨l, _ | content⟩ := r
      · refine Or.inr ⟨l, stem ++ List.replicate (t.longestName + 1) 48, rfl, ?_, rfl⟩
        rw [List.length_append, List.length_replicate]
        omega
      · exact Or.inl ⟨nofun, _, rfl⟩

theorem walk_root_replicate (t : FileTree) (n : Nat) :
    t.walk [] (List.replicate n []) = .ok ([], .directory) := by
  induction n with
  | zero => rfl
  | succ n ih =>
      rw [List.replicate_succ, walk_cons rfl]
      exact ih

/-- A path whose last name holds a slash leads to the root. -/
theorem find_of_slash_mem_base (h : Text.slash ∈ Path.base path) :
    t.find path = .ok ([], .directory) := by
  obtain ⟨-, n, rfl⟩ := (Path.base_cases path).resolve_right (not_not_intro h)
  rw [find, Path.names_replicate_slash]
  exact t.walk_root_replicate (n + 2)

/-- A temporary file is opened where nothing stands, if it can be named and there is a directory for
it. -/
theorem openTemporary_cases (t : FileTree) (d : Device) (path : Text) :
    (¬(Text.slash ∉ Path.base path ∧ d.fault .create = none ∧
        ∃ l, t.find (Path.directory path) = .ok (l, .directory)) ∧
      ∃ e, t.openTemporary d path = .error e) ∨
    (d.fault .create = none ∧ (∃ l, t.find (Path.directory path) = .ok (l, .directory)) ∧
      ∃ l shown, l ≠ [] ∧ l ∉ t.entries.map Prod.fst ∧
        t.openTemporary d path = .ok (l, shown, t.put l (.file []))) := by
  simp only [openTemporary]
  split
  · next hnamed =>
      have hslash : Text.slash ∈ Path.base path := by
        rw [List.contains_iff_mem, List.mem_append, List.mem_append] at hnamed
        exact (hnamed.resolve_right (by decide)).resolve_left (by decide)
      exact Or.inl ⟨fun ⟨hnot, _⟩ => hnot hslash, _, rfl⟩
  · cases hcreate : d.fault .create with
    | some c => exact Or.inl ⟨by simp, _, by rw [Device.attempt_of_some hcreate]; rfl⟩
    | none =>
        rw [Device.attempt_of_none hcreate]
        obtain ⟨hno, e, hcreated⟩ | ⟨l, new, hdirectory, hlong, hcreated⟩ :=
          t.createTemporary_cases (Path.directory path) (ascii "." ++ Path.base path ++ ascii ".")
        · exact Or.inl ⟨fun ⟨_, _, l, hl⟩ => hno l hl, e, hcreated⟩
        · exact Or.inr ⟨rfl, ⟨l, hdirectory⟩, l ++ [new], _, List.concat_ne_nil new l,
            not_mem_of_longestName_lt hlong l, hcreated⟩

/-! ### Saving -/

/-- The calls on a temporary file: one of them fails and something is in the temporary file, or the
temporary file with all lines takes the place of what the path leads to. -/
theorem replaceBy_cases (t : FileTree) (d : Device) (l : Location) (shown path : Text)
    (lines : List Text) (hcreate : d.fault .create = none) :
    (¬(d.Completes lines.length ∧
        ∃ t', (t.put l (.file (Text.joinLines lines))).rename l shown path = .ok t') ∧
      ∃ content e, t.replaceBy d l shown path lines = (t.put l (.file content), .error e)) ∨
    (d.Completes lines.length ∧
      ∃ t', (t.put l (.file (Text.joinLines lines))).rename l shown path = .ok t' ∧
        t.replaceBy d l shown path lines = (t', .ok ())) := by
  rw [Device.completes_iff, ← and_assoc (a := ∀ i < _, _), ← Device.writeFault?_eq_none_iff]
  unfold replaceBy fill
  cases hwrite : d.writeFault? lines with
  | some f => exact Or.inl ⟨by simp, _, _, rfl⟩
  | none =>
      cases hclose : d.fault .close with
      | some c => exact Or.inl ⟨by simp, _, _, by rw [Device.attempt_of_some hclose]; rfl⟩
      | none =>
          rw [Device.attempt_of_none hclose]
          cases hpermit : d.fault .permit with
          | some c => exact Or.inl ⟨by simp, _, _, by rw [Device.attempt_of_some hpermit]; rfl⟩
          | none =>
              rw [Device.attempt_of_none hpermit]
              cases hreplace : d.fault .replace with
              | some c => exact Or.inl ⟨by simp, _, _, by rw [Device.attempt_of_some hreplace]; rfl⟩
              | none =>
                  rw [Device.attempt_of_none hreplace]
                  cases hrename : (t.put l (.file (Text.joinLines lines))).rename l shown path with
                  | error e => exact Or.inl ⟨by simp, _, e, by simp only [hrename]; rfl⟩
                  | ok t' => exact Or.inr ⟨by simp [hcreate], t', rfl, by simp only [hrename]; rfl⟩

/-- What saving asks for: a directory for the temporary file, and a path that has a place and leads to
no directory. -/
structure Savable (t : FileTree) (path : Text) : Prop where
  directory : ∃ l, t.find (Path.directory path) = .ok (l, .directory)
  place : ∃ k, t.findPlace path = .ok k
  noDirectory : ∀ k, t.find path ≠ .ok (k, .directory)

/-- **Saving is all or nothing** on every device: either a call fails or the path cannot be saved to, and
the tree is as before, or the whole content is in its place, and all else is as before. -/
theorem saveOn_cases (t : FileTree) (d : Device) (path : Text) (lines : List Text) :
    (¬(d.Completes lines.length ∧ t.Savable path) ∧ ∃ e, t.saveOn d path lines = (t, .error e)) ∨
    ((d.Completes lines.length ∧ t.Savable path) ∧ ∃ place, t.findPlace path = .ok place ∧
      t.saveOn d path lines = (t.put place (.file (Text.joinLines lines)), .ok ())) := by
  unfold saveOn
  obtain ⟨hno, e, hopen⟩ | ⟨hcreate, hdirectory, l, shown, hne, hfresh, hopen⟩ :=
    t.openTemporary_cases d path
  · refine Or.inl ⟨fun ⟨hcompletes, hpath⟩ => hno ⟨fun hslash => ?_, ?_, hpath.directory⟩, e,
      by rw [hopen]⟩
    · exact hpath.noDirectory [] (find_of_slash_mem_base hslash)
    · exact (Device.completes_iff.1 hcompletes).1
  · have hnone : t.find? l ≠ some .directory := by
      rw [find?_eq_none_of_not_mem hne hfresh]
      exact nofun
    -- the temporary file changes no directory, so the path leads to the same place as before
    have hsame := sameDirectories_put hnone (Text.joinLines lines)
    have hrename {t' : FileTree} :
        ((t.put l (.file [])).put l (.file (Text.joinLines lines))).rename l shown path = .ok t' ↔
          (∀ k, t.find path ≠ .ok (k, .directory)) ∧ ∃ place, t.findPlace path = .ok place ∧
            t' = t.put place (.file (Text.joinLines lines)) := by
      rw [put_put, rename_eq_ok_iff (find?_put_self t _ hne), remove_put hfresh]
      simp only [ne_eq, hsame.find_iff, hsame.findPlace_iff]
    rw [hopen]
    obtain ⟨hno, content, e, hreplace⟩ | ⟨hcompletes, t', hdone, hreplace⟩ :=
      replaceBy_cases (t.put l (.file [])) d l shown path lines hcreate
    · refine Or.inl ⟨fun ⟨hcompletes, hpath⟩ => hno ⟨hcompletes, ?_⟩, e, ?_⟩
      · obtain ⟨place, hplace⟩ := hpath.place
        exact ⟨_, hrename.2 ⟨hpath.noDirectory, place, hplace, rfl⟩⟩
      · simp only [hreplace, put_put, remove_put hfresh]
    · obtain ⟨hfile, place, hplace, rfl⟩ := hrename.1 hdone
      exact Or.inr ⟨⟨hcompletes, hdirectory, ⟨place, hplace⟩, hfile⟩, place, hplace,
        by simp only [hreplace]⟩

/-- On a device that does not fail, either saving fails and the tree is as before, or the path leads to
no directory, the whole content is in its place, and all else is as before. -/
theorem save_cases (t : FileTree) (path : Text) (lines : List Text) :
    (∃ e, t.save path lines = (t, .error e)) ∨
    ∃ place, t.findPlace path = .ok place ∧ (∀ k, t.find path ≠ .ok (k, .directory)) ∧
      t.save path lines = (t.put place (.file (Text.joinLines lines)), .ok ()) := by
  rcases saveOn_cases t {} path lines with ⟨-, hfail⟩ | ⟨⟨-, hpath⟩, place, hplace, hsave⟩
  · exact Or.inl hfail
  · exact Or.inr ⟨place, hplace, hpath.noDirectory, hsave⟩

/-- A path with a proper name behind a directory. -/
def Joined (path : Text) : Prop := ∃ d n, d ≠ [] ∧ Path.IsProper n ∧ path = Path.join d n

/-- What stands in the place of a path is what the path leads to. -/
theorem find_of_findPlace (hpath : Joined path) (hplace : t.findPlace path = .ok k)
    (h : t.find? k = some e) : t.find path = .ok (k, e) := by
  obtain ⟨d, n, hd, hn, rfl⟩ := hpath
  obtain ⟨l, hl, rfl⟩ := (findPlace_join_iff hd hn).1 hplace
  exact (find_join_eq_ok_iff hd hn).2 ⟨l, hl, rfl, h⟩

/-- A file is saved only where no directory is. -/
theorem save_joined_cases (hpath : Joined path) (t : FileTree) (lines : List Text) :
    (∃ e, t.save path lines = (t, .error e)) ∨
    ∃ place, t.findPlace path = .ok place ∧ t.find? place ≠ some .directory ∧
      t.save path lines = (t.put place (.file (Text.joinLines lines)), .ok ()) := by
  rcases save_cases t path lines with hfail | ⟨place, hplace, hfile, hsave⟩
  · exact Or.inl hfail
  · refine Or.inr ⟨place, hplace, fun hdirectory => ?_, hsave⟩
    exact hfile place (find_of_findPlace hpath hplace hdirectory)

/-! ### Several files -/

/-- The tree after files have been put in their places, one after the other. -/
def storeAll (t : FileTree) (ws : List (Location × Text)) : FileTree :=
  ws.foldl (fun t w => t.put w.1 (.file w.2)) t

theorem storeAll_append (t : FileTree) (ws ws' : List (Location × Text)) :
    t.storeAll (ws ++ ws') = (t.storeAll ws).storeAll ws' :=
  List.foldl_append

/-- A location keeps what it held, or holds a file that was put there. -/
theorem find?_storeAll (t : FileTree) {ws : List (Location × Text)} (hws : ∀ w ∈ ws, w.1 ≠ [])
    (k : Location) :
    (t.storeAll ws).find? k = t.find? k ∨
      ∃ w ∈ ws, w.1 = k ∧ (t.storeAll ws).find? k = some (.file w.2) := by
  induction ws generalizing t with
  | nil => exact Or.inl rfl
  | cons w ws ih =>
      rw [List.forall_mem_cons] at hws
      rcases ih (t.put w.1 (.file w.2)) hws.2 with hkeep | ⟨w', hw', hk, hfile⟩
      · by_cases hk : k = w.1
        · subst hk
          refine Or.inr ⟨w, List.mem_cons_self .., rfl, hkeep.trans ?_⟩
          exact find?_put_self t _ hws.1
        · exact Or.inl (hkeep.trans (find?_put_of_ne t _ hk))
      · exact Or.inr ⟨w', List.mem_cons_of_mem _ hw', hk, hfile⟩

/-- Files that are put in different places are all there. -/
theorem find?_storeAll_of_mem (t : FileTree) {ws : List (Location × Text)}
    (hws : ∀ w ∈ ws, w.1 ≠ []) (hdistinct : (ws.map Prod.fst).Nodup) {w : Location × Text}
    (hw : w ∈ ws) : (t.storeAll ws).find? w.1 = some (.file w.2) := by
  induction ws generalizing t with
  | nil => cases hw
  | cons w' ws ih =>
      rw [List.forall_mem_cons] at hws
      rw [List.map_cons, List.nodup_cons] at hdistinct
      rcases List.mem_cons.1 hw with rfl | hw
      · rcases find?_storeAll (t.put w.1 (.file w.2)) hws.2 w.1 with hkeep | ⟨w', hw', hk, -⟩
        · exact hkeep.trans (find?_put_self t _ hws.1)
        · exact absurd (hk ▸ List.mem_map_of_mem hw') hdistinct.1
      · exact ih _ hws.2 hdistinct.2 hw

end FileTree

end HackToolchain
