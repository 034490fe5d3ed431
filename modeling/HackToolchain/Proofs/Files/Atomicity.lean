/-
**A saved file is there as a whole, or nothing has happened.**

Saving takes several calls, and a device may fail at each of them.  Whichever call fails, the tree is the
one before, so that no temporary file stays behind.  If none fails, the path leads to a file with all
lines, and nothing else has changed.

A path that ends in a step up has a place of its own in its directory, and leads to another one.  In a
tree in which every entry stands in a directory it leads to a directory, and nothing is saved.

Main definitions:

* `FileTree.Closed` — every entry stands in a directory.

Main results:

* `FileTree.exists_name_of_savable` — a path to which a file can be saved ends in a name;
* `FileTree.Closed.put_file` — a saved file leaves every entry in a directory;
* `saving_all_or_nothing` — **what is there after saving, and when it fails**.
-/
import HackToolchain.Proofs.Files.Saving

set_option relaxedAutoImplicit false
set_option autoImplicit false

namespace HackToolchain

namespace FileTree

variable {t t' : FileTree} {l k place : Location} {n path : Text} {e : Entry}

/-! ### Entries in directories -/

/-- Every entry stands in a directory. -/
def Closed (t : FileTree) : Prop := ∀ p ∈ t.entries, t.find? p.1.dropLast = some .directory

instance (t : FileTree) : Decidable t.Closed := List.decidableBAll _ _

theorem Closed.find?_dropLast (ht : t.Closed) (h : t.find? l = some e) :
    t.find? l.dropLast = some .directory := by
  by_cases hl : l = []
  · rw [hl]
    rfl
  · rw [find?, if_neg hl] at h
    exact ht (l, e) (mem_of_lookup h)

theorem mem_putEntry {p : Location × Entry} {es : List (Location × Entry)}
    (h : p ∈ putEntry l e es) : p = (l, e) ∨ p ∈ es := by
  induction es with
  | nil => exact Or.inl (List.mem_singleton.1 h)
  | cons q es ih =>
      rw [putEntry] at h
      split at h
      · rcases List.mem_cons.1 h with h | h
        · exact Or.inl h
        · exact Or.inr (List.mem_cons_of_mem _ h)
      · rcases List.mem_cons.1 h with h | h
        · exact Or.inr (h ▸ List.mem_cons_self ..)
        · exact (ih h).imp_right (List.mem_cons_of_mem _)

/-- A file in a directory, where no directory is, leaves every entry in a directory. -/
theorem Closed.put_file (ht : t.Closed) (hl : t.find? l = some .directory)
    (hfile : t.find? (l ++ [n]) ≠ some .directory) (content : Text) :
    (t.put (l ++ [n]) (.file content)).Closed := by
  have hsame := sameDirectories_put hfile content
  intro p hp
  rw [hsame.directory]
  rcases mem_putEntry hp with rfl | hp
  · rw [List.dropLast_concat]
    exact hl
  · exact ht p hp

/-! ### The last name of a path -/

/-- **A path to which a file can be saved ends in a name**: a path that ends in a slash or in a step
leads to a directory. -/
theorem exists_name_of_savable (ht : t.Closed) (h : t.Savable path)
    (hplace : t.findPlace path = .ok place) :
    ∃ ns n l, path ≠ [] ∧ Path.names path = ns ++ [n] ∧
      t.walk (t.origin path) ns = .ok (l, .directory) ∧ place = l ++ [n] ∧ goTo l n = l ++ [n] := by
  obtain ⟨hne, l, hwalk, rfl⟩ := findPlace_eq_ok_iff.1 hplace
  have hnames : Path.names path ≠ [] := List.cons_ne_nil _ _
  obtain ⟨ns, n, hlast⟩ : ∃ ns n, Path.names path = ns ++ [n] :=
    ⟨_, _, (List.dropLast_append_getLast hnames).symm⟩
  rw [hlast, List.dropLast_concat] at hwalk
  have hl : t.find? l = some .directory := find?_of_walk hwalk
  -- what the last name leads to is no directory
  have hgo : t.find? (goTo l n) ≠ some .directory := by
    intro hdirectory
    refine h.noDirectory (goTo l n) ?_
    rw [find, if_neg fun hempty => hne (List.isEmpty_iff.1 hempty), hlast]
    exact walk_append_eq_ok_iff.2 ⟨_, hwalk, walk_singleton_eq_ok_iff.2 ⟨hl, rfl, hdirectory⟩⟩
  refine ⟨ns, n, l, hne, hlast, hwalk, by rw [hlast, List.getLast?_concat]; rfl, ?_⟩
  unfold goTo at hgo ⊢
  split at hgo
  · exact absurd hl hgo
  · next hblank =>
      split at hgo
      · exact absurd (ht.find?_dropLast hl) hgo
      · next habove => rw [if_neg hblank, if_neg habove]

/-- In a tree with the same directories a path leads to what stands in its place. -/
theorem SameDirectories.find_of_walk (hsame : SameDirectories t t') {ns : List Text} (hne : path ≠ [])
    (hnames : Path.names path = ns ++ [n]) (hwalk : t.walk (t.origin path) ns = .ok (l, .directory))
    (hgo : goTo l n = l ++ [n]) (h : t'.find? (l ++ [n]) = some e) :
    t'.find path = .ok (l ++ [n], e) := by
  have hwalk' := hsame.walk_iff.2 hwalk
  rw [find, if_neg fun hempty => hne (List.isEmpty_iff.1 hempty), hnames, hsame.origin_eq]
  refine walk_append_eq_ok_iff.2 ⟨_, hwalk', walk_singleton_eq_ok_iff.2 ⟨?_, hgo.symm, ?_⟩⟩
  · exact find?_of_walk hwalk'
  · rw [hgo]
    exact h

end FileTree

open FileTree

/-- **Saving is all or nothing.**  If it succeeds, the path leads to a file that holds the lines, each
followed by a line feed, and all else is as before.  If it fails, at whichever call, the tree is as before.
It succeeds if no call fails on the device and a file can be saved to the path. -/
theorem saving_all_or_nothing {t : FileTree} (ht : t.Closed) (d : Device) (path : Text)
    (lines : List Text) :
    (∀ t', t.saveOn d path lines = (t', .ok ()) →
      t'.Closed ∧ t'.workingDirectory = t.workingDirectory ∧ ∃ place,
        t'.find path = .ok (place, .file (lines.map (· ++ [10])).flatten) ∧
          ∀ k, k ≠ place → t'.find? k = t.find? k) ∧
    (∀ t' e, t.saveOn d path lines = (t', .error e) → t' = t) ∧
    ((t.saveOn d path lines).2 = .ok () ↔ d.Completes lines.length ∧ t.Savable path) := by
  obtain ⟨hno, err, hsave⟩ | ⟨hyes, place, hplace, hsave⟩ := saveOn_cases t d path lines
  · rw [hsave]
    refine ⟨fun t' h => ?_, fun t' e h => ?_, iff_of_false nofun hno⟩
    · cases h
    · injection h with h
      exact h.symm
  · rw [hsave, Text.joinLines_eq_flatten]
    refine ⟨fun t' h => ?_, fun t' e h => ?_, iff_of_true rfl hyes⟩
    · injection h with h
      subst h
      obtain ⟨ns, n, l, hne, hnames, hwalk, rfl, hgo⟩ := exists_name_of_savable ht hyes.2 hplace
      have hfile : t.find? (l ++ [n]) ≠ some .directory := fun hdirectory =>
        hyes.2.noDirectory _ ((SameDirectories.refl t).find_of_walk hne hnames hwalk hgo hdirectory)
      refine ⟨ht.put_file (find?_of_walk hwalk) hfile _, rfl, l ++ [n], ?_, fun k hk => ?_⟩
      · exact (sameDirectories_put hfile _).find_of_walk hne hnames hwalk hgo
          (find?_put_self t _ (List.concat_ne_nil n l))
      · exact find?_put_of_ne t _ hk
    · cases h

/-- A directory with a file in it. -/
def oldFile : FileTree := ({} : FileTree).addFile [ascii "out", ascii "x.asm"] (ascii "@0\n")

/-- A device that is full when what is left is written at the end. -/
def fullDevice : Device where
  fault s := if s = .flush then some (.device (ascii "no space left on device")) else none
  stored := 2

/-- The file is replaced, and kept when the device is full.  A path that ends in a slash leads to the
directory, so nothing is saved to it. -/
theorem oldFile_saved :
    oldFile.Closed ∧
    (∃ t' place, oldFile.saveOn {} (ascii "out/x.asm") [ascii "@1", []] = (t', .ok ()) ∧
      t'.find (ascii "out/x.asm") = .ok (place, .file (ascii "@1\n\n"))) ∧
    oldFile.saveOn fullDevice (ascii "out/x.asm") [ascii "@1", []]
      = (oldFile, .error (.writing (ascii "out/.x.asm.*")
        (.device (ascii "no space left on device")))) ∧
    oldFile.saveOn {} (ascii "out/") [ascii "@1"]
      = (oldFile, .error (.replacing (ascii "out/.out.*") (ascii "out/") .exist)) := by
  have hclosed : oldFile.Closed := by decide
  obtain ⟨hsaved, -, -⟩ := saving_all_or_nothing hclosed {} (ascii "out/x.asm") [ascii "@1", []]
  obtain ⟨-, hfull, -⟩ := saving_all_or_nothing hclosed fullDevice (ascii "out/x.asm") [ascii "@1", []]
  obtain ⟨-, hkept, -⟩ := saving_all_or_nothing hclosed {} (ascii "out/") [ascii "@1"]
  have hok : (oldFile.saveOn {} (ascii "out/x.asm") [ascii "@1", []]).2 = .ok () := by decide +kernel
  obtain ⟨-, -, place, hfind, -⟩ := hsaved _ (Prod.ext rfl hok)
  refine ⟨hclosed, ⟨_, place, Prod.ext rfl hok, hfind⟩, ?_, ?_⟩
  · have herror : (oldFile.saveOn fullDevice (ascii "out/x.asm") [ascii "@1", []]).2
        = .error (.writing (ascii "out/.x.asm.*") (.device (ascii "no space left on device"))) := by
      decide +kernel
    exact Prod.ext (hfull _ _ (Prod.ext rfl herror)) herror
  · have herror : (oldFile.saveOn {} (ascii "out/") [ascii "@1"]).2
        = .error (.replacing (ascii "out/.out.*") (ascii "out/") .exist) := by decide +kernel
    exact Prod.ext (hkept _ _ (Prod.ext rfl herror)) herror

end HackToolchain
