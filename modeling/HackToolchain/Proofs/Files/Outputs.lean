/-
**Where the results of units are saved.**

All results of a search lie below one directory: that of the sources, or the one that is chosen for
results.  Next to its sources a directory's result lies in the directory itself.  In a chosen directory
all results lie side by side, and there a source and a directory of the same name have the same path.
This module shows that this is the only way in which two results can meet.

Main definitions:

* `FileTree.SavedBelow` — the result of a unit has a path below a directory;
* `FileTree.Collides` — a source and a directory of the same name have results in a chosen directory.

Main results:

* `FileTree.findPlace_under`, `FileTree.names_eq_of_findPlace` — different names below a directory are
  different places;
* `FileTree.exists_savedBelow` — all results of a search lie below one directory;
* `FileTree.outputs_nodup_iff` — **results have different paths unless a source and a directory
  collide**.
-/
import HackToolchain.Proofs.Files.Discovery

set_option relaxedAutoImplicit false
set_option autoImplicit false

namespace HackToolchain

namespace FileTree

/-! ### Places below a directory -/

variable {t : FileTree} {o : DiscoverOptions} {l : Location} {b root n : Text}
  {units : List CompilationUnit} {u v : CompilationUnit}

/-- Names lead from a directory to a directory below it. -/
theorem LeadsTo.of_under (hb : b ≠ []) {names : List Text} (h : ∀ n ∈ names, Path.IsProper n)
    {k : Location} (hk : t.LeadsTo (Path.under b names) k) : ∃ l, t.LeadsTo b l ∧ k = l ++ names := by
  induction names generalizing b with
  | nil => exact ⟨k, hk, (List.append_nil k).symm⟩
  | cons n names ih =>
      rw [List.forall_mem_cons] at h
      obtain ⟨l', hl', rfl⟩ := ih (Path.join_ne_nil hb n) h.2 hk
      obtain ⟨l, hl, rfl, -⟩ := (leadsTo_join_iff hb h.1).1 hl'
      exact ⟨l, hl, by rw [List.append_assoc]; rfl⟩

/-- **The place of a path below a directory** is below the directory, under the same names. -/
theorem findPlace_under (hb : b ≠ []) {names : List Text} (hnames : ∀ m ∈ names, Path.IsProper m)
    (hn : Path.IsProper n) {k : Location} (h : t.findPlace (Path.under b (names ++ [n])) = .ok k) :
    ∃ l, t.LeadsTo b l ∧ k = l ++ (names ++ [n]) := by
  rw [Path.under_concat, findPlace_join_iff (Path.under_ne_nil hb names) hn] at h
  obtain ⟨l', hl', rfl⟩ := h
  obtain ⟨l, hl, rfl⟩ := hl'.of_under hb hnames
  exact ⟨l, hl, List.append_assoc ..⟩

/-- Paths below a directory that have the same place have the same names. -/
theorem names_eq_of_findPlace (hb : b ≠ []) {k : Location} {names names' : List Text} {n n' : Text}
    (hnames : ∀ m ∈ names, Path.IsProper m) (hn : Path.IsProper n)
    (h : t.findPlace (Path.under b (names ++ [n])) = .ok k)
    (hnames' : ∀ m ∈ names', Path.IsProper m) (hn' : Path.IsProper n')
    (h' : t.findPlace (Path.under b (names' ++ [n'])) = .ok k) : names ++ [n] = names' ++ [n'] := by
  obtain ⟨l, hl, rfl⟩ := findPlace_under hb hnames hn h
  obtain ⟨l', hl', hk⟩ := findPlace_under hb hnames' hn' h'
  obtain rfl := hl.unique hl'
  exact List.append_cancel_left hk

/-! ### Results below a directory -/

/-- The result of a unit has a path below the directory `b`. -/
def SavedBelow (b : Text) (u : CompilationUnit) : Prop :=
  ∃ names n, (∀ m ∈ names, Path.IsProper m) ∧ Text.slash ∉ n ∧
    u.output = Path.under b (names ++ [n ++ assemblyExtension])

theorem isProper_append_assemblyExtension (hn : Text.slash ∉ n) :
    Path.IsProper (n ++ assemblyExtension) :=
  Path.isProper_append hn (by decide) (by decide)

/-- Results at the same place have the same path. -/
theorem SavedBelow.output_eq (hb : b ≠ []) (hu : SavedBelow b u) (hv : SavedBelow b v) {k : Location}
    (hku : t.findPlace u.output = .ok k) (hkv : t.findPlace v.output = .ok k) :
    u.output = v.output := by
  obtain ⟨names, n, hnames, hn, hu⟩ := hu
  obtain ⟨names', n', hnames', hn', hv⟩ := hv
  rw [hu] at hku ⊢
  rw [hv] at hkv ⊢
  rw [names_eq_of_findPlace hb hnames (isProper_append_assemblyExtension hn) hku hnames'
    (isProper_append_assemblyExtension hn') hkv]

/-- The ways in which a search succeeds: the path leads to a source, or to a directory that is taken
as one unit, or to one whose entries are taken. -/
theorem discover_cases (h : t.discover o root = .ok units) :
    (∃ k content u, t.find root = .ok (k, .file content) ∧ isSourceName root = true ∧
      t.fileUnit o root = .ok u ∧ units = [u]) ∨
    (∃ l u, t.find root = .ok (l, .directory) ∧ o.whole = true ∧
      t.directoryUnit o root = .ok u ∧ units = [u]) ∨
    ∃ l, t.find root = .ok (l, .directory) ∧ o.whole = false := by
  unfold discover stat at h
  cases hfind : t.find root with
  | error c => rw [hfind] at h; cases h
  | ok r =>
      obtain ⟨k, e⟩ := r
      rw [hfind] at h
      cases e with
      | file content =>
          dsimp only at h
          split at h
          · next hs =>
              cases hu : t.fileUnit o root with
              | error e => rw [hu] at h; cases h
              | ok u =>
                  rw [hu] at h
                  injection h with h
                  exact Or.inl ⟨k, content, u, rfl, hs, rfl, h.symm⟩
          · cases h
      | directory =>
          dsimp only at h
          cases hwhole : o.whole with
          | false => exact Or.inr (Or.inr ⟨k, rfl, rfl⟩)
          | true =>
              rw [if_pos hwhole] at h
              split at h
              · cases h
              · next u hu =>
                  split at h
                  · cases h
                  · injection h with h
                    exact Or.inr (Or.inl ⟨k, u, rfl, rfl, hu, h.symm⟩)

theorem resultDirectory_ne_nil {beside : Text} (h : beside ≠ []) : resultDirectory o beside ≠ [] := by
  rw [resultDirectory]
  split
  · exact h
  · next hne => exact fun hnil => hne (List.isEmpty_iff.2 hnil)

/-- The result of a source that is asked for lies beside it. -/
theorem savedBelow_of_fileUnit (hs : isSourceName root = true) (h : t.fileUnit o root = .ok u) :
    SavedBelow (resultDirectory o (Path.directory root)) u := by
  unfold fileUnit readModule at h
  have hlast : root.getLast? = some 109 := by
    obtain ⟨s, rfl⟩ := isSourceName_iff.1 hs
    rw [List.getLast?_append]
    rfl
  have hname : Text.slash ∉ Path.stem (Path.base root) := fun hmem =>
    Path.slash_not_mem_base hlast (by decide) (List.mem_of_mem_take hmem)
  split at h
  · cases h
  · next m hm =>
      have hmname : m.name = Path.stem (Path.base root) := by
        split at hm
        · cases hm
        · cases hm
        · split at hm
          · cases hm
          · injection hm with hm
            rw [← hm]
      injection h with h
      rw [← h, SavedBelow]
      exact ⟨[], m.name, List.forall_mem_nil _, hmname ▸ hname, rfl⟩

/-- The result of a directory that is one unit. -/
theorem savedBelow_of_directoryUnit (ht : t.WellFormed) (hroot : t.find root = .ok (l, .directory))
    (h : t.directoryUnit o root = .ok u) : SavedBelow (resultDirectory o root) u := by
  obtain ⟨files, -, hname, -, houtput⟩ := directoryUnit_eq_ok ht hroot h
  have hb : resultDirectory o root ≠ [] := resultDirectory_ne_nil (ne_nil_of_find hroot)
  rw [hname] at houtput
  rcases Path.base_cases (Path.clean root) with ⟨hslash, -⟩ | hslash
  · -- the root of the tree has no name
    rw [hslash] at houtput
    refine ⟨[], [], List.forall_mem_nil _, List.not_mem_nil, houtput.trans ?_⟩
    exact Path.join_slash_cons hb (isProper_append_assemblyExtension (n := []) List.not_mem_nil)
  · exact ⟨[], _, List.forall_mem_nil _, hslash, houtput⟩

/-- A unit has a name without a slash. -/
theorem UnitOf.slash_not_mem_name (ht : t.WellFormed) {entry : Text} (h : t.UnitOf entry l n u) :
    Text.slash ∉ u.name := by
  cases h with
  | source m hholds hname hmodules =>
      obtain ⟨content, hfile, rfl, -⟩ := hholds
      rw [hname]
      exact fun hmem => (ht.isProper hfile).slash (List.mem_append_left _ hmem)
  | directory files hdirectory hsources hfiles hname hmodules =>
      rw [hname]
      exact (ht.isProper hdirectory).slash

theorem isProper_of_mem_resultNames (ht : t.WellFormed) {entry : Text} {e : Entry}
    (he : t.find? (l ++ [n]) = some e) (h : t.UnitOf entry l n u) :
    ∀ m ∈ resultNames o n e u, Path.IsProper m := by
  intro m hm
  rcases List.mem_append.1 hm with hm | hm
  · split at hm
    · rw [List.mem_singleton.1 hm]
      exact ht.isProper he
    · cases hm
  · rw [List.mem_singleton.1 hm]
    exact isProper_append_assemblyExtension (h.slash_not_mem_name ht)

/-- **All results of a search lie below one directory.** -/
theorem exists_savedBelow (ht : t.WellFormed) (h : t.discover o root = .ok units) :
    ∃ b, b ≠ [] ∧ ∀ u ∈ units, SavedBelow b u := by
  obtain ⟨k, content, u, hroot, hs, hu, rfl⟩ | ⟨l, u, hroot, hwhole, hu, rfl⟩ | ⟨l, hroot, hwhole⟩ :=
    discover_cases h
  · refine ⟨resultDirectory o (Path.directory root),
      resultDirectory_ne_nil (Path.directory_ne_nil root), fun v hv => ?_⟩
    rw [List.mem_singleton.1 hv]
    exact savedBelow_of_fileUnit hs hu
  · refine ⟨resultDirectory o root, resultDirectory_ne_nil (ne_nil_of_find hroot), fun v hv => ?_⟩
    rw [List.mem_singleton.1 hv]
    exact savedBelow_of_directoryUnit ht hroot hu
  · refine ⟨resultDirectory o root, resultDirectory_ne_nil (ne_nil_of_find hroot), fun v hv => ?_⟩
    obtain ⟨found, rfl, hfinds, houtputs⟩ := discover_eq_ok ht hroot hwhole h
    obtain ⟨p, hp, rfl⟩ := List.mem_map.1 hv
    obtain ⟨e, he, houtput⟩ := houtputs p hp
    have hproper := isProper_of_mem_resultNames (o := o) ht he (hfinds.unit p hp)
    exact ⟨_, _, fun m hm => hproper m (List.mem_append_left _ hm),
      (hfinds.unit p hp).slash_not_mem_name ht, houtput⟩

/-! ### Collisions -/

/-- A source and a directory of the same name have results in a chosen directory. -/
structure Collides (t : FileTree) (o : DiscoverOptions) (root : Text) : Prop where
  chosen : o.output ≠ []
  entries : o.whole = false
  meet : ∃ l s, t.find root = .ok (l, .directory) ∧ t.IsSource l (s ++ sourceExtension) ∧
    t.find? (l ++ [s]) = some .directory ∧ ∃ k, t.IsSource (l ++ [s]) k

variable {entry n' : Text} {e e' : Entry}

/-- A unit of a source and one of a directory have results with the same names only if they
collide. -/
theorem not_source_of_resultNames (hroot : t.find root = .ok (l, .directory))
    (hwhole : o.whole = false) (hfree : ¬t.Collides o root) {m : Module} {files : List (Text × Module)}
    (hholds : t.Holds l n m) (hname : u.name = m.name)
    (hdirectory : t.find? (l ++ [n']) = some .directory) (hsources : t.Sources (l ++ [n']) files)
    (hfiles : files ≠ []) (hname' : v.name = n')
    (hnames : resultNames o n e u = resultNames o n' .directory v)
    (he : t.find? (l ++ [n]) = some e) : False := by
  have hsource := hholds.isSource
  obtain ⟨content, hfile, rfl, -⟩ := hholds
  rw [hfile] at he
  injection he with he
  subst he
  cases hempty : o.output.isEmpty with
  | true =>
      -- beside the sources, the result of a directory lies deeper
      have hlength := congrArg List.length hnames
      simp [resultNames, hempty, Entry.isDirectory] at hlength
  | false =>
      simp only [resultNames, hempty, Bool.false_and, Bool.false_eq_true, if_false,
        List.nil_append] at hnames
      injection hnames with hlast
      have hsame : m.name = n' := by
        rw [← hname, ← hname']
        exact List.append_cancel_right hlast
      obtain ⟨f, rest, rfl⟩ := List.exists_cons_of_ne_nil hfiles
      refine hfree ⟨fun hnil => ?_, hwhole, l, n', hroot, hsame ▸ hsource, hdirectory, f.1, ?_⟩
      · rw [hnil] at hempty
        cases hempty
      · exact (hsources.complete f.1).1 (List.mem_cons_self ..)

/-- Without a collision, results with the same names stem from the same entry. -/
theorem eq_of_resultNames (hroot : t.find root = .ok (l, .directory)) (hwhole : o.whole = false)
    (hfree : ¬t.Collides o root) (he : t.find? (l ++ [n]) = some e)
    (he' : t.find? (l ++ [n']) = some e') (hu : t.UnitOf entry l n u) (hv : t.UnitOf entry l n' v)
    (hnames : resultNames o n e u = resultNames o n' e' v) : n = n' := by
  have hname : u.name = v.name := by
    have hlast := congrArg List.getLast? hnames
    rw [resultNames, resultNames, List.getLast?_append, List.getLast?_append] at hlast
    exact List.append_cancel_right (Option.some.inj hlast)
  cases hu with
  | source m hholds huname humodules =>
      cases hv with
      | source m' hholds' hvname hvmodules =>
          obtain ⟨-, -, rfl, -⟩ := hholds
          obtain ⟨-, -, rfl, -⟩ := hholds'
          rw [← huname, ← hvname, hname]
      | directory files hdirectory hsources hfiles hvname hvmodules =>
          rw [hdirectory] at he'
          injection he' with he'
          subst he'
          exact (not_source_of_resultNames hroot hwhole hfree hholds huname hdirectory hsources hfiles
            hvname hnames he).elim
  | directory files hdirectory hsources hfiles huname humodules =>
      cases hv with
      | source m hholds hvname hvmodules =>
          rw [hdirectory] at he
          injection he with he
          subst he
          exact (not_source_of_resultNames hroot hwhole hfree hholds hvname hdirectory hsources hfiles
            huname hnames.symm he').elim
      | directory files' hdirectory' hsources' hfiles' hvname hvmodules =>
          rw [← huname, ← hvname, hname]

/-- A source and a directory that collide have the same result. -/
theorem Finds.output_eq_of_collides (hroot : t.find root = .ok (l, .directory))
    {found : List (Text × CompilationUnit)} (h : t.Finds entry l found)
    (houtputs : ∀ p ∈ found, ∃ e, t.find? (l ++ [p.1]) = some e ∧
      p.2.output = Path.under (resultDirectory o root) (resultNames o p.1 e p.2))
    (hcollides : t.Collides o root) :
    ∃ p ∈ found, ∃ q ∈ found, p ≠ q ∧ p.2.output = q.2.output := by
  obtain ⟨hchosen, -, l', s, hroot', hsource, hdirectory, k, hk⟩ := hcollides
  rw [hroot] at hroot'
  injection hroot' with hroot'
  obtain rfl : l = l' := congrArg Prod.fst hroot'
  have hp := (h.complete _).2 ⟨_, Or.inl ⟨rfl, hsource⟩⟩
  have hq := (h.complete _).2 ⟨_, Or.inr ⟨k, rfl, hdirectory, hk⟩⟩
  obtain ⟨p, hp, hpname⟩ := List.mem_map.1 hp
  obtain ⟨q, hq, hqname⟩ := List.mem_map.1 hq
  have hempty : o.output.isEmpty = false :=
    Bool.eq_false_iff.2 fun hempty => hchosen (List.isEmpty_iff.1 hempty)
  have houtput : ∀ r ∈ found,
      r.2.output = Path.under (resultDirectory o root) [r.2.name ++ assemblyExtension] := by
    intro r hr
    obtain ⟨e, -, hout⟩ := houtputs r hr
    rw [hout, resultNames, hempty]
    rfl
  have hpunit : p.2.name = s := by
    cases h.unit p hp with
    | source m hholds hname hmodules =>
        obtain ⟨-, -, hn, -⟩ := hholds
        rw [hpname] at hn
        rw [hname]
        exact (List.append_cancel_right hn).symm
    | directory files hdir hsources hfiles hname hmodules =>
        rw [hpname] at hdir
        exact absurd hdir hsource.ne_directory
  have hqunit : q.2.name = s := by
    cases h.unit q hq with
    | source m hholds hname hmodules =>
        have hne := hholds.isSource.ne_directory
        rw [hqname] at hne
        exact absurd hdirectory hne
    | directory files hdir hsources hfiles hname hmodules => rw [hname, hqname]
  refine ⟨p, hp, q, hq, ?_, by rw [houtput p hp, houtput q hq, hpunit, hqunit]⟩
  rintro rfl
  rw [hpname] at hqname
  have hlength := congrArg List.length hqname
  rw [List.length_append, Nat.add_eq_left] at hlength
  cases hlength

/-- The results of the entries of a directory have different paths exactly if none of them collide. -/
theorem nodup_outputs_of_directory (ht : t.WellFormed) (hroot : t.find root = .ok (l, .directory))
    (hwhole : o.whole = false) (h : t.discover o root = .ok units) :
    (units.map (·.output)).Nodup ↔ ¬t.Collides o root := by
  obtain ⟨found, rfl, hfinds, houtputs⟩ := discover_eq_ok ht hroot hwhole h
  have hnames : (found.map Prod.fst).Nodup := hfinds.ordered.nodup
  rw [List.map_map, List.nodup_map_iff_inj_on (List.Nodup.of_map _ hnames)]
  constructor
  · intro hinj hcollides
    obtain ⟨p, hp, q, hq, hne, houtput⟩ := hfinds.output_eq_of_collides hroot houtputs hcollides
    exact hne (hinj p hp q hq houtput)
  · intro hfree p hp q hq houtput
    obtain ⟨e, he, hpout⟩ := houtputs p hp
    obtain ⟨e', he', hqout⟩ := houtputs q hq
    have hb : resultDirectory o root ≠ [] := resultDirectory_ne_nil (ne_nil_of_find hroot)
    have hunder : Path.under (resultDirectory o root) (resultNames o p.1 e p.2)
        = Path.under (resultDirectory o root) (resultNames o q.1 e' q.2) := by
      rw [← hpout, ← hqout]
      exact houtput
    have hresult : resultNames o p.1 e p.2 = resultNames o q.1 e' q.2 :=
      Path.under_inj hb (isProper_of_mem_resultNames ht he (hfinds.unit p hp))
        (isProper_of_mem_resultNames ht he' (hfinds.unit q hq)) hunder
    exact List.inj_on_of_nodup_map hnames hp hq
      (eq_of_resultNames hroot hwhole hfree he he' (hfinds.unit p hp) (hfinds.unit q hq) hresult)

/-- **Results have different paths unless a source and a directory collide**, and results with
different paths have different places, whatever else is in the tree. -/
theorem outputs_nodup_iff (ht : t.WellFormed) (h : t.discover o root = .ok units) :
    ((units.map (·.output)).Nodup ↔ ¬t.Collides o root) ∧
    ∀ (t' : FileTree) (k : Location), ∀ u ∈ units, ∀ v ∈ units,
      t'.findPlace u.output = .ok k → t'.findPlace v.output = .ok k → u.output = v.output := by
  constructor
  · obtain ⟨k, content, u, hroot, hs, hu, rfl⟩ | ⟨l, u, hroot, hwhole, hu, rfl⟩ | ⟨l, hroot, hwhole⟩ :=
      discover_cases h
    · refine iff_of_true (List.nodup_singleton _) ?_
      rintro ⟨-, -, l, s, hdirectory, -⟩
      rw [hroot] at hdirectory
      cases hdirectory
    · refine iff_of_true (List.nodup_singleton _) ?_
      rintro ⟨-, hentries, -⟩
      rw [hwhole] at hentries
      cases hentries
    · exact nodup_outputs_of_directory ht hroot hwhole h
  · intro t' k u hu v hv
    obtain ⟨b, hb, hbelow⟩ := exists_savedBelow ht h
    exact (hbelow u hu).output_eq hb (hbelow v hv)

/-- A source and a directory of the same name, and a directory for results. -/
def twins : FileTree where
  entries :=
    [([ascii "p"], .directory),
     ([ascii "p", ascii "x"], .directory),
     ([ascii "p", ascii "x", ascii "a.vm"], .file (ascii "push constant 2")),
     ([ascii "p", ascii "x.vm"], .file (ascii "push constant 1")),
     ([ascii "out"], .directory)]

/-- Both units have the same result. -/
def twinUnits : List CompilationUnit :=
  [{ name := ascii "x"
     modules := [{ name := ascii "a", lines := [{ number := 1, text := ascii "push constant 2" }] }]
     output := ascii "out/x.asm" },
   { name := ascii "x"
     modules := [{ name := ascii "x", lines := [{ number := 1, text := ascii "push constant 1" }] }]
     output := ascii "out/x.asm" }]

theorem twins_collide :
    twins.discover { output := ascii "out" } (ascii "p") = .ok twinUnits ∧
    twins.Collides { output := ascii "out" } (ascii "p") := by
  have hdiscover : twins.discover { output := ascii "out" } (ascii "p") = .ok twinUnits := by
    decide +kernel
  have hsame : ¬(twinUnits.map (·.output)).Nodup := by decide
  refine ⟨hdiscover, ?_⟩
  by_contra hfree
  exact hsame ((outputs_nodup_iff (by decide +kernel) hdiscover).1.2 hfree)

end FileTree

end HackToolchain
