/-
**A search for units finds every source once.**

In a directory a search takes each source as a unit of its own, and the sources of each directory in
it together as one unit.  This module says what that means for the tree: the units stem from the
entries of the directory, in the order of their names; their modules are the sources that lie directly
in the directory or directly in a directory in it, each once, named for its file and with the lines of
its content.  The search fails only if one of these sources cannot be read.

Main definitions:

* `FileTree.IsSource`, `FileTree.Holds` — the sources in a directory, and their modules;
* `FileTree.Sources` — all sources in a directory, in the order of their names;
* `FileTree.UnitOf` — the unit that stems from an entry of a directory;
* `FileTree.Finds` — what a search in a directory finds.

Main results:

* `isSourceName_iff` — sources are the files whose name ends with their extension;
* `FileTree.directoryUnit_eq_ok`, `FileTree.entryUnit_eq_ok` — the unit of a directory, and that of an
  entry;
* `FileTree.Finds.sources` — **sources and modules correspond to each other**;
* `FileTree.discover_finds_each_source` — **what a search in a directory finds**, and when it fails.
-/
import HackToolchain.Files.Discover
import HackToolchain.Proofs.Files.Trees

set_option relaxedAutoImplicit false
set_option autoImplicit false

namespace HackToolchain

/-! ### Names of sources -/

/-- **Sources are the files whose name ends with the extension of sources.** -/
theorem isSourceName_iff {n : Text} : isSourceName n = true ↔ ∃ s, n = s ++ sourceExtension := by
  rw [isSourceName, beq_iff_eq]
  constructor
  · intro h
    obtain ⟨s, hs⟩ := Path.extension_suffix n
    exact ⟨s, by rw [← hs, h]⟩
  · rintro ⟨s, rfl⟩
    exact Path.extension_append (by decide) (by decide) s

theorem stem_append_sourceExtension (s : Text) : Path.stem (s ++ sourceExtension) = s :=
  Path.stem_append (by decide) (by decide) s

namespace FileTree

/-! ### Sources in a directory -/

/-- A file in the directory at `l` is a source. -/
structure IsSource (t : FileTree) (l : Location) (n : Text) : Prop where
  file : ∃ content, t.find? (l ++ [n]) = some (.file content)
  extension : ∃ s, n = s ++ sourceExtension

/-- What a source in the directory at `l` holds: a module that has the name of the file without the
extension, and the lines of its content. -/
def Holds (t : FileTree) (l : Location) (n : Text) (m : Module) : Prop :=
  ∃ content, t.find? (l ++ [n]) = some (.file content) ∧ n = m.name ++ sourceExtension ∧
    stripLines content = .ok m.lines

/-- What the source at a location holds. -/
def HoldsAt (t : FileTree) (k : Location) (m : Module) : Prop :=
  ∃ l n, k = l ++ [n] ∧ t.Holds l n m

/-- All sources in the directory at `l`, each with its module, in the order of their names. -/
structure Sources (t : FileTree) (l : Location) (files : List (Text × Module)) : Prop where
  ordered : (files.map Prod.fst).Pairwise (· < ·)
  complete : ∀ n, n ∈ files.map Prod.fst ↔ t.IsSource l n
  holds : ∀ f ∈ files, t.Holds l f.1 f.2

variable {t : FileTree} {o : DiscoverOptions} {l : Location} {d root n : Text} {e : Entry}

theorem Holds.isSource {m : Module} (h : t.Holds l n m) : t.IsSource l n := by
  obtain ⟨content, hfile, hname, -⟩ := h
  exact ⟨⟨content, hfile⟩, m.name, hname⟩

theorem IsSource.ne_directory (h : t.IsSource l n) : t.find? (l ++ [n]) ≠ some .directory := by
  obtain ⟨content, hfile⟩ := h.file
  rw [hfile]
  intro hd
  cases hd

/-- Reading a source gives the module that it holds. -/
theorem readModule_join_iff (hlead : t.LeadsTo d l) (hd : d ≠ []) (hn : Path.IsProper n)
    (hsource : t.IsSource l n) {m : Module} :
    t.readModule (Path.join d n) = .ok m ↔ t.Holds l n m := by
  obtain ⟨⟨content, hfile⟩, s, rfl⟩ := hsource
  have hopen : t.openEntry (Path.join d (s ++ sourceExtension)) = .ok (.file content) := by
    rw [openEntry, (find_join_eq_ok_iff hd hn).2 ⟨l, hlead, rfl, hfile⟩]
  simp only [readModule, hopen, Path.base_join hd hn, stem_append_sourceExtension]
  constructor
  · intro h
    split at h
    · cases h
    · next lines hlines =>
        injection h with h
        subst h
        exact ⟨content, hfile, rfl, hlines⟩
  · rintro ⟨content', hfile', hname, hlines⟩
    rw [hfile] at hfile'
    injection hfile' with hcontent
    injection hcontent with hcontent
    rw [hcontent, hlines]
    have hs : s = m.name := List.append_cancel_right hname
    rw [hs]

/-- The entries of a directory that are taken as sources. -/
theorem mem_filter_children (ht : t.WellFormed) {p : Text × Entry} :
    p ∈ (t.children l).filter (fun p => !p.2.isDirectory && isSourceName p.1) ↔
      t.IsSource l p.1 ∧ t.find? (l ++ [p.1]) = some p.2 := by
  obtain ⟨n, e⟩ := p
  rw [List.mem_filter, mem_children ht, Bool.and_eq_true, isSourceName_iff]
  constructor
  · rintro ⟨he, hfile, hs⟩
    cases e with
    | directory => cases hfile
    | file content => exact ⟨⟨⟨content, he⟩, hs⟩, he⟩
  · rintro ⟨⟨⟨content, hfile⟩, hs⟩, he⟩
    rw [hfile] at he
    injection he with he
    subst he
    exact ⟨hfile, rfl, hs⟩

theorem readDirectory_of_find (h : t.find d = .ok (l, .directory)) :
    t.readDirectory d = .ok (t.children l) := by
  rw [readDirectory, h]

/-- The directory below which results lie: beside the sources, unless another one is chosen. -/
def resultDirectory (o : DiscoverOptions) (beside : Text) : Text :=
  if o.output.isEmpty then beside else o.output

/-- **The unit of a directory** is made of its sources. -/
theorem directoryUnit_eq_ok (ht : t.WellFormed) (hd : t.find d = .ok (l, .directory))
    {u : CompilationUnit} (h : t.directoryUnit o d = .ok u) :
    ∃ files, t.Sources l files ∧ u.name = Path.base (Path.clean d) ∧
      u.modules = orderModules (files.map Prod.snd) o.entry ∧
      u.output = Path.join (resultDirectory o d) (u.name ++ assemblyExtension) := by
  simp only [directoryUnit, readDirectory_of_find hd] at h
  split at h
  · cases h
  · next modules hmodules =>
      injection h with h
      subst h
      obtain ⟨ps, hfst, hsnd, hps⟩ := exists_pairs_of_mapM hmodules
      -- each module stands with the entry that it was read from
      have hentry : ∀ q ∈ ps, t.IsSource l q.1.1 ∧ t.find? (l ++ [q.1.1]) = some q.1.2 := by
        intro q hq
        exact (mem_filter_children ht).1 (hfst ▸ List.mem_map_of_mem hq)
      have hnames : (ps.map fun q => (q.1.1, q.2)).map Prod.fst
          = ((t.children l).filter fun p => !p.2.isDirectory && isSourceName p.1).map Prod.fst := by
        rw [← hfst, List.map_map, List.map_map]
        rfl
      refine ⟨ps.map fun q => (q.1.1, q.2), ⟨?_, ?_, ?_⟩, rfl, ?_, rfl⟩
      · rw [hnames]
        exact (pairwise_children ht l).sublist (List.filter_sublist.map Prod.fst)
      · intro n
        rw [hnames, List.mem_map]
        constructor
        · rintro ⟨p, hp, rfl⟩
          exact ((mem_filter_children ht).1 hp).1
        · intro hn
          obtain ⟨content, hfile⟩ := hn.file
          exact ⟨(n, .file content), (mem_filter_children ht).2 ⟨hn, hfile⟩, rfl⟩
      · intro f hf
        obtain ⟨q, hq, rfl⟩ := List.mem_map.1 hf
        obtain ⟨hsource, hfind⟩ := hentry q hq
        exact (readModule_join_iff (leadsTo_of_find hd) (ne_nil_of_find hd) (ht.isProper hfind)
          hsource).1 (hps q hq)
      · have hsecond : (ps.map fun q => (q.1.1, q.2)).map Prod.snd = modules := by
          rw [← hsnd, List.map_map]
          rfl
        rw [hsecond]

/-- A directory has a unit exactly if all sources in it can be read. -/
theorem exists_directoryUnit_iff (ht : t.WellFormed) (hd : t.find d = .ok (l, .directory)) :
    (∃ u, t.directoryUnit o d = .ok u) ↔ ∀ n, t.IsSource l n → ∃ m, t.Holds l n m := by
  constructor
  · rintro ⟨u, hu⟩ n hn
    obtain ⟨files, hsources, -⟩ := directoryUnit_eq_ok ht hd hu
    obtain ⟨f, hf, rfl⟩ := List.mem_map.1 ((hsources.complete n).2 hn)
    exact ⟨f.2, hsources.holds f hf⟩
  · intro hall
    have hread : ∃ modules, ((t.children l).filter fun p => !p.2.isDirectory && isSourceName p.1).mapM
        (fun p => t.readModule (Path.join d p.1)) = .ok modules := by
      refine exists_mapM_eq_ok_iff.2 fun p hp => ?_
      obtain ⟨hsource, hfind⟩ := (mem_filter_children ht).1 hp
      obtain ⟨m, hm⟩ := hall p.1 hsource
      exact ⟨m, (readModule_join_iff (leadsTo_of_find hd) (ne_nil_of_find hd) (ht.isProper hfind)
        hsource).2 hm⟩
    obtain ⟨modules, hmodules⟩ := hread
    exact ⟨_, by simp only [directoryUnit, readDirectory_of_find hd, hmodules]; rfl⟩

/-! ### Units of entries -/

/-- The unit that stems from the entry `n` of the directory at `l`: a source is the only module of its
unit, and all sources in a directory are the modules of one unit, those that declare the entry function
first. -/
inductive UnitOf (t : FileTree) (entry : Text) (l : Location) (n : Text) (u : CompilationUnit) : Prop
  | source (m : Module) (holds : t.Holds l n m) (name : u.name = m.name) (modules : u.modules = [m])
  | directory (files : List (Text × Module)) (isDirectory : t.find? (l ++ [n]) = some .directory)
      (sources : t.Sources (l ++ [n]) files) (nonempty : files ≠ []) (name : u.name = n)
      (modules : u.modules = (files.map Prod.snd).filter (·.declares entry) ++
        (files.map Prod.snd).filter (!·.declares entry))

/-- The sources that belong to the entry `n` of the directory at `l`, by their locations: the entry
itself, or those directly in it. -/
def IsSourceOf (t : FileTree) (l : Location) (n : Text) (k : Location) : Prop :=
  k = l ++ [n] ∧ t.IsSource l n ∨
    ∃ s, k = l ++ [n] ++ [s] ∧ t.find? (l ++ [n]) = some .directory ∧ t.IsSource (l ++ [n]) s

theorem orderModules_eq_nil_iff {modules : List Module} {entry : Text} :
    orderModules modules entry = [] ↔ modules = [] := by
  rw [← List.length_eq_zero_iff, (orderModules_perm modules entry).length_eq, List.length_eq_zero_iff]

theorem IsSourceOf.exists_find? {k : Location} (h : t.IsSourceOf l n k) :
    ∃ e, t.find? (l ++ [n]) = some e := by
  rcases h with ⟨-, hsource⟩ | ⟨s, -, hdirectory, -⟩
  · obtain ⟨content, hfile⟩ := hsource.file
    exact ⟨_, hfile⟩
  · exact ⟨_, hdirectory⟩

/-- The unit of a source in a directory. -/
theorem fileUnit_join_eq_ok_iff (hlead : t.LeadsTo d l) (hd : d ≠ []) (hn : Path.IsProper n)
    (hsource : t.IsSource l n) {u : CompilationUnit} :
    t.fileUnit o (Path.join d n) = .ok u ↔ ∃ m, t.Holds l n m ∧
      u = { name := m.name
            modules := [m]
            output := Path.join (resultDirectory o d) (m.name ++ assemblyExtension) } := by
  have hjoin (m : Module) (hm : t.Holds l n m) :
      Path.join (resultDirectory o (Path.directory (Path.join d n))) (m.name ++ assemblyExtension)
        = Path.join (resultDirectory o d) (m.name ++ assemblyExtension) := by
    rw [resultDirectory, resultDirectory]
    split
    · obtain ⟨-, -, hname, -⟩ := hm
      have hslash : Text.slash ∉ m.name := fun hmem =>
        hn.slash (hname ▸ List.mem_append_left _ hmem)
      exact Path.join_directory_join hd hn (Path.isProper_append hslash (by decide) (by decide))
    · rfl
  rw [fileUnit]
  constructor
  · intro h
    split at h
    · cases h
    · next m hm =>
        injection h with h
        have hholds := (readModule_join_iff hlead hd hn hsource).1 hm
        refine ⟨m, hholds, ?_⟩
        rw [← h, ← hjoin m hholds, resultDirectory]
  · rintro ⟨m, hholds, rfl⟩
    rw [(readModule_join_iff hlead hd hn hsource).2 hholds, ← hjoin m hholds, resultDirectory]

/-- The names that lead to the result of the unit of an entry.  Beside its sources, the result of a
directory lies in the directory. -/
def resultNames (o : DiscoverOptions) (n : Text) (e : Entry) (u : CompilationUnit) : List Text :=
  (if o.output.isEmpty && e.isDirectory then [n] else []) ++ [u.name ++ assemblyExtension]

theorem under_resultNames (o : DiscoverOptions) (root n : Text) (e : Entry) (u : CompilationUnit) :
    Path.under (resultDirectory o root) (resultNames o n e u)
      = Path.join (resultDirectory o (if e.isDirectory then Path.join root n else root))
        (u.name ++ assemblyExtension) := by
  rw [resultNames, Path.under_concat, resultDirectory, resultDirectory]
  cases o.output.isEmpty <;> cases e.isDirectory <;> rfl

/-- **The unit of an entry**, if a source belongs to the entry. -/
theorem entryUnit_eq_ok (ht : t.WellFormed) (hroot : t.find root = .ok (l, .directory))
    (he : t.find? (l ++ [n]) = some e) {result : Option CompilationUnit}
    (h : t.entryUnit o root n e = .ok result) :
    (result = none ∧ ∀ k, ¬t.IsSourceOf l n k) ∨
    ∃ u, result = some u ∧ (∃ k, t.IsSourceOf l n k) ∧ t.UnitOf o.entry l n u ∧
      u.output = Path.under (resultDirectory o root) (resultNames o n e u) := by
  have hne := ne_nil_of_find hroot
  have hproper := ht.isProper he
  have hfind : t.find (Path.join root n) = .ok (l ++ [n], e) :=
    (find_join_eq_ok_iff hne hproper).2 ⟨l, leadsTo_of_find hroot, rfl, he⟩
  cases e with
  | directory =>
      simp only [entryUnit, Entry.isDirectory, if_true] at h
      cases hu : t.directoryUnit o (Path.join root n) with
      | error err => rw [hu] at h; cases h
      | ok u =>
          rw [hu] at h
          injection h with h
          dsimp only at h
          obtain ⟨files, hsources, hname, hmodules, houtput⟩ := directoryUnit_eq_ok ht hfind hu
          rw [Path.clean_join hne, Path.base_join hne hproper] at hname
          have hempty : u.modules.isEmpty = true ↔ files = [] := by
            rw [hmodules, List.isEmpty_iff, orderModules_eq_nil_iff, List.map_eq_nil_iff]
          split at h
          · next hnone =>
              refine Or.inl ⟨h.symm, ?_⟩
              rintro k (⟨-, hsource⟩ | ⟨s, -, -, hs⟩)
              · exact hsource.ne_directory he
              · have hmem := (hsources.complete s).2 hs
                rw [hempty.1 hnone] at hmem
                cases hmem
          · next hsome =>
              have hfiles : files ≠ [] := fun hnil => hsome (hempty.2 hnil)
              refine Or.inr ⟨u, h.symm, ?_, .directory files he hsources hfiles hname hmodules, ?_⟩
              · obtain ⟨f, rest, rfl⟩ := List.exists_cons_of_ne_nil hfiles
                exact ⟨_, Or.inr ⟨f.1, rfl, he, (hsources.complete f.1).1 (List.mem_cons_self ..)⟩⟩
              · rw [houtput, under_resultNames]
                rfl
  | file content =>
      simp only [entryUnit, Entry.isDirectory, Bool.false_eq_true, if_false] at h
      split at h
      · next hs =>
          have hsource : t.IsSource l n := ⟨⟨content, he⟩, isSourceName_iff.1 hs⟩
          cases hu : t.fileUnit o (Path.join root n) with
          | error err => rw [hu] at h; cases h
          | ok u =>
              rw [hu] at h
              injection h with h
              obtain ⟨m, hholds, rfl⟩ :=
                (fileUnit_join_eq_ok_iff (leadsTo_of_find hroot) hne hproper hsource).1 hu
              refine Or.inr ⟨_, h.symm, ⟨_, Or.inl ⟨rfl, hsource⟩⟩, .source m hholds rfl rfl, ?_⟩
              rw [under_resultNames]
              rfl
      · next hs =>
          injection h with h
          refine Or.inl ⟨h.symm, ?_⟩
          rintro k (⟨-, hsource⟩ | ⟨s, -, hd, -⟩)
          · exact hs (isSourceName_iff.2 hsource.extension)
          · rw [he] at hd
            cases hd

/-- An entry can be looked at exactly if all sources that belong to it can be read. -/
theorem exists_entryUnit_iff (ht : t.WellFormed) (hroot : t.find root = .ok (l, .directory))
    (he : t.find? (l ++ [n]) = some e) :
    (∃ result, t.entryUnit o root n e = .ok result) ↔
      ∀ k, t.IsSourceOf l n k → ∃ m, t.HoldsAt k m := by
  have hne := ne_nil_of_find hroot
  have hproper := ht.isProper he
  have hfind : t.find (Path.join root n) = .ok (l ++ [n], e) :=
    (find_join_eq_ok_iff hne hproper).2 ⟨l, leadsTo_of_find hroot, rfl, he⟩
  cases e with
  | directory =>
      simp only [entryUnit, Entry.isDirectory, if_true, exists_map_eq_ok_iff,
        exists_directoryUnit_iff ht hfind]
      constructor
      · rintro hall k (⟨-, hsource⟩ | ⟨s, rfl, -, hs⟩)
        · exact absurd he hsource.ne_directory
        · obtain ⟨m, hm⟩ := hall s hs
          exact ⟨m, _, s, rfl, hm⟩
      · intro hall s hs
        obtain ⟨m, d, s', hk, hm⟩ := hall _ (Or.inr ⟨s, rfl, he, hs⟩)
        obtain ⟨rfl, hs'⟩ := List.append_inj' hk rfl
        injection hs' with hs'
        exact ⟨m, hs' ▸ hm⟩
  | file content =>
      simp only [entryUnit, Entry.isDirectory, Bool.false_eq_true, if_false]
      by_cases hs : isSourceName n = true
      · have hsource : t.IsSource l n := ⟨⟨content, he⟩, isSourceName_iff.1 hs⟩
        simp only [hs, if_true, exists_map_eq_ok_iff,
          fileUnit_join_eq_ok_iff (leadsTo_of_find hroot) hne hproper hsource]
        constructor
        · rintro ⟨u, m, hm, -⟩ k (⟨rfl, -⟩ | ⟨s, -, hd, -⟩)
          · exact ⟨m, l, n, rfl, hm⟩
          · rw [he] at hd
            cases hd
        · intro hall
          obtain ⟨m, d, n', hk, hm⟩ := hall _ (Or.inl ⟨rfl, hsource⟩)
          obtain ⟨rfl, hn'⟩ := List.append_inj' hk rfl
          injection hn' with hn'
          exact ⟨_, m, hn' ▸ hm, rfl⟩
      · rw [if_neg hs]
        refine iff_of_true ⟨none, rfl⟩ ?_
        rintro k (⟨-, hsource⟩ | ⟨s, -, hd, -⟩)
        · exact absurd (isSourceName_iff.2 hsource.extension) hs
        · rw [he] at hd
          cases hd

/-! ### Searching a directory -/

/-- What a search in the directory at `l` finds: the units, each with the name of the entry from which
it stems, in the order of these names.  No entry to which a source belongs is left out, and no other is
taken. -/
structure Finds (t : FileTree) (entry : Text) (l : Location) (found : List (Text × CompilationUnit)) :
    Prop where
  ordered : (found.map Prod.fst).Pairwise (· < ·)
  complete : ∀ n, n ∈ found.map Prod.fst ↔ ∃ k, t.IsSourceOf l n k
  unit : ∀ p ∈ found, t.UnitOf entry l p.1 p.2

theorem map_fst_filterMap_sublist {α β γ : Type} (ps : List ((α × β) × Option γ)) :
    ((ps.filterMap fun q => q.2.map fun u => (q.1.1, u)).map Prod.fst).Sublist
      (ps.map fun q => q.1.1) := by
  induction ps with
  | nil => exact List.Sublist.slnil
  | cons q ps ih =>
      obtain ⟨p, _ | u⟩ := q
      · exact ih.cons p.1
      · exact ih.cons_cons p.1

/-- A search in a directory looks at each of its entries. -/
theorem discover_directory (hroot : t.find root = .ok (l, .directory)) (hwhole : o.whole = false) :
    t.discover o root
      = ((t.children l).mapM fun p => t.entryUnit o root p.1 p.2).map fun r => r.filterMap id := by
  have hstat : t.stat root = .ok .directory := by rw [stat, hroot]
  simp only [discover, hstat, hwhole, readDirectory_of_find hroot, Bool.false_eq_true, if_false]

/-- A search in a directory succeeds exactly if all sources that belong to its entries can be read. -/
theorem exists_discover_iff (ht : t.WellFormed) (hroot : t.find root = .ok (l, .directory))
    (hwhole : o.whole = false) :
    (∃ units, t.discover o root = .ok units) ↔
      ∀ n k, t.IsSourceOf l n k → ∃ m, t.HoldsAt k m := by
  rw [discover_directory hroot hwhole, exists_map_eq_ok_iff, exists_mapM_eq_ok_iff]
  constructor
  · intro hall n k hk
    obtain ⟨e, he⟩ := hk.exists_find?
    exact (exists_entryUnit_iff ht hroot he).1 (hall (n, e) ((mem_children ht).2 he)) k hk
  · intro hall p hp
    exact (exists_entryUnit_iff ht hroot ((mem_children ht).1 hp)).2 (hall p.1)

/-- **The units that a search in a directory finds.** -/
theorem discover_eq_ok (ht : t.WellFormed) (hroot : t.find root = .ok (l, .directory))
    (hwhole : o.whole = false) {units : List CompilationUnit} (h : t.discover o root = .ok units) :
    ∃ found, units = found.map Prod.snd ∧ t.Finds o.entry l found ∧
      ∀ p ∈ found, ∃ e, t.find? (l ++ [p.1]) = some e ∧
        p.2.output = Path.under (resultDirectory o root) (resultNames o p.1 e p.2) := by
  rw [discover_directory hroot hwhole] at h
  cases hresults : (t.children l).mapM fun p => t.entryUnit o root p.1 p.2 with
  | error err => rw [hresults] at h; cases h
  | ok results =>
      rw [hresults] at h
      injection h with h
      obtain ⟨ps, hfst, hsnd, hps⟩ := exists_pairs_of_mapM hresults
      have hfind : ∀ q ∈ ps, t.find? (l ++ [q.1.1]) = some q.1.2 := by
        intro q hq
        exact (mem_children ht).1 (hfst ▸ List.mem_map_of_mem hq)
      have hunit : ∀ p ∈ ps.filterMap (fun q => q.2.map fun u => (q.1.1, u)),
          (∃ k, t.IsSourceOf l p.1 k) ∧ t.UnitOf o.entry l p.1 p.2 ∧
          ∃ e, t.find? (l ++ [p.1]) = some e ∧
            p.2.output = Path.under (resultDirectory o root) (resultNames o p.1 e p.2) := by
        intro p hp
        obtain ⟨q, hq, hqp⟩ := List.mem_filterMap.1 hp
        obtain ⟨u, hu, rfl⟩ := Option.map_eq_some_iff.1 hqp
        obtain ⟨hnone, -⟩ | ⟨u', hu', hsource, hunitOf, houtput⟩ :=
          entryUnit_eq_ok ht hroot (hfind q hq) (hps q hq)
        · rw [hu] at hnone
          cases hnone
        · rw [hu] at hu'
          injection hu' with hu'
          subst hu'
          exact ⟨hsource, hunitOf, q.1.2, hfind q hq, houtput⟩
      refine ⟨ps.filterMap fun q => q.2.map fun u => (q.1.1, u), ?_, ⟨?_, ?_, ?_⟩, ?_⟩
      · rw [← h, ← hsnd, List.map_filterMap]
        dsimp only
        rw [List.filterMap_map]
        refine List.filterMap_congr fun q _ => ?_
        simp [Option.map_map, Function.comp_def]
      · have hnames : (ps.map fun q => q.1.1) = (t.children l).map Prod.fst := by
          rw [← hfst, List.map_map]
          rfl
        exact (pairwise_children ht l).sublist (hnames ▸ map_fst_filterMap_sublist ps)
      · intro n
        constructor
        · intro hn
          obtain ⟨p, hp, rfl⟩ := List.mem_map.1 hn
          exact (hunit p hp).1
        · rintro ⟨k, hk⟩
          obtain ⟨e, he⟩ := hk.exists_find?
          have hmem : (n, e) ∈ ps.map Prod.fst := hfst ▸ (mem_children ht).2 he
          obtain ⟨q, hq, hqn⟩ := List.mem_map.1 hmem
          obtain ⟨-, hnot⟩ | ⟨u, hu, -⟩ := entryUnit_eq_ok ht hroot (hfind q hq) (hps q hq)
          · rw [hqn] at hnot
            exact absurd hk (hnot k)
          · refine List.mem_map.2 ⟨(q.1.1, u), List.mem_filterMap.2 ⟨q, hq, ?_⟩, by rw [hqn]⟩
            rw [hu]
            rfl
      · intro p hp
        exact (hunit p hp).2.1
      · intro p hp
        exact (hunit p hp).2.2

/-! ### Sources and modules -/

/-- The sources that belong to the entries of the directory at `l`, each once and with the module that
it holds. -/
structure ReadsSources (t : FileTree) (l : Location) (files : List (Location × Module)) : Prop where
  once : (files.map Prod.fst).Nodup
  complete : ∀ k, k ∈ files.map Prod.fst ↔ ∃ n, t.IsSourceOf l n k
  holds : ∀ f ∈ files, t.HoldsAt f.1 f.2

/-- The directory that holds the sources of the unit that stems from the entry `n`. -/
def home (t : FileTree) (l : Location) (n : Text) : Location :=
  if t.find? (l ++ [n]) = some .directory then l ++ [n] else l

/-- The modules of a unit that stems from the entry `n`, each with the location of its source. -/
def sourcesOf (t : FileTree) (l : Location) (n : Text) (u : CompilationUnit) :
    List (Location × Module) :=
  u.modules.map fun m => (t.home l n ++ [m.name ++ sourceExtension], m)

theorem Sources.names {files : List (Text × Module)} (h : t.Sources l files) :
    (files.map Prod.snd).map (fun m => m.name ++ sourceExtension) = files.map Prod.fst := by
  rw [List.map_map]
  refine List.map_congr_left fun f hf => ?_
  obtain ⟨content, -, hname, -⟩ := h.holds f hf
  exact hname.symm

namespace UnitOf

variable {entry : Text} {u : CompilationUnit}

theorem modules_ne_nil (h : t.UnitOf entry l n u) : u.modules ≠ [] := by
  cases h with
  | source m hholds hname hmodules =>
      rw [hmodules]
      exact List.cons_ne_nil m []
  | directory files hdirectory hsources hfiles hname hmodules =>
      rw [hmodules]
      intro hnil
      exact hfiles (List.map_eq_nil_iff.1 (orderModules_eq_nil_iff.1 hnil))

/-- Each module of a unit is held by the source that stands with it. -/
theorem holdsAt (h : t.UnitOf entry l n u) {p : Location × Module} (hp : p ∈ t.sourcesOf l n u) :
    t.HoldsAt p.1 p.2 := by
  obtain ⟨m, hm, rfl⟩ := List.mem_map.1 hp
  refine ⟨_, _, rfl, ?_⟩
  cases h with
  | source m' hholds hname hmodules =>
      rw [hmodules, List.mem_singleton] at hm
      subst hm
      obtain ⟨content, hfile, rfl, hlines⟩ := hholds
      rw [home, if_neg (by simp [hfile])]
      exact ⟨content, hfile, rfl, hlines⟩
  | directory files hdirectory hsources hfiles hname hmodules =>
      rw [hmodules] at hm
      obtain ⟨f, hf, rfl⟩ := List.mem_map.1 ((orderModules_perm _ entry).mem_iff.1 hm)
      obtain ⟨content, hfile, hn, hlines⟩ := hsources.holds f hf
      rw [home, if_pos hdirectory]
      exact ⟨content, hn ▸ hfile, rfl, hlines⟩

/-- The locations of the sources of a unit are those of the sources that belong to the entry, each
once. -/
theorem sources (h : t.UnitOf entry l n u) :
    ((t.sourcesOf l n u).map Prod.fst).Nodup ∧
      ∀ k, k ∈ (t.sourcesOf l n u).map Prod.fst ↔ t.IsSourceOf l n k := by
  have hfst : (t.sourcesOf l n u).map Prod.fst
      = (u.modules.map fun m => m.name ++ sourceExtension).map fun s => t.home l n ++ [s] := by
    rw [sourcesOf, List.map_map, List.map_map]
    rfl
  rw [hfst]
  cases h with
  | source m hholds hname hmodules =>
      have hsource := hholds.isSource
      obtain ⟨content, hfile, rfl, hlines⟩ := hholds
      rw [hmodules, home, if_neg hsource.ne_directory]
      refine ⟨List.nodup_singleton _, fun k => ?_⟩
      rw [List.map_singleton, List.map_singleton, List.mem_singleton]
      constructor
      · rintro rfl
        exact Or.inl ⟨rfl, hsource⟩
      · rintro (⟨rfl, -⟩ | ⟨s, -, hd, -⟩)
        · rfl
        · exact absurd hd hsource.ne_directory
  | directory files hdirectory hsources hfiles hname hmodules =>
      have hperm : (u.modules.map fun m => m.name ++ sourceExtension).Perm (files.map Prod.fst) := by
        rw [← hsources.names, hmodules]
        exact (orderModules_perm _ entry).map _
      rw [home, if_pos hdirectory]
      constructor
      · refine List.Nodup.map ?_ (hperm.nodup_iff.2 hsources.ordered.nodup)
        intro s s' hs
        injection List.append_cancel_left hs
      · intro k
        rw [List.mem_map]
        constructor
        · rintro ⟨s, hs, rfl⟩
          exact Or.inr ⟨s, rfl, hdirectory, (hsources.complete s).1 (hperm.mem_iff.1 hs)⟩
        · rintro (⟨-, hsource⟩ | ⟨s, rfl, -, hs⟩)
          · exact absurd hdirectory hsource.ne_directory
          · exact ⟨s, hperm.mem_iff.2 ((hsources.complete s).2 hs), rfl⟩

end UnitOf

/-- A location belongs to one entry only. -/
theorem IsSourceOf.unique {n' : Text} {k : Location} (h : t.IsSourceOf l n k)
    (h' : t.IsSourceOf l n' k) : n = n' := by
  have hbegins {n : Text} (h : t.IsSourceOf l n k) : ∃ rest, k = l ++ n :: rest := by
    rcases h with ⟨rfl, -⟩ | ⟨s, rfl, -⟩
    · exact ⟨[], rfl⟩
    · exact ⟨[s], by simp⟩
  obtain ⟨rest, rfl⟩ := hbegins h
  obtain ⟨rest', hk⟩ := hbegins h'
  injection List.append_cancel_left hk

/-- **Sources and modules correspond to each other**: the modules of the units that are found are read
from the sources that belong to the entries, and each source is read once. -/
theorem Finds.sources {entry : Text} {found : List (Text × CompilationUnit)}
    (h : t.Finds entry l found) :
    ∃ files, t.ReadsSources l files ∧
      files.map Prod.snd = (found.map Prod.snd).flatMap (·.modules) := by
  refine ⟨found.flatMap fun p => t.sourcesOf l p.1 p.2, ⟨?_, ?_, ?_⟩, ?_⟩
  · rw [List.map_flatMap, List.nodup_flatMap]
    refine ⟨fun p hp => (h.unit p hp).sources.1, ?_⟩
    have hne : found.Pairwise fun p q => p.1 ≠ q.1 :=
      List.pairwise_map.1 h.ordered.nodup
    refine hne.imp_of_mem ?_
    intro p q hp hq hpq k hkp hkq
    exact hpq ((((h.unit p hp).sources.2 k).1 hkp).unique (((h.unit q hq).sources.2 k).1 hkq))
  · intro k
    rw [List.map_flatMap, List.mem_flatMap]
    constructor
    · rintro ⟨p, hp, hk⟩
      exact ⟨p.1, ((h.unit p hp).sources.2 k).1 hk⟩
    · rintro ⟨n, hk⟩
      obtain ⟨p, hp, rfl⟩ := List.mem_map.1 ((h.complete n).2 ⟨k, hk⟩)
      exact ⟨p, hp, ((h.unit p hp).sources.2 k).2 hk⟩
  · intro f hf
    obtain ⟨p, hp, hfp⟩ := List.mem_flatMap.1 hf
    exact (h.unit p hp).holdsAt hfp
  · rw [List.map_flatMap, List.flatMap_map]
    refine List.flatMap_congr fun p _ => ?_
    rw [sourcesOf, List.map_map]
    exact List.map_id _

/-- **What a search in a directory finds**: units that stem from its entries, in the order of their
names and none without a module, whose modules are the sources that lie directly in the directory or
directly in a directory in it, each once.  It fails only if one of these sources cannot be read. -/
theorem discover_finds_each_source (ht : t.WellFormed)
    (hroot : t.find root = .ok (l, .directory)) (hwhole : o.whole = false) :
    ((∃ units, t.discover o root = .ok units) ↔
      ∀ n k, t.IsSourceOf l n k → ∃ m, t.HoldsAt k m) ∧
    ∀ units, t.discover o root = .ok units →
      (∃ found, units = found.map Prod.snd ∧ t.Finds o.entry l found) ∧
      (∃ files, t.ReadsSources l files ∧ files.map Prod.snd = units.flatMap (·.modules)) ∧
      ∀ u ∈ units, u.modules ≠ [] := by
  refine ⟨exists_discover_iff ht hroot hwhole, fun units h => ?_⟩
  obtain ⟨found, rfl, hfinds, -⟩ := discover_eq_ok ht hroot hwhole h
  refine ⟨⟨found, rfl, hfinds⟩, hfinds.sources, fun u hu => ?_⟩
  obtain ⟨p, hp, rfl⟩ := List.mem_map.1 hu
  exact (hfinds.unit p hp).modules_ne_nil

/-- A directory with a source, a directory of two sources, a directory that is named like a source, and
a file that is none. -/
def games : FileTree where
  entries :=
    [([ascii "games"], .directory),
     ([ascii "games", ascii "Pong"], .directory),
     ([ascii "games", ascii "Pong", ascii "Sys.vm"], .file (ascii "function Sys.init 0 // entry")),
     ([ascii "games", ascii "Pong", ascii "Ball.vm"], .file (ascii "function Ball.new 2")),
     ([ascii "games", ascii "old.vm"], .directory),
     ([ascii "games", ascii "notes.txt"], .file (ascii "function")),
     ([ascii "games", ascii "Add.vm"], .file (ascii "push constant 1"))]

/-- The source is a unit, and so are the two sources, the one with the entry function first. -/
def gamesUnits : List CompilationUnit :=
  [{ name := ascii "Add"
     modules := [{ name := ascii "Add", lines := [{ number := 1, text := ascii "push constant 1" }] }]
     output := ascii "games/Add.asm" },
   { name := ascii "Pong"
     modules :=
       [{ name := ascii "Sys", lines := [{ number := 1, text := ascii "function Sys.init 0" }] },
        { name := ascii "Ball", lines := [{ number := 1, text := ascii "function Ball.new 2" }] }]
     output := ascii "games/Pong/Pong.asm" }]

theorem games_finds_each_source :
    games.discover { entry := ascii "Sys.init" } (ascii "games") = .ok gamesUnits ∧
    (∃ found, gamesUnits = found.map Prod.snd ∧
      games.Finds (ascii "Sys.init") [ascii "games"] found) ∧
    (∃ files, games.ReadsSources [ascii "games"] files ∧
      files.map Prod.snd = gamesUnits.flatMap (·.modules)) := by
  have hdiscover : games.discover { entry := ascii "Sys.init" } (ascii "games") = .ok gamesUnits := by
    decide +kernel
  have hroot : games.find (ascii "games") = .ok ([ascii "games"], .directory) := by decide +kernel
  have hfound := (discover_finds_each_source (by decide +kernel) hroot rfl).2 gamesUnits hdiscover
  exact ⟨hdiscover, hfound.1, hfound.2.1⟩

end FileTree

end HackToolchain
