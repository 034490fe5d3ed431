/-
**What paths are made of.**

Cleaning a path is a fold over its names, and what the fold leaves are the *steps* of the path: the
names that lead down, behind steps up that nothing takes back.  Two paths that both start at the
root, or both do not, have the same clean form exactly if they have the same steps.  So facts about
joined paths are facts about lists of steps: the path of a name in a directory has the steps of the
directory and then the name.

Main definitions:

* `Path.IsProper` — the names that lead from a directory to an entry in it;
* `Path.steps` — the names that are left when a path is cleaned;
* `Path.front` — a directory as it stands in front of a name in it;
* `Path.under` — the path that names lead to below a directory.

Main results:

* `Path.steps_clean`, `Path.clean_clean` — **cleaning a path keeps its steps**;
* `Path.steps_join`, `Path.join_eq` — **the steps and the text of a joined path**;
* `Path.base_join`, `Path.join_directory_join` — taking a joined path apart;
* `Path.base_cases` — only a path of slashes has a last name with a slash;
* `Path.extension_append`, `Path.stem_append` — the extension of a name that ends with one;
* `Path.under_inj` — different names below a directory are different paths.
-/
import Mathlib.Data.List.TakeWhile
import HackToolchain.Files.Path
import HackToolchain.Proofs.Text.Plain

set_option relaxedAutoImplicit false
set_option autoImplicit false

namespace HackToolchain.Path

/-! ### Names -/

/-- A name that leads from a directory to an entry in it. -/
structure IsProper (name : Text) : Prop where
  nonempty : name ≠ []
  here : name ≠ here
  above : name ≠ above
  slash : Text.slash ∉ name

instance (name : Text) : Decidable (IsProper name) :=
  decidable_of_iff (name ≠ [] ∧ name ≠ Path.here ∧ name ≠ Path.above ∧ Text.slash ∉ name)
    ⟨fun h => ⟨h.1, h.2.1, h.2.2.1, h.2.2.2⟩, fun h => ⟨h.nonempty, h.here, h.above, h.slash⟩⟩

/-- A name with an extension of at least two letters is proper if it holds no slash. -/
theorem isProper_append {s e : Text} (hs : Text.slash ∉ s) (he : Text.slash ∉ e)
    (hlen : 3 ≤ e.length) : IsProper (s ++ e) := by
  have hlong : 3 ≤ (s ++ e).length := by
    rw [List.length_append]
    omega
  refine ⟨?_, ?_, ?_, ?_⟩
  · rintro hnil
    rw [hnil] at hlong
    exact absurd hlong (by decide)
  · rintro hhere
    rw [hhere] at hlong
    exact absurd hlong (by decide)
  · rintro habove
    rw [habove] at hlong
    exact absurd hlong (by decide)
  · rw [List.mem_append]
    exact not_or.2 ⟨hs, he⟩

theorem names_of_not_mem {n : Text} (h : Text.slash ∉ n) : names n = [n] := Text.pieces_of_not_mem h

theorem names_append_slash (p q : Text) : names (p ++ Text.slash :: q) = names p ++ names q :=
  Text.pieces_append_cons (p := (· == Text.slash)) p q (beq_self_eq_true _)

theorem slash_not_mem_of_names {p n : Text} (h : n ∈ names p) : Text.slash ∉ n := by
  intro hmem
  exact absurd (Text.eq_false_of_mem_pieces h hmem) (by simp)

/-- Joining names that hold no slash is undone by taking the names of the path. -/
theorem names_join {ns : List Text} (hne : ns ≠ []) (h : ∀ n ∈ ns, Text.slash ∉ n) :
    names (Text.join [Text.slash] ns) = ns := by
  induction ns with
  | nil => exact absurd rfl hne
  | cons n ns ih =>
      have hn := names_of_not_mem (h n (List.mem_cons_self ..))
      cases ns with
      | nil => simpa [Text.join] using hn
      | cons m ns =>
          have htext : Text.join [Text.slash] (n :: m :: ns)
              = n ++ Text.slash :: Text.join [Text.slash] (m :: ns) := by simp [Text.join]
          rw [htext, names_append_slash, hn,
            ih (List.cons_ne_nil m ns) fun k hk => h k (List.mem_cons_of_mem _ hk)]
          rfl

/-! ### Steps -/

/-- The names that are left when a path is cleaned. -/
def steps (path : Text) : List Text := ((names path).foldl (cleanStep (isRooted path)) []).reverse

theorem clean_eq (path : Text) :
    clean path = if isRooted path then Text.slash :: Text.join [Text.slash] (steps path)
      else if (Text.join [Text.slash] (steps path)).isEmpty then here
      else Text.join [Text.slash] (steps path) := rfl

/-- A name that is kept is pushed. -/
theorem cleanStep_of_isProper {n : Text} (h : IsProper n) (rooted : Bool) (done : List Text) :
    cleanStep rooted done n = n :: done := by
  unfold cleanStep
  rw [if_neg (not_or.2 ⟨h.nonempty, h.here⟩), if_neg h.above]

/-- A name that leads nowhere is dropped. -/
theorem cleanStep_of_blank {n : Text} (h : n = [] ∨ n = here) (rooted : Bool) (done : List Text) :
    cleanStep rooted done n = done := by
  unfold cleanStep
  rw [if_pos h]

/-- What the names of a clean path have in common, the last name first: each is a step, and cleaning
them once more gives them back. -/
structure IsClean (rooted : Bool) (done : List Text) : Prop where
  step : ∀ n ∈ done, n = above ∨ IsProper n
  again : done.reverse.foldl (cleanStep rooted) [] = done

theorem isClean_nil (rooted : Bool) : IsClean rooted [] := ⟨List.forall_mem_nil _, rfl⟩

theorem IsClean.push {rooted : Bool} {done : List Text} {n : Text} (h : IsClean rooted done)
    (hn : n = above ∨ IsProper n) (hpush : cleanStep rooted done n = n :: done) :
    IsClean rooted (n :: done) := by
  refine ⟨List.forall_mem_cons.2 ⟨hn, h.step⟩, ?_⟩
  rw [List.reverse_cons, List.foldl_append, h.again]
  exact hpush

/-- Taking back the last name leaves a clean path: that name was pushed, so the names before it were
clean before. -/
theorem IsClean.pop {rooted : Bool} {last : Text} {rest : List Text}
    (h : IsClean rooted (last :: rest)) (hlast : last ≠ above) : IsClean rooted rest := by
  have hproper : IsProper last := (h.step last (List.mem_cons_self ..)).resolve_left hlast
  refine ⟨fun n hn => h.step n (List.mem_cons_of_mem _ hn), ?_⟩
  have hagain := h.again
  rw [List.reverse_cons, List.foldl_append] at hagain
  exact (List.cons.inj ((cleanStep_of_isProper hproper rooted _).symm.trans hagain)).2

theorem IsClean.cleanStep {rooted : Bool} {done : List Text} {n : Text} (h : IsClean rooted done)
    (hn : Text.slash ∉ n) : IsClean rooted (cleanStep rooted done n) := by
  by_cases hblank : n = [] ∨ n = Path.here
  · rw [cleanStep_of_blank hblank]
    exact h
  · rw [not_or] at hblank
    by_cases habove : n = Path.above
    · subst habove
      cases done with
      | nil =>
          cases rooted with
          | true => exact isClean_nil true
          | false => exact (isClean_nil false).push (Or.inl rfl) rfl
      | cons last rest =>
          by_cases hlast : last = Path.above
          · subst hlast
            exact h.push (Or.inl rfl) rfl
          · have hpop : Path.cleanStep rooted (last :: rest) Path.above = rest := by
              rw [Path.cleanStep, if_neg (not_or.2 hblank), if_pos rfl]
              exact if_neg hlast
            rw [hpop]
            exact h.pop hlast
    · have hproper : IsProper n := ⟨hblank.1, hblank.2, habove, hn⟩
      have hpush := cleanStep_of_isProper hproper rooted done
      rw [hpush]
      exact h.push (Or.inr hproper) hpush

theorem isClean_foldl {rooted : Bool} {ns done : List Text} (h : IsClean rooted done)
    (hns : ∀ n ∈ ns, Text.slash ∉ n) : IsClean rooted (ns.foldl (cleanStep rooted) done) := by
  induction ns generalizing done with
  | nil => exact h
  | cons n ns ih =>
      rw [List.forall_mem_cons] at hns
      exact ih (h.cleanStep hns.1) hns.2

theorem isClean_steps (path : Text) : IsClean (isRooted path) (steps path).reverse := by
  rw [steps, List.reverse_reverse]
  exact isClean_foldl (isClean_nil _) fun n hn => slash_not_mem_of_names hn

/-- Each step is a step up or a proper name. -/
theorem mem_steps {path n : Text} (h : n ∈ steps path) : n = above ∨ IsProper n :=
  (isClean_steps path).step n (List.mem_reverse.2 h)

theorem nonempty_of_mem_steps {path n : Text} (h : n ∈ steps path) : n ≠ [] := by
  rcases mem_steps h with rfl | hn
  · decide
  · exact hn.nonempty

theorem slash_not_mem_of_steps {path n : Text} (h : n ∈ steps path) : Text.slash ∉ n := by
  rcases mem_steps h with rfl | hn
  · decide
  · exact hn.slash

/-- The fold over the steps of a path gives them back. -/
theorem foldl_steps (path : Text) :
    (steps path).foldl (cleanStep (isRooted path)) [] = (steps path).reverse := by
  have hagain := (isClean_steps path).again
  rwa [List.reverse_reverse] at hagain

/-! ### Clean paths -/

theorem isEmpty_join_steps (path : Text) :
    (Text.join [Text.slash] (steps path)).isEmpty = true ↔ steps path = [] := by
  rw [List.isEmpty_iff]
  constructor
  · intro hjoin
    cases hs : steps path with
    | nil => rfl
    | cons n ns =>
        rw [hs, Text.join, List.append_eq_nil_iff] at hjoin
        exact absurd hjoin.1 (nonempty_of_mem_steps (hs ▸ List.mem_cons_self ..))
  · intro hs
    rw [hs]
    rfl

/-- **The names of a clean path**: its steps, behind an empty name if it starts at the root. -/
theorem names_clean (path : Text) :
    names (clean path) = (if isRooted path then [[]] else [])
      ++ (if steps path = [] then [if isRooted path then [] else here] else steps path) := by
  have hslash : ∀ n ∈ steps path, Text.slash ∉ n := fun n hn => slash_not_mem_of_steps hn
  have hrooted (t : Text) : names (Text.slash :: t) = [] :: names t :=
    Text.pieces_cons_of_pos (p := (· == Text.slash)) t (beq_self_eq_true _)
  rw [clean_eq]
  by_cases hs : steps path = []
  · cases isRooted path <;> simp [hs, Text.join, hrooted] <;> rfl
  · have hempty : ¬(Text.join [Text.slash] (steps path)).isEmpty = true :=
      fun hempty => hs ((isEmpty_join_steps path).1 hempty)
    cases isRooted path
    · simp only [Bool.false_eq_true, if_false, if_neg hempty, if_neg hs, names_join hs hslash,
        List.nil_append]
    · simp only [if_true, if_neg hs, hrooted, names_join hs hslash, List.cons_append, List.nil_append]

/-- A path that starts with a step does not start at the root. -/
theorem isRooted_step_append {path n : Text} (h : n ∈ steps path) (t : Text) :
    isRooted (n ++ t) = false := by
  cases n with
  | nil => exact absurd rfl (nonempty_of_mem_steps h)
  | cons b n =>
      have hb : b ≠ Text.slash := by
        rintro rfl
        exact slash_not_mem_of_steps h (List.mem_cons_self ..)
      simpa [isRooted] using hb

theorem isRooted_clean (path : Text) : isRooted (clean path) = isRooted path := by
  rw [clean_eq]
  cases hr : isRooted path
  · cases hs : steps path with
    | nil => rfl
    | cons n ns =>
        have hmem : n ∈ steps path := hs ▸ List.mem_cons_self ..
        have hne : ¬(Text.join [Text.slash] (n :: ns)).isEmpty = true := by
          rw [← hs, isEmpty_join_steps, hs]
          exact List.cons_ne_nil n ns
        rw [if_neg Bool.false_ne_true, if_neg hne, Text.join]
        exact isRooted_step_append hmem _
  · rfl

/-- **Cleaning a path keeps its steps.** -/
theorem steps_clean (path : Text) : steps (clean path) = steps path := by
  have hskip : ((if isRooted path then [[]] else []) : List Text).foldl (cleanStep (isRooted path)) []
      = [] := by
    cases isRooted path <;> rfl
  rw [steps, isRooted_clean, names_clean, List.foldl_append, hskip]
  by_cases hs : steps path = []
  · rw [if_pos hs, hs]
    cases isRooted path <;> rfl
  · rw [if_neg hs, foldl_steps, List.reverse_reverse]

/-- The clean form of a path depends on its steps and its start alone. -/
theorem clean_congr {p q : Text} (hrooted : isRooted p = isRooted q) (hsteps : steps p = steps q) :
    clean p = clean q := by
  rw [clean_eq, clean_eq, hrooted, hsteps]

theorem clean_clean (path : Text) : clean (clean path) = clean path :=
  clean_congr (isRooted_clean path) (steps_clean path)

theorem clean_ne_nil (path : Text) : clean path ≠ [] := by
  rw [clean_eq]
  split
  · exact List.cons_ne_nil _ _
  · split
    · decide
    · next hempty => exact fun hnil => hempty (List.isEmpty_iff.2 hnil)

/-! ### Joined paths -/

/-- A directory as it stands in front of a name in it: every step is followed by a slash. -/
def front (d : Text) : Text :=
  (if isRooted d then [Text.slash] else []) ++ (steps d).flatMap (· ++ [Text.slash])

theorem isRooted_append_slash {d : Text} (hd : d ≠ []) (t : Text) :
    isRooted (d ++ [Text.slash] ++ t) = isRooted d := by
  cases d with
  | nil => exact absurd rfl hd
  | cons b d => rfl

theorem steps_append_slash {d n : Text} (hd : d ≠ []) (hn : IsProper n) :
    steps (d ++ [Text.slash] ++ n) = steps d ++ [n] := by
  rw [steps, isRooted_append_slash hd, List.append_assoc, List.singleton_append, names_append_slash,
    names_of_not_mem hn.slash, List.foldl_append, List.foldl_cons, List.foldl_nil,
    cleanStep_of_isProper hn, List.reverse_cons]
  rfl

theorem join_of_ne_nil {d : Text} (hd : d ≠ []) (n : Text) :
    join d n = clean (d ++ [Text.slash] ++ n) := by
  rw [join, if_neg fun hempty => hd (List.isEmpty_iff.1 hempty)]

theorem isRooted_join {d : Text} (hd : d ≠ []) (n : Text) : isRooted (join d n) = isRooted d := by
  rw [join_of_ne_nil hd, isRooted_clean, isRooted_append_slash hd]

/-- **The steps of a joined path**: those of the directory, and the name. -/
theorem steps_join {d n : Text} (hd : d ≠ []) (hn : IsProper n) :
    steps (join d n) = steps d ++ [n] := by
  rw [join_of_ne_nil hd, steps_clean, steps_append_slash hd hn]

theorem join_ne_nil {d : Text} (hd : d ≠ []) (n : Text) : join d n ≠ [] := by
  rw [join_of_ne_nil hd]
  exact clean_ne_nil _

theorem clean_join {d : Text} (hd : d ≠ []) (n : Text) : clean (join d n) = join d n := by
  rw [join_of_ne_nil hd, clean_clean]

/-- Names joined behind a directory are the same if the directories have the same start and the same
steps. -/
theorem join_congr {d e : Text} (hd : d ≠ []) (he : e ≠ []) (hrooted : isRooted d = isRooted e)
    (hsteps : steps d = steps e) {n : Text} (hn : IsProper n) : join d n = join e n := by
  rw [join_of_ne_nil hd, join_of_ne_nil he]
  refine clean_congr ?_ ?_
  · rw [isRooted_append_slash hd, isRooted_append_slash he, hrooted]
  · rw [steps_append_slash hd hn, steps_append_slash he hn, hsteps]

/-- The names of a joined path: its steps, behind an empty name if it starts at the root. -/
theorem names_join_isProper {d n : Text} (hd : d ≠ []) (hn : IsProper n) :
    names (join d n) = (if isRooted d then [[]] else []) ++ (steps d ++ [n]) := by
  rw [join_of_ne_nil hd, names_clean, isRooted_append_slash hd, steps_append_slash hd hn,
    if_neg (List.concat_ne_nil n (steps d))]

/-- A slash in front of the name makes no difference. -/
theorem join_slash_cons {d n : Text} (hd : d ≠ []) (hn : IsProper n) :
    join d (Text.slash :: n) = join d n := by
  rw [join_of_ne_nil hd, join_of_ne_nil hd]
  refine clean_congr ?_ ?_
  · rw [isRooted_append_slash hd, isRooted_append_slash hd]
  · have hnames : names (d ++ [Text.slash] ++ Text.slash :: n) = names d ++ [[], n] := by
      rw [names_append_slash, names_append_slash, names_of_not_mem hn.slash, List.append_assoc]
      rfl
    rw [steps_append_slash hd hn, steps, isRooted_append_slash hd, hnames, List.foldl_append,
      List.foldl_cons, List.foldl_cons, List.foldl_nil, cleanStep_of_blank (Or.inl rfl),
      cleanStep_of_isProper hn, List.reverse_cons]
    rfl

theorem join_append_singleton (ns : List Text) (n : Text) :
    Text.join [Text.slash] (ns ++ [n]) = ns.flatMap (· ++ [Text.slash]) ++ n := by
  induction ns with
  | nil => simp [Text.join]
  | cons m ns ih =>
      cases ns with
      | nil => simp [Text.join]
      | cons k ns =>
          have hcons (l : List Text) : Text.join [Text.slash] (m :: k :: l)
              = m ++ [Text.slash] ++ Text.join [Text.slash] (k :: l) := by simp [Text.join]
          rw [List.cons_append] at ih ⊢
          rw [List.cons_append, hcons, ih]
          simp

/-- **The text of a joined path**: the directory in front of the name. -/
theorem join_eq {d n : Text} (hd : d ≠ []) (hn : IsProper n) : join d n = front d ++ n := by
  have hne : ¬(Text.join [Text.slash] (steps d ++ [n])).isEmpty = true := by
    rw [join_append_singleton, List.isEmpty_iff, List.append_eq_nil_iff]
    exact fun hnil => hn.nonempty hnil.2
  rw [join_of_ne_nil hd, clean_eq, isRooted_append_slash hd, steps_append_slash hd hn, if_neg hne,
    join_append_singleton, front]
  cases isRooted d <;> rfl

/-! ### Taking joined paths apart -/

/-- What stands in front of a name is empty or ends with a slash. -/
theorem front_cases (d : Text) : front d = [] ∨ ∃ f, front d = f ++ [Text.slash] := by
  rw [front]
  rcases List.eq_nil_or_concat (steps d) with hs | ⟨ns, n, hs⟩
  · rw [hs]
    cases isRooted d
    · exact Or.inl rfl
    · exact Or.inr ⟨[], rfl⟩
  · rw [hs]
    refine Or.inr ⟨(if isRooted d then [Text.slash] else []) ++ ns.flatMap (· ++ [Text.slash]) ++ n, ?_⟩
    simp

theorem takeWhile_reverse_front {d n : Text} (hn : Text.slash ∉ n) :
    (front d ++ n).reverse.takeWhile (· != Text.slash) = n.reverse := by
  have hkeep : ∀ b ∈ n.reverse, (b != Text.slash) = true := by
    intro b hb
    refine bne_iff_ne.2 ?_
    rintro rfl
    exact hn (List.mem_reverse.1 hb)
  rw [List.reverse_append, List.takeWhile_append_of_pos hkeep]
  rcases front_cases d with hfront | ⟨f, hfront⟩
  · rw [hfront]
    exact List.append_nil _
  · rw [hfront, List.reverse_append, List.reverse_singleton, List.singleton_append,
      List.takeWhile_cons_of_neg (by simp), List.append_nil]

theorem dropWhile_reverse_front {d n : Text} (hn : Text.slash ∉ n) :
    ((front d ++ n).reverse.dropWhile (· != Text.slash)).reverse = front d := by
  have hsplit := List.takeWhile_append_dropWhile
    (p := (· != Text.slash)) (l := (front d ++ n).reverse)
  rw [takeWhile_reverse_front hn, List.reverse_append, List.append_cancel_left_eq] at hsplit
  rw [List.reverse_append, hsplit, List.reverse_reverse]

/-- **The last name of a joined path.** -/
theorem base_join {d n : Text} (hd : d ≠ []) (hn : IsProper n) : base (join d n) = n := by
  have hkeep : (front d ++ n).reverse.dropWhile (· == Text.slash) = (front d ++ n).reverse := by
    cases hr : n.reverse with
    | nil => exact absurd (List.reverse_eq_nil_iff.1 hr) hn.nonempty
    | cons b r =>
        have hb : b ≠ Text.slash := by
          rintro rfl
          exact hn.slash (List.mem_reverse.1 (hr ▸ List.mem_cons_self ..))
        rw [List.reverse_append, hr, List.cons_append, List.dropWhile_cons_of_neg (by simpa using hb)]
  have hne : ¬(front d ++ n).isEmpty = true := by
    rw [List.isEmpty_iff, List.append_eq_nil_iff]
    exact fun hnil => hn.nonempty hnil.2
  rw [join_eq hd hn, base, if_neg hne, hkeep, List.reverse_reverse]
  dsimp only
  rw [if_neg hne, takeWhile_reverse_front hn.slash, List.reverse_reverse]

theorem isRooted_front (d : Text) : isRooted (front d) = isRooted d := by
  rw [front]
  cases hr : isRooted d
  · cases hs : steps d with
    | nil => rfl
    | cons n ns =>
        have hmem : n ∈ steps d := hs ▸ List.mem_cons_self ..
        rw [if_neg Bool.false_ne_true, List.nil_append, List.flatMap_cons, List.append_assoc]
        exact isRooted_step_append hmem _
  · rfl

theorem names_flatMap_slash {ns : List Text} (h : ∀ n ∈ ns, Text.slash ∉ n) :
    names (ns.flatMap (· ++ [Text.slash])) = ns ++ [[]] := by
  induction ns with
  | nil => rfl
  | cons n ns ih =>
      rw [List.forall_mem_cons] at h
      rw [List.flatMap_cons, List.append_assoc, List.singleton_append, names_append_slash,
        names_of_not_mem h.1, ih h.2]
      rfl

theorem steps_front (d : Text) : steps (front d) = steps d := by
  have hslash : ∀ n ∈ steps d, Text.slash ∉ n := fun n hn => slash_not_mem_of_steps hn
  have hnames : (names (front d)).foldl (cleanStep (isRooted d)) []
      = (steps d ++ [[]]).foldl (cleanStep (isRooted d)) [] := by
    rw [front]
    cases isRooted d
    · rw [if_neg Bool.false_ne_true, List.nil_append, names_flatMap_slash hslash]
    · rw [if_pos rfl, List.singleton_append]
      change (names ([] ++ Text.slash :: _)).foldl _ _ = _
      rw [names_append_slash, names_flatMap_slash hslash]
      rfl
  rw [steps, isRooted_front, hnames, List.foldl_append, foldl_steps, List.foldl_cons, List.foldl_nil,
    cleanStep_of_blank (Or.inl rfl), List.reverse_reverse]

/-- **The directory of a joined path** is the one that was joined, as far as other names in it are
concerned. -/
theorem join_directory_join {d m n : Text} (hd : d ≠ []) (hm : IsProper m) (hn : IsProper n) :
    join (directory (join d m)) n = join d n := by
  have hdirectory : directory (join d m) = clean (front d) := by
    rw [join_eq hd hm, directory, dropWhile_reverse_front hm.slash]
  rw [hdirectory]
  refine join_congr (clean_ne_nil _) hd ?_ ?_ hn
  · rw [isRooted_clean, isRooted_front]
  · rw [steps_clean, steps_front]

theorem directory_ne_nil (path : Text) : directory path ≠ [] := clean_ne_nil _

theorem slash_not_mem_reverse_takeWhile (s : Text) :
    Text.slash ∉ (s.takeWhile (· != Text.slash)).reverse := by
  intro hmem
  have htest := List.all_eq_true.1 List.all_takeWhile _ (List.mem_reverse.1 hmem)
  simp at htest

/-- The last name of a path is the root, if the path has slashes only, or holds no slash. -/
theorem base_cases (path : Text) :
    (base path = [Text.slash] ∧ ∃ n, path = List.replicate (n + 1) Text.slash) ∨
      Text.slash ∉ base path := by
  unfold base
  split
  · exact Or.inr (by decide)
  · next hne =>
      dsimp only
      split
      · next htrimmed =>
          rw [List.isEmpty_iff, List.reverse_eq_nil_iff, List.dropWhile_eq_nil_iff] at htrimmed
          have hall : path = List.replicate path.length Text.slash :=
            List.eq_replicate_of_mem fun b hb => beq_iff_eq.1 (htrimmed b (List.mem_reverse.2 hb))
          obtain ⟨n, hn⟩ := Nat.exists_eq_succ_of_ne_zero
            fun hlength => hne (List.isEmpty_iff.2 (List.length_eq_zero_iff.1 hlength))
          rw [hn] at hall
          exact Or.inl ⟨rfl, n, hall⟩
      · exact Or.inr (slash_not_mem_reverse_takeWhile _)

/-- The last name of a path that does not end with a slash holds none. -/
theorem slash_not_mem_base {path : Text} {b : UInt8} (h : path.getLast? = some b)
    (hb : b ≠ Text.slash) : Text.slash ∉ base path := by
  rcases base_cases path with ⟨-, n, rfl⟩ | hnot
  · rw [List.getLast?_replicate, if_neg (Nat.succ_ne_zero n)] at h
    exact absurd (Option.some.inj h).symm hb
  · exact hnot

theorem names_replicate_slash (n : Nat) :
    names (List.replicate n Text.slash) = List.replicate (n + 1) [] := by
  induction n with
  | zero => rfl
  | succ n ih =>
      rw [List.replicate_succ, List.replicate_succ, ← ih]
      exact Text.pieces_cons_of_pos _ (beq_self_eq_true _)

/-! ### Extensions -/

/-- **The extension of a path that ends with one.** -/
theorem extension_append {e : Text} (hdot : 46 ∉ e) (hslash : Text.slash ∉ e) (path : Text) :
    extension (path ++ 46 :: e) = 46 :: e := by
  have hkeep (c : UInt8) (hc : c ∉ e) : ∀ b ∈ e.reverse, (b != c) = true := by
    intro b hb
    refine bne_iff_ne.2 ?_
    rintro rfl
    exact hc (List.mem_reverse.1 hb)
  have hreverse : (path ++ 46 :: e).reverse = e.reverse ++ 46 :: path.reverse := by simp
  -- the last name is what stands behind the last slash of `path`, followed by the extension
  have hlast : (path ++ 46 :: e).reverse.takeWhile (· != Text.slash)
      = e.reverse ++ 46 :: path.reverse.takeWhile (· != Text.slash) := by
    rw [hreverse, List.takeWhile_append_of_pos (hkeep _ hslash),
      List.takeWhile_cons_of_pos (by decide)]
  rw [extension, hlast, List.reverse_reverse, List.takeWhile_append_of_pos (hkeep _ hdot),
    List.takeWhile_cons_of_neg (by decide), List.append_nil]
  rw [if_neg (by simp; omega), List.reverse_reverse]

/-- The path without the extension that it ends with. -/
theorem stem_append {e : Text} (hdot : 46 ∉ e) (hslash : Text.slash ∉ e) (path : Text) :
    stem (path ++ 46 :: e) = path := by
  rw [stem, extension_append hdot hslash]
  simp

/-- A path ends with its extension. -/
theorem extension_suffix (path : Text) : extension path <:+ path := by
  have hsub (p : UInt8 → Bool) (l : Text) : (l.reverse.takeWhile p).reverse <:+ l := by
    rw [← List.reverse_prefix, List.reverse_reverse]
    exact List.takeWhile_prefix p
  generalize hlast : (path.reverse.takeWhile (· != Text.slash)).reverse = last
  have hpath : last <:+ path := hlast ▸ hsub _ path
  rw [extension, hlast]
  split
  · exact List.nil_suffix
  · next hlen =>
      -- the dot is the byte before which the bytes without a dot stop
      refine List.IsSuffix.trans ?_ hpath
      have hsplit := List.takeWhile_append_dropWhile (p := (· != 46)) (l := last.reverse)
      cases hdrop : last.reverse.dropWhile (· != 46) with
      | nil =>
          rw [hdrop, List.append_nil] at hsplit
          rw [hsplit, List.length_reverse] at hlen
          exact absurd rfl hlen
      | cons b r =>
          have hb : b = 46 := by
            have hhead := List.head?_dropWhile_not (· != 46) last.reverse
            rw [hdrop] at hhead
            simpa using hhead
          rw [hdrop, hb] at hsplit
          exact ⟨r.reverse, by simpa using congrArg List.reverse hsplit⟩

/-! ### Paths below a directory -/

/-- The path that names lead to below the directory `b`. -/
def under (b : Text) (names : List Text) : Text := names.foldl join b

variable {b : Text} {names names' : List Text}

theorem under_concat (b : Text) (names : List Text) (n : Text) :
    under b (names ++ [n]) = join (under b names) n := by
  rw [under, List.foldl_append]
  rfl

theorem under_ne_nil (hb : b ≠ []) (names : List Text) : under b names ≠ [] := by
  induction names generalizing b with
  | nil => exact hb
  | cons n names ih => exact ih (join_ne_nil hb n)

/-- The steps of a path below a directory: those of the directory, and the names. -/
theorem steps_under (hb : b ≠ []) (h : ∀ n ∈ names, IsProper n) :
    steps (under b names) = steps b ++ names := by
  induction names generalizing b with
  | nil => exact (List.append_nil _).symm
  | cons n names ih =>
      rw [List.forall_mem_cons] at h
      calc steps (under b (n :: names)) = steps (under (join b n) names) := rfl
        _ = steps (join b n) ++ names := ih (join_ne_nil hb n) h.2
        _ = steps b ++ n :: names := by rw [steps_join hb h.1, List.append_assoc]; rfl

/-- **Different names below a directory are different paths.** -/
theorem under_inj (hb : b ≠ []) (h : ∀ n ∈ names, IsProper n) (h' : ∀ n ∈ names', IsProper n)
    (heq : under b names = under b names') : names = names' := by
  have hsteps := congrArg steps heq
  rw [steps_under hb h, steps_under hb h'] at hsteps
  exact List.append_cancel_left hsteps

end HackToolchain.Path
