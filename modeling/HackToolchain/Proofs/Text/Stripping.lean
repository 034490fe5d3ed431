/-
**Lines, and what is read of them.**

Sources and assembly are read line by line.  A text is cut at its line feeds, a carriage return at the
end of a line is dropped, and of what is left the part before the first comment is trimmed.  Here each
of these steps is compared with a description of its result that does not run it.

The carriage return is dropped before the comment is looked for, so a line that is read from a text is
not always the line that was put there.  What is read of the two is the same: behind a comment the
carriage return is part of the comment, and elsewhere it is white space at the end.

Main definitions:

* `Text.BeforeComment` — the part of a line before its first comment;
* `Text.StripsTo` — **what is read of a line**: the part before its comment, without the white space
  around it.

Main results:

* `Text.code_eq_iff`, `Text.stripsTo_iff` — the two are what the reader computes;
* `Text.trim_code_chomp` — **a carriage return at the end of a line makes no difference**;
* `Text.splitOn_lineFeed_cases` — lines are what stands between line feeds, but for an empty last one;
* `Text.readLines_of_short`, `Text.readLines_of_long` — reading lines of which none is too long, and of
  which one is;
* `Text.rawLines_joinLines` — lines that were written one after the other are read back.
-/
import HackToolchain.Proofs.Text.WhiteSpace
import HackToolchain.Text.Lines

set_option relaxedAutoImplicit false
set_option autoImplicit false

namespace HackToolchain.Text

/-! ### Comments -/

/-- What stands before the first comment of a line, which is all of the line if it holds no comment. -/
inductive BeforeComment : Text → Text → Prop
  | whole {line : Text} (h : ¬[slash, slash] <:+: line) : BeforeComment line line
  | cut {t rest : Text} (h : ¬[slash, slash] <:+: t ++ [slash]) :
      BeforeComment (t ++ [slash, slash] ++ rest) t

theorem slashes_infix_cons {b : UInt8} {t : Text} :
    [slash, slash] <:+: b :: t ↔ (b = slash ∧ t.head? = some slash) ∨ [slash, slash] <:+: t := by
  rw [List.infix_cons_iff]
  refine or_congr_left ?_
  cases t with
  | nil => simp
  | cons c t => simp [eq_comm]

/-- No comment starts with the last byte of a text unless this byte is a slash. -/
theorem slashes_infix_concat {b : UInt8} (hb : b ≠ slash) {t : Text} :
    [slash, slash] <:+: t ++ [b] ↔ [slash, slash] <:+: t := by
  rw [List.infix_concat_iff]
  refine or_iff_right ?_
  rintro ⟨s, hs⟩
  have hlast := congrArg List.getLast? hs
  simp only [List.getLast?_append, List.getLast?_singleton, List.getLast?_cons_cons,
    Option.some_or, Option.some.injEq] at hlast
  exact hb hlast.symm

theorem not_slashes_infix_slash : ¬[slash, slash] <:+: [slash] := by
  rw [slashes_infix_cons]
  simp

theorem head?_append_slashes (t rest : Text) :
    (t ++ [slash, slash] ++ rest).head? = (t ++ [slash]).head? := by
  cases t <;> rfl

/-- A line without a comment is read as a whole. -/
theorem code_eq_self {line : Text} (h : ¬[slash, slash] <:+: line) : code line = line := by
  induction line with
  | nil => rfl
  | cons b line ih =>
      rw [slashes_infix_cons, not_or] at h
      rw [code_cons, if_neg h.1, ih h.2]

/-- A line is read up to the first place where a comment starts. -/
theorem code_append_slashes {t : Text} (h : ¬[slash, slash] <:+: t ++ [slash]) (rest : Text) :
    code (t ++ [slash, slash] ++ rest) = t := by
  induction t with
  | nil => rw [List.nil_append, List.cons_append, code_cons]; exact if_pos ⟨rfl, rfl⟩
  | cons b t ih =>
      rw [List.cons_append, slashes_infix_cons, not_or] at h
      rw [List.cons_append, List.cons_append, code_cons, head?_append_slashes, if_neg h.1, ih h.2]

theorem beforeComment_code (line : Text) : BeforeComment line (code line) := by
  induction line with
  | nil => exact .whole (by simp)
  | cons b line ih =>
      rw [code_cons]
      split
      · next hstart =>
          obtain ⟨rest, hrest⟩ := List.head?_eq_some_iff.1 hstart.2
          rw [hstart.1, hrest]
          exact .cut (t := []) not_slashes_infix_slash
      · next hnot =>
          -- a comment of the line starts further on
          generalize code line = t at ih
          cases ih with
          | whole h => exact .whole fun hmark => (slashes_infix_cons.1 hmark).elim hnot h
          | @cut t rest h =>
              rw [head?_append_slashes] at hnot
              refine .cut (t := b :: t) ?_
              rw [List.cons_append, slashes_infix_cons, not_or]
              exact ⟨hnot, h⟩

/-- **The part of a line that is read is the part before its first comment.** -/
theorem code_eq_iff {line t : Text} : code line = t ↔ BeforeComment line t := by
  constructor
  · rintro rfl
    exact beforeComment_code line
  · intro h
    cases h with
    | whole h => exact code_eq_self h
    | cut h => exact code_append_slashes h _

theorem code_prefix_self (line : Text) : code line <+: line := by
  have h := beforeComment_code line
  generalize code line = t at h
  cases h with
  | whole => exact List.prefix_refl line
  | @cut t rest h => exact ⟨[slash, slash] ++ rest, (List.append_assoc ..).symm⟩

/-- What is read of a line holds no comment. -/
theorem not_slashes_infix_code (line : Text) : ¬[slash, slash] <:+: code line := by
  have h := beforeComment_code line
  generalize code line = t at h
  cases h with
  | whole h => exact h
  | cut h => exact fun hmark => h (hmark.trans (List.prefix_append ..).isInfix)

/-! ### What is read of a line -/

/-- **What is read of a line**: the part before its first comment, without the white space around it. -/
def StripsTo (line t : Text) : Prop := ∃ s, BeforeComment line s ∧ TrimsTo s t

theorem stripsTo_iff {line t : Text} : StripsTo line t ↔ trim (code line) = t := by
  simp only [StripsTo, ← code_eq_iff, ← trim_eq_iff, exists_eq_left']

theorem trim_code_infix_self (line : Text) : trim (code line) <:+: line :=
  (trim_infix_self _).trans (code_prefix_self line).isInfix

/-- What is read of a line is read as it is when it stands on a line of its own. -/
theorem trim_code_idem (line : Text) : trim (code (trim (code line))) = trim (code line) := by
  have hmark : ¬[slash, slash] <:+: trim (code line) := fun h =>
    not_slashes_infix_code line (h.trans (trim_infix_self _))
  rw [code_eq_self hmark, trim_trim]

theorem isWhite_carriageReturn : IsWhite [carriageReturn] :=
  ⟨['\r'], List.forall_mem_singleton.2 (by decide), by decide⟩

theorem trim_code_concat_carriageReturn (line : Text) :
    trim (code (line ++ [carriageReturn])) = trim (code line) := by
  have hcode : code (line ++ [carriageReturn]) = code line ∨
      code (line ++ [carriageReturn]) = code line ++ [carriageReturn] := by
    have h := beforeComment_code line
    generalize code line = t at h
    cases h with
    | whole h =>
        refine Or.inr (code_eq_self ?_)
        rwa [slashes_infix_concat (by decide)]
    | @cut t rest h =>
        refine Or.inl ?_
        rw [List.append_assoc]
        exact code_append_slashes h _
  rcases hcode with hsame | hlonger
  · rw [hsame]
  · rw [hlonger, trim_append_of_isWhite _ isWhite_carriageReturn]

/-- **A carriage return at the end of a line makes no difference.** -/
theorem trim_code_chomp (line : Text) : trim (code (chomp line)) = trim (code line) := by
  rw [chomp]
  split
  · next hlast =>
      obtain ⟨s, rfl⟩ := List.getLast?_eq_some_iff.1 hlast
      rw [List.dropLast_concat, trim_code_concat_carriageReturn]
  · rfl

/-! ### Lines -/

theorem pieces_eq_splitOnP {α : Type} (p : α → Bool) (l : List α) : pieces p l = l.splitOnP p := by
  induction l with
  | nil => rfl
  | cons a l ih =>
      rw [List.splitOnP_cons_eq_if_modifyHead, ← ih]
      cases h : p a with
      | true => exact pieces_cons_of_pos l h
      | false => exact pieces_cons_of_neg l h

/-- What stands between line feeds is a line, but for an empty text behind the last of them. -/
theorem splitOn_lineFeed_cases (t : Text) :
    t.splitOn lineFeed = rawLines t ∨ t.splitOn lineFeed = rawLines t ++ [[]] := by
  rw [List.splitOn_eq_splitOnP, ← pieces_eq_splitOnP]
  simp only [rawLines]
  split
  · next hlast =>
      obtain ⟨ls, hls⟩ := List.getLast?_eq_some_iff.1 hlast
      rw [hls, List.dropLast_concat]
      exact Or.inr rfl
  · exact Or.inl rfl

theorem lineFeed_not_mem_of_mem_splitOn {t line : Text} (h : line ∈ t.splitOn lineFeed) :
    lineFeed ∉ line := by
  rw [List.splitOn_eq_splitOnP, ← pieces_eq_splitOnP] at h
  intro hmem
  exact absurd (eq_false_of_mem_pieces h hmem) (by simp)

/-- Lines that were written one after the other are read back. -/
theorem rawLines_joinLines {lines : List Text} (h : ∀ line ∈ lines, lineFeed ∉ line) :
    rawLines (joinLines lines) = lines := by
  have hpieces : pieces (· == lineFeed) (joinLines lines) = lines ++ [[]] := by
    induction lines with
    | nil => rfl
    | cons line lines ih =>
        rw [List.forall_mem_cons] at h
        have htext : joinLines (line :: lines) = line ++ lineFeed :: joinLines lines := by
          simp [joinLines]
        rw [htext, pieces_append_cons (p := (· == lineFeed)) _ _ (beq_self_eq_true _),
          pieces_of_not_mem h.1, ih h.2]
        rfl
  simp only [rawLines, hpieces, List.getLast?_concat, if_true, List.dropLast_concat]

section Limit

variable {limit : Nat} {t : Text}

theorem readLines_of_forall (h : ∀ line ∈ rawLines t, line.length < limit) :
    readLines limit t = { lines := (rawLines t).map chomp, overlong := false } := by
  have htake : (rawLines t).takeWhile (fun l => decide (l.length < limit)) = rawLines t := by
    have happend : (rawLines t ++ []).takeWhile (fun l => decide (l.length < limit))
        = rawLines t ++ [] :=
      List.takeWhile_append_of_pos fun line hline => decide_eq_true (h line hline)
    rwa [List.append_nil] at happend
  have hlong : (rawLines t).any (fun l => decide (limit ≤ l.length)) = false := by
    rw [List.any_eq_false]
    intro line hline
    simpa using h line hline
  simp only [readLines, htake, hlong]

/-- If nothing between line feeds is too long, all lines are read. -/
theorem readLines_of_short (h : ∀ line ∈ t.splitOn lineFeed, line.length < limit) :
    readLines limit t = { lines := (rawLines t).map chomp, overlong := false } := by
  refine readLines_of_forall ?_
  intro line hline
  refine h line ?_
  rcases splitOn_lineFeed_cases t with hsplit | hsplit
  · rwa [hsplit]
  · rw [hsplit]
    exact List.mem_append_left _ hline

/-- The lines before the first that is too long are read. -/
theorem readLines_of_long (hlimit : 0 < limit) {before after : List Text} {line : Text}
    (ht : t.splitOn lineFeed = before ++ line :: after)
    (hbefore : ∀ l ∈ before, l.length < limit) (hline : limit ≤ line.length) :
    readLines limit t = { lines := before.map chomp, overlong := true } := by
  -- what the reader takes for no line is empty, so it is not the line that is too long
  obtain ⟨after', hraw⟩ : ∃ after', rawLines t = before ++ line :: after' := by
    rcases splitOn_lineFeed_cases t with hsplit | hsplit
    · exact ⟨after, hsplit.symm.trans ht⟩
    · rw [hsplit] at ht
      rcases List.eq_nil_or_concat after with rfl | ⟨after', l, rfl⟩
      · obtain ⟨-, hlast⟩ := List.append_inj' ht rfl
        rw [← List.singleton_inj.1 hlast] at hline
        exact absurd hline (Nat.not_le.2 hlimit)
      · rw [List.concat_eq_append, ← List.cons_append, ← List.append_assoc] at ht
        exact ⟨after', (List.append_inj' ht rfl).1⟩
  have htake : (rawLines t).takeWhile (fun l => decide (l.length < limit)) = before := by
    rw [hraw, List.takeWhile_append_of_pos fun l hl => decide_eq_true (hbefore l hl),
      List.takeWhile_cons_of_neg (by simpa using hline), List.append_nil]
  have hlong : (rawLines t).any (fun l => decide (limit ≤ l.length)) = true := by
    rw [hraw]
    simp [hline]
  simp only [readLines, htake, hlong]

end Limit

end HackToolchain.Text
