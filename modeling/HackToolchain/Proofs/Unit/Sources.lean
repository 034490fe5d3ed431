/-
**Reading a source.**

The lines of a module are what is left of the lines of its source: the part of each before its comment,
without the white space around it, unless nothing is left.  A line keeps the number that it has in the
source, where lines count that are dropped.  A line that is too long to be read makes the whole source
unreadable, whatever stands before it.

Main results:

* `stripLines_of_short` — a source without lines that are too long is read line by line;
* `mem_strippedLines`, `pairwise_strippedLines` — which lines are left, and that their numbers increase;
* `stripLines_intercalate` — what was read is read again as it is, numbered without gaps;
* `stripLines_reads_source` — **a source is read as its lines say**, or refused for its first line that
  is too long.
-/
import HackToolchain.Proofs.Text.Stripping
import HackToolchain.Unit.Basic
import Mathlib.Algebra.Group.Nat.Defs
import Mathlib.Data.List.Basic

set_option relaxedAutoImplicit false
set_option autoImplicit false

namespace HackToolchain

open Text

/-! ### One line -/

theorem stripLine_eq_some_iff {line : Text} {n : Nat} {l : SourceLine} :
    stripLine line n = some l ↔ l.number = n ∧ StripsTo line l.text ∧ l.text ≠ [] := by
  obtain ⟨number, text⟩ := l
  rw [stripsTo_iff, stripLine]
  dsimp only
  split
  · next hempty =>
      rw [List.isEmpty_iff] at hempty
      constructor
      · intro h; cases h
      · rintro ⟨-, rfl, hne⟩
        exact absurd hempty hne
  · next hempty =>
      rw [List.isEmpty_iff] at hempty
      constructor
      · intro h
        injection h with h
        injection h with hnumber htext
        exact ⟨hnumber.symm, htext, htext ▸ hempty⟩
      · rintro ⟨rfl, rfl, -⟩
        rfl

/-- A carriage return at the end of a line makes no difference. -/
theorem stripLine_chomp (line : Text) (n : Nat) : stripLine (chomp line) n = stripLine line n := by
  rw [stripLine, stripLine, trim_code_chomp]

/-! ### All lines -/

/-- What is left of the lines between line feeds, numbered from one. -/
def strippedLines (lines : List Text) : List SourceLine :=
  (lines.zipIdx 1).filterMap fun p => stripLine p.1 p.2

theorem strippedLines_map_chomp (lines : List Text) :
    strippedLines (lines.map chomp) = strippedLines lines := by
  rw [strippedLines, strippedLines, List.zipIdx_map, List.filterMap_map]
  simp only [Function.comp_def, Prod.map_fst, Prod.map_snd, id_eq, stripLine_chomp]

/-- An empty line at the end leaves nothing. -/
theorem strippedLines_concat_nil (lines : List Text) :
    strippedLines (lines ++ [[]]) = strippedLines lines := by
  rw [strippedLines, List.zipIdx_append, List.filterMap_append]
  exact List.append_nil _

/-- **A source without lines that are too long is read line by line.** -/
theorem stripLines_of_short {source : Text}
    (h : ∀ line ∈ source.splitOn lineFeed, line.length < 2 ^ 20) :
    stripLines source = .ok (strippedLines (source.splitOn lineFeed)) := by
  have hread : readLines sourceLineLimit source
      = { lines := (rawLines source).map chomp, overlong := false } := readLines_of_short h
  have hlines : stripLines source = .ok (strippedLines ((rawLines source).map chomp)) := by
    rw [stripLines, hread]
    rfl
  rw [hlines, strippedLines_map_chomp]
  rcases splitOn_lineFeed_cases source with hsplit | hsplit
  · rw [hsplit]
  · rw [hsplit, strippedLines_concat_nil]

/-- **Which lines are left**: those that are not empty when they are stripped, with their numbers. -/
theorem mem_strippedLines {lines : List Text} {l : SourceLine} :
    l ∈ strippedLines lines ↔ ∃ (k : Nat) (line : Text), lines[k]? = some line ∧
      l.number = k + 1 ∧ StripsTo line l.text ∧ l.text ≠ [] := by
  rw [strippedLines, List.mem_filterMap]
  constructor
  · rintro ⟨⟨line, n⟩, hmem, hstrip⟩
    obtain ⟨hle, hline⟩ := List.mem_zipIdx_iff_le_and_getElem?_sub.1 hmem
    obtain ⟨hnumber, htext⟩ := stripLine_eq_some_iff.1 hstrip
    exact ⟨n - 1, line, hline, by omega, htext⟩
  · rintro ⟨k, line, hline, hnumber, htext⟩
    refine ⟨(line, k + 1), ?_, stripLine_eq_some_iff.2 ⟨hnumber, htext⟩⟩
    exact List.mem_zipIdx_iff_le_and_getElem?_sub.2 ⟨Nat.le_add_left 1 k, hline⟩

/-- **The numbers of lines increase.** -/
theorem pairwise_strippedLines (lines : List Text) :
    (strippedLines lines).Pairwise fun l l' => l.number < l'.number := by
  have hnumbers : (lines.zipIdx 1).Pairwise fun p q => p.2 < q.2 := by
    rw [← List.pairwise_map, List.zipIdx_map_snd]
    exact List.pairwise_lt_range'
  rw [strippedLines, List.pairwise_filterMap]
  refine hnumbers.imp ?_
  intro p q hlt l hl l' hl'
  rw [(stripLine_eq_some_iff.1 hl).1, (stripLine_eq_some_iff.1 hl').1]
  exact Int.ofNat_lt.2 hlt

/-- What is read of a line, found among the lines that are left. -/
theorem exists_of_mem_strippedLines {lines : List Text} {l : SourceLine}
    (h : l ∈ strippedLines lines) : ∃ line ∈ lines, trim (code line) = l.text ∧ l.text ≠ [] := by
  obtain ⟨k, line, hline, -, hstrips, hne⟩ := mem_strippedLines.1 h
  exact ⟨line, List.mem_of_getElem? hline, stripsTo_iff.1 hstrips, hne⟩

/-- Lines of which nothing is taken away are all left. -/
theorem strippedLines_of_stripped {texts : List Text}
    (h : ∀ t ∈ texts, trim (code t) = t ∧ t ≠ []) :
    strippedLines texts = (texts.zipIdx 1).map fun p => { number := p.2, text := p.1 } := by
  rw [strippedLines, List.filterMap_eq_map_iff_forall_eq_some]
  rintro ⟨t, n⟩ hmem
  obtain ⟨hstripped, hne⟩ := h t (List.fst_mem_of_mem_zipIdx hmem)
  exact stripLine_eq_some_iff.2 ⟨rfl, stripsTo_iff.2 hstripped, hne⟩

/-- **What was read is read again as it is**, numbered without gaps. -/
theorem stripLines_intercalate {lines : List Text}
    (h : ∀ line ∈ lines, lineFeed ∉ line ∧ line.length < 2 ^ 20) :
    stripLines ([lineFeed].intercalate ((strippedLines lines).map SourceLine.text))
      = .ok ((((strippedLines lines).map SourceLine.text).zipIdx 1).map
          fun p => { number := p.2, text := p.1 }) := by
  generalize htexts : (strippedLines lines).map SourceLine.text = texts
  have hread : ∀ t ∈ texts, ∃ line ∈ lines, trim (code line) = t ∧ t ≠ [] := by
    rw [← htexts]
    intro t ht
    obtain ⟨l, hl, rfl⟩ := List.mem_map.1 ht
    exact exists_of_mem_strippedLines hl
  have hstripped : ∀ t ∈ texts, trim (code t) = t ∧ t ≠ [] := by
    intro t ht
    obtain ⟨line, -, rfl, hne⟩ := hread t ht
    exact ⟨trim_code_idem line, hne⟩
  rcases eq_or_ne texts [] with rfl | hne
  · rfl
  · have hfeed : ∀ t ∈ texts, lineFeed ∉ t := by
      intro t ht
      obtain ⟨line, hline, rfl, -⟩ := hread t ht
      exact fun hmem => (h line hline).1 ((trim_code_infix_self line).subset hmem)
    have hsplit := List.splitOn_intercalate lineFeed hfeed hne
    have hshort : ∀ t ∈ ([lineFeed].intercalate texts).splitOn lineFeed, t.length < 2 ^ 20 := by
      rw [hsplit]
      intro t ht
      obtain ⟨line, hline, rfl, -⟩ := hread t ht
      exact Nat.lt_of_le_of_lt (trim_code_infix_self line).length_le (h line hline).2
    rw [stripLines_of_short hshort, hsplit, strippedLines_of_stripped hstripped]

/-- A source is refused for its first line that is too long. -/
theorem stripLines_of_long {source : Text} {before after : List Text} {line : Text}
    (hsource : source.splitOn lineFeed = before ++ line :: after)
    (hbefore : ∀ l ∈ before, l.length < 2 ^ 20) (hline : 2 ^ 20 ≤ line.length) :
    stripLines source = .error { number := before.length + 1 } := by
  have hread : readLines sourceLineLimit source
      = { lines := before.map chomp, overlong := true } :=
    readLines_of_long (by decide) hsource hbefore hline
  rw [stripLines, hread]
  simp

/-- **A source is read as its lines say.**  If no line has `2 ^ 20` bytes or more, the lines that are
left are those between line feeds that are not empty when they are stripped, in their order and with
their numbers; they hold neither line feeds nor comments, and are read again as they are.  Otherwise the
source is refused for the first line that is too long. -/
theorem stripLines_reads_source (source : Text) :
    ((∀ line ∈ source.splitOn lineFeed, line.length < 2 ^ 20) →
      ∃ ls, stripLines source = .ok ls ∧
        (∀ l, l ∈ ls ↔ ∃ (k : Nat) (line : Text), (source.splitOn lineFeed)[k]? = some line ∧
          l.number = k + 1 ∧ StripsTo line l.text ∧ l.text ≠ []) ∧
        (ls.Pairwise fun l l' => l.number < l'.number) ∧
        (∀ l ∈ ls, lineFeed ∉ l.text ∧ ¬[slash, slash] <:+: l.text) ∧
        stripLines ([lineFeed].intercalate (ls.map SourceLine.text))
          = .ok (((ls.map SourceLine.text).zipIdx 1).map fun p => { number := p.2, text := p.1 })) ∧
    ((∃ line ∈ source.splitOn lineFeed, 2 ^ 20 ≤ line.length) →
      ∃ before line after, source.splitOn lineFeed = before ++ line :: after ∧
        (∀ l ∈ before, l.length < 2 ^ 20) ∧ 2 ^ 20 ≤ line.length ∧
        stripLines source = .error { number := before.length + 1 } ∧
        OverlongLine.message { number := before.length + 1 } = ascii "line "
          ++ Numeral.ofNat (before.length + 1) ++ ascii ": bufio.Scanner: token too long") := by
  constructor
  · intro hshort
    have hlines : ∀ line ∈ source.splitOn lineFeed, lineFeed ∉ line ∧ line.length < 2 ^ 20 := by
      intro line hline
      exact ⟨lineFeed_not_mem_of_mem_splitOn hline, hshort line hline⟩
    refine ⟨_, stripLines_of_short hshort, fun l => mem_strippedLines, pairwise_strippedLines _, ?_,
      stripLines_intercalate hlines⟩
    intro l hl
    obtain ⟨line, hline, htext, -⟩ := exists_of_mem_strippedLines hl
    rw [← htext]
    refine ⟨fun hmem => (hlines line hline).1 ((trim_code_infix_self line).subset hmem), fun hslashes => ?_⟩
    exact not_slashes_infix_code line (hslashes.trans (trim_infix_self _))
  · rintro ⟨line, hline, hlong⟩
    cases hfirst : (source.splitOn lineFeed).find? fun l => decide (2 ^ 20 ≤ l.length) with
    | none => exact absurd (decide_eq_true hlong) (List.find?_eq_none.1 hfirst line hline)
    | some first =>
        obtain ⟨hfound, before, after, hsplit, hbefore⟩ := List.find?_eq_some_iff_append.1 hfirst
        have hbefore' : ∀ l ∈ before, l.length < 2 ^ 20 := by
          intro l hl
          have hnot := hbefore l hl
          rw [Bool.not_eq_true', decide_eq_false_iff_not] at hnot
          exact Nat.not_le.1 hnot
        have hfirst := of_decide_eq_true hfound
        refine ⟨before, first, after, hsplit, hbefore', hfirst,
          stripLines_of_long hsplit hbefore' hfirst, ?_⟩
        have hmessage : ascii ": " ++ overlongMessage = ascii ": bufio.Scanner: token too long" := by
          decide
        rw [OverlongLine.message, List.append_assoc, hmessage]

/-- A source with comments, an empty line, odd white space and line ends of both kinds. -/
def commented : Text := ascii "push constant 1 // one\r\n\n\t / / // no\r\n  add\t\r//\n//"

/-- Three lines are left, with their numbers in the source; they are numbered anew when they are read
again.  A line of slashes that is too long is not read. -/
theorem commented_reads_source :
    stripLines commented
      = .ok [⟨1, ascii "push constant 1"⟩, ⟨3, ascii "/ /"⟩, ⟨4, ascii "add"⟩] ∧
    stripLines ([lineFeed].intercalate [ascii "push constant 1", ascii "/ /", ascii "add"])
      = .ok [⟨1, ascii "push constant 1"⟩, ⟨2, ascii "/ /"⟩, ⟨3, ascii "add"⟩] ∧
    ∃ e, stripLines (List.replicate (2 ^ 20) slash) = .error e := by
  have hread : stripLines commented
      = .ok [⟨1, ascii "push constant 1"⟩, ⟨3, ascii "/ /"⟩, ⟨4, ascii "add"⟩] := by
    decide +kernel
  refine ⟨hread, ?_, ?_⟩
  · obtain ⟨ls, hls, -, -, -, hagain⟩ := (stripLines_reads_source commented).1 (by decide +kernel)
    rw [hread] at hls
    injection hls with hls
    rw [← hls] at hagain
    exact hagain
  · have hfeed : lineFeed ∉ List.replicate (2 ^ 20) slash := by
      intro hmem
      exact absurd (List.eq_of_mem_replicate hmem) (by decide)
    have hsplit : (List.replicate (2 ^ 20) slash).splitOn lineFeed
        = [List.replicate (2 ^ 20) slash] := by
      rw [List.splitOn_eq_splitOnP, ← pieces_eq_splitOnP, pieces_of_not_mem hfeed]
    obtain ⟨before, -, -, -, -, -, herror, -⟩ :=
      (stripLines_reads_source (List.replicate (2 ^ 20) slash)).2
        ⟨_, by rw [hsplit]; exact List.mem_singleton.2 rfl, Nat.le_of_eq List.length_replicate.symm⟩
    exact ⟨_, herror⟩

end HackToolchain
