/-
**Lines that are refused for what they say.**

A line of assembly is refused for what it says, or because it declares a label for the second time.  A
line that is never refused for what it says is called *readable*.

A name from outside is written into the load of a static symbol as it stands, cut at line feeds, before
a dot and more bytes of names.  Whether the lines that result are readable does not depend on what
follows the dot: nothing but a load can hold a dot, and a load is read exactly if what follows the sign
`@` is a name.  So it is a property of the name from outside, and unless that holds a line feed, it says
that it is a name.

Main definitions:

* `ReadableLine` — a line that is not refused for what it says;
* `Referable` — a name in front of static symbols that gives readable lines.

Main results:

* `error_of_readable` — **readable lines can only be refused for a label that is declared again**;
* `readable_of_assemble` — the lines of a program that is assembled are readable;
* `Statement.parseCompute_eq_ok` — a compute instruction that is read is what is written for it;
* `Statement.parse_dotted` — what is read with a dot in it is the load of a name;
* `readable_layOut_iff` — **lines with a name from outside are readable exactly if the name is
  referable**;
* `referable_iff_isName` — **a name without line feeds is referable exactly if it is a name**.
-/
import HackToolchain.Proofs.Assembly.Numbering
import HackToolchain.Proofs.Codegen.Names
import HackToolchain.Proofs.Text.Trimming

set_option relaxedAutoImplicit false
set_option autoImplicit false

namespace HackToolchain

/-! ### Readable lines -/

/-- A line that is not refused for what it says: it holds no code, or a statement. -/
def ReadableLine (line : Text) : Prop :=
  Text.holdsCode line = true → ∃ st, Statement.parse (Text.trim (Text.code line)) = .ok st

theorem readableLine_of_code_eq_nil {line : Text} (h : Text.code line = []) : ReadableLine line := by
  intro hcode
  rw [Text.holdsCode, h] at hcode
  cases hcode

theorem readableLine_of_statement? {line : Text} {st : Statement} (h : statement? line = some st) :
    ReadableLine line := by
  intro hcode
  have hne : ¬(Text.trim (Text.code line)).isEmpty = true := by
    simpa [Text.holdsCode] using hcode
  rw [statement?, if_neg hne] at h
  cases hparse : Statement.parse (Text.trim (Text.code line)) with
  | error f => rw [hparse] at h; cases h
  | ok st' => exact ⟨st', rfl⟩

/-- The lines of a well-formed item are readable. -/
theorem Item.WellFormed.readable {i : Item} (h : i.WellFormed) : ∀ line ∈ i.lines, ReadableLine line := by
  obtain ⟨line, hline, hs⟩ := lines_of_wellFormed h
  rw [hline, List.forall_mem_singleton]
  cases i with
  | blank =>
      rw [← List.singleton_inj.1 hline]
      exact readableLine_of_code_eq_nil rfl
  | comment t =>
      rw [← List.singleton_inj.1 hline]
      exact readableLine_of_code_eq_nil (Text.code_comment t)
  | load t | compute c | label name => exact readableLine_of_statement? hs

/-- A readable line can only be refused for a label. -/
theorem Assembler.fault_of_addLine {a : Assembler} {line : Text} (h : ReadableLine line)
    {e : AssemblyError} (he : (a.addLine line).2 = .error e) :
    ∃ name, e.fault = .duplicateLabel name := by
  simp only [addLine] at he
  split at he
  · cases he
  · next hne =>
      obtain ⟨st, hst⟩ := h (by simpa [Text.holdsCode] using hne)
      rw [hst] at he
      cases st with
      | operation o => cases he
      | label name =>
          simp only [addStatement] at he
          split at he
          · injection he with he
            exact ⟨name, by rw [← he]⟩
          · cases he

/-- **Readable lines can only be refused for a label that is declared again.** -/
theorem error_of_readable {lines : List Text} (h : ∀ line ∈ lines, ReadableLine line)
    {e : AssemblyError} (he : assemble lines = .error e) : ∃ name, e.fault = .duplicateLabel name := by
  have hlines : ∀ a : Assembler, (a.addLines lines).2 = .error e →
      ∃ name, e.fault = .duplicateLabel name := by
    clear he
    induction lines with
    | nil => intro a ha; cases ha
    | cons line lines ih =>
        intro a ha
        simp only [Assembler.addLines] at ha
        rcases hadd : a.addLine line with ⟨b, e' | u⟩
        · rw [hadd] at ha
          refine Assembler.fault_of_addLine (h line (List.mem_cons_self ..)) (a := a) ?_
          rw [hadd]
          exact ha
        · rw [hadd] at ha
          exact ih (fun l hl => h l (List.mem_cons_of_mem _ hl)) b ha
  refine hlines {} ?_
  rw [assemble] at he
  rcases hadd : ({} : Assembler).addLines lines with ⟨b, e' | u⟩
  · rw [hadd] at he
    injection he with he
    rw [he]
  · rw [hadd] at he
    cases he

/-- The lines of a program that is assembled are readable. -/
theorem readable_of_assemble {lines : List Text} {p : Program} (h : assemble lines = .ok p) :
    ∀ line ∈ lines, ReadableLine line := by
  intro line hline
  obtain ⟨before, after, rfl⟩ := List.append_of_mem hline
  obtain ⟨a, b, -, -, hb, -, -⟩ := addLine_of_assemble h
  obtain ⟨-, hempty, -⟩ | ⟨o, hs, -⟩ | ⟨name, hs, -⟩ := Assembler.addLine_cases hb
  · intro hcode
    rw [Text.holdsCode, hempty] at hcode
    cases hcode
  · exact readableLine_of_statement? hs
  · exact readableLine_of_statement? hs

/-! ### Compute instructions -/

theorem cutAt_eq_some {b : UInt8} {t before after : Text} (h : cutAt b t = some (before, after)) :
    t = before ++ b :: after := by
  simp only [cutAt] at h
  split at h
  · cases h
  · next x rest hdrop =>
      injection h with h
      injection h with hbefore hafter
      have hx : x = b := by
        have hhead := List.head?_dropWhile_not (· != b) t
        rw [hdrop] at hhead
        simpa using hhead
      rw [← hbefore, ← hafter, ← hx, ← hdrop, hx, List.takeWhile_append_dropWhile]

theorem text_of_lookup {α : Type} {text : α → Text} {l : List α} {t : Text} {a : α}
    (h : (l.map fun a => (text a, a)).lookup t = some a) : a ∈ l ∧ t = text a := by
  obtain ⟨before, after, htable, -⟩ := List.lookup_eq_some_iff.1 h
  have hmem : (t, a) ∈ l.map fun a => (text a, a) := by
    rw [htable]
    exact List.mem_append_right _ (List.mem_cons_self ..)
  obtain ⟨a', ha', hpair⟩ := List.mem_map.1 hmem
  injection hpair with ht ha
  subst ha
  exact ⟨ha', ht.symm⟩

namespace Statement

theorem parseDest_eq_ok {line rest : Text} {d : Dest} (h : parseDest line = .ok (d, rest)) :
    Dest.Writable d ∧ line = (if d.isEmpty then [] else Dest.text d ++ ascii "=") ++ rest := by
  simp only [parseDest] at h
  split at h
  · injection h with h
    injection h with hd hrest
    subst hd hrest
    exact ⟨Or.inl rfl, rfl⟩
  · next before after hcut =>
      split at h
      · next d' hd' =>
          injection h with h
          injection h with hd hrest
          subst hd hrest
          obtain ⟨hall, htext⟩ := text_of_lookup hd'
          have hequals : ascii "=" = [61] := by decide
          rw [Dest.isEmpty_eq_false hall, if_neg Bool.false_ne_true, cutAt_eq_some hcut, htext, hequals]
          exact ⟨Or.inr hall, by simp⟩
      · cases h

theorem parseJump_eq_ok {line rest before : Text} {c : Compute}
    (h : parseJump line rest = .ok (c.jump, before)) : rest = before ++ c.jumpText := by
  rw [Compute.jumpText]
  simp only [parseJump] at h
  split at h
  · injection h with h
    injection h with hj hbefore
    rw [← hj, ← hbefore]
    exact (List.append_nil _).symm
  · next before' after hcut =>
      split at h
      · next j' hj' =>
          injection h with h
          injection h with hj hbefore
          have hsemicolon : ascii ";" = [59] := by decide
          rw [cutAt_eq_some hcut, (text_of_lookup hj').2, ← hj, ← hbefore, hsemicolon]
          rfl
      · cases h

/-- **A compute instruction that is read is what is written for it.** -/
theorem parseCompute_eq_ok {line : Text} {c : Compute} (h : parseCompute line = .ok c) :
    c.dest.Writable ∧ line = c.text := by
  simp only [parseCompute] at h
  split at h
  · cases h
  · next dest rest hdest =>
      split at h
      · cases h
      · next jump before hjump =>
          split at h
          · next comp hcomp =>
              injection h with h
              subst h
              obtain ⟨hwritable, hline⟩ := parseDest_eq_ok hdest
              have hrest : rest = comp.text ++ Compute.jumpText { dest, comp, jump } := by
                rw [← (text_of_lookup hcomp).2]
                exact parseJump_eq_ok hjump
              refine ⟨hwritable, ?_⟩
              rw [hline, hrest, Compute.text_eq, List.append_assoc]
              rfl
          · cases h

/-- No compute instruction holds a dot. -/
theorem dot_not_mem_of_parseCompute {line : Text} {c : Compute} (h : parseCompute line = .ok c) :
    46 ∉ line := by
  obtain ⟨hwritable, rfl⟩ := parseCompute_eq_ok h
  have hcomp : ∀ x ∈ Comp.all, 46 ∉ x.text := by decide +kernel
  have hdest : ∀ d ∈ Dest.all, 46 ∉ Dest.text d := by decide +kernel
  rw [Compute.text_eq, List.mem_append, List.mem_append, not_or, not_or]
  refine ⟨⟨?_, hcomp _ c.comp.mem_all⟩, ?_⟩
  · unfold Compute.destText
    split
    · exact List.not_mem_nil
    · next hne =>
        rw [List.mem_append, not_or]
        refine ⟨hdest _ (hwritable.resolve_left fun hd => hne (by rw [hd]; rfl)), by decide⟩
  · unfold Compute.jumpText
    cases c.jump with
    | none => exact List.not_mem_nil
    | some j => cases j <;> decide

/-! ### Statements with a dot -/

/-- What follows the first byte of a name does not matter, as long as it is bytes of names. -/
theorem isName_append_eq {t w : Text} (ht : t ≠ []) (hw : w.all isNameByte = true) :
    isName (t ++ w) = isName t := by
  cases t with
  | nil => exact absurd rfl ht
  | cons b t => simp only [List.cons_append, isName, List.all_append, hw, Bool.and_true]

theorem isName_dotted (r : Text) {w : Text} (hw : w.all isNameByte = true) :
    isName (r ++ 46 :: w) = isName (r ++ [46]) := by
  rw [← isName_append_eq (t := r ++ [46]) (by simp) hw, List.append_assoc, List.singleton_append]

theorem parseAddress_dotted (r : Text) {w : Text} (hw : w.all isNameByte = true) :
    (∃ a, parseAddress (r ++ 46 :: w) = .ok a) ↔ isName (r ++ [46]) = true := by
  have hdot : 46 ∈ r ++ 46 :: w := List.mem_append_right _ (List.mem_cons_self ..)
  rw [← isName_dotted r hw]
  generalize r ++ 46 :: w = t at hdot
  cases t with
  | nil => cases hdot
  | cons b t =>
      have hlookup := lookup_predefined_of_dot hdot
      cases hb : Numeral.isDigit b with
      | true =>
          -- a number holds no dot, and a name starts with no digit
          have hread : Numeral.readNat? 32767 (b :: t) = none := by
            cases hread : Numeral.readNat? 32767 (b :: t) with
            | none => rfl
            | some n =>
                obtain ⟨-, hall, -⟩ := Numeral.readNat?_eq_some_iff.1 hread
                exact absurd (List.all_eq_true.1 hall 46 hdot) (by decide)
          simp only [parseAddress, hb, if_true, hread]
          constructor
          · rintro ⟨a, ha⟩
            cases ha
          · intro hname
            rw [isName, Bool.and_eq_true] at hname
            rw [not_isDigit_of_isNameStart hname.1] at hb
            cases hb
      | false =>
          simp only [parseAddress, hb, hlookup, if_neg Bool.false_ne_true]
          cases isName (b :: t) <;> simp

/-- No label ends in the bytes of a name. -/
theorem parseLabel_dotted (r : Text) {w : Text} (hw : w.all isNameByte = true) :
    ¬∃ name, parseLabel (r ++ 46 :: w) = .ok name := by
  have hlast : (r ++ 46 :: w).getLast? ≠ some 41 := by
    intro hlast
    rw [List.getLast?_append_of_ne_nil _ (List.cons_ne_nil _ _)] at hlast
    rcases List.mem_cons.1 (List.mem_of_getLast? hlast) with h | h
    · cases h
    · exact absurd (List.all_eq_true.1 hw 41 h) (by decide)
  rintro ⟨name, hname⟩
  rw [parseLabel, if_neg fun h => hlast h.1] at hname
  cases hname

/-- **What is read with a dot in it is the load of a name**, whatever name bytes follow the dot. -/
theorem parse_dotted (s : Text) {w : Text} (hw : w.all isNameByte = true) :
    (∃ st, parse (s ++ 46 :: w) = .ok st) ↔ ∃ r, s = 64 :: r ∧ isName (r ++ [46]) = true := by
  have hcompute : ¬∃ c, parseCompute (s ++ 46 :: w) = .ok c := by
    rintro ⟨c, hc⟩
    exact dot_not_mem_of_parseCompute hc (List.mem_append_right _ (List.mem_cons_self ..))
  cases s with
  | nil =>
      rw [List.nil_append, parse_of_ne (by decide) (by decide), exists_map_eq_ok_iff]
      exact ⟨fun h => absurd h hcompute, fun ⟨r, hr, _⟩ => by cases hr⟩
  | cons b r =>
      by_cases hat : b = 64
      · subst hat
        change (∃ st, (parseAddress (r ++ 46 :: w)).map _ = .ok st) ↔ _
        rw [exists_map_eq_ok_iff, parseAddress_dotted r hw]
        constructor
        · intro hname
          exact ⟨r, rfl, hname⟩
        · rintro ⟨r', hr, hname⟩
          injection hr with _ hr
          rwa [hr]
      · have hno : ¬∃ r', b :: r = 64 :: r' ∧ isName (r' ++ [46]) = true := by
          rintro ⟨r', hr, -⟩
          injection hr with hb _
          exact hat hb
        refine iff_of_false ?_ hno
        by_cases hopen : b = 40
        · subst hopen
          change ¬∃ st, (parseLabel (r ++ 46 :: w)).map _ = .ok st
          rw [exists_map_eq_ok_iff]
          exact parseLabel_dotted r hw
        · rw [List.cons_append, parse_of_ne hat hopen, exists_map_eq_ok_iff]
          exact hcompute

end Statement

/-! ### Names in front of a dot -/

namespace Text

/-- A text with at most one slash holds no comment. -/
theorem code_of_count_slash_le {t : Text} (h : t.count slash ≤ 1) : code t = t := by
  induction t with
  | nil => rfl
  | cons b t ih =>
      rw [List.count_cons] at h
      rw [code_cons, if_neg, ih (by omega)]
      rintro ⟨rfl, hhead⟩
      cases t with
      | nil => cases hhead
      | cons c t =>
          injection hhead with hc
          rw [hc, List.count_cons_self, if_pos (beq_self_eq_true _)] at h
          omega

/-- The parts of a text around its last line feed. -/
theorem exists_last_lineFeed {t : Text} (h : lineFeed ∈ t) :
    ∃ p q, t = p ++ lineFeed :: q ∧ lineFeed ∉ q := by
  obtain ⟨q, p, hreverse, hq⟩ := List.eq_append_cons_of_mem (List.mem_reverse.2 h)
  refine ⟨p.reverse, q.reverse, ?_, fun hmem => hq (List.mem_reverse.1 hmem)⟩
  rw [← List.reverse_reverse t, hreverse, List.reverse_append, List.reverse_cons, List.append_assoc,
    List.singleton_append]

end Text

namespace Item

/-- A text with a line feed is laid out in two parts. -/
theorem layOut_append_lineFeed (p q : Text) :
    layOut (p ++ Text.lineFeed :: q) = layOut p ++ layOut q := by
  rw [layOut, Text.pieces_append_cons (p := (· == Text.lineFeed)) p q (beq_self_eq_true _),
    List.map_append, List.filter_append]
  rfl

/-- A text that ends in a dot and bytes of names stands on one line unless line feeds come before. -/
theorem layOut_dotted {q w : Text} (hq : Text.lineFeed ∉ q) (hw : w.all isNameByte = true) :
    layOut (q ++ 46 :: w) = [Text.trimStart q ++ 46 :: w] := by
  have hplain := Text.isPlain_dotted hw
  have hfeed : Text.lineFeed ∉ q ++ 46 :: w := by
    rw [List.mem_append, not_or]
    exact ⟨hq, Text.lineFeed_not_mem_of_isPlain hplain⟩
  rw [layOut, Text.pieces_of_not_mem hfeed, List.map_singleton, Text.trim_append_of_isPlain q hplain,
    List.filter_cons_of_pos (by simp)]
  rfl

end Item

/-- Whether a line with a dot is readable does not depend on what follows the dot. -/
theorem readableLine_dotted {s w : Text} (hs : s.count Text.slash ≤ 1) (hw : w.all isNameByte = true) :
    ReadableLine (s ++ 46 :: w) ↔
      ∃ r, Text.trimStart s = 64 :: r ∧ isName (r ++ [46]) = true := by
  have hplain := Text.isPlain_dotted hw
  have hslash : (46 :: w).count Text.slash = 0 :=
    List.count_eq_zero.2 fun hmem => Text.ne_of_isPlainByte (hplain _ hmem) (by decide) rfl
  have htrim : Text.trim (Text.code (s ++ 46 :: w)) = Text.trimStart s ++ 46 :: w := by
    rw [Text.code_of_count_slash_le (by rw [List.count_append, hslash]; exact hs),
      Text.trim_append_of_isPlain s hplain]
  rw [ReadableLine, Text.holdsCode, htrim, Statement.parse_dotted _ hw]
  have hcode : (!(Text.trimStart s ++ 46 :: w).isEmpty) = true := by simp
  exact ⟨fun h => h hcode, fun h _ => h⟩

/-- A name that gives readable lines when it stands in front of static symbols: nothing is wrong with
the lines of `@name.`, whatever follows the dot. -/
def Referable (name : Text) : Prop :=
  ∀ line ∈ Item.layOut (ascii "@" ++ (name ++ ascii ".")), ReadableLine line

/-- **Lines with a name from outside are readable exactly if the name is referable.** -/
theorem readable_layOut_iff {name w : Text} (hname : name.count Text.slash ≤ 1)
    (hw : w.all isNameByte = true) :
    (∀ line ∈ Item.layOut (ascii "@" ++ (name ++ 46 :: w)), ReadableLine line) ↔ Referable name := by
  have hcount : (ascii "@" ++ name).count Text.slash ≤ 1 := by
    rw [List.count_append, List.count_eq_zero.2 (by decide), Nat.zero_add]
    exact hname
  -- what follows the dot is seen in the line after the last line feed only
  have hline : ∀ q : Text, q <:+ ascii "@" ++ name → ∀ v : Text, v.all isNameByte = true →
      (ReadableLine (Text.trimStart q ++ 46 :: v) ↔
        ∃ r, Text.trimStart (Text.trimStart q) = 64 :: r ∧ isName (r ++ [46]) = true) := by
    intro q hq v hv
    refine readableLine_dotted ?_ hv
    exact Nat.le_trans (((Text.trimStart_suffix q).trans hq).sublist.count_le _) hcount
  rw [Referable, ascii_dot, ← List.append_assoc, ← List.append_assoc]
  by_cases hfeed : Text.lineFeed ∈ ascii "@" ++ name
  · obtain ⟨p, q, hpq, hq⟩ := Text.exists_last_lineFeed hfeed
    have hsuffix : q <:+ ascii "@" ++ name := by
      rw [hpq]
      exact (List.suffix_cons ..).trans (List.suffix_append ..)
    rw [hpq, List.append_assoc, List.append_assoc, List.cons_append, List.cons_append,
      Item.layOut_append_lineFeed, Item.layOut_append_lineFeed, Item.layOut_dotted hq hw,
      Item.layOut_dotted (w := []) hq rfl, List.forall_mem_append, List.forall_mem_append,
      List.forall_mem_singleton, List.forall_mem_singleton, hline q hsuffix w hw,
      hline q hsuffix [] rfl]
  · rw [Item.layOut_dotted hfeed hw, Item.layOut_dotted (w := []) hfeed rfl, List.forall_mem_singleton,
      List.forall_mem_singleton, hline _ List.suffix_rfl w hw, hline _ List.suffix_rfl [] rfl]

/-- **A name without line feeds is referable exactly if it is a name.** -/
theorem referable_iff_isName {name : Text} (hne : name ≠ []) (hname : name.count Text.slash ≤ 1)
    (hfeed : Text.lineFeed ∉ name) : Referable name ↔ isName name = true := by
  have hfeed' : Text.lineFeed ∉ 64 :: name := by
    rw [List.mem_cons, not_or]
    exact ⟨by decide, hfeed⟩
  have hcount : (64 :: name).count Text.slash ≤ 1 := by
    rw [List.count_cons_of_ne (by decide)]
    exact hname
  have hstart : Text.trimStart (64 :: name) = 64 :: name :=
    Text.trimStart_cons_of_isPlainByte (by decide) name
  rw [Referable, ascii_dot, ascii_at, ← List.append_assoc, List.singleton_append,
    Item.layOut_dotted (w := []) hfeed' rfl, List.forall_mem_singleton, hstart,
    readableLine_dotted (w := []) hcount rfl, hstart, ← Statement.isName_append_eq hne (w := [46]) rfl]
  constructor
  · rintro ⟨r, hr, h⟩
    injection hr with _ hr
    rwa [hr]
  · intro h
    exact ⟨name, rfl, h⟩

end HackToolchain
