/-
**Symbols and names.**

Names are checked twice.  A command may name only symbols, and what it names is written into the assembly,
where labels and variables must have the format of names.  The one check goes through the bytes of a text,
the other is a pattern over its characters.  They differ in one point: a name may start with a dollar
sign, a symbol may not.  So every symbol can be declared and referred to in assembly, and the dollar sign
keeps generated labels apart from symbols, although they are names like others.

Main definitions:

* `nameFormat` — the format of names.

Main results:

* `isName_iff_foundIn` — the check of names is the search for the format, on all byte strings;
* `Text.isSymbol_iff` — symbols are the names without a dollar sign in front;
* `AssemblySession.addLines_text_ok` — a fresh session accepts well-formed items with distinct labels;
* `symbol_checks_agree` — **the two checks of names agree up to the dollar sign**.
-/
import HackToolchain.Proofs.Assembly.Sessions
import HackToolchain.Proofs.Codegen.FreshLabels
import HackToolchain.Proofs.Text.Patterns

set_option relaxedAutoImplicit false
set_option autoImplicit false

namespace HackToolchain

/-! ### The format of names -/

/-- The characters that may start a name, `[a-zA-Z_.$:]`. -/
def nameStarts : CharClass :=
  [('a', 'z'), ('A', 'Z'), ('_', '_'), ('.', '.'), ('$', '$'), (':', ':')]

/-- The characters that may follow in a name, `[0-9a-zA-Z_.$:]`. -/
def nameFollowers : CharClass := ('0', '9') :: nameStarts

/-- The format of names, `^[a-zA-Z_.$:][0-9a-zA-Z_.$:]*$`. -/
def nameFormat : Pattern := .word nameStarts nameFollowers

theorem asBytes_nameStarts : nameStarts.AsBytes isNameStart where
  below := by decide
  byte b := by
    rw [Bool.eq_iff_iff, Text.isNameStart_iff, Text.isLetter_iff]
    simp only [CharClass.has, nameStarts, List.any_cons, List.any_nil, Bool.or_false, Bool.or_eq_true,
      decide_eq_true_eq, Char.reduceToNat]
    omega

theorem asBytes_nameFollowers : nameFollowers.AsBytes isNameByte where
  below := by decide
  byte b := by
    have hdigit : Numeral.isDigit b = CharClass.has [('0', '9')] b.toNat := by
      rw [Bool.eq_iff_iff, Text.isDigit_iff]
      simp [CharClass.has]
    rw [isNameByte, asBytes_nameStarts.byte, hdigit, Bool.or_comm]
    simp [CharClass.has, nameFollowers]

/-- **The check of names is the search for their format**, whatever the bytes are. -/
theorem isName_iff_foundIn {t : Text} : isName t = true ↔ nameFormat.FoundIn t := by
  rw [nameFormat, Pattern.foundIn_word_iff asBytes_nameStarts asBytes_nameFollowers]
  cases t with
  | nil => simp [isName]
  | cons b t => simp [isName]

instance (t : Text) : Decidable (nameFormat.FoundIn t) := decidable_of_iff _ isName_iff_foundIn

-- neither a line feed at the end nor a byte of no character is passed over
example : nameFormat.FoundIn (ascii "$if:0") ∧ ¬nameFormat.FoundIn (ascii "if\n") ∧
    ¬nameFormat.FoundIn [105, 102, 0xFF] := by decide

/-! ### Symbols -/

namespace Text

/-- A text starts as generated labels do if it starts with a dollar sign. -/
theorem isGenerated_iff {t : Text} : t.isGenerated = true ↔ ascii "$" <+: t := by
  rw [ascii_dollar, isGenerated]
  cases t with
  | nil => exact iff_of_false Bool.false_ne_true fun h => nomatch List.prefix_nil.1 h
  | cons b t =>
      rw [List.cons_prefix_cons, List.head?_cons, beq_iff_eq, Option.some_inj, eq_comm]
      exact (and_iff_left List.nil_prefix).symm

/-- Of the bytes that may start a name, only the dollar sign may not start a symbol. -/
theorem isSymbolStart_of_isNameStart {b : UInt8} (h : isNameStart b = true) (hb : b ≠ 36) :
    isSymbolStart b = true := by
  simp only [isNameStart, Bool.or_eq_true, beq_iff_eq] at h
  simp only [isSymbolStart, isWordStart, isUnderscore, Bool.or_eq_true, beq_iff_eq]
  rcases h with ((h | h) | h) | h
  · exact Or.inl (Or.inl h)
  · exact Or.inl (Or.inr h)
  · exact absurd h hb
  · exact Or.inr h

theorem isSymbolByte_of_isNameByte {b : UInt8} (h : isNameByte b = true) :
    isSymbolByte b = true := by
  simp only [isSymbolByte, Bool.or_eq_true, beq_iff_eq]
  by_cases hb : b = 36
  · exact Or.inr hb
  · rw [isNameByte, Bool.or_eq_true] at h
    exact Or.inl (h.imp_left fun h => isSymbolStart_of_isNameStart h hb)

/-- **Symbols are the names without a dollar sign in front.** -/
theorem isSymbol_iff {t : Text} : isSymbol t = true ↔ isName t = true ∧ ¬ascii "$" <+: t := by
  constructor
  · intro h
    refine ⟨isName_of_isSymbol h, fun hdollar => ?_⟩
    rw [← isGenerated_iff, isGenerated_of_isSymbol h] at hdollar
    cases hdollar
  · rintro ⟨hname, hdollar⟩
    cases t with
    | nil => cases hname
    | cons b t =>
        simp only [isName, Bool.and_eq_true, List.all_eq_true] at hname
        have hb : b ≠ 36 := by
          rintro rfl
          exact hdollar (isGenerated_iff.1 rfl)
        simp only [isSymbol, Bool.and_eq_true, List.all_eq_true]
        exact ⟨isSymbolStart_of_isNameStart hname.1 hb,
          fun c hc => isSymbolByte_of_isNameByte (hname.2 c hc)⟩

end Text

/-- A generated label is no symbol. -/
theorem Generator.isSymbol_freshLabel (word : String) (n : Nat) :
    Text.isSymbol (freshLabel word n) = false := by
  rw [Bool.eq_false_iff]
  intro h
  exact (Text.isSymbol_iff.1 h).2 (Text.isGenerated_iff.1 (isGenerated_freshLabel word n))

/-! ### Names in a fresh session -/

namespace AssemblySession

/-- A fresh session accepts the lines of well-formed items if no label is declared twice. -/
theorem addLines_text_ok (is : List Item) (hw : ∀ i ∈ is, i.WellFormed)
    (hlabels : (labelNames is).Nodup) :
    (({} : AssemblySession).addLines (is.map Item.text)).2 = .ok () := by
  obtain ⟨p, hp⟩ := (assemble_render_iff hw).2 hlabels
  rw [render_eq_map_text hw, assemble] at hp
  rw [(Mirrors.start.addLines _).1]
  split at hp
  · next hread => rw [hread]
  · cases hp

theorem addLines_singleton (s : AssemblySession) (line : Text) :
    s.addLines [line] = s.addLine line := by
  simp only [addLines]
  split
  · next hread => exact hread.symm
  · next hread => exact hread.symm

end AssemblySession

/-- **The two checks of names agree up to the dollar sign.**  The check of names is the search for
their format, and the symbols are exactly the texts that have the format and do not start with a dollar
sign.  A fresh session accepts the declaration of a symbol and the reference to it, each alone and both in
either order.  Generated labels have the format and are not symbols. -/
theorem symbol_checks_agree (s : Text) (n : Nat) :
    (isName s = true ↔ nameFormat.FoundIn s) ∧
    (s.isSymbol = true ↔ nameFormat.FoundIn s ∧ ¬ascii "$" <+: s) ∧
    (s.isSymbol = true →
      (({} : AssemblySession).addLine (ascii "(" ++ s ++ ascii ")")).2 = .ok () ∧
      (({} : AssemblySession).addLine (ascii "@" ++ s)).2 = .ok () ∧
      (({} : AssemblySession).addLines [ascii "(" ++ s ++ ascii ")", ascii "@" ++ s]).2 = .ok () ∧
      (({} : AssemblySession).addLines [ascii "@" ++ s, ascii "(" ++ s ++ ascii ")"]).2 = .ok ()) ∧
    ∀ word ∈ ["FALSE", "CONTINUE", "RETURN"],
      Text.isSymbol (Generator.freshLabel word n) = false ∧
      nameFormat.FoundIn (Generator.freshLabel word n) := by
  refine ⟨isName_iff_foundIn, ?_, ?_, ?_⟩
  · rw [← isName_iff_foundIn, Text.isSymbol_iff]
  · intro hs
    have hname := Text.isName_of_isSymbol hs
    have hlabel : (Item.label s).WellFormed := hname
    have hload : (Item.load (.symbol s)).WellFormed := hname
    rw [← AssemblySession.addLines_singleton, ← AssemblySession.addLines_singleton]
    refine ⟨?_, ?_, ?_, ?_⟩
    · exact AssemblySession.addLines_text_ok [.label s] (by simpa using hlabel)
        (List.nodup_singleton s)
    · exact AssemblySession.addLines_text_ok [.load (.symbol s)] (by simpa using hload)
        List.nodup_nil
    · exact AssemblySession.addLines_text_ok [.label s, .load (.symbol s)]
        (by simpa using ⟨hlabel, hload⟩) (List.nodup_singleton s)
    · exact AssemblySession.addLines_text_ok [.load (.symbol s), .label s]
        (by simpa using ⟨hload, hlabel⟩) (List.nodup_singleton s)
  · intro word hword
    have hbytes : ∀ w ∈ ["FALSE", "CONTINUE", "RETURN"], (ascii w).all isNameByte = true := by decide
    exact ⟨Generator.isSymbol_freshLabel word n,
      isName_iff_foundIn.1 (Generator.isName_freshLabel (hbytes word hword) n)⟩

/-- A symbol with a dollar sign inside is accepted, and a generated label is no symbol. -/
theorem inner_dollar_accepted :
    Text.isSymbol (ascii "Sys.init$if_end") = true ∧
    (({} : AssemblySession).addLine (ascii "(" ++ ascii "Sys.init$if_end" ++ ascii ")")).2 = .ok () ∧
    (({} : AssemblySession).addLine (ascii "@" ++ ascii "Sys.init$if_end")).2 = .ok () ∧
    Text.isSymbol (Generator.freshLabel "RETURN" 12) = false ∧
    nameFormat.FoundIn (Generator.freshLabel "RETURN" 12) := by
  obtain ⟨-, -, haccepted, hlabels⟩ := symbol_checks_agree (ascii "Sys.init$if_end") 12
  obtain ⟨hdeclared, hreferred, -⟩ := haccepted (by decide)
  exact ⟨by decide, hdeclared, hreferred, hlabels "RETURN" (by decide)⟩

end HackToolchain
