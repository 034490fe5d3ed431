/-
**Showing the sources of a unit.**

With the option to show sources, an empty line and a comment are written before the code of each
command.  The comment holds the source as it is, and the name of its module, which may be anything.

Whether sources are shown changes nothing that the generator remembers, so the same units are compiled,
and the others are refused for the same reason.  The assembler drops the added lines whatever they
hold, so the programs agree but for the numbers of lines.  If moreover no module name holds a line
feed, no line of code is empty or looks like a comment, and the added lines can be told from the others.

Main definitions:

* `Item.isCode`, `Text.isRemark` — items that are neither empty lines nor comments, and lines that look
  as if they were;
* `Listing.annotate` — the listing with the sources of its commands.

Main results:

* `CompilationUnit.listing_annotate` — **what showing sources adds to a listing**;
* `filter_holdsCode_render`, `filter_isRemark_render` — empty lines and comments, left out of written
  code;
* `CompilationUnit.annotation_adds_only_remarks` — **showing sources does not change the meaning of a
  unit**.
-/
import HackToolchain.Proofs.Assembly.Numbering
import HackToolchain.Proofs.Text.Trimming
import HackToolchain.Proofs.Unit.Labels

set_option relaxedAutoImplicit false
set_option autoImplicit false

namespace HackToolchain

/-! ### Code, and lines that look like none -/

/-- An item that is neither an empty line nor a comment. -/
def Item.isCode : Item → Bool
  | blank | comment _ => false
  | load _ | compute _ | label _ => true

/-- A line that is empty or begins with two slashes. -/
def Text.isRemark (line : Text) : Bool := line.isEmpty || (ascii "//").isPrefixOf line

namespace Item

/-- An item that is no code stands on a line that looks like none, and holds none. -/
theorem lines_of_isCode_eq_false {i : Item} (h : i.isCode = false) :
    ∃ line, i.lines = [line] ∧ Text.isRemark line = true ∧ Text.holdsCode line = false := by
  cases i with
  | blank => exact ⟨[], rfl, rfl, rfl⟩
  | comment t =>
      have hslashes : ascii "//" = [47, 47] := by decide
      refine ⟨ascii "// " ++ t, rfl, ?_, ?_⟩
      · rw [Text.isRemark, ascii_remark, hslashes]
        rfl
      · rw [Text.holdsCode, Text.code_comment]
        rfl
  | load t | compute c | label name => cases h

/-- The written form of code starts with a visible character other than the slash. -/
theorem text_of_isCode {i : Item} (h : i.isCode = true) :
    ∃ b t, i.text = b :: t ∧ Text.isPlainByte b = true := by
  cases i with
  | blank | comment t => cases h
  | load t => exact ⟨64, t.text, by rw [text, ascii_at]; rfl, by decide⟩
  | label name => exact ⟨40, name ++ ascii ")", by rw [text, ascii_open]; rfl, by decide⟩
  | compute c =>
      rw [text, Compute.text_eq, Compute.destText]
      cases c.dest with
      | nil =>
          obtain ⟨b, t, ht, -⟩ := c.comp.isFragment_text.head
          refine ⟨b, t ++ c.jumpText, by rw [ht]; rfl, ?_⟩
          exact c.comp.isFragment_text.isPlain b (by rw [ht]; exact List.mem_cons_self ..)
      | cons r d => exact ⟨r.byte, _, rfl, by cases r <;> decide⟩

/-- Code without line feeds stands on one line, which does not look like a comment. -/
theorem lines_of_isCode {i : Item} (h : i.isCode = true) (hfeed : Text.lineFeed ∉ i.text) :
    ∃ line, i.lines = [line] ∧ Text.isRemark line = false := by
  obtain ⟨b, t, ht, hb⟩ := text_of_isCode h
  obtain ⟨s, hs⟩ := Text.trim_cons_of_isPlainByte hb t
  have hlines : i.lines = layOut i.text := by cases i <;> first | rfl | cases h
  refine ⟨b :: s, ?_, ?_⟩
  · rw [hlines, layOut, Text.pieces_of_not_mem hfeed, ht, List.map_singleton, hs]
    rfl
  · have hslash : b ≠ 47 := Text.ne_of_isPlainByte hb (by decide)
    have hslashes : ascii "//" = [47, 47] := by decide
    rw [Text.isRemark, hslashes, List.isPrefixOf_cons_cons, beq_false_of_ne (Ne.symm hslash)]
    rfl

end Item

/-- Empty lines and comments hold no code. -/
theorem filter_holdsCode_render (is : List Item) :
    (render is).filter Text.holdsCode = (render (is.filter Item.isCode)).filter Text.holdsCode := by
  induction is with
  | nil => rfl
  | cons i is ih =>
      rw [render_cons, List.filter_append, ih]
      cases hi : i.isCode with
      | true => rw [List.filter_cons_of_pos hi, render_cons, List.filter_append]
      | false =>
          obtain ⟨line, hline, -, hcode⟩ := Item.lines_of_isCode_eq_false hi
          rw [List.filter_cons_of_neg (by rw [hi]; exact Bool.false_ne_true), hline,
            List.filter_cons_of_neg (by rw [hcode]; exact Bool.false_ne_true)]
          rfl

/-- If no line feeds stand in code, the lines that look like none are empty lines and comments. -/
theorem filter_isRemark_render {is : List Item}
    (h : ∀ i ∈ is, i.isCode = true → Text.lineFeed ∉ i.text) :
    (render is).filter (!Text.isRemark ·) = render (is.filter Item.isCode) := by
  induction is with
  | nil => rfl
  | cons i is ih =>
      rw [render_cons, List.filter_append, ih fun j hj => h j (List.mem_cons_of_mem _ hj)]
      cases hi : i.isCode with
      | true =>
          obtain ⟨line, hline, hremark⟩ := Item.lines_of_isCode hi (h i (List.mem_cons_self ..) hi)
          rw [List.filter_cons_of_pos hi, render_cons, hline,
            List.filter_cons_of_pos (by rw [hremark]; rfl)]
          rfl
      | false =>
          obtain ⟨line, hline, hremark, -⟩ := Item.lines_of_isCode_eq_false hi
          rw [List.filter_cons_of_neg (by rw [hi]; exact Bool.false_ne_true), hline,
            List.filter_cons_of_neg (by rw [hremark]; exact Bool.false_ne_true)]
          rfl

/-! ### Generated code -/

theorem Code.isCode_loadConstant (v : Int) : (Code.loadConstant v).all Item.isCode = true := by
  unfold Code.loadConstant
  split
  · rfl
  · split <;> rfl

/-- The code of a command holds no empty lines and no comments. -/
theorem Generator.isCode_of_wrote {g g' : Generator} {c : Command} {code : List Item}
    (h : g.Wrote c g' code) : code.all Item.isCode = true := by
  cases h with
  | @push _ _ _ pl _ =>
      cases pl with
      | value n => rw [Code.push, List.all_append, Code.isCode_loadConstant]; rfl
      | indexed base i | direct t => rfl
  | @pop _ _ _ pl _ => cases pl <;> rfl
  | operate o => cases o <;> rfl
  | function name n =>
      rw [Code.function, List.all_cons, List.all_flatten]
      refine Bool.and_eq_true_iff.2 ⟨rfl, List.all_eq_true.2 fun is his => ?_⟩
      rw [List.eq_of_mem_replicate his, List.all_append, Code.isCode_loadConstant]
      rfl
  | _ => rfl

/-- A static symbol holds no line feed unless the name of its module does. -/
theorem Generator.lineFeed_not_mem_staticName? {g : Generator} {i : Int} {s : Text}
    (h : g.staticName? i = some s) (hlo : 0 ≤ i) (hm : Text.lineFeed ∉ g.module) :
    Text.lineFeed ∉ s := by
  obtain ⟨w, rfl, hw⟩ := staticName?_eq_some h hlo
  have howner : Text.lineFeed ∉ staticOwner g.module := by
    unfold staticOwner
    split
    · decide
    · exact hm
  rw [List.mem_append, not_or]
  exact ⟨howner, Text.lineFeed_not_mem_of_isPlain (Text.isPlain_dotted hw)⟩

/-- The written form of a well-formed piece of code holds no line feed. -/
theorem Item.lineFeed_not_mem_text {i : Item} (h : i.WellFormed) (hcode : i.isCode = true) :
    Text.lineFeed ∉ i.text := by
  refine Text.lineFeed_not_mem_of_isPlain ?_
  cases i with
  | blank | comment t => cases hcode
  | load t => exact Text.IsPlain.append (by decide) (Target.isPlain_text h)
  | compute c => exact Compute.isPlain_text h
  | label name =>
      exact (Text.IsPlain.append (by decide) (Text.isPlain_of_isName h)).append (by decide)

/-! ### Listings with sources -/

/-- The listing with the sources of its commands, and with a title before the code that comes first. -/
def Listing.annotate (bootstrap : Bool) (l : Listing) : Listing where
  preamble := (if bootstrap then Code.annotation (ascii "bootstrap") else []) ++ l.preamble
  entries := l.entries.map fun e => (e.1, Code.annotation (PlacedCommand.annotation e.1) ++ e.2)
  last := l.last

/-- The code of an annotated listing is that of the listing. -/
theorem Listing.filter_isCode_annotate (bootstrap : Bool) (l : Listing) :
    (l.annotate bootstrap).items.filter Item.isCode = l.items.filter Item.isCode := by
  have hpreamble : (l.annotate bootstrap).preamble.filter Item.isCode
      = l.preamble.filter Item.isCode := by
    rw [annotate, List.filter_append]
    cases bootstrap <;> rfl
  have hentries : ∀ es : List (PlacedCommand × List Item),
      ((es.map fun e => (e.1, Code.annotation (PlacedCommand.annotation e.1) ++ e.2)).flatMap Prod.snd).filter
          Item.isCode = (es.flatMap Prod.snd).filter Item.isCode := by
    intro es
    induction es with
    | nil => rfl
    | cons e es ih =>
        rw [List.map_cons, List.flatMap_cons, List.flatMap_cons, List.filter_append,
          List.filter_append, ih, List.filter_append]
        rfl
  rw [items, items, List.filter_append, List.filter_append, hpreamble]
  exact congrArg (_ ++ ·) (hentries l.entries)

namespace Generator

/-- Showing the source of a command changes neither the state nor whether the command has code. -/
theorem writePlaced_true (g : Generator) (c : PlacedCommand) :
    g.writePlaced true c = ((g.writePlaced false c).1,
      (g.writePlaced false c).2.map (Code.annotation c.annotation ++ ·)) := by
  simp only [writePlaced]
  cases ({ g with module := c.module }.write c.command).2 <;> rfl

theorem list_true (g : Generator) (cs : List PlacedCommand) :
    g.list true cs = (g.list false cs).map fun r =>
      (r.1, r.2.map fun e => (e.1, Code.annotation (PlacedCommand.annotation e.1) ++ e.2)) := by
  induction cs generalizing g with
  | nil => rfl
  | cons c cs ih =>
      simp only [list, writePlaced_true]
      rcases g.writePlaced false c with ⟨g', e | items⟩
      · rfl
      · simp only [Except.map, ih]
        cases g'.list false cs <;> rfl

end Generator

namespace CompilationUnit

variable {u : CompilationUnit} {o : CompileOptions} {l : Listing}

theorem preamble_true (u : CompilationUnit) (o : CompileOptions) :
    u.preamble { o with annotate := true } = ((u.preamble { o with annotate := false }).1,
      (if o.bootstrap then Code.annotation (ascii "bootstrap") else [])
        ++ (u.preamble { o with annotate := false }).2) := by
  simp only [preamble]
  cases o.bootstrap <;> rfl

/-- **What showing sources adds to a listing.** -/
theorem listing_annotate (u : CompilationUnit) (o : CompileOptions) :
    u.listing { o with annotate := true }
      = (u.listing { o with annotate := false }).map (Listing.annotate o.bootstrap) := by
  simp only [listing, preamble_true, Generator.list_true]
  split
  · rfl
  · cases u.commands o.entry with
    | error e => rfl
    | ok cs =>
        dsimp only
        generalize Generator.list false _ cs = r
        cases r <;> rfl

/-- Without sources, a unit has nothing but code. -/
theorem filter_isCode_items (h : u.listing { o with annotate := false } = .ok l) :
    l.items.filter Item.isCode = l.items := by
  rw [List.filter_eq_self]
  have hpreamble : ∀ i ∈ l.preamble, i.isCode = true := by
    rcases preamble_cases h with ⟨-, hpre⟩ | ⟨-, code, hpre, ⟨-, rfl⟩ | ⟨-, rfl, -⟩⟩
    · rw [hpre]
      exact List.forall_mem_nil _
    · rw [hpre]
      exact List.all_eq_true.1 rfl
    · rw [hpre]
      exact List.all_eq_true.1 rfl
  intro i hi
  rcases List.mem_append.1 hi with hi | hi
  · exact hpreamble i hi
  · obtain ⟨e, he, hi⟩ := List.mem_flatMap.1 hi
    obtain ⟨code, ⟨g, g', -, -, hwrote, -⟩, hitems⟩ := listing_entry h he
    rw [hitems] at hi
    exact List.all_eq_true.1 (Generator.isCode_of_wrote hwrote) i hi

/-- No line feed stands in the code of a unit unless one stands in the name of a module. -/
theorem lineFeed_not_mem_items (h : u.listing o = .ok l)
    (hm : ∀ m ∈ u.modules, Text.lineFeed ∉ m.name) :
    ∀ i ∈ l.items, i.isCode = true → Text.lineFeed ∉ i.text := by
  intro i hi hcode
  rcases mem_items h hi with hi | ⟨c, hc, ⟨t, hi⟩ | ⟨code, ⟨g, g', -, hmodule, hwrote, -⟩, -, hi⟩⟩
  · exact Item.lineFeed_not_mem_text (wellFormed_preamble h i hi) hcode
  · exact Item.lineFeed_not_mem_text (Code.wellFormed_annotation t i hi) hcode
  · have hvalid := valid_of_mem_listing h hc
    rcases Generator.wellFormed_or_static hvalid hwrote i hi with hwf | ⟨n, s, hn, hs, rfl⟩
    · exact Item.lineFeed_not_mem_text hwf hcode
    · obtain ⟨m, hmem, hname, -⟩ := module_of_mem_listing h hc
      have hfeed : Text.lineFeed ∉ s := by
        refine Generator.lineFeed_not_mem_staticName? hs (Command.valid_static hvalid hn).1 ?_
        rw [hmodule, hname]
        exact hm m hmem
      rw [Item.text, List.mem_append, not_or]
      exact ⟨by decide, hfeed⟩

/-- **Showing sources does not change the meaning of a unit.**  The unit is refused with sources if
and only if it is refused without, and for the same reason.  If it is compiled, the two assemblies give
the same program but for the numbers of lines, or are refused for the same reason; and if no module
name holds a line feed, leaving out the lines that are empty or begin with two slashes gives the
assembly without sources. -/
theorem annotation_adds_only_remarks (u : CompilationUnit) (o : CompileOptions) :
    (∀ e, u.compile { o with annotate := true } = .error e ↔
      u.compile { o with annotate := false } = .error e) ∧
    ∀ shown plain, u.compile { o with annotate := true } = .ok shown →
      u.compile { o with annotate := false } = .ok plain →
      outcome (assemble shown) = outcome (assemble plain) ∧
      ((∀ m ∈ u.modules, Text.lineFeed ∉ m.name) → shown.filter (!Text.isRemark ·) = plain) := by
  constructor
  · intro e
    rw [compile, compile, items_eq, items_eq, listing_annotate]
    cases u.listing { o with annotate := false } with
    | error e' => rfl
    | ok l =>
        constructor
        · intro h
          cases h
        · intro h
          cases h
  · intro shown plain hshown hplain
    obtain ⟨l', hl', rfl⟩ := compile_eq_ok_iff.1 hshown
    obtain ⟨l, hl, rfl⟩ := compile_eq_ok_iff.1 hplain
    have hannotate : l' = l.annotate o.bootstrap := by
      rw [listing_annotate, hl] at hl'
      injection hl' with hl'
      exact hl'.symm
    have hcode : l'.items.filter Item.isCode = l.items := by
      rw [hannotate, Listing.filter_isCode_annotate, filter_isCode_items hl]
    constructor
    · rw [outcome_assemble_filter, filter_holdsCode_render, hcode, ← outcome_assemble_filter]
    · intro hm
      rw [filter_isRemark_render (lineFeed_not_mem_items hl' hm), hcode]

/-- A unit whose module has a name that looks like code with a comment. -/
def slashed : CompilationUnit where
  modules := [{ name := ascii "x//y", lines := [{ number := 7, text := ascii "pop static 3" }] }]

/-- The load of the static cell is no remark, although the assembler drops half of it. -/
theorem slashed_annotation :
    ∃ plain, slashed.compile { bootstrap := false, annotate := false } = .ok plain ∧
      ascii "@x//y.3" ∈ plain ∧
      slashed.compile { bootstrap := false, annotate := true }
        = .ok ([] :: ascii "// x//y:7 pop static 3" :: plain) ∧
      outcome (assemble ([] :: ascii "// x//y:7 pop static 3" :: plain)) = outcome (assemble plain) ∧
      ([] :: ascii "// x//y:7 pop static 3" :: plain).filter (!Text.isRemark ·) = plain := by
  have hplain : slashed.compile { bootstrap := false, annotate := false }
      = .ok (["@SP", "AM=M-1", "D=M", "@x//y.3", "M=D"].map ascii) := by decide +kernel
  have hshown : slashed.compile { bootstrap := false, annotate := true } = .ok ([]
      :: ascii "// x//y:7 pop static 3" :: ["@SP", "AM=M-1", "D=M", "@x//y.3", "M=D"].map ascii) := by
    decide +kernel
  have hfeed : ∀ m ∈ slashed.modules, Text.lineFeed ∉ m.name := by decide
  obtain ⟨houtcome, hfilter⟩ :=
    (annotation_adds_only_remarks slashed { bootstrap := false }).2 _ _ hshown hplain
  exact ⟨_, hplain, by decide, hshown, houtcome, hfilter hfeed⟩

end CompilationUnit

end HackToolchain
