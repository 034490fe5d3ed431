/-
**Flags and words of a command line.**

A word of a command line is a flag, the value of a flag, or a plain word.  Flags and plain words
may be mixed.  A long flag is written `--name` or `--name=value`, a short one `-n`, `-nvalue` or
`-n=value`.  A switch takes no word after it as its value; any other flag without a value takes
the next word, whatever it looks like.  A bare `--` ends the flags, and a bare `-` is a plain word.

Main definitions:

* `Settings` — what flags can set;
* `Flag` — a flag with its effect;
* `UsageError` — what can be wrong with a command line;
* `readWords` — the settings and the plain words of a command line;
* `firstWord?`, `withoutWord` — the plain word that comes first, and the words without it.
-/
import HackToolchain.Text.Numeral
import HackToolchain.Text.Quoted

set_option relaxedAutoImplicit false
set_option autoImplicit false

namespace HackToolchain

/-- What flags can set. -/
structure Settings where
  /-- Where the sources are. -/
  path : Text := ascii "."
  /-- The directory for results, or nothing for results next to their sources. -/
  output : Text := []
  /-- Whether to print the assembly. -/
  verbose : Bool := false
  /-- Whether to set up the stack and call the entry function. -/
  bootstrap : Bool := true
  /-- Whether a directory is one unit. -/
  whole : Bool := false
  /-- The function to call first. -/
  entry : Text := ascii "Sys.init"
  /-- Whether to show the source of each command. -/
  annotate : Bool := false
  /-- The name of the way of naming static cells. -/
  staticMode : Text := ascii "index"
  /-- Whether to assemble the result. -/
  check : Bool := false
  /-- Whether to save the assembled program too. -/
  binary : Bool := false
  deriving DecidableEq

/-- What a flag does with its value. -/
inductive FlagEffect where
  | text (set : Text → Settings → Settings)
  | switch (set : Bool → Settings → Settings)

/-- A flag: its name, its letter if it has one, and its effect. -/
structure Flag where
  name : Text
  letter : Option UInt8 := none
  effect : FlagEffect

/-- Whether a flag is a switch. -/
def Flag.isSwitch (f : Flag) : Bool :=
  match f.effect with
  | .text _ => false
  | .switch _ => true

/-- A flag as messages show it. -/
def Flag.shown (f : Flag) : Text :=
  (match f.letter with
    | none => []
    | some c => ascii "-" ++ [c] ++ ascii ", ") ++ ascii "--" ++ f.name

/-- What can be wrong with a command line. -/
inductive UsageError where
  /-- A long flag has no name. -/
  | badSyntax (word : Text)
  /-- No flag has the name. -/
  | unknownFlag (name : Text)
  /-- No flag has the letter. -/
  | unknownLetter (letter : UInt8) (group : Text)
  /-- No value follows a long flag. -/
  | missingValue (word : Text)
  /-- No value follows a short flag. -/
  | missingLetterValue (letter : UInt8) (group : Text)
  /-- The value of a switch is neither true nor false. -/
  | badSwitch (flag value : Text)
  /-- More plain words than may be given. -/
  | tooManyWords (allowed received : Nat)
  /-- Not as many plain words as have to be given. -/
  | wrongWords (expected received : Nat)
  deriving DecidableEq

/-- The message about a command line. -/
def UsageError.message : UsageError → Text
  | badSyntax word => ascii "bad flag syntax: " ++ word
  | unknownFlag name => ascii "unknown flag: --" ++ name
  | unknownLetter c group =>
    ascii "unknown shorthand flag: " ++ Text.quoteByte c ++ ascii " in -" ++ group
  | missingValue word => ascii "flag needs an argument: " ++ word
  | missingLetterValue c group =>
    ascii "flag needs an argument: " ++ Text.quoteByte c ++ ascii " in -" ++ group
  | badSwitch flag value =>
    ascii "invalid argument " ++ Text.quote value ++ ascii " for " ++ Text.quote flag
      ++ ascii " flag: strconv.ParseBool: parsing " ++ Text.quote value ++ ascii ": invalid syntax"
  | tooManyWords allowed received =>
    ascii "accepts at most " ++ Numeral.ofNat allowed ++ ascii " arg(s), received "
      ++ Numeral.ofNat received
  | wrongWords expected received =>
    ascii "accepts " ++ Numeral.ofNat expected ++ ascii " arg(s), received "
      ++ Numeral.ofNat received

/-! ### Reading flags -/

/-- The hyphen. -/
def hyphen : UInt8 := 45

/-- The equals sign. -/
def equalsSign : UInt8 := 61

/-- The words for true and for false. -/
def readSwitch? (value : Text) : Option Bool :=
  if ["1", "t", "T", "TRUE", "true", "True"].any (fun s => value == ascii s) then some true
  else if ["0", "f", "F", "FALSE", "false", "False"].any (fun s => value == ascii s) then
    some false
  else none

/-- A flag that waits for the next word, with the error if there is none. -/
structure WaitingFlag where
  flag : Flag
  error : UsageError

/-- What has been read of a command line. -/
structure WordScan where
  settings : Settings := {}
  /-- The plain words, the latest first. -/
  plain : List Text := []
  /-- A flag that takes the next word as its value. -/
  waiting : Option WaitingFlag := none
  /-- Whether a bare `--` has ended the flags. -/
  ended : Bool := false

namespace WordScan

/-- Gives a flag its value. -/
def assign (s : WordScan) (f : Flag) (value : Text) : Except UsageError WordScan :=
  match f.effect with
  | .text set => .ok { s with settings := set value s.settings, waiting := none }
  | .switch set =>
    match readSwitch? value with
    | some b => .ok { s with settings := set b s.settings, waiting := none }
    | none => .error (.badSwitch f.shown value)

/-- Reads a long flag, of which `body` follows the two hyphens. -/
def readLong (flags : List Flag) (s : WordScan) (word body : Text) :
    Except UsageError WordScan :=
  if body.head? = some hyphen ∨ body.head? = some equalsSign then .error (.badSyntax word)
  else
    let name := body.takeWhile (· != equalsSign)
    match flags.find? (·.name == name) with
    | none => .error (.unknownFlag name)
    | some f =>
      match body.dropWhile (· != equalsSign) with
      | _ :: value => s.assign f value
      | [] =>
        if f.isSwitch then s.assign f (ascii "true")
        else .ok { s with waiting := some { flag := f, error := .missingValue word } }

/-- Reads a group of short flags.  A flag that is no switch takes the rest of the group, or the
next word, as its value. -/
def readGroup (flags : List Flag) (s : WordScan) : Text → Except UsageError WordScan
  | [] => .ok s
  | c :: rest =>
    match flags.find? (·.letter == some c) with
    | none => .error (.unknownLetter c (c :: rest))
    | some f =>
      if rest.head? = some equalsSign ∧ 1 < rest.length then s.assign f rest.tail
      else if f.isSwitch then
        match s.assign f (ascii "true") with
        | .error e => .error e
        | .ok s' => readGroup flags s' rest
      else if rest.isEmpty then
        .ok { s with waiting := some { flag := f, error := .missingLetterValue c [c] } }
      else s.assign f rest

/-- Reads a word. -/
def read (flags : List Flag) (s : WordScan) (word : Text) : Except UsageError WordScan :=
  match s.waiting with
  | some w => s.assign w.flag word
  | none =>
    if s.ended then .ok { s with plain := word :: s.plain }
    else
      match word with
      | 45 :: 45 :: body =>
        if body.isEmpty then .ok { s with ended := true } else s.readLong flags word body
      | 45 :: c :: rest => s.readGroup flags (c :: rest)
      | _ => .ok { s with plain := word :: s.plain }

end WordScan

/-- The settings and the plain words of a command line. -/
def readWords (flags : List Flag) (words : List Text) : Except UsageError (Settings × List Text) :=
  match words.foldlM (WordScan.read flags) {} with
  | .error e => .error e
  | .ok s =>
    match s.waiting with
    | some w => .error w.error
    | none => .ok (s.settings, s.plain.reverse)

/-! ### The first plain word -/

/-- Whether a word looks like a flag that takes the next word as its value: it has no equals sign
and is not known to be a switch. -/
def takesNext (flags : List Flag) (word : Text) : Bool :=
  !word.contains equalsSign &&
    match word with
    | 45 :: 45 :: name => !flags.any fun f => f.isSwitch && f.name == name
    | [45, c] => !flags.any fun f => f.isSwitch && f.letter == some c
    | _ => false

/-- The first plain word, as it is found before the flags are read.  The search ends at a flag
that takes a value and is followed by less than two words. -/
def firstWord? (flags : List Flag) : List Text → Option Text
  | [] => none
  | word :: rest =>
    if word = [hyphen, hyphen] then none
    else if takesNext flags word then
      match rest with
      | _ :: next :: more => firstWord? flags (next :: more)
      | _ => none
    else if word ≠ [] ∧ word.head? ≠ some hyphen then some word
    else firstWord? flags rest

/-- The words without the first plain word that equals `x`. -/
def withoutWord (flags : List Flag) (x : Text) : List Text → List Text
  | [] => []
  | word :: rest =>
    if word = [hyphen, hyphen] then word :: rest
    else if takesNext flags word then
      match rest with
      | value :: more => word :: value :: withoutWord flags x more
      | [] => [word]
    else if word = x ∧ word.head? ≠ some hyphen then rest
    else word :: withoutWord flags x rest

end HackToolchain
