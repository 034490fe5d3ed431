/-
**Using the generator step by step.**

A generator can be used on its own: modules are entered, comments and commands are written and the
stack is set up, in any order.  A command that has no code is reported, and the generator can be used
further.

Main definitions:

* `Action` — one use of a generator;
* `Generator.perform` — the state after an action, and what the action writes or why it writes
  nothing.
-/
import HackToolchain.Codegen.Generator

set_option relaxedAutoImplicit false
set_option autoImplicit false

namespace HackToolchain

/-- One use of a generator. -/
inductive Action where
  /-- Go on in a module. -/
  | enter (module : Text)
  /-- Write a comment. -/
  | remark (t : Text)
  /-- Set up the stack, and call the function `entry` unless that is empty. -/
  | start (entry : Text)
  /-- Write the command in the fields of a record. -/
  | write (r : Record)
  deriving DecidableEq

/-- The state after an action, and what it writes or why it writes nothing. -/
def Generator.perform (g : Generator) : Action → Generator × Except Fault (List Item)
  | .enter module => ({ g with module }, .ok [])
  | .remark t => (g, .ok (Code.annotation t))
  | .start entry =>
    let r := g.start entry
    (r.1, .ok r.2)
  | .write r =>
    match r.command with
    | .error f => (g, .error f)
    | .ok c => g.write c

end HackToolchain
