import HackToolchain.Text.Basic
import HackToolchain.Text.Utf8
import HackToolchain.Text.Blank
import HackToolchain.Text.LetterCase
import HackToolchain.Text.Printable
import HackToolchain.Text.Quoted
import HackToolchain.Text.Numeral
import HackToolchain.Text.Symbol
import HackToolchain.Text.Lines
import HackToolchain.Command.Basic
import HackToolchain.Command.Fault
import HackToolchain.Command.Parse
import HackToolchain.Word
import HackToolchain.Assembly.Compute
import HackToolchain.Assembly.Item
import HackToolchain.Assembly.Statement
import HackToolchain.Assembly.Program
import HackToolchain.Assembly.Assembler
import HackToolchain.Assembly.Session
import HackToolchain.Cpu.Memory
import HackToolchain.Cpu.Machine
import HackToolchain.Codegen.StaticMode
import HackToolchain.Codegen.Generator
import HackToolchain.Codegen.Session
import HackToolchain.Unit.Basic
import HackToolchain.Unit.Compile
import HackToolchain.Files.Path
import HackToolchain.Files.Tree
import HackToolchain.Files.Save
import HackToolchain.Files.Discover
import HackToolchain.CommandLine.Flags
import HackToolchain.CommandLine.Run
import HackToolchain.Main
import HackToolchain.Proofs.Sequences
import HackToolchain.Proofs.Text.Plain
import HackToolchain.Proofs.Text.Trimming
import HackToolchain.Proofs.Text.Patterns
import HackToolchain.Proofs.Text.WhiteSpace
import HackToolchain.Proofs.Text.Stripping
import HackToolchain.Proofs.Assembly.Written
import HackToolchain.Proofs.Assembly.Linking
import HackToolchain.Proofs.Command.Operands
import HackToolchain.Proofs.Cpu.Executing
import HackToolchain.Proofs.Cpu.Stopping
import HackToolchain.Proofs.Unit.Listing
import HackToolchain.Proofs.Assembly.Installed
import HackToolchain.Proofs.Assembly.Accepted
import HackToolchain.Proofs.Assembly.Numbering
import HackToolchain.Proofs.Assembly.Malformed
import HackToolchain.Proofs.Assembly.Resolution
import HackToolchain.Proofs.Assembly.Sessions
import HackToolchain.Proofs.Assembly.Codes
import HackToolchain.Proofs.Codegen.WellFormed
import HackToolchain.Proofs.StackMachine.Agreement
import HackToolchain.Proofs.Cpu.Running
import HackToolchain.Proofs.Codegen.Effects
import HackToolchain.Proofs.Codegen.Names
import HackToolchain.Proofs.Codegen.Sessions
import HackToolchain.Proofs.Codegen.Refusals
import HackToolchain.Proofs.Codegen.FreshLabels
import HackToolchain.Proofs.Codegen.Symbols
import HackToolchain.Proofs.Command.Grammar
import HackToolchain.Proofs.Command.Printing
import HackToolchain.Proofs.Unit.Labels
import HackToolchain.Proofs.Unit.Annotation
import HackToolchain.Proofs.Unit.Linked
import HackToolchain.Proofs.StackMachine.Operators
import HackToolchain.Proofs.StackMachine.Segments
import HackToolchain.Proofs.StackMachine.Simulation
import HackToolchain.Proofs.StackMachine.Refinement
import HackToolchain.Proofs.StackMachine.Calls
import HackToolchain.Proofs.Unit.JumpTargets
import HackToolchain.Proofs.Cpu.Loading
import HackToolchain.Proofs.Unit.StaticCells
import HackToolchain.Proofs.Unit.Limits
import HackToolchain.Proofs.Unit.Sources
import HackToolchain.Proofs.Unit.Printing
import HackToolchain.Proofs.Unit.ModuleOrder
import HackToolchain.Proofs.Files.ModuleNames
import HackToolchain.Proofs.Cpu.Computing
import HackToolchain.Proofs.Files.Paths
import HackToolchain.Proofs.Files.Trees
import HackToolchain.Proofs.Files.Discovery
import HackToolchain.Proofs.Files.Outputs
import HackToolchain.Proofs.Files.Saving
import HackToolchain.Proofs.Files.Atomicity
import HackToolchain.Proofs.Assembly.Saved
import HackToolchain.Proofs.CommandLine.Results
