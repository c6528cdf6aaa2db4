import ChainIndex.Chain.Block
import ChainIndex.CommandLine.Option
import ChainIndex.Query

/-!
# Commands

What can be asked for on the command line: options of the whole program, then the name of a command
and its options. The options of the whole program may stand on either side of the name.

* `Invocation.parse`: what some arguments ask for.
-/

namespace ChainIndex.CommandLine

inductive Command where
  | range (first last : Height)
  | latest (last : Height)
  | mark
  | block (height : Height)
  | reward (q : AccountQuery)
  | balance (q : AccountQuery)
  | delegations (q : AccountQuery)
  | decode (tx log : String)
  | info
deriving DecidableEq, Repr

/-- The name of a command, its options, and how they make the command. -/
structure CommandSpec where
  name : String
  options : List OptionSpec := []
  command? : Given → Option Command

namespace Command

def number? (g : Given) (name : String) : Option UInt64 :=
  (g.get? name).bind Text.word64?

/-- A question about an account, at height zero if none is given. -/
def account? (g : Given) : Option AccountQuery :=
  (g.get? "account").map fun account => { height := (number? g "height").getD 0, account }

def accountOptions : List OptionSpec :=
  [⟨.number, "height", none⟩, ⟨.text, "account", none⟩]

def all : List CommandSpec := [
  { name := "range"
    options := [⟨.number, "start", none⟩, ⟨.number, "end", none⟩]
    command? := fun g => do return range (← number? g "start") (← number? g "end") },
  { name := "latest"
    options := [⟨.number, "last-height", none⟩]
    command? := fun g => some (latest ((number? g "last-height").getD 0)) },
  { name := "mark", command? := fun _ => some mark },
  { name := "block"
    options := [⟨.number, "height", none⟩]
    command? := fun g => (number? g "height").map block },
  { name := "reward", options := accountOptions, command? := fun g => (account? g).map reward },
  { name := "balance", options := accountOptions, command? := fun g => (account? g).map balance },
  { name := "delegations"
    options := accountOptions
    command? := fun g => (account? g).map delegations },
  { name := "decode"
    options := [⟨.text, "tx", none⟩, ⟨.text, "log", none⟩]
    command? := fun g => (g.get? "tx").map fun tx => decode tx ((g.get? "log").getD "") },
  { name := "info", command? := fun _ => some info }]

end Command

/-- A command together with the options of the whole program. -/
structure Invocation where
  /-- The path of a configuration file. -/
  config : Option String := none
  verbose : Bool := false
  command : Command
deriving DecidableEq, Repr

namespace Invocation

/-- The options that may stand before and after the name of the command. -/
def shared : List OptionSpec :=
  [⟨.path, "config", some 'c'⟩, ⟨.flag, "verbose", some 'v'⟩, ⟨.help, "help", some 'h'⟩]

/-- What is left after the word `help`: at most one name. -/
def helpFor : List String → Stop
  | [] => .help
  | [name] => if Command.all.any (·.name == name) then .help else .usage
  | _ => .usage

def parse (args : List String) : Except Stop Invocation := do
  let (outer, rest) ← scan (⟨.version, "version", some 'V'⟩ :: shared) [] none args
  match rest with
  | [] => throw .usage
  | "help" :: names => throw (helpFor names)
  | name :: rest =>
    let some spec := Command.all.find? fun s => s.name == name | throw .usage
    let (inner, rest) ← scan (spec.options ++ shared) [] none rest
    let some command := spec.command? inner | throw .usage
    if !rest.isEmpty then throw .usage
    return {
      config := (inner.get? "config").orElse fun _ => outer.get? "config"
      verbose := (inner.get? "verbose").isSome || (outer.get? "verbose").isSome
      command }

end Invocation

end ChainIndex.CommandLine
