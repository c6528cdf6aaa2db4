import ChainIndex.Keyed
import ChainIndex.Text.Digits

/-!
# Options on a command line

Options have a long name and perhaps a letter. Flags stand alone, the others have a value, attached or
as the next argument. An option may be given once.

* `scan`: the options at the front of some arguments.
-/

namespace ChainIndex.CommandLine

/-- Why arguments do not lead to a command. -/
inductive Stop where
  | help
  | version
  | usage
deriving DecidableEq, Repr

inductive OptionKind where
  | help
  | version
  | flag
  | text
  /-- A text with at least one character. -/
  | path
  /-- A 64-bit word. -/
  | number
deriving DecidableEq, Repr

namespace OptionKind

def takesValue : OptionKind → Bool
  | help | version | flag => false
  | text | path | number => true

/-- Whether a value is good; one that is not taken is the empty text. -/
def accepts (kind : OptionKind) (value : String) : Bool :=
  match kind with
  | help | version | flag | text => true
  | path => value ≠ ""
  | number => (Text.word64? value).isSome

end OptionKind

structure OptionSpec where
  kind : OptionKind
  name : String
  letter : Option Char := none
deriving DecidableEq, Repr

/-- The given options with their values, in the order in which they stand. -/
abbrev Given := Keyed String

/-- Adds an option, unless it stops everything, has a bad value or is there already. -/
def give (o : OptionSpec) (value : String) (g : Given) : Except Stop Given :=
  match o.kind with
  | .help => .error .help
  | .version => .error .version
  | kind =>
    if kind.accepts value && (g.get? o.name).isNone then .ok (g.insert o.name value)
    else .error .usage

/-- Letters after one hyphen. The last one may be an option with its value attached, or one that still
waits for its value. -/
def letters (options : List OptionSpec) (g : Given) :
    List Char → Except Stop (Given × Option OptionSpec)
  | [] => .ok (g, none)
  | c :: rest =>
    match options.find? fun o => o.letter == some c with
    | none => .error .usage
    | some o =>
      if o.kind.takesValue then
        match rest with
        | [] => .ok (g, some o)
        | '=' :: value | value => do return (← give o (String.ofList value) g, none)
      else do letters options (← give o "" g) rest

/-- A long name after two hyphens, perhaps with its value attached. -/
def long (options : List OptionSpec) (g : Given) (s : List Char) :
    Except Stop (Given × Option OptionSpec) :=
  let (name, attached) := s.span (· != '=')
  match options.find? fun o => o.name == String.ofList name with
  | none => .error .usage
  | some o =>
    match o.kind.takesValue, attached with
    | true, _ :: value => do return (← give o (String.ofList value) g, none)
    | true, [] => .ok (g, some o)
    | false, [] => do return (← give o "" g, none)
    | false, _ :: _ => .error .usage

/-- Whether an argument is meant as an option. A lone hyphen is not. -/
def isOption (arg : String) : Bool :=
  match arg.toList with
  | '-' :: _ :: _ => true
  | _ => false

/-- The options at the front of some arguments, and what follows them. One option may wait for its
value. Nothing may follow a lone pair of hyphens. -/
def scan (options : List OptionSpec) (g : Given) :
    Option OptionSpec → List String → Except Stop (Given × List String)
  | none, [] => .ok (g, [])
  | some _, [] => .error .usage
  | some o, arg :: rest =>
    if isOption arg then .error .usage else do scan options (← give o arg g) none rest
  | none, arg :: rest =>
    match arg.toList with
    | ['-', '-'] => if rest.isEmpty then .ok (g, []) else .error .usage
    | '-' :: '-' :: name => do
      let (g, waiting) ← long options g name
      scan options g waiting rest
    | '-' :: c :: cs => do
      let (g, waiting) ← letters options g (c :: cs)
      scan options g waiting rest
    | _ => .ok (g, arg :: rest)

end ChainIndex.CommandLine
