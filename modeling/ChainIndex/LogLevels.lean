import ChainIndex.Json.Shape
import ChainIndex.Keyed

/-!
# Log levels

How much each component writes to the program's own log.

* `LogLevels.directives`: the levels as one filter text.
-/

namespace ChainIndex

structure LogLevels where
  /-- The level of every component that has none of its own. -/
  level : String := "info"
  components : Keyed String := []
  /-- Whether records are written as JSON. -/
  json : Bool := false
deriving DecidableEq, Repr, Inhabited

namespace LogLevels

open Json (Codec Field Shape)

def development : LogLevels :=
  { level := "debug" }

/-- The name of a component as a filter spells it. -/
def moduleName (component : String) : String :=
  component.map fun c => if c = '-' then '_' else c

/-- The general level, then those of the components in the order of their names. -/
def directives (l : LogLevels) : String :=
  let ordered := l.components.mergeSort fun a b => a.1 ≤ b.1
  ordered.foldl (fun text p => s!"{text},{moduleName p.1}={p.2}") l.level

def shape : Shape LogLevels where
  empty := {}
  fields := [
    .defaulted "level" .text level fun l v => { l with level := v },
    .defaulted "components" (Keyed.codec .text) components fun l v => { l with components := v },
    .defaulted "json" .bool json fun l v => { l with json := v }]

def codec : Codec LogLevels := shape.codec

end LogLevels

end ChainIndex
