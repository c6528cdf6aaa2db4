import ChainIndex.CommandLine.Run

/-!
# The program

Reads the arguments, the environment and the configuration file, and writes what the command says.
No connection to a node is made, so whatever a node is asked for ends in an error.
-/

open ChainIndex ChainIndex.CommandLine

/-- The variables that the configuration knows. -/
def givenVariables : IO (List (String × String)) := do
  let names := WorkerConfig.settings.map fun s =>
    String.ofList WorkerConfig.variablePrefix ++ s.1.toUpper
  let found ← names.mapM fun name => do
    return (← IO.getEnv name).map fun value => (name, value)
  return found.filterMap id

/-- The text of a file that can be read. -/
def readText (path : String) : IO (Option String) := do
  try return some (← IO.FS.readFile path) catch _ => return none

def output (args : List String) : IO Output := do
  match Invocation.parse args with
  | .error stop => return stop.output
  | .ok i =>
    let file ← match i.config with
      | some path => readText path
      | none => pure none
    let bits ← IO.rand 0 ((1 <<< 128) - 1)
    let x : Surroundings Unit :=
      { file, environment := ← givenVariables, id := .ofRandom bits, transport := unreachable,
        node := () }
    return i.run x

def main (args : List String) : IO UInt32 := do
  let o ← output args
  for line in o.lines do
    IO.println line
  if let some problem := o.problem then
    IO.eprintln problem
  return UInt32.ofNat o.code
