import ChainIndex.CommandLine.Command
import ChainIndex.Config
import ChainIndex.Indexer
import ChainIndex.Json.Printer
import ChainIndex.Node.Source

/-!
# Running a command

A command writes lines to standard output and ends with an exit code: zero, one after a failure, two
if the arguments are wrong. Responses are lines of JSON.

* `Invocation.run`: what a command does.
* `Invocation.settings`: the configuration that it does it with.
-/

namespace ChainIndex.CommandLine

structure Output where
  code : Nat := 0
  lines : List String := []
  /-- What went wrong. -/
  problem : Option String := none
deriving DecidableEq, Repr

/-- What a command finds around it, with the state `ν` of the node. -/
structure Surroundings (ν : Type) where
  /-- The text of the configuration file, if one is asked for and can be read. -/
  file : Option String := none
  environment : List (String × String) := []
  /-- The identifier of the task that the command starts. -/
  id : TaskId := default
  transport : Request → Instant → ν → Exchange × ν
  node : ν

/-- A node that nothing reaches. -/
def unreachable {ν : Type} (_ : Request) (now : Instant) (node : ν) : Exchange × ν :=
  ({ outcome := .error (.network "no connection"), finished := now }, node)

def programName : String := "terraindex"

def programVersion : String := "0.2.0"

def usageText : List String := [
  "Usage: " ++ programName ++ " [OPTIONS] <COMMAND>",
  "Commands: " ++ ", ".intercalate (Command.all.map (·.name)),
  "Options: --config <PATH>, --verbose, --help, --version"]

/-- What is written when arguments do not lead to a command. -/
def Stop.output : Stop → Output
  | .help => { lines := usageText }
  | .version => { lines := [s!"{programName} {programVersion}"] }
  | .usage => { code := 2, problem := some ("\n".intercalate usageText) }

def failed (problem : String) : Output :=
  { code := 1, problem := some problem }

/-- The configuration as lines of text. -/
def infoLines (c : WorkerConfig) : List String := [
  s!"{programName} v{programVersion}",
  s!"  RPC endpoint:         {c.rpcUrl}",
  s!"  LCD endpoint:         {c.lcdUrl}",
  s!"  Chain id:             {c.chainId}",
  s!"  Chain version:        {c.version.label}",
  s!"  Codecs:               {c.version.primary.label} (fallback " ++
    (if c.fallback then "on)" else "off)"),
  s!"  Requests per second:  {c.requestsPerSecond}",
  s!"  Big page:             {c.bigPage} heights",
  s!"  Latest window:        {c.window} heights",
  s!"  Fetch workers:        {c.fetchers}"]

/-- The fee and the events of a transaction as one line, its names in order. -/
def decodeOutput (d : Decoder) (tx log : String) : Output :=
  let decoded : Except DecodeError Json := do
    let fee ← d.decodeFee tx
    let events ← d.decodeEvents tx log
    return .object [
      ("events", .array (events.value.map TransactionEvent.codec.write)),
      ("fee", .array (fee.map Amount.codec.write))]
  match decoded with
  | .ok j => { lines := [(j.canonical?.getD j).print] }
  | .error e => failed e.message

/-- A sink that keeps responses as lines, the newest first. -/
def lineSink : Sink (List String) where
  accept r lines := (.ok (), (TaskResponse.codec.write r).print :: lines)

/-- The name of the network that ranges are asked for in. -/
def network : String := "terra"

/-- The task of a command that is one. -/
def task? (c : WorkerConfig) : Command → Option (TaskType × Json)
  | .range first last => some (.transactions,
      HeightRange.codec.write { first, last, chainId := c.chainId, network })
  | .latest lastHeight => some (.latest, LatestQuery.codec.write { lastHeight })
  | .mark => some (.latestMark, .object [])
  | .reward q => some (.reward, AccountQuery.codec.write q)
  | .balance q => some (.balance, AccountQuery.codec.write q)
  | .delegations q => some (.delegations, AccountQuery.codec.write q)
  | .block _ | .decode _ _ | .info => none

namespace Invocation

/-- The configuration: that of the file, or the default one, with what variables and arguments
override. -/
def settings (i : Invocation) (file : Option String) (environment : List (String × String)) :
    Except ConfigError WorkerConfig := do
  let base ← match i.config, file with
    | none, _ => pure {}
    | some _, some text => WorkerConfig.ofFile text
    | some _, none => throw .file
  let c ← base.withVariables environment
  let c := if i.verbose then { c with log := { c.log with level := "debug" } } else c
  c.validate
  return c

variable {ν : Type} (x : Surroundings ν)

def indexer (c : WorkerConfig) (transport : Request → Instant → ν → Exchange × ν) :
    Indexer (Session Float ν) where
  source := Client.source { config := c.client, transport }
  decoder := c.decoder
  config := c.range

/-- Fetches and stores a height, and writes the block and its transactions. -/
def storeOutput (c : WorkerConfig) (height : Height) : Output :=
  let work : Work (Session Float ν) MemoryStore :=
    { world := .start c.client x.node, other := {} }
  match ((indexer c x.transport).storeHeight (some MemoryStore.store) height).run.run work with
  | (.ok (b, txs), _) =>
    { lines := (Block.codec.write b).print :: txs.map fun t => (Transaction.codec.write t).print }
  | (.error e, _) => failed e.message

/-- Carries out a task, and writes its responses. -/
def taskOutput (c : WorkerConfig) (type : TaskType) (payload : Json) : Output :=
  let r : TaskRequest := { id := x.id, type := type.label, payload }
  let work : Work (Session Float ν) (List String) :=
    { world := .start c.client x.node, other := [] }
  match ((indexer c x.transport).handle lineSink r).run work with
  | (.ok (), w) => { lines := w.other.reverse }
  | (.error e, w) =>
    { failed (WorkerError.sink e).message with lines := w.other.reverse }

def run (i : Invocation) : Output :=
  match i.settings x.file x.environment with
  | .error e => failed (WorkerError.config e).message
  | .ok c =>
    match i.command with
    | .info => { lines := infoLines c }
    | .decode tx log => decodeOutput c.decoder tx log
    | .block height => storeOutput x c height
    | command =>
      match task? c command with
      | some (type, payload) => taskOutput x c type payload
      | none => {}

end Invocation

end ChainIndex.CommandLine
