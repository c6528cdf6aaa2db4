import ChainIndex.Decoder
import ChainIndex.Delivery.Range
import ChainIndex.LogLevels
import ChainIndex.Node.Client

/-!
# Configuration

Settings come from a JSON file, from environment variables, or from both; variables override the
file. Every setting has a default.

* `WorkerConfig.withVariables`: a configuration with what the environment overrides.
* `WorkerConfig.validate`: whether it can be used.
-/

namespace ChainIndex

open Json (Codec Field Shape)

structure WorkerConfig where
  rpcUrl : String := "http://localhost:26657"
  lcdUrl : String := "http://localhost:1317"
  apiKey : Option String := none
  chainId : String := "columbus-4"
  /-- Stands for the generation that the chain id implies. -/
  chainVersion : Option ChainVersion := none
  requestsPerSecond : UInt32 := 33
  /-- Timeouts are in seconds. -/
  blockTimeout : UInt64 := 30
  searchTimeout : UInt64 := 30
  accountTimeout : UInt64 := 30
  /-- The most heights that a request for the newest blocks catches up on. -/
  window : UInt64 := 10000
  bigPage : UInt64 := 1000
  fetchers : UInt64 := 5
  fallback : Bool := true
  log : LogLevels := {}
deriving DecidableEq, Repr, Inhabited

namespace WorkerConfig

def shape : Shape WorkerConfig where
  empty := {}
  fields := [
    .defaulted "rpc_url" .text rpcUrl fun c v => { c with rpcUrl := v },
    .defaulted "lcd_url" .text lcdUrl fun c v => { c with lcdUrl := v },
    .defaulted "api_key" Codec.text.option apiKey fun c v => { c with apiKey := v },
    .defaulted "chain_id" .text chainId fun c v => { c with chainId := v },
    .defaulted "chain_version" ChainVersion.codec.option chainVersion
      fun c v => { c with chainVersion := v },
    .defaulted "requests_per_second" .word32 requestsPerSecond
      fun c v => { c with requestsPerSecond := v },
    .defaulted "timeout_block_call" .word64 blockTimeout fun c v => { c with blockTimeout := v },
    .defaulted "timeout_transaction_call" .word64 searchTimeout
      fun c v => { c with searchTimeout := v },
    .defaulted "timeout_lcd_call" .word64 accountTimeout fun c v => { c with accountTimeout := v },
    .defaulted "maximum_heights_to_get" .word64 window fun c v => { c with window := v },
    .defaulted "big_page" .word64 bigPage fun c v => { c with bigPage := v },
    .defaulted "fetch_workers" .word64 fetchers fun c v => { c with fetchers := v },
    .defaulted "codec_fallback" .bool fallback fun c v => { c with fallback := v },
    .defaulted "log" LogLevels.codec log fun c v => { c with log := v }]

def codec : Codec WorkerConfig := shape.codec

/-- The configuration that the text of a file holds. -/
def ofFile (text : String) : Except ConfigError WorkerConfig :=
  match (Json.parse? text).bind codec.read with
  | some c => .ok c
  | none => .error .file

/-! ## Environment variables -/

/-- What the names of all variables start with. -/
def variablePrefix : List Char := "TERRA_".toList

/-- A letter in lower case. Apart from the capital letters of ASCII, only the Kelvin sign becomes a
letter that a name can have. -/
def lower (c : Char) : Char :=
  if c = '\u212a' then 'k' else c.toLower

/-- A name without what it starts with, however often that stands there. -/
def stripped : Nat → List Char → List Char
  | 0, name => name
  | n + 1, name =>
    if variablePrefix.isPrefixOf name then stripped n (name.drop variablePrefix.length) else name

/-- The setting that a variable is for. -/
def settingName? (name : String) : Option String :=
  let cs := name.toList
  if variablePrefix.isPrefixOf cs then some (String.ofList ((stripped cs.length cs).map lower))
  else none

def word32? (s : String) : Option UInt32 :=
  (Text.unsigned? UInt32.size s.toList).map UInt32.ofNat

def bool? : String → Option Bool
  | "true" => some true
  | "false" => some false
  | _ => none

/-- How the settings are read from variables. -/
def settings : List (String × (String → WorkerConfig → Option WorkerConfig)) := [
  ("rpc_url", fun s c => some { c with rpcUrl := s }),
  ("lcd_url", fun s c => some { c with lcdUrl := s }),
  ("api_key", fun s c => some { c with apiKey := some s }),
  ("chain_id", fun s c => some { c with chainId := s }),
  ("chain_version", fun s c =>
    (ChainVersion.ofLabel? s).map fun v => { c with chainVersion := some v }),
  ("requests_per_second", fun s c => (word32? s).map fun n => { c with requestsPerSecond := n }),
  ("timeout_block_call", fun s c => (Text.word64? s).map fun n => { c with blockTimeout := n }),
  ("timeout_transaction_call", fun s c =>
    (Text.word64? s).map fun n => { c with searchTimeout := n }),
  ("timeout_lcd_call", fun s c => (Text.word64? s).map fun n => { c with accountTimeout := n }),
  ("maximum_heights_to_get", fun s c => (Text.word64? s).map fun n => { c with window := n }),
  ("big_page", fun s c => (Text.word64? s).map fun n => { c with bigPage := n }),
  ("fetch_workers", fun s c => (Text.word64? s).map fun n => { c with fetchers := n }),
  ("codec_fallback", fun s c => (bool? s).map fun b => { c with fallback := b }),
  ("log_level", fun s c => some { c with log := { c.log with level := s } }),
  ("log_json", fun s c => (bool? s).map fun b => { c with log := { c.log with json := b } })]

/-- A configuration with what the environment overrides. No setting may be given twice. -/
def withVariables (c : WorkerConfig) (environment : List (String × String)) :
    Except ConfigError WorkerConfig :=
  let given := environment.filterMap fun v => (settingName? v.1).map (·, v.2)
  let merged := settings.foldlM (fun c setting =>
    match given.filter fun v => v.1 == setting.1 with
    | [] => some c
    | [v] => setting.2 v.2 c
    | _ => none) c
  match merged with
  | some c => .ok c
  | none => .error .environment

/-! ## Use -/

def isWebUrl (url : String) : Bool :=
  "http://".toList.isPrefixOf url.toList || "https://".toList.isPrefixOf url.toList

/-- The numbers that have to be positive. -/
def limits (c : WorkerConfig) : List (String × UInt64) := [
  ("requests_per_second", c.requestsPerSecond.toUInt64),
  ("timeout_block_call", c.blockTimeout),
  ("timeout_transaction_call", c.searchTimeout),
  ("timeout_lcd_call", c.accountTimeout),
  ("maximum_heights_to_get", c.window),
  ("big_page", c.bigPage),
  ("fetch_workers", c.fetchers)]

def validate (c : WorkerConfig) : Except ConfigError Unit :=
  if !isWebUrl c.rpcUrl then .error (.url "rpc_url" c.rpcUrl)
  else if !isWebUrl c.lcdUrl then .error (.url "lcd_url" c.lcdUrl)
  else
    match c.limits.find? fun l => l.2 == 0 with
    | some l => .error (.notPositive l.1)
    | none => .ok ()

/-- The generation of the chain: the given one, or that of the chain id, or the default. -/
def version (c : WorkerConfig) : ChainVersion :=
  (c.chainVersion.orElse fun _ => ChainVersion.ofChainId? c.chainId).getD default

def client (c : WorkerConfig) : ClientConfig where
  version := c.version
  requestsPerSecond := c.requestsPerSecond.toNat
  blockTimeout := Clock.ofSeconds c.blockTimeout.toNat
  searchTimeout := Clock.ofSeconds c.searchTimeout.toNat
  accountTimeout := Clock.ofSeconds c.accountTimeout.toNat

def decoder (c : WorkerConfig) : Decoder where
  version := c.version
  fallback := c.fallback

def range (c : WorkerConfig) : RangeConfig where
  bigPage := c.bigPage
  window := c.window
  fetchers := c.fetchers.toNat

end WorkerConfig

end ChainIndex
