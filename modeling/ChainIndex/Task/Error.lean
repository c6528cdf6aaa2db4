import ChainIndex.Chain.Block
import ChainIndex.Node.Error
import ChainIndex.Text.Quoted

/-!
# Failures of tasks
-/

namespace ChainIndex

/-- Why a request cannot be carried out. -/
inductive RequestError where
  /-- The payload has the wrong form, with the words of its reader. -/
  | malformedPayload (reason : String)
  | endIsZero
  | inverted (first last : Height)
  | emptyAccount
deriving DecidableEq, Repr

def RequestError.message : RequestError → String
  | malformedPayload reason => s!"cannot unmarshal payload: {reason}"
  | endIsZero => "end height is zero"
  | inverted first last => s!"start height {first} is above end height {last}"
  | emptyAccount => "empty account"

/-- Why a store did not do what it was asked for. -/
inductive StoreError where
  /-- There is no store. -/
  | absent
  /-- A height was to be confirmed whose block is not there. -/
  | unstored (height : Height)
  | refused (text : String)
deriving DecidableEq, Repr

def StoreError.message : StoreError → String
  | absent => "no store session configured"
  | unstored height => s!"height {height} confirmed before its block was stored"
  | refused text => text

/-- Why a response did not arrive. -/
inductive SinkError where
  | outputClosed
  | receiverClosed
deriving DecidableEq, Repr

def SinkError.message : SinkError → String
  | outputClosed => "output closed"
  | receiverClosed => "response receiver closed"

/-- Why a configuration cannot be used. -/
inductive ConfigError where
  /-- The file is missing or has the wrong form. -/
  | file
  /-- A variable has the wrong form or is given twice. -/
  | environment
  | url (name value : String)
  | notPositive (name : String)
deriving DecidableEq, Repr

def ConfigError.message : ConfigError → String
  | file => "unusable configuration file"
  | environment => "unusable environment variable"
  | url name value => s!"{name} must be an http(s) URL, got {Text.quoted value}"
  | notPositive name => s!"{name} must be positive"

/-- What is missing from a range. -/
inductive Missing where
  | blocks
  | transactions
deriving DecidableEq, Repr

def Missing.label : Missing → String
  | blocks => "Errors Getting Blocks"
  | transactions => "Errors Getting Transactions"

inductive WorkerError where
  | node (source : NodeError)
  /-- Parts of a range could not be had; each part says why. -/
  | incomplete (what : Missing) (parts : List String)
  | request (source : RequestError)
  | store (source : StoreError)
  | sink (source : SinkError)
  | config (source : ConfigError)
deriving DecidableEq, Repr

namespace WorkerError

/-- One text for all parts, each with a comma after it. -/
def joined (head : String) (parts : List String) : String :=
  parts.foldl (fun text part => text ++ part ++ " , ") (head ++ ": - ")

def message : WorkerError → String
  | node source => source.message
  | incomplete what parts => joined what.label parts
  | request source => s!"invalid request: {source.message}"
  | store source => s!"store error: {source.message}"
  | sink source => s!"sink error: {source.message}"
  | config source => s!"configuration error: {source.message}"

end WorkerError

end ChainIndex
