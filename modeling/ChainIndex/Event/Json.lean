import ChainIndex.Amount.Json
import ChainIndex.Event.Basic

/-!
# Events in JSON

Empty maps and lists and an absent error are left out.
-/

namespace ChainIndex

open Json (Codec Field Shape)

namespace Description

def shape : Shape Description where
  empty := {}
  fields := [
    .required "moniker" .text moniker fun d v => { d with moniker := v },
    .required "identity" .text identity fun d v => { d with identity := v },
    .required "website" .text website fun d v => { d with website := v },
    .required "security_contact" .text securityContact fun d v => { d with securityContact := v },
    .required "details" .text details fun d v => { d with details := v }]

def codec : Codec Description := shape.codec

end Description

namespace Account

def shape : Shape Account where
  empty := {}
  fields := [
    .required "id" .text id fun a v => { a with id := v },
    .omitted "details" Description.codec.option details (fun a v => { a with details := v })
      Option.isNone]

def codec : Codec Account := shape.codec

end Account

namespace Movement

def shape : Shape Movement where
  empty := {}
  fields := [
    .required "account" Account.codec account fun m v => { m with account := v },
    .defaulted "amounts" (.list Amount.codec) amounts fun m v => { m with amounts := v }]

def codec : Codec Movement := shape.codec

end Movement

namespace Event

/-- The message of a failure as a record of its own. -/
def errorShape : Shape String where
  empty := ""
  fields := [.required "message" .text (fun s => s) fun _ v => v]

/-- The fields of an event, given the codec of its wrapped events. -/
def shape (sub : Codec Event) : Shape Event where
  empty := {}
  fields := [
    .defaulted "type" (.list .text) types fun e v => { e with types := v },
    .defaulted "module" .text module fun e v => { e with module := v },
    .omitted "node" (Keyed.codec (.list Account.codec)) nodes
      (fun e v => { e with nodes := v }) List.isEmpty,
    .omitted "sender" (.list Movement.codec) senders
      (fun e v => { e with senders := v }) List.isEmpty,
    .omitted "recipient" (.list Movement.codec) recipients
      (fun e v => { e with recipients := v }) List.isEmpty,
    .omitted "amount" (Keyed.codec Amount.codec) amounts
      (fun e v => { e with amounts := v }) List.isEmpty,
    .omitted "additional" (Keyed.codec (.list .text)) additional
      (fun e v => { e with additional := v }) List.isEmpty,
    .omitted "transfers" (Keyed.codec (.list Movement.codec)) transfers
      (fun e v => { e with transfers := v }) List.isEmpty,
    .omitted "sub" (.list sub) Event.sub (fun e v => { e with sub := v }) List.isEmpty,
    .omitted "error" errorShape.codec.option error
      (fun e v => { e with error := v }) Option.isNone]

/-- The codec of events nested at most `n` deep. -/
def codecTo : Nat → Codec Event
  | 0 => ⟨fun _ => .null, fun _ => none⟩
  | n + 1 => (shape (codecTo n)).codec

def codec : Codec Event where
  write e := (codecTo e.depth).write e
  read j := (codecTo j.depth).read j

end Event

namespace TransactionEvent

def shape : Shape TransactionEvent where
  empty := {}
  fields := [
    .required "id" .text id fun e v => { e with id := v },
    .required "kind" .text kind fun e v => { e with kind := v },
    .defaulted "sub" (.list Event.codec) sub fun e v => { e with sub := v }]

def codec : Codec TransactionEvent := shape.codec

end TransactionEvent

end ChainIndex
