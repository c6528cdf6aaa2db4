import ChainIndex.Message.Context
import ChainIndex.Text.Base64

/-!
# Inter-chain messages: shared parts

These messages exist in one encoding only and carry their addresses as text. Proofs are told as
base64, packet data as text, and wrapped values by their type URL.
-/

namespace ChainIndex.Message.Ibc

open Wire (Bytes Field Layout)

structure Height where
  revisionNumber : UInt64 := 0
  revisionHeight : UInt64 := 0
deriving DecidableEq, Repr, Inhabited

def Height.layout : Layout Height where
  name := "IbcHeight"
  empty := {}
  fields := [
    .single .word64 1 "revision_number" revisionNumber fun m v => { m with revisionNumber := v },
    .single .word64 2 "revision_height" revisionHeight fun m v => { m with revisionHeight := v }]

structure MerklePrefix where
  keyPrefix : Bytes := []
deriving DecidableEq, Repr, Inhabited

def MerklePrefix.layout : Layout MerklePrefix where
  name := "MerklePrefix"
  empty := {}
  fields := [
    .single .blob 1 "key_prefix" keyPrefix fun m v => { m with keyPrefix := v }]

structure ConnectionCounterparty where
  clientId : String := ""
  connectionId : String := ""
  commitmentPrefix : Option MerklePrefix := none
deriving DecidableEq, Repr, Inhabited

def ConnectionCounterparty.layout : Layout ConnectionCounterparty where
  name := "ConnectionCounterparty"
  empty := {}
  fields := [
    .single .text 1 "client_id" clientId fun m v => { m with clientId := v },
    .single .text 2 "connection_id" connectionId fun m v => { m with connectionId := v },
    .message MerklePrefix.layout 3 "prefix" commitmentPrefix
      fun m v => { m with commitmentPrefix := v }]

structure ConnectionVersion where
  identifier : String := ""
  features : List String := []
deriving DecidableEq, Repr, Inhabited

def ConnectionVersion.layout : Layout ConnectionVersion where
  name := "ConnectionVersion"
  empty := {}
  fields := [
    .single .text 1 "identifier" identifier fun m v => { m with identifier := v },
    .repeated .text 2 "features" features fun m v => { m with features := v }]

structure ChannelCounterparty where
  portId : String := ""
  channelId : String := ""
deriving DecidableEq, Repr, Inhabited

def ChannelCounterparty.layout : Layout ChannelCounterparty where
  name := "ChannelCounterparty"
  empty := {}
  fields := [
    .single .text 1 "port_id" portId fun m v => { m with portId := v },
    .single .text 2 "channel_id" channelId fun m v => { m with channelId := v }]

structure Channel where
  state : Int32 := 0
  ordering : Int32 := 0
  counterparty : Option ChannelCounterparty := none
  connectionHops : List String := []
  version : String := ""
deriving DecidableEq, Repr, Inhabited

def Channel.layout : Layout Channel where
  name := "Channel"
  empty := {}
  fields := [
    .single .int32 1 "state" state fun m v => { m with state := v },
    .single .int32 2 "ordering" ordering fun m v => { m with ordering := v },
    .message ChannelCounterparty.layout 3 "counterparty" counterparty
      fun m v => { m with counterparty := v },
    .repeated .text 4 "connection_hops" connectionHops fun m v => { m with connectionHops := v },
    .single .text 5 "version" version fun m v => { m with version := v }]

structure Packet where
  sequence : UInt64 := 0
  sourcePort : String := ""
  sourceChannel : String := ""
  destinationPort : String := ""
  destinationChannel : String := ""
  data : Bytes := []
  timeoutHeight : Option Height := none
  timeoutTimestamp : UInt64 := 0
deriving DecidableEq, Repr, Inhabited

def Packet.layout : Layout Packet where
  name := "Packet"
  empty := {}
  fields := [
    .single .word64 1 "sequence" sequence fun m v => { m with sequence := v },
    .single .text 2 "source_port" sourcePort fun m v => { m with sourcePort := v },
    .single .text 3 "source_channel" sourceChannel fun m v => { m with sourceChannel := v },
    .single .text 4 "destination_port" destinationPort fun m v => { m with destinationPort := v },
    .single .text 5 "destination_channel" destinationChannel
      fun m v => { m with destinationChannel := v },
    .single .blob 6 "data" data fun m v => { m with data := v },
    .message Height.layout 7 "timeout_height" timeoutHeight
      fun m v => { m with timeoutHeight := v },
    .single .word64 8 "timeout_timestamp" timeoutTimestamp
      fun m v => { m with timeoutTimestamp := v }]

/-- An event with the account that relayed the message. -/
def signed (kind : MessageKind) (signer : String) : Event :=
  (eventOf kind).withNode "signer" { id := signer }

end ChainIndex.Message.Ibc

namespace ChainIndex.Event

open Message.Ibc

def withProof (e : Event) (key : String) (raw : Wire.Bytes) : Event :=
  e.withText key (Text.Base64.encode raw)

/-- The type of a wrapped value, empty if it is absent. -/
def withPacked (e : Event) (key : String) (value : Option Protobuf.Packed) : Event :=
  e.withText key ((value.map Protobuf.Packed.typeUrl).getD "")

/-- Both numbers of a height on another chain. -/
def withHeight (e : Event) (key : String) (value : Option Message.Ibc.Height) : Event :=
  let h := value.getD {}
  e |>.withText (key ++ "_revision_number") (toString h.revisionNumber.toNat)
    |>.withText (key ++ "_revision_height") (toString h.revisionHeight.toNat)

def withConnectionVersion (e : Event) (value : Option ConnectionVersion) : Event :=
  let v := value.getD {}
  e |>.withText "version_identifier" v.identifier
    |>.withAdditional "version_features" v.features

def withConnectionCounterparty (e : Event) (value : Option ConnectionCounterparty) : Event :=
  let c := value.getD {}
  e |>.withText "counterparty_client_id" c.clientId
    |>.withText "counterparty_connection_id" c.connectionId
    |>.withText "counterparty_prefix"
      (Text.Utf8.lossy ((c.commitmentPrefix.map MerklePrefix.keyPrefix).getD []))

def withChannel (e : Event) (value : Option Channel) : Event :=
  let c := value.getD {}
  let counterparty := c.counterparty.getD {}
  e |>.withText "channel_state" (toString c.state.toInt)
    |>.withText "channel_ordering" (toString c.ordering.toInt)
    |>.withText "channel_counterparty_port_id" counterparty.portId
    |>.withText "channel_counterparty_channel_id" counterparty.channelId
    |>.withAdditional "channel_connection_hops" c.connectionHops
    |>.withText "channel_version" c.version

def withPacket (e : Event) (value : Option Packet) : Event :=
  let p := value.getD {}
  e |>.withText "packet_sequence" (toString p.sequence.toNat)
    |>.withText "packet_source_port" p.sourcePort
    |>.withText "packet_source_channel" p.sourceChannel
    |>.withText "packet_destination_port" p.destinationPort
    |>.withText "packet_destination_channel" p.destinationChannel
    |>.withText "packet_data" (Text.Utf8.lossy p.data)
    |>.withHeight "packet_timeout_height" p.timeoutHeight
    |>.withText "packet_timeout_stamp" (toString p.timeoutTimestamp.toNat)

end ChainIndex.Event
