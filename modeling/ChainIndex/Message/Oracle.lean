import ChainIndex.Message.Context

/-!
# Messages of the price oracle
-/

namespace ChainIndex.Message.Oracle

open Wire (Bytes Field Layout)

structure RateVote where
  /-- An integer, `10 ^ 18` times the rate. -/
  rate : String := ""
  salt : String := ""
  denom : String := ""
  feeder : Bytes := []
  validator : Bytes := []
deriving DecidableEq, Repr, Inhabited

def RateVote.layout : Layout RateVote where
  name := "MsgExchangeRateVote"
  empty := {}
  fields := [
    .single .text 1 "exchange_rate" rate fun m v => { m with rate := v },
    .single .text 2 "salt" salt fun m v => { m with salt := v },
    .single .text 3 "denom" denom fun m v => { m with denom := v },
    .single .blob 4 "feeder" feeder fun m v => { m with feeder := v },
    .single .blob 5 "validator" validator fun m v => { m with validator := v }]

structure RatePrevote where
  digest : Bytes := []
  denom : String := ""
  feeder : Bytes := []
  validator : Bytes := []
deriving DecidableEq, Repr, Inhabited

def RatePrevote.layout : Layout RatePrevote where
  name := "MsgExchangeRatePrevote"
  empty := {}
  fields := [
    .single .blob 1 "hash" digest fun m v => { m with digest := v },
    .single .text 2 "denom" denom fun m v => { m with denom := v },
    .single .blob 3 "feeder" feeder fun m v => { m with feeder := v },
    .single .blob 4 "validator" validator fun m v => { m with validator := v }]

structure DelegateFeeder where
  operator : Bytes := []
  delegate : Bytes := []
deriving DecidableEq, Repr, Inhabited

def DelegateFeeder.layout : Layout DelegateFeeder where
  name := "MsgDelegateFeedConsent"
  empty := {}
  fields := [
    .single .blob 1 "operator" operator fun m v => { m with operator := v },
    .single .blob 2 "delegate" delegate fun m v => { m with delegate := v }]

structure AggregatePrevote where
  digest : Bytes := []
  feeder : Bytes := []
  validator : Bytes := []
deriving DecidableEq, Repr, Inhabited

def AggregatePrevote.layout : Layout AggregatePrevote where
  name := "MsgAggregateExchangeRatePrevote"
  empty := {}
  fields := [
    .single .blob 1 "hash" digest fun m v => { m with digest := v },
    .single .blob 2 "feeder" feeder fun m v => { m with feeder := v },
    .single .blob 3 "validator" validator fun m v => { m with validator := v }]

structure AggregateVote where
  salt : String := ""
  rates : String := ""
  feeder : Bytes := []
  validator : Bytes := []
deriving DecidableEq, Repr, Inhabited

def AggregateVote.layout : Layout AggregateVote where
  name := "MsgAggregateExchangeRateVote"
  empty := {}
  fields := [
    .single .text 1 "salt" salt fun m v => { m with salt := v },
    .single .text 2 "exchange_rates" rates fun m v => { m with rates := v },
    .single .blob 3 "feeder" feeder fun m v => { m with feeder := v },
    .single .blob 4 "validator" validator fun m v => { m with validator := v }]

/-- An event with the validator and its feeder, who stand in every vote. -/
def voted (kind : MessageKind) (c : Context) (validator feeder : Bytes) : Mapped Event := do
  let validator ← c.validator "validator" validator
  let feeder ← c.account "feeder" feeder
  return eventOf kind
    |>.withNode "validator" validator
    |>.withNode "feeder" feeder

def rateVote (c : Context) (payload : Bytes) : Mapped Event := do
  let m ← readAs RateVote.layout "MsgExchangeRateVote" payload
  let rate ← fixedPoint "exchange_rate" m.denom m.rate
  let e ← voted .oracleExchangeRateVote c m.validator m.feeder
  return e.withAmount "exchangeRate" rate |>.withText "salt" m.salt

def ratePrevote (c : Context) (payload : Bytes) : Mapped Event := do
  let m ← readAs RatePrevote.layout "MsgExchangeRatePrevote" payload
  let e ← voted .oracleExchangeRatePrevote c m.validator m.feeder
  return e.withAmount "denom" (denomOnly m.denom) |>.withText "hash" (c.hexText m.digest)

def delegateFeeder (c : Context) (payload : Bytes) : Mapped Event := do
  let m ← readAs DelegateFeeder.layout "MsgDelegateFeedConsent" payload
  let operator ← c.validator "operator" m.operator
  let delegate ← c.account "delegate" m.delegate
  return eventOf .oracleDelegateFeeder
    |>.withNode "operator" operator
    |>.withNode "delegate" delegate

def aggregatePrevote (c : Context) (payload : Bytes) : Mapped Event := do
  let m ← readAs AggregatePrevote.layout "MsgAggregateExchangeRatePrevote" payload
  let e ← voted .oracleAggregateExchangeRatePrevote c m.validator m.feeder
  return e.withText "hash" (c.hexText m.digest)

/-- The rates of an aggregate vote, one per denomination. -/
def ratesOf (rates : String) : List String :=
  (Text.fields (· == ',') rates.toList).map String.ofList

def aggregateVote (c : Context) (payload : Bytes) : Mapped Event := do
  let m ← readAs AggregateVote.layout "MsgAggregateExchangeRateVote" payload
  let e ← voted .oracleAggregateExchangeRateVote c m.validator m.feeder
  return e.withText "salt" m.salt |>.withAdditional "exchangeRates" (ratesOf m.rates)

end ChainIndex.Message.Oracle
