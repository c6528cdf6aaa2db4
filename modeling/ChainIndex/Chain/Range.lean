import ChainIndex.Chain.Block

/-!
# Ranges of heights

* `HeightRange.split`: consecutive parts of at most a page each.
-/

namespace ChainIndex

/-- The heights from `first` to `last`, both included. A `last` of zero asks for the newest blocks. -/
structure HeightRange where
  first : Height := 0
  last : Height := 0
  chainId : String := ""
  network : String := ""
deriving DecidableEq, Repr, Inhabited

namespace HeightRange

/-- The pairs of first and last numbers of consecutive parts of `extra + 1` numbers each, except
perhaps the last part. -/
def cuts (extra first last : Nat) : List (Nat × Nat) :=
  if last < first then []
  else
    let stop := min (first + extra) last
    (first, stop) :: cuts extra (stop + 1) last
termination_by last + 1 - first
decreasing_by omega

/-- Consecutive parts of at most `page` heights; a page of zero counts as one. -/
def split (r : HeightRange) (page : UInt64) : List HeightRange :=
  (cuts (page.toNat - 1) r.first.toNat r.last.toNat).map fun (first, last) =>
    { r with first := UInt64.ofNat first, last := UInt64.ofNat last }

open Json (Codec Field Shape)

def shape : Shape HeightRange where
  empty := {}
  fields := [
    .required "start_height" .word64 first fun r v => { r with first := v },
    .required "end_height" .word64 last fun r v => { r with last := v },
    .defaulted "chain_id" .text chainId fun r v => { r with chainId := v },
    .defaulted "network" .text network fun r v => { r with network := v }]

def codec : Codec HeightRange := shape.codec

end HeightRange

end ChainIndex
