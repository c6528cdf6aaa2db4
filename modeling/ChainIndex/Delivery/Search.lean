import ChainIndex.Query

/-!
# Search pages

The transactions of a block are searched for page by page.
-/

namespace ChainIndex.SearchPage

/-- Transactions on one page. -/
def size : Nat := 100

/-- The pages of a height with so many transactions. -/
def ofHeight (height : Height) (count : UInt64) : List SearchPage :=
  (List.range ((count.toNat + (size - 1)) / size)).map fun i =>
    { height, page := UInt32.ofNat (i + 1), perPage := UInt32.ofNat size }

end ChainIndex.SearchPage
