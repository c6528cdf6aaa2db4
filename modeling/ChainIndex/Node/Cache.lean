import ChainIndex.Chain.Block

/-!
# Recently fetched blocks

A cache holds a fixed number of blocks and forgets the oldest one to make room. A block that is there
is never overwritten. The blocks are looked up by their heights; which of them is the oldest is kept
apart from them.
-/

namespace ChainIndex

structure BlockCache where
  capacity : Nat := 400
  /-- The cached blocks, each at its height. -/
  blocks : List (Height × Block) := []
  /-- The cached heights in the order in which they were added, the oldest first. -/
  order : List Height := []
deriving DecidableEq, Repr

namespace BlockCache

/-- An empty cache with room for at least one block. -/
def ofCapacity (n : Nat) : BlockCache :=
  { capacity := max n 1 }

def get? (c : BlockCache) (height : Height) : Option Block :=
  c.blocks.lookup height

def contains (c : BlockCache) (height : Height) : Bool :=
  (c.get? height).isSome

def size (c : BlockCache) : Nat :=
  c.order.length

/-- Forgets the block that was added first. -/
def dropOldest (c : BlockCache) : BlockCache :=
  match c.order with
  | [] => c
  | oldest :: order => { c with blocks := c.blocks.filter (·.1 != oldest), order }

/-- Adds a block, and says whether its height was new. -/
def add (c : BlockCache) (b : Block) : Bool × BlockCache :=
  if c.contains b.height then (false, c)
  else
    let kept := if c.capacity ≤ c.size then c.dropOldest else c
    (true, { kept with blocks := (b.height, b) :: kept.blocks, order := kept.order ++ [b.height] })

/-- Offers blocks one after the other. -/
def offer (c : BlockCache) (bs : List Block) : BlockCache :=
  bs.foldl (fun c b => (c.add b).2) c

end BlockCache

end ChainIndex
