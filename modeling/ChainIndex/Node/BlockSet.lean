import ChainIndex.Chain.Block

/-!
# Sets of blocks

The blocks of a range as they come in, at most one per height, with the number of their transactions
and the lowest and highest height that were seen.
-/

namespace ChainIndex

structure BlockSet where
  /-- In the order of their heights. -/
  blocks : List Block := []
  transactionCount : UInt64 := 0
  /-- The lowest height seen; zero also where none was. -/
  lowest : Height := 0
  /-- The highest height seen; zero also where none was. -/
  highest : Height := 0
deriving DecidableEq, Repr

namespace BlockSet

def get? (s : BlockSet) (height : Height) : Option Block :=
  s.blocks.find? (·.height == height)

def size (s : BlockSet) : Nat :=
  s.blocks.length

def isEmpty (s : BlockSet) : Bool :=
  s.blocks.isEmpty

/-- Puts a block in its place among blocks in the order of their heights, in place of one at the same
height. -/
def place (b : Block) : List Block → List Block
  | [] => [b]
  | c :: rest =>
    if b.height = c.height then b :: rest
    else if b.height < c.height then b :: c :: rest
    else c :: place b rest

/-- Adds a block, in place of one at the same height. -/
def insert (s : BlockSet) (b : Block) : BlockSet :=
  let replaced := ((s.get? b.height).map Block.transactionCount).getD 0
  { blocks := place b s.blocks
    transactionCount := s.transactionCount - replaced + b.transactionCount
    lowest := if s.lowest = 0 ∨ b.height < s.lowest then b.height else s.lowest
    highest := if s.highest = 0 ∨ s.highest < b.height then b.height else s.highest }

def extend (s : BlockSet) (bs : List Block) : BlockSet :=
  bs.foldl insert s

end BlockSet

end ChainIndex
