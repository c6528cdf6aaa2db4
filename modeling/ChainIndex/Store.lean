import ChainIndex.Keyed
import ChainIndex.Node.BlockSet
import ChainIndex.Task.Error
import ChainIndex.Transaction

/-!
# Stores

A store keeps blocks and transactions, and knows the heights that are done. Callers confirm a height
once its block and its transactions are there.

* `MemoryStore`: a store without a disk.
-/

namespace ChainIndex

/-- What a store can be asked to do. -/
structure Store (κ : Type) where
  putBlocks : List Block → κ → Except StoreError Unit × κ
  putTransactions : List Transaction → κ → Except StoreError Unit × κ
  /-- Marks the heights of blocks as done. -/
  confirm : List Block → κ → Except StoreError Unit × κ

structure MemoryStore where
  /-- At most one block per height, in the order of the heights. -/
  blocks : List Block := []
  /-- Transactions by their hash. -/
  transactions : Keyed Transaction := []
  /-- The heights that are done, in their order. -/
  confirmed : List Height := []
deriving Repr

namespace MemoryStore

def block? (s : MemoryStore) (height : Height) : Option Block :=
  s.blocks.find? (·.height == height)

def isConfirmed (s : MemoryStore) (height : Height) : Bool :=
  s.confirmed.contains height

def putBlocks (s : MemoryStore) (bs : List Block) : MemoryStore :=
  { s with blocks := bs.foldl (fun blocks b => BlockSet.place b blocks) s.blocks }

def putTransactions (s : MemoryStore) (ts : List Transaction) : MemoryStore :=
  { s with transactions := ts.foldl (fun (m : Keyed Transaction) t => m.insert t.hash t) s.transactions }

/-- Puts a height in its place, if it is not there yet. -/
def place (h : Height) : List Height → List Height
  | [] => [h]
  | k :: rest => if h = k then k :: rest else if h < k then h :: k :: rest else k :: place h rest

/-- Confirms one height after the other, up to the first one whose block is not there. -/
def confirm (s : MemoryStore) : List Block → Except StoreError Unit × MemoryStore
  | [] => (.ok (), s)
  | b :: rest =>
    if (s.block? b.height).isSome then
      confirm { s with confirmed := place b.height s.confirmed } rest
    else (.error (.unstored b.height), s)

def store : Store MemoryStore where
  putBlocks bs s := (.ok (), s.putBlocks bs)
  putTransactions ts s := (.ok (), s.putTransactions ts)
  confirm bs s := s.confirm bs

end MemoryStore

end ChainIndex
