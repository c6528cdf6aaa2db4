import ChainIndex.Activity.Basic
import ChainIndex.Chain.Range
import ChainIndex.Node.Error
import ChainIndex.Query
import ChainIndex.Transaction

/-!
# Sources of chain data

What tasks ask of a node, whatever answers them. Every question may fail, takes time, and may change
the state of the world. Several may be asked at the same time.
-/

namespace ChainIndex

structure Source (σ : Type) where
  /-- The block at a height, or the newest one for height zero. -/
  block : Height → Deadline → Activity σ (Except NodeError Block)
  /-- Blocks of a range, at most so many if a limit is given. -/
  blocks : HeightRange → UInt64 → Deadline → Activity σ (Except NodeError (List Block))
  /-- One page of the transactions of a height. -/
  search : SearchPage → Deadline → Activity σ (Except NodeError (List RawTransaction))
  reward : AccountQuery → Deadline → Activity σ (Except NodeError Reward)
  balance : AccountQuery → Deadline → Activity σ (Except NodeError Balance)
  delegations : AccountQuery → Deadline → Activity σ (Except NodeError Delegations)

end ChainIndex
