import ChainIndex.Delivery.Source
import ChainIndex.Node.Client

/-!
# A node as a source

Tasks ask a node through a client.
-/

namespace ChainIndex.Client

variable {τ ν : Type} [Quantity τ]

def source (c : Client ν) : Source (Session τ ν) where
  block height deadline := (c.block height deadline).run
  blocks range limit deadline := (c.blocks range limit deadline).run
  search page deadline := (c.search page deadline).run
  reward q deadline := (c.reward q deadline).run
  balance q deadline := (c.balance q deadline).run
  delegations q deadline := (c.delegations q deadline).run

end ChainIndex.Client
