/-
The messages of a transfer between a gateway and the bridge.
-/
import Mathlib

namespace Bridgething

namespace Gateway

abbrev Uuid := BitVec 128

abbrev Bytes := List UInt8

structure TransferRef where
  id : Uuid
  totalSize : UInt32
  sha256 : Option String
deriving Repr, DecidableEq

structure TransferFragment where
  transferId : Uuid
  offset : UInt32
  bytes : Bytes
deriving Repr, DecidableEq

structure TransferAck where
  transferId : Uuid
  received : UInt32
deriving Repr, DecidableEq

structure TransferAbandon where
  transferId : Uuid
  reason : String
deriving Repr, DecidableEq

end Gateway

end Bridgething
