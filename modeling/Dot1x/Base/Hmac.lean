import Mathlib.Data.List.Basic

/-!
# Keyed hashing

The construction of a message authentication code from a hash function that works on blocks: the key
is padded to a block, and the message is hashed behind the key twice, with different pads.
-/

namespace Dot1x.Base

/-- The key, hashed if it is longer than a block, and padded with zeros to a block. -/
def hmacKey (hash : List UInt8 → List UInt8) (blockSize : ℕ) (key : List UInt8) : List UInt8 :=
  let key := if blockSize < key.length then hash key else key
  key ++ List.replicate (blockSize - key.length) 0

/-- The message authentication code. -/
def hmac (hash : List UInt8 → List UInt8) (blockSize : ℕ) (key text : List UInt8) : List UInt8 :=
  let padded := hmacKey hash blockSize key
  hash (padded.map (· ^^^ 0x5c) ++ hash (padded.map (· ^^^ 0x36) ++ text))

end Dot1x.Base
