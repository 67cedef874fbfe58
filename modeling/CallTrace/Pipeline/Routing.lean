/-! # Routing

The partition of a key is its FNV-1a hash of 64 bits, modulo the number of partitions.  So it
depends on nothing but the key and that number, and spans of one key always meet. -/

namespace CallTrace

/-- The FNV-1a hash of 64 bits. -/
def fnv1a (bytes : List UInt8) : UInt64 :=
  bytes.foldl (fun hash b => (hash ^^^ b.toUInt64) * 0x100000001b3) 0xcbf29ce484222325

/-- The partition of a key; no partition at all counts as one. -/
def partitionOf (key : String) (partitions : Nat) : Nat :=
  (fnv1a key.toUTF8.data.toList).toNat % max partitions 1

theorem partitionOf_lt (key : String) {partitions : Nat} (h : 0 < partitions) :
    partitionOf key partitions < partitions := by
  have : max partitions 1 = partitions := by omega
  unfold partitionOf
  rw [this]
  exact Nat.mod_lt _ h

end CallTrace
