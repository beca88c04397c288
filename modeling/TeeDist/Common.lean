import Mathlib.Data.List.Basic

/-!
# Common definitions

The constants of `td_common.h`, the hash of `common.c`, and the data every other
module speaks of.  Keys are C strings, so a key is the bytes before its
terminating zero.  A `size_t` is a natural number, taken modulo `sizeModulus`
where the source computes with it.
-/

namespace TeeDist

/-- A logical key: the bytes of a C string before the terminating zero. -/
abbrev Key := List UInt8

/-- A plaintext value. -/
abbrev Value := List UInt8

/-- `TD_MAX_VALUE_SIZE`. -/
def maxValueSize : Nat := 256

/-- `TD_SLOT_FLAG_VALID`. -/
def slotFlagValid : UInt32 := 0x1

/-- `TD_SLOT_FLAG_TOMBSTONE`. -/
def slotFlagTombstone : UInt32 := 0x2

/-- `TD_PROJECT_MAGIC`. -/
def projectMagic : UInt64 := 0x5444444953544b56

/-- The number of values of a `size_t`. -/
def sizeModulus : Nat := 0x10000000000000000

/-- `td_transport_t`. -/
inductive Transport where
  | tcp
  | rdma
deriving DecidableEq, Repr

/-- `td_region_kind_t`. -/
inductive RegionKind where
  | prime
  | cache
  | backup
deriving DecidableEq, Repr

/-- The number of a region kind, as error messages print it. -/
def RegionKind.number : RegionKind → Nat
  | .prime => 0
  | .cache => 1
  | .backup => 2

/-- `td_hash64_bytes`. -/
def hash64Bytes (bytes : List UInt8) : UInt64 :=
  bytes.foldl (fun hash byte => (hash ^^^ byte.toUInt64) * 1099511628211) 1469598103934665603

/-- `td_hash64_string`. -/
def hash64String (text : Key) : UInt64 := hash64Bytes text

end TeeDist
