import TeeDist.Common
import TeeDist.Lib.Bytes

/-!
# Region layout and local access

`td_layout.h` and `layout.c`.  A memory node maps one region: a header of eleven
64-bit words, then the `PRIME`, `CACHE` and `BACKUP` arrays of slots.  Here are
the slot and header records with their byte images, the offsets both sides
compute from a header, and the critical sections of a memory node on its bytes:
reads, writes, compare-and-swap, the cache usage count and the eviction loop.

All offset arithmetic is that of `size_t`, so it is taken modulo `sizeModulus`.
Words are little-endian, as on the x86-64 machines the Makefile builds for.
-/

namespace TeeDist

open Bytes

/-! ## Slots -/

/-- `td_slot_t`. -/
structure Slot where
  guardEpoch : UInt64
  visibleEpoch : UInt64
  keyHash : UInt64
  tieBreaker : UInt64
  flags : UInt32
  valueLen : UInt32
  iv : Vector UInt8 16
  mac : Vector UInt8 32
  ciphertext : Vector UInt8 256
deriving DecidableEq

/-- A slot of zero bytes. -/
def Slot.zero : Slot where
  guardEpoch := 0
  visibleEpoch := 0
  keyHash := 0
  tieBreaker := 0
  flags := 0
  valueLen := 0
  iv := Vector.replicate 16 0
  mac := Vector.replicate 32 0
  ciphertext := Vector.replicate 256 0

/-- `flags & TD_SLOT_FLAG_VALID`. -/
def Slot.valid (s : Slot) : Bool := s.flags &&& slotFlagValid != 0

/-- `flags & TD_SLOT_FLAG_TOMBSTONE`. -/
def Slot.tombstone (s : Slot) : Bool := s.flags &&& slotFlagTombstone != 0

/-- `sizeof(td_slot_t)`.  Its fields leave no padding. -/
def slotBytes : Nat := 344

/-- `offsetof(td_slot_t, visible_epoch)`. -/
def bodyOffset : Nat := 8

/-- The bytes of a slot in memory. -/
def Slot.toBytes (s : Slot) : List UInt8 :=
  ofUInt64 s.guardEpoch ++ (ofUInt64 s.visibleEpoch ++ (ofUInt64 s.keyHash ++
    (ofUInt64 s.tieBreaker ++ (ofUInt32 s.flags ++ (ofUInt32 s.valueLen ++
      (s.iv.toList ++ (s.mac.toList ++ s.ciphertext.toList)))))))

/-- `n` bytes of a list as a fixed array. -/
def vectorAt (n : Nat) (bs : List UInt8) (off : Nat) : Vector UInt8 n :=
  Vector.ofFn fun i => (bs.drop off).getD i 0

/-- The slot whose bytes are given. -/
def Slot.ofBytes (bs : List UInt8) : Slot where
  guardEpoch := toUInt64 ((bs.drop 0).take 8)
  visibleEpoch := toUInt64 ((bs.drop 8).take 8)
  keyHash := toUInt64 ((bs.drop 16).take 8)
  tieBreaker := toUInt64 ((bs.drop 24).take 8)
  flags := toUInt32 ((bs.drop 32).take 4)
  valueLen := toUInt32 ((bs.drop 36).take 4)
  iv := vectorAt 16 bs 40
  mac := vectorAt 32 bs 56
  ciphertext := vectorAt 256 bs 88

/-! ## Headers and offsets -/

/-- `td_region_header_t`. -/
structure RegionHeader where
  magic : UInt64
  version : UInt64
  nodeId : UInt64
  primeSlotCount : UInt64
  cacheSlotCount : UInt64
  backupSlotCount : UInt64
  maxValueSize : UInt64
  cacheUsage : UInt64
  evictionCursor : UInt64
  cacheMode : UInt64
  regionSize : UInt64
deriving DecidableEq

/-- `sizeof(td_region_header_t)`. -/
def headerBytes : Nat := 88

/-- The header at the start of a region. -/
def RegionHeader.ofMem (mem : Mem) : RegionHeader where
  magic := toUInt64 (load mem 0 8)
  version := toUInt64 (load mem 8 8)
  nodeId := toUInt64 (load mem 16 8)
  primeSlotCount := toUInt64 (load mem 24 8)
  cacheSlotCount := toUInt64 (load mem 32 8)
  backupSlotCount := toUInt64 (load mem 40 8)
  maxValueSize := toUInt64 (load mem 48 8)
  cacheUsage := toUInt64 (load mem 56 8)
  evictionCursor := toUInt64 (load mem 64 8)
  cacheMode := toUInt64 (load mem 72 8)
  regionSize := toUInt64 (load mem 80 8)

/-- The bytes of a header. -/
def RegionHeader.toBytes (h : RegionHeader) : List UInt8 :=
  ofUInt64 h.magic ++ (ofUInt64 h.version ++ (ofUInt64 h.nodeId ++ (ofUInt64 h.primeSlotCount ++
    (ofUInt64 h.cacheSlotCount ++ (ofUInt64 h.backupSlotCount ++ (ofUInt64 h.maxValueSize ++
      (ofUInt64 h.cacheUsage ++ (ofUInt64 h.evictionCursor ++ (ofUInt64 h.cacheMode ++
        ofUInt64 h.regionSize)))))))))

/-- `td_region_kind_slot_count`. -/
def kindSlotCount (header : RegionHeader) : RegionKind → Nat
  | .prime => header.primeSlotCount.toNat
  | .cache => header.cacheSlotCount.toNat
  | .backup => header.backupSlotCount.toNat

/-- `td_region_kind_base_offset`. -/
def kindBaseOffset (header : RegionHeader) : RegionKind → Nat
  | .prime => headerBytes
  | .cache => (headerBytes + header.primeSlotCount.toNat * slotBytes) % sizeModulus
  | .backup =>
      ((headerBytes + header.primeSlotCount.toNat * slotBytes) % sizeModulus +
        header.cacheSlotCount.toNat * slotBytes) % sizeModulus

/-- `td_region_slot_index`: the home of a key hash. -/
def slotIndex (header : RegionHeader) (kind : RegionKind) (keyHash : UInt64) : Nat :=
  let count := kindSlotCount header kind
  if count = 0 then 0 else keyHash.toNat % count

/-- `td_region_slot_offset_for_index`. -/
def slotOffsetForIndex (header : RegionHeader) (kind : RegionKind) (slotIndex : Nat) : Nat :=
  (kindBaseOffset header kind + slotIndex * slotBytes) % sizeModulus

/-! ## Regions -/

/-- `td_local_region_t`: the mapped bytes.  The lock is what makes each of the
sections below one step. -/
structure Region where
  /-- `mapped_bytes`. -/
  mappedBytes : Nat
  /-- The bytes from `base` on, by their offsets over the integers.  A pointer `base + offset`
  of the code wraps around: past `2 ^ 64` it is in the mapping again, which the offsets here do
  not follow.  Only requests whose check is fooled get there (`Escapes`). -/
  mem : Mem

/-- The header a region holds now. -/
def Region.header (region : Region) : RegionHeader := RegionHeader.ofMem region.mem

/-- What `td_region_open` takes from a memory node's configuration. -/
structure RegionConfig where
  /-- `mn_memory_size`. -/
  mnMemorySize : UInt64
  nodeId : Int
  primeSlots : UInt64
  cacheSlots : UInt64
  backupSlots : UInt64
  maxValueSize : UInt64
  /-- `cache`, as the number `cache_mode` stores. -/
  cacheMode : UInt64

/-- The header `td_region_open` writes. -/
def RegionConfig.header (cfg : RegionConfig) : RegionHeader where
  magic := projectMagic
  version := 1
  nodeId := if cfg.nodeId < 0 then 0 else UInt64.ofInt cfg.nodeId
  primeSlotCount := cfg.primeSlots
  cacheSlotCount := cfg.cacheSlots
  backupSlotCount := cfg.backupSlots
  maxValueSize := cfg.maxValueSize
  cacheUsage := 0
  evictionCursor := 0
  cacheMode := cfg.cacheMode
  regionSize := cfg.mnMemorySize

/-- `td_region_open`, once the mapping has succeeded: zero bytes and a header. -/
def Region.create (cfg : RegionConfig) : Region where
  mappedBytes := cfg.mnMemorySize.toNat
  mem := store (fun _ => 0) 0 cfg.header.toBytes

/-- `td_region_read_bytes`. -/
def Region.readBytes (region : Region) (offset len : Nat) : Option (List UInt8) :=
  if (offset + len) % sizeModulus > region.mappedBytes then none
  else some (load region.mem offset len)

/-- `td_region_write_bytes`. -/
def Region.writeBytes (region : Region) (offset : Nat) (bs : List UInt8) : Option Region :=
  if (offset + bs.length) % sizeModulus > region.mappedBytes then none
  else some { region with mem := store region.mem offset bs }

/-- `td_region_cas64`: the old word, and the region with the new one if the old
one was as expected. -/
def Region.cas64 (region : Region) (offset : Nat) (compare swap : UInt64) :
    Option (UInt64 × Region) :=
  if (offset + 8) % sizeModulus > region.mappedBytes ∨ offset % 8 ≠ 0 then none
  else
    let observed := toUInt64 (load region.mem offset 8)
    if observed = compare then
      some (observed, { region with mem := store region.mem offset (ofUInt64 swap) })
    else some (observed, region)

/-- `td_region_slot_ptr`: the slot a pointer into the region points at. -/
def Region.slot (region : Region) (kind : RegionKind) (slotIndex : Nat) : Slot :=
  Slot.ofBytes (load region.mem (slotOffsetForIndex region.header kind slotIndex) slotBytes)

/-- Overwrite the slot a pointer into the region points at. -/
def Region.setSlot (region : Region) (kind : RegionKind) (slotIndex : Nat) (s : Slot) : Region :=
  { region with
    mem := store region.mem (slotOffsetForIndex region.header kind slotIndex) s.toBytes }

/-! ## Eviction -/

/-- A cache slot the usage count counts. -/
def Slot.counted (s : Slot) : Bool := s.valid && s.guardEpoch == s.visibleEpoch

/-- The number of counted slots among the first `n` of the cache. -/
def Region.countUsed (region : Region) : Nat → Nat
  | 0 => 0
  | n + 1 => region.countUsed n + if (region.slot .cache n).counted then 1 else 0

/-- `td_region_count_cache_usage`. -/
def Region.countCacheUsage (region : Region) : Nat × Region :=
  let used := region.countUsed region.header.cacheSlotCount.toNat
  (used, { region with mem := store region.mem 56 (ofUInt64 (UInt64.ofNat used)) })

/-- One turn of the loop of `td_region_evict_if_needed`: clear the slot under the
cursor if it is valid, and move the cursor on.  Returns what is left of the
target. -/
def Region.evictTurn (region : Region) (target : Nat) : Nat × Region :=
  let total := region.header.cacheSlotCount
  let idx := (region.header.evictionCursor % total).toNat
  let cleared := if (region.slot .cache idx).valid then region.setSlot .cache idx .zero else region
  let target' := if (region.slot .cache idx).valid then target - 1 else target
  (target', { cleared with
    mem := store cleared.mem 64
      (ofUInt64 ((cleared.header.evictionCursor + 1) % cleared.header.cacheSlotCount)) })

/-- At most `fuel` turns of the loop.  `none` if the target is not reached. -/
def Region.evictTurns : Nat → Nat → Region → Option Region
  | _, 0, region => some region
  | 0, _ + 1, _ => none
  | fuel + 1, target + 1, region =>
      Region.evictTurns fuel (region.evictTurn (target + 1)).1 (region.evictTurn (target + 1)).2

/-- The slots one eviction is to clear, given the usage count.  `none` if the
usage is below the threshold. -/
def evictionTarget (used total thresholdPct : Nat) : Option Nat :=
  if used * 100 % sizeModulus < thresholdPct * total % sizeModulus then none
  else some (if used / 4 = 0 then 1 else used / 4)

/-- `td_region_evict_if_needed`, uninterrupted, its loop given `fuel` turns. -/
def Region.evictIfNeeded (fuel thresholdPct : Nat) (region : Region) : Option Region :=
  let total := region.header.cacheSlotCount.toNat
  if total = 0 then some region
  else
    match evictionTarget region.countCacheUsage.1 total thresholdPct with
    | none => some region.countCacheUsage.2
    | some target =>
        (Region.evictTurns fuel target region.countCacheUsage.2).map fun r => r.countCacheUsage.2

end TeeDist
