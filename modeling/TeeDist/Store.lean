import TeeDist.Layout
import TeeDist.Lib.Prog

/-!
# Memory nodes as stores of slots

A compute node reaches a memory node through three session calls, `read_region`,
`write_region` and `cas64`, and uses them only on slots: it reads a whole slot,
writes the body of a slot (everything after the guard epoch), or swaps a guard
epoch.  `Call` is that interface and `Net` its signature.  Each call can fail in
transport.

The calls have two meanings.  `regionHandler` computes byte offsets from the
session headers and runs the sections of `layout.c` on the mapped bytes.
`storeHandler` works on a `Store`, which has a slot at every address.
`TeeDist.Refinement` shows that on regions large enough for their headers the
first behaves as the second.  The results about whole runs are stated over
stores, or over regions where the layout matters.
-/

namespace TeeDist

open Bytes Calls

/-- A slot of a memory node. -/
structure Addr where
  /-- The memory node, by the index of the session to it. -/
  mn : Nat
  kind : RegionKind
  /-- The index in the array of its kind. -/
  idx : Nat
deriving DecidableEq, Repr

/-- The session calls of a compute node. -/
inductive Call where
  /-- `read_region` of one slot. -/
  | readRegion (a : Addr)
  /-- `write_region` of the body of one slot. -/
  | writeRegion (a : Addr) (body : Slot)
  /-- `cas64` on the guard epoch of one slot. -/
  | cas64 (a : Addr) (compare swap : UInt64)

/-- Replies.  `none` is a transport failure, and `cas64` replies the old word. -/
abbrev Call.Reply : Call → Type
  | .readRegion _ => Option Slot
  | .writeRegion _ _ => Option Unit
  | .cas64 _ _ _ => Option UInt64

/-- The interface between compute nodes and memory nodes. -/
abbrev Net : Signature := ⟨Call, Call.Reply⟩

/-- The slot a call is about. -/
def Call.addr : Call → Addr
  | .readRegion a => a
  | .writeRegion a _ => a
  | .cas64 a _ _ => a

/-- `session->read_region` on a slot. -/
def readRegion (a : Addr) : Prog Net (Option Slot) := .call (.readRegion a) .ret

/-- `session->write_region` on the body of a slot. -/
def writeRegion (a : Addr) (body : Slot) : Prog Net (Option Unit) := .call (.writeRegion a body) .ret

/-- `session->cas64` on the guard epoch of a slot. -/
def cas64 (a : Addr) (compare swap : UInt64) : Prog Net (Option UInt64) :=
  .call (.cas64 a compare swap) .ret

/-! ## Stores -/

/-- The slots of all memory nodes, and the header words a memory node changes
while it runs. -/
@[ext] structure Store where
  slot : Addr → Slot
  evictionCursor : Nat → UInt64
  cacheUsage : Nat → UInt64

/-- The store of freshly opened memory nodes. -/
def Store.fresh : Store := ⟨fun _ => .zero, fun _ => 0, fun _ => 0⟩

/-- Overwrite one slot. -/
def Store.setSlot (st : Store) (a : Addr) (s : Slot) : Store :=
  { st with slot := Function.update st.slot a s }

/-- The array of slots of one kind of one memory node. -/
def Store.table (st : Store) (mn : Nat) (kind : RegionKind) : Nat → Slot :=
  fun i => st.slot ⟨mn, kind, i⟩

/-- A slot with another slot's body. -/
def Slot.withBody (s body : Slot) : Slot := { body with guardEpoch := s.guardEpoch }

/-- A slot with another guard epoch. -/
def Slot.withGuard (s : Slot) (epoch : UInt64) : Slot := { s with guardEpoch := epoch }

/-- What the session calls do to a store, no transport failing. -/
def storeHandler : Handler Net Store
  | .readRegion a, st => (some (st.slot a), st)
  | .writeRegion a body, st => (some (), st.setSlot a ((st.slot a).withBody body))
  | .cas64 a compare swap, st =>
      (some (st.slot a).guardEpoch,
        if (st.slot a).guardEpoch = compare then st.setSlot a ((st.slot a).withGuard swap) else st)

/-! ## Regions -/

/-- What the session calls do to the regions of the memory nodes.  `header mn` is
the header the session to `mn` received with `HELLO`. -/
def regionHandler (header : Nat → RegionHeader) : Handler Net (Nat → Region)
  | .readRegion a, rs =>
      match (rs a.mn).readBytes (slotOffsetForIndex (header a.mn) a.kind a.idx) slotBytes with
      | none => (none, rs)
      | some bs => (some (Slot.ofBytes bs), rs)
  | .writeRegion a body, rs =>
      let offset := (slotOffsetForIndex (header a.mn) a.kind a.idx + bodyOffset) % sizeModulus
      match (rs a.mn).writeBytes offset (body.toBytes.drop bodyOffset) with
      | none => (none, rs)
      | some r => (some (), Function.update rs a.mn r)
  | .cas64 a compare swap, rs =>
      match (rs a.mn).cas64 (slotOffsetForIndex (header a.mn) a.kind a.idx) compare swap with
      | none => (none, rs)
      | some (observed, r) => (some observed, Function.update rs a.mn r)

/-! ## Eviction on a store -/

/-- The number of counted slots among the first `n` of a memory node's cache. -/
def Store.countUsed (st : Store) (mn : Nat) : Nat → Nat
  | 0 => 0
  | n + 1 => st.countUsed mn n + if (st.table mn .cache n).counted then 1 else 0

/-- `td_region_count_cache_usage`. -/
def Store.countCacheUsage (st : Store) (mn total : Nat) : Nat × Store :=
  (st.countUsed mn total,
    { st with
      cacheUsage := Function.update st.cacheUsage mn (UInt64.ofNat (st.countUsed mn total)) })

/-- One turn of the loop of `td_region_evict_if_needed`. -/
def Store.evictTurn (st : Store) (mn : Nat) (total : UInt64) (target : Nat) : Nat × Store :=
  let a : Addr := ⟨mn, .cache, (st.evictionCursor mn % total).toNat⟩
  let cleared := if (st.slot a).valid then st.setSlot a .zero else st
  (if (st.slot a).valid then target - 1 else target,
    { cleared with
      evictionCursor := Function.update st.evictionCursor mn ((st.evictionCursor mn + 1) % total) })

/-- At most `fuel` turns of the loop.  `none` if the target is not reached. -/
def Store.evictTurns (mn : Nat) (total : UInt64) : Nat → Nat → Store → Option Store
  | _, 0, st => some st
  | 0, _ + 1, _ => none
  | fuel + 1, target + 1, st =>
      Store.evictTurns mn total fuel (st.evictTurn mn total (target + 1)).1
        (st.evictTurn mn total (target + 1)).2

/-- `td_region_evict_if_needed`, uninterrupted, its loop given `fuel` turns. -/
def Store.evictIfNeeded (mn : Nat) (total : UInt64) (fuel thresholdPct : Nat) (st : Store) :
    Option Store :=
  if total.toNat = 0 then some st
  else
    match evictionTarget (st.countCacheUsage mn total.toNat).1 total.toNat thresholdPct with
    | none => some (st.countCacheUsage mn total.toNat).2
    | some target =>
        (Store.evictTurns mn total fuel target (st.countCacheUsage mn total.toNat).2).map
          fun st' => (st'.countCacheUsage mn total.toNat).2

end TeeDist
