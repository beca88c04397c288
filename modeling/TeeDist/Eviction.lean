import TeeDist.Lib.Sweep
import TeeDist.Refinement

/-!
# Evictions that end

The loop of `td_region_evict_if_needed` is a sweep of the cache (`Sweep.sweep`).  It ends if and
only if as many slots are valid as it is to clear (`Region.Models.evict_ends_iff`).  How many
these are, the call has computed from an earlier count, in another section of the mutex.

`Evictions` is the machine of any number of such calls, with one step for each section of the
mutex and for each turn of a loop.  In its runs all loops end if and only if whoever takes the
lock finds enough valid slots (`evictions_end_iff`).  Two calls that count before either of them
clears can leave one of them in its loop, with the lock, for ever (`eviction_spins`).  A call that
nobody interrupts can do so only on an empty cache, with a threshold of zero
(`Region.evictIfNeeded_ends_iff`).

A larger system takes its steps by sections of calls (`Evictions.Section`).  Exactly the caller whose
loop is being run holds the lock (`Evictions.Held`), and a call that ends alone makes its sections up
to its return (`Evictions.exists_returns`).
-/

namespace TeeDist

open Bytes Sweep

/-! ## The loop on a store -/

/-- The cache of a memory node and its eviction cursor. -/
def Store.clock (st : Store) (mn : Nat) (total : UInt64) : Clock Slot :=
  ⟨st.table mn .cache, (st.evictionCursor mn % total).toNat⟩

/-- The number of valid slots in the cache of a memory node. -/
def Store.validSlots (st : Store) (mn : Nat) (total : UInt64) : Nat :=
  liveCount Slot.valid total.toNat (st.table mn .cache)

section Store

variable {st : Store} {mn : Nat} {total : UInt64}

theorem Slot.zero_not_valid : Slot.zero.valid = false := rfl

theorem Store.clock_hand_lt (st : Store) (mn : Nat) (hpos : 0 < total.toNat) :
    (st.clock mn total).hand < total.toNat := by
  rw [Store.clock, UInt64.toNat_mod]
  exact Nat.mod_lt _ hpos

theorem Store.evictTurn_left (st : Store) (mn : Nat) (total : UInt64) (target : Nat) :
    (st.evictTurn mn total target).1 = (st.clock mn total).left Slot.valid target := rfl

theorem Store.evictTurn_table (st : Store) (mn : Nat) (total : UInt64) (target : Nat) :
    (st.evictTurn mn total target).2.table mn .cache =
      ((st.clock mn total).turn Slot.valid .zero total.toNat).table := by
  unfold Clock.turn
  have hslot : st.slot ⟨mn, .cache, (st.evictionCursor mn % total).toNat⟩ =
      (st.clock mn total).table (st.clock mn total).hand := rfl
  simp only [Store.evictTurn, hslot]
  split
  · exact st.table_setSlot_self mn .cache _ .zero
  · rfl

theorem Store.evictTurn_cursor (st : Store) (mn : Nat) (total : UInt64) (target : Nat) :
    (st.evictTurn mn total target).2.evictionCursor mn = (st.evictionCursor mn + 1) % total := by
  simp [Store.evictTurn]

/-- A turn leaves the cursor inside of the cache. -/
theorem Store.evictTurn_cursor_lt (st : Store) (mn : Nat) (hpos : 0 < total.toNat) (target : Nat) :
    ((st.evictTurn mn total target).2.evictionCursor mn).toNat < total.toNat := by
  rw [Store.evictTurn_cursor, UInt64.toNat_mod]
  exact Nat.mod_lt _ hpos

/-- One turn of the loop is one of the hand, if the cursor is inside of the cache. -/
theorem Store.evictTurn_clock (hcursor : (st.evictionCursor mn).toNat < total.toNat) (target : Nat) :
    (st.evictTurn mn total target).2.clock mn total =
      (st.clock mn total).turn Slot.valid .zero total.toNat := by
  have hlt := total.toNat_lt
  refine Clock.ext (st.evictTurn_table mn total target) ?_
  simp only [Store.clock, Clock.turn, Store.evictTurn_cursor, UInt64.toNat_mod, UInt64.toNat_add,
    UInt64.toNat_one]
  rw [Nat.mod_mod, Nat.mod_eq_of_lt hcursor, Nat.mod_eq_of_lt (by omega : _ < 2 ^ 64)]

/-- The loop is a sweep, if the cursor is inside of the cache. -/
theorem Store.evictTurns_clock :
    ∀ (fuel target : Nat) {st : Store}, (st.evictionCursor mn).toNat < total.toNat →
      (Store.evictTurns mn total fuel target st).map (Store.clock · mn total) =
        sweep Slot.valid .zero total.toNat fuel target (st.clock mn total)
  | _, 0, st, _ => by
      rw [Store.evictTurns, sweep]
      rfl
  | 0, target + 1, st, _ => by
      rw [Store.evictTurns, sweep]
      rfl
  | fuel + 1, target + 1, st, hcursor => by
      rw [Store.evictTurns, sweep, ← Store.evictTurn_clock hcursor (target + 1),
        ← Store.evictTurn_left]
      exact Store.evictTurns_clock fuel _ (st.evictTurn_cursor_lt mn (by omega) _)

/-- A turn takes as much off the target as it takes off the valid slots. -/
theorem Store.validSlots_evictTurn (st : Store) (mn : Nat) (hpos : 0 < total.toNat) {target : Nat}
    (htarget : 0 < target) :
    (st.evictTurn mn total target).2.validSlots mn total + target =
      st.validSlots mn total + (st.evictTurn mn total target).1 := by
  rw [Store.validSlots, Store.evictTurn_table, Store.evictTurn_left]
  exact liveCount_turn Slot.zero_not_valid (st.clock_hand_lt mn hpos) htarget

/-- Turns are enough from a state if they are enough after a turn. -/
theorem Store.evict_ends_succ {target : Nat} :
    (∃ fuel st', Store.evictTurns mn total fuel (target + 1) st = some st') ↔
      ∃ fuel st', Store.evictTurns mn total fuel (st.evictTurn mn total (target + 1)).1
        (st.evictTurn mn total (target + 1)).2 = some st' := by
  constructor
  · rintro ⟨fuel, st', h⟩
    cases fuel with
    | zero =>
        rw [Store.evictTurns] at h
        cases h
    | succ fuel => exact ⟨fuel, st', h⟩
  · rintro ⟨fuel, st', h⟩
    exact ⟨fuel + 1, st', h⟩

/-- The loop ends if and only if as many slots are valid as it is to clear. -/
theorem Store.evict_ends_iff (hpos : 0 < total.toNat) (target : Nat) :
    (∃ fuel st', Store.evictTurns mn total fuel target st = some st') ↔
      target ≤ st.validSlots mn total := by
  have hinside : ∀ (target : Nat) {st : Store}, (st.evictionCursor mn).toNat < total.toNat →
      ((∃ fuel st', Store.evictTurns mn total fuel target st = some st') ↔
        target ≤ st.validSlots mn total) := by
    intro target st hcursor
    refine Iff.trans ?_ (sweep_ends_iff Slot.zero_not_valid (st.clock_hand_lt mn hpos) target)
    simp only [← Store.evictTurns_clock _ _ hcursor, Option.map_eq_some_iff]
    exact ⟨fun ⟨fuel, st', h⟩ => ⟨fuel, _, st', h, rfl⟩, fun ⟨fuel, _, st', h, _⟩ => ⟨fuel, st', h⟩⟩
  cases target with
  | zero => exact ⟨fun _ => Nat.zero_le _, fun _ => ⟨0, st, rfl⟩⟩
  | succ target =>
      rw [Store.evict_ends_succ, hinside _ (st.evictTurn_cursor_lt mn hpos _)]
      have := st.validSlots_evictTurn mn hpos (Nat.zero_lt_succ target)
      rw [Nat.succ_eq_add_one] at this
      omega

end Store

/-! ## The loop on a region -/

/-- The number of valid slots in the cache of a region. -/
def Region.validSlots (region : Region) : Nat :=
  liveCount Slot.valid region.header.cacheSlotCount.toNat (region.slot .cache)

/-- A region large enough for its header, as a deployment of its own. -/
def Region.deployment (region : Region) (hfits : region.header.Fits region.mappedBytes) : Deployment :=
  { Deployment.sample with
    header := fun _ => region.header
    mapped := fun _ => region.mappedBytes
    fits := fun _ => hfits }

/-- What a region holds, as a store. -/
def Region.toStore (region : Region) : Store where
  slot a := region.slot a.kind a.idx
  evictionCursor _ := region.header.evictionCursor
  cacheUsage _ := region.header.cacheUsage

section Region

variable {d : Deployment} {mn : Nat} {r : Region} {st : Store}

theorem Region.models_toStore (hmapped : r.mappedBytes = d.mapped mn)
    (hcounts : ∀ kind, kindSlotCount r.header kind = d.slots mn kind) : r.Models d mn r.toStore where
  mapped := hmapped
  counts := hcounts
  slot _ _ _ := rfl
  cursor := rfl
  usage := rfl

theorem Region.Models.validSlots (hm : r.Models d mn st) :
    r.validSlots = st.validSlots mn (d.header mn).cacheSlotCount := by
  rw [Region.validSlots, hm.cacheSlotCount]
  exact liveCount_congr fun i hi => by
    rw [hm.slot .cache i hi]
    rfl

theorem exists_some_iff {α β : Type} {rel : α → β → Prop} {a : Option α} {b : Option β}
    (h : Option.Rel rel a b) : (∃ x, a = some x) ↔ ∃ y, b = some y := by
  cases h with
  | some _ => simp
  | none => simp

/-- The loop of a region is that of its store. -/
theorem Region.Models.evictTurns (hpos : 0 < d.slots mn .cache) :
    ∀ (fuel target : Nat) {r : Region} {st : Store}, r.Models d mn st →
      Option.Rel (fun r' st' => r'.Models d mn st') (Region.evictTurns fuel target r)
        (Store.evictTurns mn (d.header mn).cacheSlotCount fuel target st)
  | _, 0, r, st, hm => by
      rw [Region.evictTurns, Store.evictTurns]
      exact .some hm
  | 0, target + 1, r, st, _ => by
      rw [Region.evictTurns, Store.evictTurns]
      exact .none
  | fuel + 1, target + 1, r, st, hm => by
      obtain ⟨hleft, hnext⟩ := hm.evictTurn hpos (target + 1)
      rw [Region.evictTurns, Store.evictTurns, hleft]
      exact Region.Models.evictTurns hpos fuel _ hnext

/-- The loop ends if and only if as many slots are valid as it is to clear. -/
theorem Region.Models.evict_ends_iff (hm : r.Models d mn st) (hpos : 0 < d.slots mn .cache)
    (target : Nat) :
    (∃ fuel r', Region.evictTurns fuel target r = some r') ↔ target ≤ r.validSlots := by
  rw [hm.validSlots, ← Store.evict_ends_iff hpos target]
  exact exists_congr fun fuel => exists_some_iff (hm.evictTurns hpos fuel target)

end Region

/-! ## Calls side by side -/

/-- Where a call of `td_region_evict_if_needed` is. -/
inductive EvictCall where
  /-- It has not been made, or has returned. -/
  | idle
  /-- It has counted, and waits for the lock to clear `target` slots. -/
  | counted (target : Nat)
  /-- It holds the lock and has `target` slots left to clear. -/
  | clearing (target : Nat)
  /-- It has released the lock, and is to count once more. -/
  | cleared
deriving DecidableEq

/-- `td_region_evict_if_needed` up to the end of its first count, and the test behind it. -/
def Region.beginEvict (region : Region) (thresholdPct : UInt64) : EvictCall × Region :=
  let total := region.header.cacheSlotCount.toNat
  if total = 0 then (.idle, region)
  else
    match evictionTarget region.countCacheUsage.1 total thresholdPct.toNat with
    | none => (.idle, region.countCacheUsage.2)
    | some target => (.counted target, region.countCacheUsage.2)

/-- A call returns after its first count, or goes on to its loop. -/
theorem Region.beginEvict_cases (region : Region) (thresholdPct : UInt64) :
    (region.beginEvict thresholdPct).1 = .idle ∨
      ∃ target, (region.beginEvict thresholdPct).1 = .counted target := by
  unfold Region.beginEvict
  simp only []
  split
  · exact .inl rfl
  · split
    · exact .inl rfl
    · exact .inr ⟨_, rfl⟩

/-- A call does not begin in its loop. -/
theorem Region.beginEvict_not_clearing (region : Region) (thresholdPct : UInt64) (target : Nat) :
    (region.beginEvict thresholdPct).1 ≠ .clearing target := by
  intro h
  obtain hidle | ⟨_, hcounted⟩ := region.beginEvict_cases thresholdPct
  · cases hidle.symm.trans h
  · cases hcounted.symm.trans h

/-- The first section of a call changes nothing or counts. -/
theorem Region.beginEvict_region (region : Region) (thresholdPct : UInt64) :
    (region.beginEvict thresholdPct).2 = region ∨
      (region.beginEvict thresholdPct).2 = region.countCacheUsage.2 := by
  unfold Region.beginEvict
  simp only []
  split
  · exact .inl rfl
  · split
    · exact .inr rfl
    · exact .inr rfl

/-- A call that nobody interrupts, by its sections. -/
theorem Region.evictIfNeeded_eq (fuel : Nat) (thresholdPct : UInt64) (region : Region) :
    region.evictIfNeeded fuel thresholdPct.toNat =
      match region.beginEvict thresholdPct with
      | (.counted target, counted) =>
          (Region.evictTurns fuel target counted).map fun r => r.countCacheUsage.2
      | (_, counted) => some counted := by
  simp only [Region.evictIfNeeded, Region.beginEvict]
  split
  · rfl
  · cases evictionTarget region.countCacheUsage.1 region.header.cacheSlotCount.toNat
      thresholdPct.toNat with
    | none => rfl
    | some target => rfl

section Uninterrupted

variable {d : Deployment} {mn : Nat} {r : Region} {st : Store}

/-- A slot that counts is valid. -/
theorem Region.countUsed_le (r : Region) (n : Nat) :
    r.countUsed n ≤ liveCount Slot.valid n (r.slot .cache) := by
  induction n with
  | zero => exact Nat.zero_le _
  | succ n ih =>
      simp only [Region.countUsed, liveCount, Nat.count_succ, Slot.counted, Bool.and_eq_true] at ih ⊢
      by_cases hvalid : (r.slot .cache n).valid = true
      · simp only [hvalid, true_and, if_true]
        split <;> omega
      · simp [hvalid]
        omega

theorem Region.countCacheUsage_le (r : Region) : r.countCacheUsage.1 ≤ r.validSlots := by
  simp only [Region.countCacheUsage, Region.validSlots]
  exact r.countUsed_le r.header.cacheSlotCount.toNat

theorem Region.Models.validSlots_count (hm : r.Models d mn st) :
    r.countCacheUsage.2.validSlots = r.validSlots := by
  rw [hm.countCacheUsage.2.validSlots, hm.validSlots]
  rfl

theorem Region.Models.beginEvict (hm : r.Models d mn st) (thresholdPct : UInt64) :
    ∃ st', (r.beginEvict thresholdPct).2.Models d mn st' := by
  obtain hregion | hregion := r.beginEvict_region thresholdPct
  · rw [hregion]
    exact ⟨st, hm⟩
  · rw [hregion]
    exact ⟨_, hm.countCacheUsage.2⟩

/-- Only if there are slots a call comes to its loop. -/
theorem Region.Models.beginEvict_slots (hm : r.Models d mn st) (thresholdPct : UInt64) (target : Nat)
    (h : (r.beginEvict thresholdPct).1 = .counted target) : 0 < d.slots mn .cache := by
  have hcount : r.header.cacheSlotCount.toNat = d.slots mn .cache := hm.counts .cache
  rw [← hcount]
  refine Nat.pos_of_ne_zero fun hzero => ?_
  rw [Region.beginEvict, if_pos hzero] at h
  cases h

/-- A call that nobody interrupts ends, unless the cache has no valid slot and the threshold is zero
as the source computes it. -/
theorem Region.evictIfNeeded_ends_iff (hfits : r.header.Fits r.mappedBytes)
    (hslots : 0 < r.header.cacheSlotCount.toNat) (thresholdPct : UInt64) :
    (∃ fuel r', r.evictIfNeeded fuel thresholdPct.toNat = some r') ↔
      thresholdPct.toNat * r.header.cacheSlotCount.toNat % sizeModulus ≠ 0 ∨ 0 < r.validSlots := by
  have hm : r.Models (r.deployment hfits) 0 r.toStore := Region.models_toStore rfl fun _ => rfl
  have hused := r.countCacheUsage_le
  have hcount := hm.validSlots_count
  have hends := fun target => hm.countCacheUsage.2.evict_ends_iff hslots target
  simp only [Region.evictIfNeeded, if_neg hslots.ne']
  generalize r.countCacheUsage = counted at *
  cases htarget : evictionTarget counted.1 r.header.cacheSlotCount.toNat thresholdPct.toNat with
  | none =>
      refine ⟨fun _ => .inl ?_, fun _ => ⟨0, _, rfl⟩⟩
      unfold evictionTarget at htarget
      split at htarget
      · omega
      · cases htarget
  | some target =>
      have hmap : (∃ fuel r', (Region.evictTurns fuel target counted.2).map
          (fun r => r.countCacheUsage.2) = some r') ↔ target ≤ r.validSlots := by
        rw [← hcount, ← hends target]
        simp only [Option.map_eq_some_iff]
        exact ⟨fun ⟨fuel, _, r', h, _⟩ => ⟨fuel, r', h⟩, fun ⟨fuel, r', h⟩ => ⟨fuel, _, r', h, rfl⟩⟩
      rw [hmap]
      unfold evictionTarget at htarget
      split at htarget
      · cases htarget
      next hover =>
        cases htarget
        by_cases hvalid : 0 < r.validSlots
        · simp only [hvalid, or_true, iff_true]
          split <;> omega
        · -- Nothing counts either, so the threshold is not above zero.
          have hzero : counted.1 = 0 := by omega
          rw [hzero, Nat.zero_mul, Nat.zero_mod] at hover
          simp only [hzero, Nat.zero_div, if_true]
          omega

end Uninterrupted

/-- A region, who holds its lock between two steps, and where the calls are. -/
structure Evictions (ι : Type) where
  region : Region
  lock : Option ι
  call : ι → EvictCall

/-- No call has been made. -/
def Evictions.init {ι : Type} (region : Region) : Evictions ι := ⟨region, none, fun _ => .idle⟩

/-- What can happen. -/
inductive EvictEvent (ι : Type) where
  /-- A call begins and counts. -/
  | count (i : ι)
  | lock (i : ι)
  /-- One turn of the loop. -/
  | turn (i : ι)
  | unlock (i : ι)
  /-- The count at the end of a call. -/
  | recount (i : ι)
  /-- Another request writes to the slots. -/
  | write (offset : Nat) (bytes : List UInt8)
  /-- Another request changes a word of the slots. -/
  | cas (offset : Nat) (compare swap : UInt64)

/-- The call that a step belongs to. -/
def EvictEvent.caller {ι : Type} : EvictEvent ι → Option ι
  | .count i | .lock i | .turn i | .unlock i | .recount i => some i
  | .write _ _ | .cas _ _ _ => none

section Calls

variable {ι : Type} [DecidableEq ι]

/-- The steps of any number of calls.  What takes the lock waits until nobody holds it. -/
inductive Evictions.Step (thresholdPct : UInt64) (s : Evictions ι) :
    EvictEvent ι → Evictions ι → Prop where
  | count (i : ι) (hlock : s.lock = none) (hcall : s.call i = .idle) :
      Step thresholdPct s (.count i)
        { s with
          region := (s.region.beginEvict thresholdPct).2
          call := Function.update s.call i (s.region.beginEvict thresholdPct).1 }
  | lock (i : ι) (target : Nat) (hlock : s.lock = none) (hcall : s.call i = .counted target) :
      Step thresholdPct s (.lock i)
        { s with lock := some i, call := Function.update s.call i (.clearing target) }
  | turn (i : ι) (target : Nat) (hcall : s.call i = .clearing (target + 1)) :
      Step thresholdPct s (.turn i)
        { s with
          region := (s.region.evictTurn (target + 1)).2
          call := Function.update s.call i (.clearing (s.region.evictTurn (target + 1)).1) }
  | unlock (i : ι) (hcall : s.call i = .clearing 0) :
      Step thresholdPct s (.unlock i)
        { s with lock := none, call := Function.update s.call i .cleared }
  | recount (i : ι) (hlock : s.lock = none) (hcall : s.call i = .cleared) :
      Step thresholdPct s (.recount i)
        { s with region := s.region.countCacheUsage.2, call := Function.update s.call i .idle }
  | write (offset : Nat) (bytes : List UInt8) (region : Region) (hlock : s.lock = none)
      (hoffset : headerBytes ≤ offset) (hwrite : s.region.writeBytes offset bytes = some region) :
      Step thresholdPct s (.write offset bytes) { s with region := region }
  | cas (offset : Nat) (compare swap observed : UInt64) (region : Region) (hlock : s.lock = none)
      (hoffset : headerBytes ≤ offset)
      (hcas : s.region.cas64 offset compare swap = some (observed, region)) :
      Step thresholdPct s (.cas offset compare swap) { s with region := region }

/-- A run, with each of its events and the state before it. -/
inductive Evictions.Run (thresholdPct : UInt64) (s₀ : Evictions ι) :
    List (Evictions ι × EvictEvent ι) → Evictions ι → Prop where
  | nil : Run thresholdPct s₀ [] s₀
  | snoc {trace : List (Evictions ι × EvictEvent ι)} {s s' : Evictions ι} {event : EvictEvent ι} :
      Run thresholdPct s₀ trace s → s.Step thresholdPct event s' →
      Run thresholdPct s₀ (trace ++ [(s, event)]) s'

/-- The loop that is being run, if there is one, ends. -/
def Evictions.LoopEnds (s : Evictions ι) : Prop :=
  ∀ i target, s.call i = .clearing target →
    ∃ fuel region, Region.evictTurns fuel target s.region = some region

/-- A call that is about to take the lock finds as many valid slots as it is to clear. -/
def Evictions.Room (s : Evictions ι) (i : ι) : Prop :=
  ∀ target, s.call i = .counted target → target ≤ s.region.validSlots

/-! ## The sections of one call -/

/-- A section of the call `i`.  A turn of its loop divides by the number of cache slots. -/
def Evictions.Section (thresholdPct : UInt64) (i : ι) (s s' : Evictions ι) : Prop :=
  ∃ event : EvictEvent ι, event.caller = some i ∧ s.Step thresholdPct event s' ∧
    (event = .turn i → s.region.header.cacheSlotCount.toNat ≠ 0)

/-- A section after which the call goes on. -/
def Evictions.Continues (thresholdPct : UInt64) (i : ι) (s s' : Evictions ι) : Prop :=
  s.Section thresholdPct i s' ∧ s'.call i ≠ .idle

/-- The last section of a call. -/
def Evictions.Returns (thresholdPct : UInt64) (i : ι) (s s' : Evictions ι) : Prop :=
  s.Section thresholdPct i s' ∧ s'.call i = .idle

/-- Who holds the lock is in its loop, and nobody else is. -/
def Evictions.Held (s : Evictions ι) : Prop :=
  ∀ i, s.lock = some i ↔ ∃ target, s.call i = .clearing target

section Sections

variable {thresholdPct : UInt64} {i : ι} {s s' : Evictions ι} {event : EvictEvent ι} {d : Deployment}
  {mn : Nat} {st : Store}

/-- A section changes the region as eviction steps do. -/
theorem Evictions.Section.region (h : s.Section thresholdPct i s') :
    s'.region = s.region ∨ s'.region = s.region.countCacheUsage.2 ∨
      s.region.header.cacheSlotCount.toNat ≠ 0 ∧
        ∃ target, s'.region = (s.region.evictTurn target).2 := by
  obtain ⟨event, hcaller, hstep, hturn⟩ := h
  cases hstep with
  | count j hlock hcall =>
      have hbegun := s.region.beginEvict_region thresholdPct
      generalize s.region.beginEvict thresholdPct = begun at hbegun ⊢
      obtain hregion | hregion := hbegun
      · exact .inl hregion
      · exact .inr (.inl hregion)
  | lock j target hlock hcall => exact .inl rfl
  | turn j target hcall =>
      cases hcaller
      have hslots := hturn rfl
      generalize hturned : s.region.evictTurn (target + 1) = turned
      exact .inr (.inr ⟨hslots, target + 1, by rw [hturned]⟩)
  | unlock j hcall => exact .inl rfl
  | recount j hlock hcall =>
      generalize s.region.countCacheUsage = counted
      exact .inr (.inl rfl)
  | write offset bytes region hlock hoffset hwrite => cases hcaller
  | cas offset compare swap observed region hlock hoffset hcas => cases hcaller

/-- A section leaves the other calls alone. -/
theorem Evictions.Section.other (h : s.Section thresholdPct i s') {j : ι} (hj : j ≠ i) :
    s'.call j = s.call j := by
  obtain ⟨event, hcaller, hstep, -⟩ := h
  cases hstep with
  | write offset bytes region hlock hoffset hwrite => rfl
  | cas offset compare swap observed region hlock hoffset hcas => rfl
  | _ =>
      cases hcaller
      exact Function.update_of_ne hj ..

omit [DecidableEq ι] in
/-- While nobody holds the lock, nobody is in a loop. -/
theorem Evictions.Held.of_free (hs : s.Held) (hlock : s.lock = none) (j : ι) (target : Nat) :
    s.call j ≠ .clearing target := by
  intro hj
  have hlocked := (hs j).mpr ⟨target, hj⟩
  rw [hlock] at hlocked
  cases hlocked

omit [DecidableEq ι] in
/-- While one call is in its loop, no other one is. -/
theorem Evictions.Held.of_clearing (hs : s.Held) {target : Nat} (hi : s.call i = .clearing target)
    (j : ι) (hj : j ≠ i) (target' : Nat) : s.call j ≠ .clearing target' := by
  intro hother
  have hlocked := (hs i).mpr ⟨target, hi⟩
  rw [(hs j).mpr ⟨target', hother⟩, Option.some_inj] at hlocked
  exact hj hlocked

theorem Evictions.held_free (hother : ∀ j, j ≠ i → ∀ target, s.call j ≠ .clearing target)
    {call : EvictCall} (hcall : ∀ target, call ≠ .clearing target) (region : Region) :
    Evictions.Held ⟨region, none, Function.update s.call i call⟩ := by
  intro j
  refine ⟨nofun, fun ⟨target, hj⟩ => ?_⟩
  by_cases hji : j = i
  · subst hji
    simp only [Function.update_self] at hj
    exact absurd hj (hcall target)
  · simp only [Function.update_of_ne hji] at hj
    exact absurd hj (hother j hji target)

theorem Evictions.held_taken (hother : ∀ j, j ≠ i → ∀ target, s.call j ≠ .clearing target)
    (target : Nat) (region : Region) :
    Evictions.Held ⟨region, some i, Function.update s.call i (.clearing target)⟩ := by
  intro j
  by_cases hji : j = i
  · subst hji
    exact ⟨fun _ => ⟨target, Function.update_self ..⟩, fun _ => rfl⟩
  · refine ⟨fun hlock => absurd (Option.some_inj.mp hlock).symm hji, fun ⟨target', hj⟩ => ?_⟩
    simp only [Function.update_of_ne hji] at hj
    exact absurd hj (hother j hji target')

theorem Evictions.Held.step (hs : s.Held) (hstep : s.Step thresholdPct event s') : s'.Held := by
  cases hstep with
  | count i hlock hcall =>
      rw [hlock]
      exact held_free (fun j _ => hs.of_free hlock j) (s.region.beginEvict_not_clearing thresholdPct) _
  | lock i target hlock hcall => exact held_taken (fun j _ => hs.of_free hlock j) target _
  | turn i target hcall =>
      rw [(hs i).mpr ⟨_, hcall⟩]
      exact held_taken (hs.of_clearing hcall) _ _
  | unlock i hcall =>
      have hnot : ∀ target, EvictCall.cleared ≠ .clearing target := nofun
      exact held_free (hs.of_clearing hcall) hnot _
  | recount i hlock hcall =>
      have hnot : ∀ target, EvictCall.idle ≠ .clearing target := nofun
      rw [hlock]
      exact held_free (fun j _ => hs.of_free hlock j) hnot _
  | write offset bytes region hlock hoffset hwrite => exact hs
  | cas offset compare swap observed region hlock hoffset hcas => exact hs

omit [DecidableEq ι] in
theorem Evictions.held_init (region : Region) : (Evictions.init region : Evictions ι).Held :=
  fun _ => ⟨nofun, nofun⟩

/-- A loop that ends, section by section. -/
theorem Evictions.exists_turns (hpos : 0 < d.slots mn .cache) :
    ∀ (fuel target : Nat) {s : Evictions ι} {st : Store} {region : Region},
      s.region.Models d mn st → s.call i = .clearing target →
      Region.evictTurns fuel target s.region = some region →
      Relation.ReflTransGen (Continues thresholdPct i) s
        { s with region := region, call := Function.update s.call i (.clearing 0) }
  | _, 0, s, st, region, _, hcall, h => by
      rw [Region.evictTurns] at h
      cases h
      rw [← hcall, Function.update_eq_self]
  | 0, target + 1, s, st, region, _, _, h => by
      rw [Region.evictTurns] at h
      cases h
  | fuel + 1, target + 1, s, st, region, hm, hcall, h => by
      rw [Region.evictTurns] at h
      have hslots : s.region.header.cacheSlotCount.toNat ≠ 0 := by
        have hcount := hm.counts .cache
        rw [kindSlotCount] at hcount
        exact hcount ▸ hpos.ne'
      have hmodels := (hm.evictTurn hpos (target + 1)).2
      have hstep : s.Step thresholdPct (.turn i) _ := .turn i target hcall
      generalize s.region.evictTurn (target + 1) = turned at hmodels hstep h
      have hrest := Evictions.exists_turns hpos fuel turned.1
        (s := ⟨turned.2, s.lock, Function.update s.call i (.clearing turned.1)⟩) hmodels
        (Function.update_self ..) h
      simp only [Function.update_idem] at hrest
      exact hrest.head ⟨⟨.turn i, rfl, hstep, fun _ => hslots⟩, by simp⟩

/-- A loop that finds enough valid slots comes to its end, and gives the lock back. -/
theorem Evictions.exists_unlock {target : Nat} (hfits : s.region.header.Fits s.region.mappedBytes)
    (hcall : s.call i = .clearing target) (hle : target ≤ s.region.validSlots) :
    ∃ s', Relation.ReflTransGen (Continues thresholdPct i) s s' ∧ s'.lock = none := by
  have hm : s.region.Models (s.region.deployment hfits) 0 s.region.toStore :=
    Region.models_toStore rfl fun _ => rfl
  have hcleared : ∃ region, Relation.ReflTransGen (Continues thresholdPct i) s
      { s with region := region, call := Function.update s.call i (.clearing 0) } := by
    cases target with
    | zero => exact ⟨s.region, by rw [← hcall, Function.update_eq_self]⟩
    | succ target =>
        have hpos : 0 < (s.region.deployment hfits).slots 0 .cache := by
          refine Nat.pos_of_ne_zero fun hzero => ?_
          have hnone : s.region.validSlots = 0 := by
            rw [Region.validSlots, show s.region.header.cacheSlotCount.toNat = 0 from hzero]
            rfl
          omega
        obtain ⟨fuel, region, hturns⟩ := (hm.evict_ends_iff hpos (target + 1)).mpr hle
        exact ⟨region, Evictions.exists_turns hpos fuel (target + 1) hm hcall hturns⟩
  obtain ⟨region, hturns⟩ := hcleared
  have hunlocked : Evictions.Step thresholdPct _ (.unlock i) _ :=
    .unlock (s := { s with region := region, call := Function.update s.call i (.clearing 0) }) i
      (Function.update_self ..)
  simp only [Function.update_idem] at hunlocked
  exact ⟨_, hturns.tail ⟨⟨_, rfl, hunlocked, nofun⟩, by simp⟩, rfl⟩

/-- When nobody holds the lock, a call can go through all of its sections, and then has done what
`Region.evictIfNeeded` does. -/
theorem Evictions.exists_returns {fuel : Nat} {region : Region} (hm : s.region.Models d mn st)
    (hlock : s.lock = none) (hcall : s.call i = .idle)
    (h : s.region.evictIfNeeded fuel thresholdPct.toNat = some region) :
    ∃ s', Relation.ReflTransGen (Continues thresholdPct i) s s' ∧
      s'.Returns thresholdPct i { s with region := region } := by
  obtain ⟨counted₀, lock, calls⟩ := s
  obtain rfl : lock = none := hlock
  have hcall' : calls i = .idle := hcall
  have hself : Function.update calls i .idle = calls := by
    rw [← hcall', Function.update_eq_self]
  have hcases := counted₀.beginEvict_cases thresholdPct
  have hslots := hm.beginEvict_slots thresholdPct
  have hcount : Evictions.Section thresholdPct i ⟨counted₀, none, calls⟩ _ :=
    ⟨.count i, rfl, .count i rfl hcall, nofun⟩
  obtain ⟨st', hm'⟩ := hm.beginEvict thresholdPct
  rw [Region.evictIfNeeded_eq] at h
  generalize counted₀.beginEvict thresholdPct = begun at hcases hslots hcount hm' h
  obtain ⟨call, counted⟩ := begun
  obtain hidle | ⟨target, hcounted⟩ := hcases
  · simp only [] at hidle
    subst hidle
    simp only [Option.some.injEq] at h
    subst h
    simp only [hself] at hcount
    exact ⟨_, .refl, hcount, hcall⟩
  · simp only [] at hcounted
    subst hcounted
    obtain ⟨cleared, hloop, rfl⟩ := Option.map_eq_some_iff.mp h
    have hlocked : Evictions.Step thresholdPct _ (.lock i) _ :=
      .lock (s := ⟨counted, none, Function.update calls i (.counted target)⟩) i target rfl
        (Function.update_self ..)
    have hturns : Relation.ReflTransGen (Continues thresholdPct i) _ _ :=
      Evictions.exists_turns (hslots target rfl) fuel target
        (s := ⟨counted, some i, Function.update calls i (.clearing target)⟩) hm'
        (Function.update_self ..) hloop
    have hunlocked : Evictions.Step thresholdPct _ (.unlock i) _ :=
      .unlock (s := ⟨cleared, some i, Function.update calls i (.clearing 0)⟩) i
        (Function.update_self ..)
    have hrecounted : Evictions.Step thresholdPct _ (.recount i) _ :=
      .recount (s := ⟨cleared, none, Function.update calls i .cleared⟩) i rfl
        (Function.update_self ..)
    simp only [Function.update_idem, hself] at hlocked hturns hunlocked hrecounted
    exact ⟨_, ((hturns.head ⟨⟨_, rfl, hlocked, nofun⟩, by simp⟩).head ⟨hcount, by simp⟩).tail
      ⟨⟨_, rfl, hunlocked, nofun⟩, by simp⟩, ⟨_, rfl, hrecounted, nofun⟩, hcall⟩

end Sections

/-! ## Steps and runs -/

variable {thresholdPct : UInt64} {d : Deployment} {s s' : Evictions ι} {event : EvictEvent ι}

/-- The region keeps its shape, and who holds the lock is in its loop. -/
structure Evictions.Inv (d : Deployment) (s : Evictions ι) : Prop where
  models : ∃ st, s.region.Models d 0 st
  held : s.Held

/-- A write behind the header leaves the shape of a region alone. -/
theorem Region.Models.store_behind {r : Region} {st : Store} (hm : r.Models d 0 st) {offset : Nat}
    (hoffset : headerBytes ≤ offset) (bytes : List UInt8) :
    ∃ st', Region.Models { r with mem := store r.mem offset bytes } d 0 st' := by
  refine ⟨_, Region.models_toStore hm.mapped fun kind => ?_⟩
  rw [Region.header, RegionHeader.ofMem_store r.mem hoffset bytes]
  exact hm.counts kind

theorem Evictions.Inv.step (hinv : s.Inv d) (hpos : 0 < d.slots 0 .cache)
    (hstep : s.Step thresholdPct event s') : s'.Inv d := by
  refine ⟨?_, hinv.held.step hstep⟩
  obtain ⟨st, hm⟩ := hinv.models
  cases hstep with
  | count i hlock hcall =>
      have hmodels := hm.beginEvict thresholdPct
      generalize s.region.beginEvict thresholdPct = begun at hmodels ⊢
      exact hmodels
  | lock i target hlock hcall => exact ⟨st, hm⟩
  | turn i target hcall =>
      have hmodels := (hm.evictTurn hpos (target + 1)).2
      generalize s.region.evictTurn (target + 1) = turned at hmodels ⊢
      exact ⟨_, hmodels⟩
  | unlock i hcall => exact ⟨st, hm⟩
  | recount i hlock hcall =>
      have hmodels := hm.countCacheUsage.2
      generalize s.region.countCacheUsage = counted at hmodels ⊢
      exact ⟨_, hmodels⟩
  | write offset bytes region hlock hoffset hwrite =>
      unfold Region.writeBytes at hwrite
      split at hwrite
      · cases hwrite
      · cases hwrite
        exact hm.store_behind hoffset bytes
  | cas offset compare swap observed region hlock hoffset hcas =>
      unfold Region.cas64 at hcas
      split at hcas
      · cases hcas
      · simp only [] at hcas
        split at hcas
        · obtain ⟨_, rfl⟩ := Prod.mk.inj (Option.some.inj hcas)
          exact hm.store_behind hoffset _
        · obtain ⟨_, rfl⟩ := Prod.mk.inj (Option.some.inj hcas)
          exact ⟨st, hm⟩

omit [DecidableEq ι] in
/-- While nobody holds the lock, nobody is in a loop. -/
theorem Evictions.Held.loopEnds_of_free (hs : s.Held) (hlock : s.lock = none) : s.LoopEnds :=
  fun i target hi => absurd hi (hs.of_free hlock i target)

/-- After a step the loop that is being run ends, if one before it did, and if the step finds room
when it takes the lock. -/
theorem Evictions.Inv.loopEnds_step (hinv : s.Inv d) (hpos : 0 < d.slots 0 .cache)
    (hends : s.LoopEnds) (hstep : s.Step thresholdPct event s') :
    s'.LoopEnds ↔ ∀ i, event = .lock i → s.Room i := by
  have hinv' := hinv.step hpos hstep
  have hother : s'.lock = none → (∀ i, event ≠ .lock i) →
      (s'.LoopEnds ↔ ∀ i, event = .lock i → s.Room i) := fun hlock hne =>
    ⟨fun _ i he => absurd he (hne i), fun _ => hinv'.held.loopEnds_of_free hlock⟩
  cases hstep with
  | count i hlock hcall => exact hother hlock nofun
  | lock i target hlock hcall =>
      obtain ⟨st, hm⟩ := hinv.models
      constructor
      · intro h j hj
        cases hj
        intro target' hcall'
        rw [hcall] at hcall'
        cases hcall'
        exact (hm.evict_ends_iff hpos target).mp (h i target (Function.update_self ..))
      · intro hroom j target' hj
        have hji : j = i := (Option.some_inj.mp ((hinv'.held j).mpr ⟨target', hj⟩)).symm
        subst hji
        simp only [Function.update_self] at hj
        cases hj
        exact (hm.evict_ends_iff hpos target).mpr (hroom j rfl target hcall)
  | turn i target hcall =>
      refine ⟨fun _ => nofun, fun _ j target' hj => ?_⟩
      have hji : j = i := by
        have h₁ := (hinv'.held j).mpr ⟨target', hj⟩
        have h₂ := (hinv.held i).mpr ⟨_, hcall⟩
        exact Option.some_inj.mp (h₁.symm.trans h₂)
      subst hji
      simp only [Function.update_self] at hj
      cases hj
      obtain ⟨fuel, region, hfuel⟩ := hends j _ hcall
      cases fuel with
      | zero =>
          rw [Region.evictTurns] at hfuel
          cases hfuel
      | succ fuel => exact ⟨fuel, region, hfuel⟩
  | unlock i hcall => exact hother rfl nofun
  | recount i hlock hcall => exact hother hlock nofun
  | write offset bytes region hlock hoffset hwrite => exact hother hlock nofun
  | cas offset compare swap observed region hlock hoffset hcas => exact hother hlock nofun

/-- A run keeps the invariant. -/
theorem Evictions.Run.inv {s₀ : Evictions ι} {trace : List (Evictions ι × EvictEvent ι)}
    (hrun : Run thresholdPct s₀ trace s) (hpos : 0 < d.slots 0 .cache) (hinv : s₀.Inv d) :
    s.Inv d := by
  induction hrun with
  | nil => exact hinv
  | snoc _ hstep ih => exact ih.step hpos hstep

/-- In a run the loops end if and only if whoever takes the lock finds room. -/
theorem Evictions.Run.loopEnds_iff {s₀ : Evictions ι} {trace : List (Evictions ι × EvictEvent ι)}
    (hrun : Run thresholdPct s₀ trace s) (hpos : 0 < d.slots 0 .cache) (hinv : s₀.Inv d)
    (hfree : s₀.lock = none) :
    ((∀ p ∈ trace, p.1.LoopEnds) ∧ s.LoopEnds) ↔ ∀ t i, (t, EvictEvent.lock i) ∈ trace → t.Room i := by
  induction hrun with
  | nil =>
      exact ⟨fun _ _ _ h => absurd h List.not_mem_nil,
        fun _ => ⟨fun _ h => absurd h List.not_mem_nil, hinv.held.loopEnds_of_free hfree⟩⟩
  | @snoc trace s s' event hrun hstep ih =>
      have hs := hrun.inv hpos hinv
      constructor
      · rintro ⟨hall, hlast⟩ t i hmem
        have hends : s.LoopEnds := hall (s, event) (List.mem_append_right _ List.mem_cons_self)
        rcases List.mem_append.mp hmem with hmem | hmem
        · exact ih.mp ⟨fun p hp => hall p (List.mem_append_left _ hp), hends⟩ t i hmem
        · rw [List.mem_singleton, Prod.mk.injEq] at hmem
          obtain ⟨rfl, he⟩ := hmem
          exact (hs.loopEnds_step hpos hends hstep).mp hlast i he.symm
      · intro hroom
        obtain ⟨hall, hends⟩ := ih.mpr fun t i hmem => hroom t i (List.mem_append_left _ hmem)
        refine ⟨fun p hp => ?_, (hs.loopEnds_step hpos hends hstep).mpr fun i he => ?_⟩
        · rcases List.mem_append.mp hp with hp | hp
          · exact hall p hp
          · rw [List.mem_singleton] at hp
            rw [hp]
            exact hends
        · exact hroom s i (List.mem_append_right _ (he ▸ List.mem_cons_self))

omit [DecidableEq ι] in
/-- Before the first call the invariant holds. -/
theorem Evictions.inv_init (r : Region) (hfits : r.header.Fits r.mappedBytes) :
    (Evictions.init r : Evictions ι).Inv (r.deployment hfits) where
  models := ⟨r.toStore, Region.models_toStore rfl fun _ => rfl⟩
  held := Evictions.held_init r

/-- Let any number of calls of `td_region_evict_if_needed` run side by side, and other requests
write to the slots in between.  The loops of all of them end if and only if each call, when it
takes the lock for its loop, finds as many valid slots as it is to clear. -/
theorem evictions_end_iff (thresholdPct : UInt64) (r : Region)
    (hfits : r.header.Fits r.mappedBytes) (hslots : 0 < r.header.cacheSlotCount.toNat)
    {trace : List (Evictions ι × EvictEvent ι)} {s : Evictions ι}
    (hrun : Evictions.Run thresholdPct (.init r) trace s) :
    ((∀ p ∈ trace, p.1.LoopEnds) ∧ s.LoopEnds) ↔ ∀ t i, (t, EvictEvent.lock i) ∈ trace → t.Room i :=
  hrun.loopEnds_iff (d := r.deployment hfits) hslots (Evictions.inv_init r hfits) rfl

end Calls

/-- A region of one MiB whose cache is full of valid slots. -/
def Region.cached (slots : UInt8) : Region :=
  (List.range slots.toNat).foldl
    (fun r i => r.setSlot .cache i { Slot.zero with flags := slotFlagValid })
    (Region.create ⟨1048576, 0, 4, slots.toUInt64, 4, 256, 1⟩)

theorem Evictions.room_of_le {ι : Type} {s : Evictions ι} {i : ι} (target : Nat)
    (hcall : s.call i = .counted target) (hle : target ≤ s.region.validSlots) : s.Room i := by
  intro target' h
  rw [hcall] at h
  cases h
  exact hle

/-- Two calls that both have counted two slots clear one each. -/
theorem evictions_end_iff_two :
    ∃ (trace : List (Evictions (Fin 2) × EvictEvent (Fin 2))) (s : Evictions (Fin 2)),
      Evictions.Run 80 (.init (.cached 2)) trace s ∧ s.call 1 = .clearing 1 ∧ s.LoopEnds := by
  have hnil : Evictions.Run 80 (.init (.cached 2) : Evictions (Fin 2)) [] (.init (.cached 2)) := .nil
  have hrun := ((((((hnil.snoc (.count 0 rfl rfl)).snoc (.count 1 rfl (by decide +kernel))).snoc
    (.lock 0 1 rfl (by decide +kernel))).snoc (.turn 0 0 (by decide +kernel))).snoc
    (.unlock 0 (by decide +kernel))).snoc (.lock 1 1 rfl (by decide +kernel)))
  have hfits : (Region.cached 2).header.Fits (Region.cached 2).mappedBytes := by
    unfold RegionHeader.Fits
    decide +kernel
  refine ⟨_, _, hrun, by decide +kernel, ((evictions_end_iff 80 _ hfits (by decide +kernel) hrun).mpr ?_).2⟩
  intro t i hmem
  simp only [List.nil_append, List.cons_append, List.mem_cons, Prod.mk.injEq, reduceCtorEq, and_false,
    false_or, EvictEvent.lock.injEq, List.not_mem_nil, or_false] at hmem
  rcases hmem with ⟨rfl, rfl⟩ | ⟨rfl, rfl⟩
  · exact Evictions.room_of_le 1 (by decide +kernel) (by decide +kernel)
  · exact Evictions.room_of_le 1 (by decide +kernel) (by decide +kernel)

/-- Two calls that both have counted the only slot of the cache, at the default threshold.  The
first one clears it, and the second one never finds another. -/
theorem eviction_spins :
    ¬ ∀ (ι : Type) [DecidableEq ι] (thresholdPct : UInt64) (r : Region),
      r.header.Fits r.mappedBytes → 0 < r.header.cacheSlotCount.toNat →
      ∀ (trace : List (Evictions ι × EvictEvent ι)) (s : Evictions ι),
        Evictions.Run thresholdPct (.init r) trace s → s.LoopEnds := by
  intro h
  have hnil : Evictions.Run 80 (.init (.cached 1) : Evictions (Fin 2)) [] (.init (.cached 1)) := .nil
  have hrun := ((((((hnil.snoc (.count 0 rfl rfl)).snoc (.count 1 rfl (by decide +kernel))).snoc
    (.lock 0 1 rfl (by decide +kernel))).snoc (.turn 0 0 (by decide +kernel))).snoc
    (.unlock 0 (by decide +kernel))).snoc (.lock 1 1 rfl (by decide +kernel)))
  have hfits : (Region.cached 1).header.Fits (Region.cached 1).mappedBytes := by
    unfold RegionHeader.Fits
    decide +kernel
  have hpos : 0 < (Region.cached 1).header.cacheSlotCount.toNat := by decide +kernel
  obtain ⟨st, hm⟩ := (hrun.inv (d := (Region.cached 1).deployment hfits) hpos
    (Evictions.inv_init _ hfits)).models
  have hle := (hm.evict_ends_iff hpos 1).mp (h (Fin 2) 80 _ hfits hpos _ _ hrun 1 1 (by decide +kernel))
  exact absurd hle (by decide +kernel)

end TeeDist
