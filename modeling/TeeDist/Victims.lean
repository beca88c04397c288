import TeeDist.Eviction
import TeeDist.Sequential

/-!
# What an eviction clears

A call of `td_region_evict_if_needed` that nobody interrupts counts the used slots of the cache
and, at or above the threshold, clears a quarter of that number, but at least one.  Which slots
these are is `Region.victim`: the first valid ones in the order in which the cursor comes to them.
`Region.Evicted` lists what else the call does to the region, and `eviction_exact` says that it
does that, within one round of the cursor.
-/

namespace TeeDist

open Bytes Sweep

/-! ## Header words -/

/-- The usage count is one word of the header. -/
theorem RegionHeader.ofMem_store_usage (mem : Mem) (x : UInt64) :
    RegionHeader.ofMem (store mem 56 (ofUInt64 x)) = { RegionHeader.ofMem mem with cacheUsage := x } := by
  have hbefore : ∀ k, k + 8 ≤ 56 → load (store mem 56 (ofUInt64 x)) k 8 = load mem k 8 :=
    fun k hk => load_store_disjoint (Or.inr hk)
  have hbehind : ∀ k, 64 ≤ k → load (store mem 56 (ofUInt64 x)) k 8 = load mem k 8 :=
    fun k hk => load_store_disjoint (Or.inl hk)
  have hself : load (store mem 56 (ofUInt64 x)) 56 8 = ofUInt64 x := load_store mem 56 (ofUInt64 x)
  simp (disch := omega) [RegionHeader.ofMem, hself, hbefore, hbehind]

/-- The eviction cursor is one word of the header. -/
theorem RegionHeader.ofMem_store_cursor (mem : Mem) (x : UInt64) :
    RegionHeader.ofMem (store mem 64 (ofUInt64 x)) =
      { RegionHeader.ofMem mem with evictionCursor := x } := by
  have hbefore : ∀ k, k + 8 ≤ 64 → load (store mem 64 (ofUInt64 x)) k 8 = load mem k 8 :=
    fun k hk => load_store_disjoint (Or.inr hk)
  have hbehind : ∀ k, 72 ≤ k → load (store mem 64 (ofUInt64 x)) k 8 = load mem k 8 :=
    fun k hk => load_store_disjoint (Or.inl hk)
  have hself : load (store mem 64 (ofUInt64 x)) 64 8 = ofUInt64 x := load_store mem 64 (ofUInt64 x)
  simp (disch := omega) [RegionHeader.ofMem, hself, hbefore, hbehind]

theorem Region.header_countCacheUsage (r : Region) :
    r.countCacheUsage.2.header =
      { r.header with cacheUsage := UInt64.ofNat (r.countUsed r.header.cacheSlotCount.toNat) } :=
  RegionHeader.ofMem_store_usage r.mem _

section Turns

variable {d : Deployment} {mn : Nat} {r r' : Region} {st : Store}

/-- A turn of the loop moves the cursor and changes nothing else in the header. -/
theorem Region.Models.header_evictTurn (hm : r.Models d mn st) (hpos : 0 < d.slots mn .cache)
    (target : Nat) :
    (r.evictTurn target).2.header = { r.header with
      evictionCursor := (r.header.evictionCursor + 1) % r.header.cacheSlotCount } := by
  have hclear : ∀ i < d.slots mn .cache, (r.setSlot .cache i .zero).header = r.header := by
    intro i hi
    obtain ⟨hoff, _, _⟩ := slotOffset_eq (d.fits mn) hi
    rw [← hm.offset] at hoff
    exact RegionHeader.ofMem_store r.mem (by omega) _
  have hidx : (r.header.evictionCursor % r.header.cacheSlotCount).toNat < d.slots mn .cache := by
    rw [UInt64.toNat_mod, hm.cacheSlotCount]
    exact Nat.mod_lt _ hpos
  have hheader := hclear _ hidx
  simp only [Region.evictTurn]
  generalize (r.header.evictionCursor % r.header.cacheSlotCount).toNat = idx at hheader ⊢
  have hcleared : (if (r.slot .cache idx).valid then r.setSlot .cache idx .zero else r).header =
      r.header := by
    split
    · exact hheader
    · rfl
  generalize (if (r.slot .cache idx).valid then r.setSlot .cache idx .zero else r) = cleared
    at hcleared ⊢
  rw [hcleared]
  refine (RegionHeader.ofMem_store_cursor cleared.mem _).trans ?_
  rw [← Region.header, hcleared]

/-- The loop moves the cursor and changes nothing else in the header. -/
theorem Region.Models.header_evictTurns (hpos : 0 < d.slots mn .cache) {r' : Region} :
    ∀ (fuel target : Nat) {r : Region} {st : Store}, r.Models d mn st →
      Region.evictTurns fuel target r = some r' →
      r'.header = { r.header with evictionCursor := r'.header.evictionCursor }
  | _, 0, r, st, _, h => by
      rw [Region.evictTurns] at h
      cases h
      rfl
  | 0, target + 1, r, st, _, h => by
      rw [Region.evictTurns] at h
      cases h
  | fuel + 1, target + 1, r, st, hm, h => by
      rw [Region.evictTurns] at h
      have hrest := Region.Models.header_evictTurns hpos fuel _ (hm.evictTurn hpos (target + 1)).2 h
      rw [hm.header_evictTurn hpos (target + 1)] at hrest
      exact hrest

/-- More turns than the loop needs make no difference. -/
theorem Region.evictTurns_mono {fuel' : Nat} :
    ∀ (fuel target : Nat) {r : Region}, Region.evictTurns fuel target r = some r' → fuel ≤ fuel' →
      Region.evictTurns fuel' target r = some r' := by
  intro fuel
  induction fuel generalizing fuel' with
  | zero =>
      intro target r h _
      cases target with
      | zero =>
          rw [Region.evictTurns] at h ⊢
          exact h
      | succ target =>
          rw [Region.evictTurns] at h
          cases h
  | succ fuel ih =>
      intro target r h hle
      cases target with
      | zero =>
          rw [Region.evictTurns] at h ⊢
          exact h
      | succ target =>
          obtain ⟨more, rfl⟩ : ∃ more, fuel' = more + 1 := ⟨fuel' - 1, by omega⟩
          rw [Region.evictTurns] at h ⊢
          exact ih _ h (by omega)

end Turns

/-! ## The victims -/

/-- The cache of a region and its eviction cursor. -/
def Region.clock (r : Region) : Clock Slot :=
  ⟨r.slot .cache, (r.header.evictionCursor % r.header.cacheSlotCount).toNat⟩

/-- The number of valid slots that the cursor comes to before it comes to a slot. -/
def Region.rank (r : Region) (i : Nat) : Nat :=
  ahead Slot.valid r.header.cacheSlotCount.toNat r.clock
    (offset r.header.cacheSlotCount.toNat r.clock.hand i)

/-- The first `target` valid slots of the cache in the order of the cursor. -/
def Region.victim (r : Region) (target i : Nat) : Bool :=
  decide (i < r.header.cacheSlotCount.toNat) && (r.slot .cache i).valid && decide (r.rank i < target)

/-- The number of slots of the cache that are valid and whose two epochs are the same. -/
def Region.usedSlots (r : Region) : Nat :=
  liveCount Slot.counted r.header.cacheSlotCount.toNat (r.slot .cache)

/-- An eviction of `target` slots takes one region to another. -/
structure Region.Evicted (r : Region) (target : Nat) (r' : Region) : Prop where
  mapped : r'.mappedBytes = r.mappedBytes
  /-- The victims are zero bytes and the rest of the cache is as it was. -/
  cache : ∀ i < r.header.cacheSlotCount.toNat,
    r'.slot .cache i = if r.victim target i then .zero else r.slot .cache i
  /-- There are as many victims as there are to be. -/
  count : r'.validSlots + target = r.validSlots
  others : ∀ kind ≠ RegionKind.cache, ∀ i < kindSlotCount r.header kind,
    r'.slot kind i = r.slot kind i
  /-- The cursor is behind the last victim, the usage count is right again, and no other word of
  the header has changed. -/
  header : ∃ last, r.victim target last = true ∧ r.rank last + 1 = target ∧
    r'.header = { r.header with
      evictionCursor := UInt64.ofNat ((last + 1) % r.header.cacheSlotCount.toNat)
      cacheUsage := UInt64.ofNat r'.usedSlots }

theorem Region.countUsed_eq (r : Region) :
    ∀ n, r.countUsed n = liveCount Slot.counted n (r.slot .cache)
  | 0 => rfl
  | n + 1 => by
      rw [Region.countUsed, r.countUsed_eq n]
      exact (Nat.count_succ ..).symm

theorem exists_of_rel_some {α β : Type} {rel : α → β → Prop} {a : Option α} {b : Option β}
    (h : Option.Rel rel a b) {y : β} (hy : b = some y) : ∃ x, a = some x ∧ rel x y := by
  cases h with
  | some hxy =>
      cases hy
      exact ⟨_, rfl, hxy⟩
  | none => cases hy

section Loop

variable {mn : Nat} {total : UInt64} {st : Store}

/-- A loop that takes a turn leaves the cursor inside of the cache. -/
theorem Store.evictTurns_cursor_lt (hpos : 0 < total.toNat) {st' : Store} :
    ∀ (fuel target : Nat) {st : Store}, (st.evictionCursor mn).toNat < total.toNat →
      Store.evictTurns mn total fuel target st = some st' →
      (st'.evictionCursor mn).toNat < total.toNat
  | _, 0, st, hcursor, h => by
      rw [Store.evictTurns] at h
      cases h
      exact hcursor
  | 0, target + 1, st, _, h => by
      rw [Store.evictTurns] at h
      cases h
  | fuel + 1, target + 1, st, _, h => by
      rw [Store.evictTurns] at h
      exact Store.evictTurns_cursor_lt hpos fuel _ (st.evictTurn_cursor_lt mn hpos _) h

/-- The loop clears the first valid slots, as many as it is to, and leaves the cursor behind the
last one of them. -/
theorem Store.evictTurns_exact (hcursor : (st.evictionCursor mn).toNat < total.toNat) {target : Nat}
    (htarget : 0 < target) (hle : target ≤ st.validSlots mn total) :
    ∃ j < total.toNat,
      (st.table mn .cache (((st.clock mn total).hand + j) % total.toNat)).valid = true ∧
      ahead Slot.valid total.toNat (st.clock mn total) j + 1 = target ∧
      ∃ st', Store.evictTurns mn total total.toNat target st = some st' ∧
        st'.table mn .cache = (fun i => if Sweep.victim Slot.valid total.toNat (st.clock mn total) target i
          then .zero else st.table mn .cache i) ∧
        (st'.evictionCursor mn).toNat = ((st.clock mn total).hand + j + 1) % total.toNat := by
  have hpos : 0 < total.toNat := by omega
  obtain ⟨j, hj, hlive, hrank, hsweep⟩ := sweep_exact Slot.zero (st.clock_hand_lt mn hpos) htarget hle
  have hturns := Store.evictTurns_clock total.toNat target hcursor
  rw [hsweep _ (Nat.le_refl _), Option.map_eq_some_iff] at hturns
  obtain ⟨st', hst', hclock⟩ := hturns
  refine ⟨j, hj, hlive, hrank, st', hst', congrArg Clock.table hclock, ?_⟩
  have hin := Store.evictTurns_cursor_lt hpos _ _ hcursor hst'
  have hhand := congrArg Clock.hand hclock
  simp only [Store.clock, UInt64.toNat_mod] at hhand
  rwa [Nat.mod_eq_of_lt hin] at hhand

theorem Store.evictTurns_count (hcursor : (st.evictionCursor mn).toNat < total.toNat)
    {fuel target : Nat} {st' : Store} (h : Store.evictTurns mn total fuel target st = some st') :
    st'.validSlots mn total + target = st.validSlots mn total := by
  have hpos : 0 < total.toNat := by omega
  have hsweep := Store.evictTurns_clock fuel target hcursor
  rw [h, Option.map_some] at hsweep
  have hcount := count_of_sweep Slot.zero_not_valid hpos fuel target (st.clock_hand_lt mn hpos)
    hsweep.symm
  exact hcount

/-- The same for the loop of a region. -/
theorem Region.Models.evictTurns_exact {d : Deployment} {r : Region} (hm : r.Models d mn st)
    (hcursor : (st.evictionCursor mn).toNat < d.slots mn .cache) {target : Nat}
    (htarget : 0 < target) (hle : target ≤ st.validSlots mn (d.header mn).cacheSlotCount) :
    ∃ j < d.slots mn .cache,
      (st.table mn .cache
        (((st.clock mn (d.header mn).cacheSlotCount).hand + j) % d.slots mn .cache)).valid = true ∧
      ahead Slot.valid (d.slots mn .cache) (st.clock mn (d.header mn).cacheSlotCount) j + 1 =
        target ∧
      ∃ r' st', Region.evictTurns (d.slots mn .cache) target r = some r' ∧ r'.Models d mn st' ∧
        st.SameTables st' ∧
        st'.table mn .cache = (fun i => if Sweep.victim Slot.valid (d.slots mn .cache)
          (st.clock mn (d.header mn).cacheSlotCount) target i then .zero else st.table mn .cache i) ∧
        (st'.evictionCursor mn).toNat =
          ((st.clock mn (d.header mn).cacheSlotCount).hand + j + 1) % d.slots mn .cache ∧
        st'.validSlots mn (d.header mn).cacheSlotCount + target =
          st.validSlots mn (d.header mn).cacheSlotCount := by
  obtain ⟨j, hj, hlive, hrank, st', hst', htable, hhand⟩ :=
    Store.evictTurns_exact hcursor htarget hle
  obtain ⟨r', hr', hm'⟩ := exists_of_rel_some (hm.evictTurns (by omega) _ target) hst'
  exact ⟨j, hj, hlive, hrank, r', st', hr', hm', Store.evictTurns_sameTables mn _ _ _ hst', htable,
    hhand, Store.evictTurns_count hcursor hst'⟩

end Loop

/-! ## The call -/

section Call

variable {d : Deployment} {mn : Nat} {r : Region} {st : Store}

/-- The count, the loop and the second count. -/
theorem Region.Models.evicted (hm : r.Models d mn st) (hsame : st.table mn .cache = r.slot .cache)
    (hcursor : r.header.evictionCursor.toNat < r.header.cacheSlotCount.toNat) {target : Nat}
    (htarget : 0 < target) (hle : target ≤ r.validSlots) :
    ∃ r', r.Evicted target r' ∧ ∀ fuel ≥ r.header.cacheSlotCount.toNat,
      (Region.evictTurns fuel target r.countCacheUsage.2).map (fun r => r.countCacheUsage.2) =
        some r' := by
  have hslots : d.slots mn .cache = r.header.cacheSlotCount.toNat := (hm.counts .cache).symm
  have hclock : st.clock mn (d.header mn).cacheSlotCount = r.clock := by
    rw [Store.clock, Region.clock, hsame, hm.cursor, hm.cacheSlotCount]
  have hm₁ := hm.countCacheUsage.2
  have hheader₁ := r.header_countCacheUsage
  have hcursor₁ : ((st.countCacheUsage mn (d.slots mn .cache)).2.evictionCursor mn).toNat <
      d.slots mn .cache := by
    rw [hslots]
    exact hm.cursor ▸ hcursor
  have hle₁ : target ≤ (st.countCacheUsage mn (d.slots mn .cache)).2.validSlots mn
      (d.header mn).cacheSlotCount := hm.validSlots ▸ hle
  obtain ⟨j, hj, hlive, hrank, r₂, st₂, hr₂, hm₂, hother, htable, hcursor₂, hcount⟩ :=
    hm₁.evictTurns_exact hcursor₁ htarget hle₁
  have hheader₂ := hm₁.header_evictTurns (by omega) _ _ hr₂
  have hm₃ := hm₂.countCacheUsage.2
  have hheader₃ := r₂.header_countCacheUsage
  refine ⟨r₂.countCacheUsage.2, ?_, fun fuel hfuel => ?_⟩
  · generalize r₂.countCacheUsage.2 = r' at hm₃ hheader₃ ⊢
    have hclock₁ : (st.countCacheUsage mn (d.slots mn .cache)).2.clock mn
        (d.header mn).cacheSlotCount = r.clock := hclock
    rw [hclock₁] at hlive hrank htable hcursor₂
    rw [hslots] at hj hlive hrank htable hcursor₂
    have hhand : r.clock.hand < r.header.cacheSlotCount.toNat := by
      rw [Region.clock, UInt64.toNat_mod]
      exact Nat.mod_lt _ (by omega)
    have hrank' : r.rank ((r.clock.hand + j) % r.header.cacheSlotCount.toNat) + 1 = target := by
      rw [Region.rank, offset_add hhand hj]
      exact hrank
    have hslot : ∀ kind i, i < kindSlotCount r.header kind →
        r'.slot kind i = st₂.table mn kind i := by
      intro kind i hi
      rw [hm.counts] at hi
      exact hm₃.slot kind i hi
    refine ⟨hm₃.mapped.trans hm.mapped.symm, fun i hi => ?_, ?_, fun kind hkind i hi => ?_,
      _, ?_, hrank', ?_⟩
    · rw [hslot .cache i hi, htable]
      exact congrArg (fun t : Nat → Slot => if r.victim target i then Slot.zero else t i) hsame
    · rw [hm₃.validSlots, hm.validSlots]
      exact hcount
    · rw [hslot kind i hi, hother mn kind hkind]
      rw [hm.counts] at hi
      exact (hm.slot kind i hi).symm
    · rw [Region.victim, Bool.and_eq_true, Bool.and_eq_true, decide_eq_true_eq, decide_eq_true_eq]
      exact ⟨⟨Nat.mod_lt _ (by omega), hsame ▸ hlive⟩, by omega⟩
    · have hcursor' : r₂.header.evictionCursor = UInt64.ofNat
          (((r.clock.hand + j) % r.header.cacheSlotCount.toNat + 1) %
            r.header.cacheSlotCount.toNat) := by
        rw [Nat.mod_add_mod, ← hcursor₂, UInt64.ofNat_toNat, hm₂.cursor]
      have husage : r₂.countUsed r₂.header.cacheSlotCount.toNat = r'.usedSlots := by
        rw [r₂.countUsed_eq, Region.usedSlots, hm₂.cacheSlotCount, hm₃.cacheSlotCount]
        refine liveCount_congr fun i hi => ?_
        rw [hm₂.slot .cache i hi, hm₃.slot .cache i hi]
        rfl
      rw [hheader₃, husage, ← hcursor', hheader₂, hheader₁]
  · rw [Region.evictTurns_mono _ _ hr₂ (hslots ▸ hfuel), Option.map_some]

/-- A region has fewer slots than there are words. -/
theorem Region.usedSlots_lt (hfits : r.header.Fits r.mappedBytes) :
    r.usedSlots ≤ r.header.cacheSlotCount.toNat ∧ r.usedSlots * 100 < sizeModulus := by
  have hle : r.usedSlots ≤ r.header.cacheSlotCount.toNat := Nat.count_le _
  obtain ⟨hend, hmapped⟩ := hfits
  simp only [headerBytes, slotBytes, sizeModulus] at hend hmapped ⊢
  omega

/-- The target of a call, without overflow. -/
theorem evictionTarget_eq {used total thresholdPct : Nat} (hused : used * 100 < sizeModulus)
    (hpct : thresholdPct * total < sizeModulus) :
    evictionTarget used total thresholdPct =
      if 100 * used < thresholdPct * total then none else some (max 1 (used / 4)) := by
  rw [evictionTarget, Nat.mod_eq_of_lt hused, Nat.mod_eq_of_lt hpct, Nat.mul_comm used 100]
  refine if_congr Iff.rfl rfl (congrArg some ?_)
  split <;> omega

theorem Region.countCacheUsage_used (r : Region) : r.countCacheUsage.1 = r.usedSlots := by
  simp only [Region.countCacheUsage, Region.usedSlots, r.countUsed_eq]

/-- Below the threshold a call changes the usage count alone. -/
theorem Region.evictIfNeeded_below (hfits : r.header.Fits r.mappedBytes) {thresholdPct : UInt64}
    (hpct : thresholdPct.toNat * r.header.cacheSlotCount.toNat < sizeModulus)
    (hbelow : 100 * r.usedSlots < thresholdPct.toNat * r.header.cacheSlotCount.toNat) (fuel : Nat) :
    r.evictIfNeeded fuel thresholdPct.toNat =
      some { r with mem := store r.mem 56 (ofUInt64 (UInt64.ofNat r.usedSlots)) } := by
  have hslots : r.header.cacheSlotCount.toNat ≠ 0 := by
    intro h
    rw [h, Nat.mul_zero] at hbelow
    omega
  simp only [Region.evictIfNeeded, if_neg hslots]
  rw [r.countCacheUsage_used, evictionTarget_eq (usedSlots_lt hfits).2 hpct, if_pos hbelow]
  simp only [Region.countCacheUsage, r.countUsed_eq]
  rfl

/-- At or above the threshold a call evicts a quarter of the used slots, but at least one. -/
theorem Region.evictIfNeeded_above (hfits : r.header.Fits r.mappedBytes)
    (hcursor : r.header.evictionCursor.toNat < r.header.cacheSlotCount.toNat)
    {thresholdPct : UInt64}
    (hpct : thresholdPct.toNat * r.header.cacheSlotCount.toNat < sizeModulus)
    (hused : 1 ≤ r.usedSlots)
    (habove : thresholdPct.toNat * r.header.cacheSlotCount.toNat ≤ 100 * r.usedSlots) :
    ∃ r', r.Evicted (max 1 (r.usedSlots / 4)) r' ∧
      ∀ fuel ≥ r.header.cacheSlotCount.toNat, r.evictIfNeeded fuel thresholdPct.toNat = some r' := by
  have hpos : 0 < r.header.cacheSlotCount.toNat := by omega
  have hvalid := r.countCacheUsage_le
  rw [r.countCacheUsage_used] at hvalid
  have htarget := evictionTarget_eq (usedSlots_lt hfits).2 hpct
  rw [if_neg (by omega : ¬ 100 * r.usedSlots < _)] at htarget
  have hm : r.Models (r.deployment hfits) 0 r.toStore := Region.models_toStore rfl fun _ => rfl
  obtain ⟨r', hr', hturns⟩ := hm.evicted rfl hcursor (by omega : 0 < max 1 (r.usedSlots / 4))
    (by omega)
  refine ⟨r', hr', fun fuel hfuel => ?_⟩
  simp only [Region.evictIfNeeded, if_neg hpos.ne', r.countCacheUsage_used, htarget]
  exact hturns fuel hfuel

end Call

/-- Let a call of `td_region_evict_if_needed` run without interruption, its cursor inside of the
cache and its products below `2 ^ 64`.  At or above the threshold, with a used slot, it clears the
first valid slots from its cursor on, a quarter as many as are used but at least one.  Below the
threshold it changes the usage count alone. -/
theorem eviction_exact (r : Region) (thresholdPct : UInt64) (hfits : r.header.Fits r.mappedBytes)
    (hcursor : r.header.evictionCursor.toNat < r.header.cacheSlotCount.toNat)
    (hpct : thresholdPct.toNat * r.header.cacheSlotCount.toNat < sizeModulus) :
    (1 ≤ r.usedSlots →
      thresholdPct.toNat * r.header.cacheSlotCount.toNat ≤ 100 * r.usedSlots →
      ∃ r', r.Evicted (max 1 (r.usedSlots / 4)) r' ∧
        ∀ fuel ≥ r.header.cacheSlotCount.toNat,
          r.evictIfNeeded fuel thresholdPct.toNat = some r') ∧
    (100 * r.usedSlots < thresholdPct.toNat * r.header.cacheSlotCount.toNat →
      ∃ r', (∀ fuel, r.evictIfNeeded fuel thresholdPct.toNat = some r') ∧
        r'.mappedBytes = r.mappedBytes ∧
        r'.header = { r.header with cacheUsage := UInt64.ofNat r.usedSlots } ∧
        ∀ a, a < 56 ∨ 64 ≤ a → r'.mem a = r.mem a) := by
  refine ⟨Region.evictIfNeeded_above hfits hcursor hpct, fun hbelow => ?_⟩
  refine ⟨_, Region.evictIfNeeded_below hfits hpct hbelow, rfl,
    RegionHeader.ofMem_store_usage r.mem _, fun a ha => ?_⟩
  simp only [store, length_ofUInt64]
  exact if_neg (by omega)

/-- A cache of eight valid slots at the default threshold loses two of them. -/
theorem eviction_exact_eight :
    ∃ r', (Region.cached 8).Evicted 2 r' ∧ (Region.cached 8).evictIfNeeded 8 80 = some r' := by
  have hused : (Region.cached 8).usedSlots = 8 := by decide +kernel
  have hslots : (Region.cached 8).header.cacheSlotCount.toNat = 8 := by decide +kernel
  have hfits : (Region.cached 8).header.Fits (Region.cached 8).mappedBytes := by
    unfold RegionHeader.Fits
    decide +kernel
  have hcursor : (Region.cached 8).header.evictionCursor.toNat <
      (Region.cached 8).header.cacheSlotCount.toNat := by decide +kernel
  have hpct : (80 : UInt64).toNat * (Region.cached 8).header.cacheSlotCount.toNat < sizeModulus := by
    rw [hslots]
    decide
  obtain ⟨r', hr', hcall⟩ := (eviction_exact (.cached 8) 80 hfits hcursor hpct).1
    (by omega) (by rw [hslots, hused]; decide)
  rw [hused] at hr'
  have hthreshold : (80 : UInt64).toNat = 80 := rfl
  rw [hthreshold] at hcall
  exact ⟨r', hr', hcall 8 (by omega)⟩

end TeeDist
