import TeeDist.Eviction

/-!
# What an eviction hides

An evicted slot is zero bytes, which a probe takes for the end of a chain.  A cache entry behind
such a hole is still there and is no longer found.  `Store.evicts` says which slots a call of
`td_region_evict_if_needed` clears, wherever its cursor is.  If every entry is found before the
call, then every survivor is found after it if and only if no cleared slot lies between the home
of a survivor and its slot (`survivors_found_iff`).
-/

namespace TeeDist

open Calls Probing Sweep

/-! ## Cleared slots -/

/-- The slots a loop with a target clears.  The slot under the cursor comes first, then the
others from the next place of the cursor on. -/
def Store.cleared (st : Store) (mn : Nat) (total : UInt64) (target i : Nat) : Bool :=
  let table := st.table mn .cache
  let first := (st.evictionCursor mn % total).toNat
  let next := ((st.evictionCursor mn + 1) % total).toNat
  let before := (if (table first).valid then 1 else 0) +
    ahead Slot.valid total.toNat ⟨Function.update table first .zero, next⟩
      (offset total.toNat next i)
  decide (i < total.toNat) && (table i).valid && (decide (i = first) || decide (before < target))

/-- The slots a call clears. -/
def Store.evicts (st : Store) (mn : Nat) (total : UInt64) (thresholdPct i : Nat) : Bool :=
  match evictionTarget (st.countUsed mn total.toNat) total.toNat thresholdPct with
  | none => false
  | some target => st.cleared mn total target i

section Table

variable {mn : Nat} {total : UInt64} {st st' : Store}

/-- Which slots are ahead depends on which slots are live. -/
theorem ahead_update_dead (table : Nat → Slot) {first : Nat}
    (hfirst : (table first).valid = false) (n hand j : Nat) :
    ahead Slot.valid n ⟨Function.update table first .zero, hand⟩ j =
      ahead Slot.valid n ⟨table, hand⟩ j := by
  have hlive : ∀ i, (Function.update table first .zero i).valid = (table i).valid := by
    intro i
    by_cases hi : i = first
    · rw [hi, Function.update_self, hfirst]
      rfl
    · rw [Function.update_of_ne hi]
  simp only [ahead, hlive]

/-- A slot is cleared in the first turn of a hand, or by what is left of the sweep. -/
theorem cleared_first (table : Nat → Slot) {first n : Nat} (hfirst : first < n)
    (next target i : Nat) :
    (if decide (i < n) && (table i).valid && (decide (i = first) ||
        decide ((if (table first).valid then 1 else 0) +
          ahead Slot.valid n ⟨Function.update table first .zero, next⟩ (offset n next i) <
            target + 1)) then Slot.zero else table i) =
      if Sweep.victim Slot.valid n ⟨(Clock.turn Slot.valid .zero n ⟨table, first⟩).table, next⟩
          (Clock.left Slot.valid ⟨table, first⟩ (target + 1)) i then .zero
        else (Clock.turn Slot.valid .zero n ⟨table, first⟩).table i := by
  simp only [Sweep.victim, Clock.turn, Clock.left]
  cases hlive : (table first).valid with
  | true =>
      by_cases hi : i = first
      · subst hi
        simp [hfirst, hlive]
      · have hlt : ∀ a : Nat, 1 + a < target + 1 ↔ a < target := fun a => by omega
        simp [hi, hlt]
  | false =>
      by_cases hi : i = first
      · subst hi
        simp [hlive]
      · simp [hi, ahead_update_dead table hlive]

theorem Store.cleared_eq (hpos : 0 < total.toNat) (target i : Nat) :
    (if st.cleared mn total (target + 1) i then Slot.zero else st.table mn .cache i) =
      if Sweep.victim Slot.valid total.toNat
          ((st.evictTurn mn total (target + 1)).2.clock mn total)
          (st.evictTurn mn total (target + 1)).1 i then .zero
        else (st.evictTurn mn total (target + 1)).2.table mn .cache i := by
  have hhand : ((st.evictTurn mn total (target + 1)).2.clock mn total).hand =
      ((st.evictionCursor mn + 1) % total).toNat := by
    rw [Store.clock, Store.evictTurn_cursor, UInt64.toNat_mod, UInt64.toNat_mod, Nat.mod_mod]
  have hclock : (st.evictTurn mn total (target + 1)).2.clock mn total =
      ⟨(st.evictTurn mn total (target + 1)).2.table mn .cache,
        ((st.evictionCursor mn + 1) % total).toNat⟩ := Clock.ext rfl hhand
  rw [hclock, st.evictTurn_table mn total, st.evictTurn_left mn total]
  exact cleared_first _ (st.clock_hand_lt mn hpos) _ target i

/-- The loop clears these slots. -/
theorem Store.evictTurns_table (hpos : 0 < total.toNat) {fuel target : Nat} (htarget : 0 < target)
    (h : Store.evictTurns mn total fuel target st = some st') :
    st'.table mn .cache =
      fun i => if st.cleared mn total target i then .zero else st.table mn .cache i := by
  obtain ⟨target, rfl⟩ : ∃ t, target = t + 1 := ⟨target - 1, by omega⟩
  cases fuel with
  | zero =>
      rw [Store.evictTurns] at h
      cases h
  | succ fuel =>
      rw [Store.evictTurns] at h
      funext i
      rw [Store.cleared_eq hpos]
      have hcursor := st.evictTurn_cursor_lt mn hpos (target + 1)
      generalize st.evictTurn mn total (target + 1) = turned at h hcursor ⊢
      obtain ⟨left, st₁⟩ := turned
      have hsweep := Store.evictTurns_clock fuel left hcursor
      rw [h, Option.map_some] at hsweep
      cases left with
      | zero =>
          rw [Store.evictTurns] at h
          cases h
          simp [Sweep.victim]
      | succ left =>
          have htable := table_of_sweep Slot.zero_not_valid (st₁.clock_hand_lt mn hpos)
            (Nat.succ_pos left) hsweep.symm
          exact congrFun htable i

/-- A call that returns has cleared these slots of the cache, and no others. -/
theorem Store.evictIfNeeded_table (hpos : 0 < total.toNat) {fuel thresholdPct : Nat}
    (h : Store.evictIfNeeded mn total fuel thresholdPct st = some st') (i : Nat) :
    st'.table mn .cache i =
      if st.evicts mn total thresholdPct i then .zero else st.table mn .cache i := by
  rw [Store.evictIfNeeded, if_neg hpos.ne'] at h
  unfold Store.evicts
  simp only [Store.countCacheUsage] at h
  cases htarget : evictionTarget (st.countUsed mn total.toNat) total.toNat thresholdPct with
  | none =>
      rw [htarget, Option.some_inj] at h
      rw [← h]
      rfl
  | some target =>
      rw [htarget] at h
      obtain ⟨st₁, h₁, rfl⟩ := Option.map_eq_some_iff.mp h
      have hle : 0 < target := by
        unfold evictionTarget at htarget
        split at htarget
        · cases htarget
        · cases htarget
          split <;> omega
      exact congrFun (Store.evictTurns_table hpos hle h₁) i

end Table

/-! ## Entries that are found -/

/-- `td_probe_slot`, asked for the key hash of a cache slot, returns that slot. -/
def Store.Finds (st : Store) (cl : Cluster) (mn i : Nat) : Prop :=
  ∃ probe, ((probeSlot cl mn .cache (st.table mn .cache i).keyHash).run storeHandler st).1 =
    .ok probe ∧ probe.found = true ∧ probe.slotIndex = i

section Found

variable {d : Deployment} {mn : Nat} {st st' : Store}

theorem Cluster.home_lt (cl : Cluster) {mn : Nat} {kind : RegionKind} (hpos : 0 < cl.slots mn kind)
    (keyHash : UInt64) : cl.home mn kind keyHash < cl.slots mn kind := by
  unfold Cluster.home slotIndex Cluster.slots at *
  simp only []
  rw [if_neg (by omega)]
  exact Nat.mod_lt _ hpos

/-- A slot is found if and only if the walk stops there. -/
theorem Store.finds_iff {i : Nat} (hi : i < d.slots mn .cache) :
    st.Finds d.toCluster mn i ↔
      st.outcome d.toCluster mn .cache (st.table mn .cache i).keyHash =
        .found (offset (d.slots mn .cache)
          (d.home mn .cache (st.table mn .cache i).keyHash) i) := by
  unfold Store.Finds
  generalize (st.table mn .cache i).keyHash = h
  have hhome := d.home_lt (by omega : 0 < d.slots mn .cache) h
  rw [run_probeSlot]
  constructor
  · rintro ⟨probe, hprobe, hfound, hidx⟩
    have hmeets : Meets _ (d.slots mn .cache) (st.outcome d.toCluster mn .cache h) := scan_meets _ _
    unfold Store.probe at hprobe
    cases hout : st.outcome d.toCluster mn .cache h with
    | found j =>
        rw [hout] at hprobe hmeets
        cases hprobe
        have hj : j < d.slots mn .cache := hmeets.1
        have hij : (d.home mn .cache h + j) % d.slots mn .cache = i := by
          rw [← d.probeIndex_eq hj]
          exact hidx
        rw [← hij, offset_add hhome hj]
    | free j =>
        rw [hout] at hprobe
        cases hprobe
        cases hfound
    | full =>
        rw [hout] at hprobe
        cases hprobe
  · intro hout
    have hj : offset (d.slots mn .cache) (d.home mn .cache h) i < d.slots mn .cache :=
      offset_lt (by omega)
    refine ⟨_, congrArg (st.resultOf d.toCluster mn .cache h) hout, rfl, ?_⟩
    exact (d.probeIndex_eq hj).trans (add_offset hhome hi)

theorem Slot.classFor_zero (keyHash : UInt64) : Slot.zero.classFor keyHash = .empty := rfl

/-- A survivor that was found is found again if and only if no cleared slot comes before it. -/
theorem Store.survivor_found_iff {fuel thresholdPct : Nat}
    (hcall : Store.evictIfNeeded mn (d.header mn).cacheSlotCount fuel thresholdPct st = some st')
    {i : Nat} (hi : i < d.slots mn .cache) (hfound : st.Finds d.toCluster mn i)
    (hkept : st.evicts mn (d.header mn).cacheSlotCount thresholdPct i = false) :
    st'.Finds d.toCluster mn i ↔
      ∀ j < offset (d.slots mn .cache) (d.home mn .cache (st.table mn .cache i).keyHash) i,
        st.evicts mn (d.header mn).cacheSlotCount thresholdPct
          ((d.home mn .cache (st.table mn .cache i).keyHash + j) % d.slots mn .cache) = false := by
  have hpos : 0 < d.slots mn .cache := by omega
  have htable := Store.evictIfNeeded_table hpos hcall
  have hsame : st'.table mn .cache i = st.table mn .cache i := by
    rw [htable, hkept]
    rfl
  rw [Store.finds_iff hi] at hfound ⊢
  rw [hsame]
  generalize (st.table mn .cache i).keyHash = h at hfound ⊢
  have hhome := d.home_lt hpos h
  refine (scan_found_holes (fun j => st.evicts mn (d.header mn).cacheSlotCount thresholdPct
    ((d.home mn .cache h + j) % d.slots mn .cache) = true) hfound ?_ ?_ ?_).trans ?_
  · intro j hj hhole
    rw [d.probeAddr_slot st' hj, htable, hhole]
    exact Slot.classFor_zero h
  · intro j hj hhole
    rw [d.probeAddr_slot st' hj, d.probeAddr_slot st hj, htable, if_neg hhole]
  · rw [add_offset hhome hi, hkept]
    exact Bool.false_ne_true
  · exact forall₂_congr fun j _ => by rw [Bool.not_eq_true]

end Found

/-- Let every used slot of a cache be found by a probe for its own key hash, and let a call of
`td_region_evict_if_needed` return.  Then every used slot that it left alone is still found if and
only if it has cleared no slot on the way from the home of such a slot to the slot itself. -/
theorem survivors_found_iff (d : Deployment) (mn fuel : Nat) (thresholdPct : UInt64) (st st' : Store)
    (hfound : ∀ i < d.slots mn .cache, (st.table mn .cache i).counted = true →
      st.Finds d.toCluster mn i)
    (hcall : Store.evictIfNeeded mn (d.header mn).cacheSlotCount fuel thresholdPct.toNat st =
      some st') :
    (∀ i < d.slots mn .cache, (st.table mn .cache i).counted = true →
      st'.table mn .cache i = st.table mn .cache i → st'.Finds d.toCluster mn i) ↔
    ∀ i < d.slots mn .cache, (st.table mn .cache i).counted = true →
      st.evicts mn (d.header mn).cacheSlotCount thresholdPct.toNat i = false →
      ∀ j < offset (d.slots mn .cache) (d.home mn .cache (st.table mn .cache i).keyHash) i,
        st.evicts mn (d.header mn).cacheSlotCount thresholdPct.toNat
          ((d.home mn .cache (st.table mn .cache i).keyHash + j) % d.slots mn .cache) = false := by
  refine forall₃_congr fun i hi hcounted => ?_
  have hpos : 0 < d.slots mn .cache := by omega
  have hkept : st'.table mn .cache i = st.table mn .cache i ↔
      st.evicts mn (d.header mn).cacheSlotCount thresholdPct.toNat i = false := by
    rw [Store.evictIfNeeded_table hpos hcall]
    cases st.evicts mn (d.header mn).cacheSlotCount thresholdPct.toNat i with
    | false => simp
    | true =>
        simp only [if_true, Bool.true_eq_false, iff_false]
        intro hzero
        rw [← hzero] at hcounted
        exact absurd hcounted (by decide)
  rw [hkept]
  exact forall_congr' fun h => Store.survivor_found_iff hcall hi (hfound i hi hcounted) h

/-- A cache of two slots that holds an entry for each of two key hashes. -/
def Store.cachePair (h₀ h₁ : UInt64) : Store :=
  let entry (h : UInt64) : Slot :=
    { Slot.zero with guardEpoch := 1, visibleEpoch := 1, keyHash := h, flags := slotFlagValid }
  (Store.fresh.setSlot ⟨0, .cache, 0⟩ (entry h₀)).setSlot ⟨0, .cache, 1⟩ (entry h₁)

theorem Store.cachePair_finds {h₀ h₁ : UInt64}
    (hfirst : (Store.cachePair h₀ h₁).outcome Deployment.pair.toCluster 0 .cache h₀ =
      .found (offset 2 (Deployment.pair.home 0 .cache h₀) 0))
    (hsecond : (Store.cachePair h₀ h₁).outcome Deployment.pair.toCluster 0 .cache h₁ =
      .found (offset 2 (Deployment.pair.home 0 .cache h₁) 1)) :
    ∀ i < Deployment.pair.slots 0 .cache,
      ((Store.cachePair h₀ h₁).table 0 .cache i).counted = true →
      (Store.cachePair h₀ h₁).Finds Deployment.pair.toCluster 0 i := by
  intro i hi _
  rw [Store.finds_iff hi]
  obtain rfl | rfl : i = 0 ∨ i = 1 := by
    have hslots : Deployment.pair.slots 0 .cache = 2 := rfl
    omega
  · exact hfirst
  · exact hsecond

theorem Store.cachePair_evicted {h₀ h₁ : UInt64}
    (hcall : (Store.evictIfNeeded 0 (Deployment.pair.header 0).cacheSlotCount 2
      (80 : UInt64).toNat (.cachePair h₀ h₁)).isSome = true)
    (hkept : (Store.cachePair h₀ h₁).evicts 0 (Deployment.pair.header 0).cacheSlotCount
      (80 : UInt64).toNat 1 = false) :
    ∃ st', Store.evictIfNeeded 0 (Deployment.pair.header 0).cacheSlotCount 2
        (80 : UInt64).toNat (.cachePair h₀ h₁) = some st' ∧
      st'.table 0 .cache 1 = (Store.cachePair h₀ h₁).table 0 .cache 1 := by
  obtain ⟨st', hst'⟩ := Option.isSome_iff_exists.mp hcall
  refine ⟨st', hst', ?_⟩
  rw [Store.evictIfNeeded_table (by decide +kernel) hst' 1, hkept]
  rfl

/-- Two entries at their homes.  One is evicted, and the other one is still found. -/
theorem survivors_found_iff_home :
    ∃ st', Store.evictIfNeeded 0 (Deployment.pair.header 0).cacheSlotCount 2 (80 : UInt64).toNat
        (.cachePair 2 3) = some st' ∧
      (st'.table 0 .cache 1).counted = true ∧ st'.Finds Deployment.pair.toCluster 0 1 := by
  have hslots : Deployment.pair.slots 0 .cache = 2 := rfl
  have hfound := @Store.cachePair_finds 2 3 (by decide +kernel) (by decide +kernel)
  have hkept : (Store.cachePair 2 3).evicts 0 (Deployment.pair.header 0).cacheSlotCount
      (80 : UInt64).toNat 1 = false := by decide +kernel
  obtain ⟨st', hst', htable⟩ := Store.cachePair_evicted (by decide +kernel) hkept
  refine ⟨st', hst', htable ▸ (by decide +kernel), ?_⟩
  refine (survivors_found_iff .pair 0 2 80 _ st' hfound hst').mpr ?_ 1 (by decide) (by decide +kernel)
    htable
  intro i hi _ _ j hj
  rw [hslots] at hi
  obtain rfl | rfl : i = 0 ∨ i = 1 := by omega
  · exact absurd (Nat.lt_of_lt_of_le hj (by decide +kernel)) (Nat.not_lt_zero j)
  · exact absurd (Nat.lt_of_lt_of_le hj (by decide +kernel)) (Nat.not_lt_zero j)

/-- Two entries with the same home.  The first one is evicted, and a probe for the second one stops
at the hole. -/
theorem eviction_hides_survivor :
    ¬ ∀ (d : Deployment) (mn fuel : Nat) (thresholdPct : UInt64) (st st' : Store),
      (∀ i < d.slots mn .cache, (st.table mn .cache i).counted = true →
        st.Finds d.toCluster mn i) →
      Store.evictIfNeeded mn (d.header mn).cacheSlotCount fuel thresholdPct.toNat st = some st' →
      ∀ i < d.slots mn .cache, (st.table mn .cache i).counted = true →
        st'.table mn .cache i = st.table mn .cache i → st'.Finds d.toCluster mn i := by
  intro h
  have hfound := @Store.cachePair_finds 2 4 (by decide +kernel) (by decide +kernel)
  have hkept : (Store.cachePair 2 4).evicts 0 (Deployment.pair.header 0).cacheSlotCount
      (80 : UInt64).toNat 1 = false := by decide +kernel
  obtain ⟨st', hst', htable⟩ := Store.cachePair_evicted (by decide +kernel) hkept
  have hone : 1 < Deployment.pair.slots 0 .cache := by decide
  have hcounted : ((Store.cachePair 2 4).table 0 .cache 1).counted = true := by decide +kernel
  have hnone := (Store.survivor_found_iff hst' hone (hfound 1 hone hcounted) hkept).mp
    (h .pair 0 2 80 _ st' hfound hst' 1 hone hcounted htable) 0 (by decide +kernel)
  exact absurd hnone (by decide +kernel)

end TeeDist
