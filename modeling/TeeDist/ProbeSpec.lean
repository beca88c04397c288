import Mathlib.Data.List.Find
import Mathlib.Data.List.Nodup
import TeeDist.Refinement

/-!
# What a probe returns

`td_probe_slot` on an array of any contents.  The slots it examines are those in cyclic order from
the home of the key hash, up to the first one that is a committed match or empty
(`Deployment.examined`).  `ProbeSpec` says of a result what it has to do with these slots, and
`probe_meets_spec` that the result of a probe has to do that with them.
-/

namespace TeeDist

open Calls Probing

/-! ## Classes of slots -/

/-- A committed slot of a key hash. -/
def Slot.isMatch (s : Slot) (keyHash : UInt64) : Bool :=
  s.guardEpoch == s.visibleEpoch && s.valid && s.keyHash == keyHash

/-- A committed tombstone. -/
def Slot.isTombstone (s : Slot) : Bool := s.guardEpoch == s.visibleEpoch && s.valid && s.tombstone

/-- A committed empty slot. -/
def Slot.isUnused (s : Slot) : Bool := s.guardEpoch == s.visibleEpoch && s.isEmpty

theorem Slot.isUnused_not_valid {s : Slot} (h : s.isUnused = true) : s.valid = false := by
  simp only [Slot.isUnused, Slot.isEmpty, Bool.and_eq_true, beq_iff_eq] at h
  rw [Slot.valid, h.2.2]
  rfl

/-- The branches of the loop, as classes. -/
theorem Slot.classFor_eq (s : Slot) (keyHash : UInt64) :
    s.classFor keyHash = if s.isMatch keyHash then .hit else if s.isTombstone then .reusable
      else if s.isUnused then .empty else .skip := by
  unfold Slot.classFor Slot.isMatch Slot.isTombstone Slot.isUnused
  by_cases hepochs : s.guardEpoch = s.visibleEpoch
  · simp [hepochs]
  · simp [hepochs]

theorem Slot.classFor_match {s : Slot} {keyHash : UInt64} :
    s.classFor keyHash = .hit ↔ s.isMatch keyHash = true := by
  rw [Slot.classFor_eq]
  split
  next h => simp [h]
  next h =>
    split
    · simp [h]
    · split <;> simp [h]

/-- The walk stops at matches and at empty slots. -/
theorem Slot.classFor_stops (s : Slot) (keyHash : UInt64) :
    (s.classFor keyHash).stops = (s.isMatch keyHash || s.isUnused) := by
  rw [Slot.classFor_eq]
  cases hmatch : s.isMatch keyHash with
  | true => rfl
  | false =>
      cases hunused : s.isUnused with
      | false => cases s.isTombstone <;> rfl
      | true =>
          have htomb : s.isTombstone = false := by
            rw [Slot.isTombstone, Slot.isUnused_not_valid hunused, Bool.and_false, Bool.false_and]
          rw [htomb]
          rfl

/-- An insertion may take tombstones and empty slots. -/
theorem Slot.classFor_free {s : Slot} {keyHash : UInt64} (hmatch : s.isMatch keyHash = false) :
    (s.classFor keyHash).free = (s.isTombstone || s.isUnused) := by
  rw [Slot.classFor_eq, hmatch]
  cases s.isTombstone <;> cases s.isUnused <;> rfl

theorem Slot.classFor_skip {s : Slot} {keyHash : UInt64} :
    s.classFor keyHash = .skip ↔
      s.isMatch keyHash = false ∧ s.isTombstone = false ∧ s.isUnused = false := by
  rw [Slot.classFor_eq]
  cases s.isMatch keyHash <;> cases s.isTombstone <;> cases s.isUnused <;> simp

/-! ## The specification -/

/-- The slots of an array in cyclic order from the home of a key hash, up to the first one that is
a committed match or empty. -/
def examined (table : Nat → Slot) (count : Nat) (keyHash : UInt64) : List Nat :=
  cutAfter (fun i => (table i).isMatch keyHash || (table i).isUnused)
    ((List.range count).map fun j => (keyHash.toNat % count + j) % count)

/-- What the result of a probe has to do with the slots it examines. -/
structure ProbeSpec (table : Nat → Slot) (count : Nat) (keyHash : UInt64)
    (result : Except Err SlotProbe) : Prop where
  /-- It reports a find exactly if the last slot is a match. -/
  found : (∃ probe, result = .ok probe ∧ probe.found = true) ↔
    ∃ i, (examined table count keyHash).getLast? = some i ∧ (table i).isMatch keyHash = true
  /-- What it has found is that slot, and it is its own candidate. -/
  hit : ∀ probe, result = .ok probe → probe.found = true →
    (examined table count keyHash).getLast? = some probe.slotIndex ∧
      probe.slot = table probe.slotIndex ∧
      probe.tombstone = (table probe.slotIndex).tombstone ∧
      probe.candidateSlotIndex = probe.slotIndex
  /-- Otherwise the candidate is the first tombstone or empty slot. -/
  candidate : ∀ probe, result = .ok probe → probe.found = false →
    (examined table count keyHash).find? (fun i => (table i).isTombstone || (table i).isUnused) =
      some probe.candidateSlotIndex
  /-- There is a candidate, and it is not torn. -/
  chosen : ∀ probe, result = .ok probe → probe.candidateValid = true ∧
    probe.candidateSlot = table probe.candidateSlotIndex ∧
    probe.candidateSlot.guardEpoch = probe.candidateSlot.visibleEpoch
  /-- It fails exactly if it has examined the whole array, and every slot belongs to another key
  or is torn. -/
  error : (∃ e, result = .error e) ↔
    (examined table count keyHash).length = count ∧ ∀ i ∈ examined table count keyHash,
      (table i).isMatch keyHash = false ∧ (table i).isTombstone = false ∧
        (table i).isUnused = false

/-- The walk of a probe, by the distances from the home. -/
def Store.walk (st : Store) (cl : Cluster) (mn : Nat) (kind : RegionKind) (h : UInt64) : List Nat :=
  walked (fun j => (st.slot (cl.probeAddr mn kind h j)).classFor h) (cl.slots mn kind)

section Probe

variable {d : Deployment} {mn : Nat} {kind : RegionKind}

/-- The slots a probe examines are those of its walk. -/
theorem examined_eq (st : Store) (h : UInt64) (hpos : 0 < d.slots mn kind) :
    examined (st.table mn kind) (d.slots mn kind) h =
      (st.walk d.toCluster mn kind h).map fun j => (d.home mn kind h + j) % d.slots mn kind := by
  have hhome : d.home mn kind h = h.toNat % d.slots mn kind := by
    unfold Cluster.home slotIndex
    exact if_neg (by unfold Cluster.slots at hpos; omega)
  rw [examined, ← hhome, cutAfter_map, Store.walk, walked]
  refine congrArg _ (cutAfter_congr fun j hj => ?_)
  rw [Slot.classFor_stops, d.probeAddr_slot st (List.mem_range.mp hj)]

/-- No slot is examined twice. -/
theorem examined_nodup (table : Nat → Slot) (count : Nat) (h : UInt64) :
    (examined table count h).Nodup := by
  refine List.Nodup.sublist (cutAfter_sublist _ _) (List.Nodup.map_on ?_ List.nodup_range)
  intro j hj j' hj' he
  exact add_mod_inj (List.mem_range.mp hj) (List.mem_range.mp hj') he

section Walk

variable {st : Store} {h : UInt64} {j : Nat}

theorem mem_walk_lt (hj : j ∈ st.walk d.toCluster mn kind h) : j < d.slots mn kind :=
  List.mem_range.mp ((cutAfter_sublist _ _).subset hj)

/-- What the walk has seen of a slot is what the table has there. -/
theorem slot_of_mem_walk (hj : j ∈ st.walk d.toCluster mn kind h) :
    st.slot (d.probeAddr mn kind h j) =
      st.table mn kind ((d.home mn kind h + j) % d.slots mn kind) :=
  d.probeAddr_slot st (mem_walk_lt hj)

theorem idx_of_mem_walk (hj : j ∈ st.walk d.toCluster mn kind h) :
    (d.probeAddr mn kind h j).idx = (d.home mn kind h + j) % d.slots mn kind :=
  d.probeIndex_eq (mem_walk_lt hj)

end Walk

/-! ## The reads -/

theorem transcript_probeLoop (d : Deployment) (mn : Nat) (kind : RegionKind) (st : Store)
    (h : UInt64) :
    ∀ (left idx : Nat) (probe : SlotProbe),
      (probeLoop mn kind h (d.home mn kind h) (d.slots mn kind) left idx probe).transcript
          storeHandler st =
        (cutAfter (fun j => ((st.slot (d.probeAddr mn kind h j)).classFor h).stops)
          (List.range' idx left)).map fun j =>
            ⟨.readRegion (d.probeAddr mn kind h j), some (st.slot (d.probeAddr mn kind h j))⟩
  | 0, _, _ => rfl
  | left + 1, idx, probe => by
      rw [probeLoop_succ, List.range'_succ, cutAfter, Prog.transcript]
      have ih := transcript_probeLoop d mn kind st h left (idx + 1)
      show _ :: Prog.transcript storeHandler (probeStep mn kind h _ _ left idx probe
        (st.slot (d.probeAddr mn kind h idx))) st = _
      unfold probeStep
      cases (st.slot (d.probeAddr mn kind h idx)).classFor h with
      | hit => rfl
      | empty => rfl
      | reusable =>
          simp only [ih]
          rfl
      | skip =>
          simp only [ih]
          rfl

/-- The slots a probe reads are those it is to examine, in that order. -/
theorem transcript_probeSlot (st : Store) (h : UInt64) (hpos : 0 < d.slots mn kind) :
    (probeSlot d.toCluster mn kind h).transcript storeHandler st =
      (examined (st.table mn kind) (d.slots mn kind) h).map fun i =>
        ⟨.readRegion ⟨mn, kind, i⟩, some (st.table mn kind i)⟩ := by
  have hcount : ¬ kindSlotCount (d.header mn) kind = 0 := by
    unfold Cluster.slots at hpos
    omega
  have hloop := transcript_probeLoop d mn kind st h (d.slots mn kind) 0 .zero
  rw [← List.range_eq_range'] at hloop
  rw [probeSlot, if_neg hcount, examined_eq st h hpos, List.map_map]
  refine hloop.trans (List.map_congr_left fun j hj => ?_)
  rw [Function.comp_apply, ← slot_of_mem_walk hj, ← idx_of_mem_walk hj]
  rfl

/-! ## The result -/

/-- The three ways a probe can end. -/
theorem probe_cases (st : Store) (h : UInt64) (hpos : 0 < d.slots mn kind) :
    (∃ i, (examined (st.table mn kind) (d.slots mn kind) h).getLast? = some i ∧
      (st.table mn kind i).isMatch h = true ∧
      st.probe d.toCluster mn kind h = .ok (foundProbe (st.table mn kind i) i)) ∨
    (∃ i, (∀ k ∈ examined (st.table mn kind) (d.slots mn kind) h,
        (st.table mn kind k).isMatch h = false) ∧
      (examined (st.table mn kind) (d.slots mn kind) h).find? (fun k =>
        (st.table mn kind k).isTombstone || (st.table mn kind k).isUnused) = some i ∧
      st.probe d.toCluster mn kind h = .ok (candidateProbe (st.table mn kind i) i)) ∨
    ((examined (st.table mn kind) (d.slots mn kind) h).length = d.slots mn kind ∧
      (∀ k ∈ examined (st.table mn kind) (d.slots mn kind) h,
        (st.table mn kind k).isMatch h = false ∧ (st.table mn kind k).isTombstone = false ∧
          (st.table mn kind k).isUnused = false) ∧
      ∃ e, st.probe d.toCluster mn kind h = .error e) := by
  have hdesc : (st.outcome d.toCluster mn kind h).Describes
      (fun j => (st.slot (d.probeAddr mn kind h j)).classFor h) (d.slots mn kind)
      (st.walk d.toCluster mn kind h) := scan_describes _ _
  rw [Store.probe, examined_eq st h hpos]
  cases hout : st.outcome d.toCluster mn kind h with
  | found j =>
      rw [hout] at hdesc
      obtain ⟨hlast, hhit⟩ := hdesc
      have hj := List.mem_of_getLast? hlast
      refine Or.inl ⟨(d.home mn kind h + j) % d.slots mn kind, ?_, ?_, ?_⟩
      · rw [List.getLast?_map, hlast, Option.map_some]
      · rw [← slot_of_mem_walk hj, ← Slot.classFor_match]
        exact hhit
      · rw [Store.resultOf, slot_of_mem_walk hj, idx_of_mem_walk hj]
  | free j =>
      rw [hout] at hdesc
      obtain ⟨hnone, hfind⟩ := hdesc
      have hj := List.mem_of_find?_eq_some hfind
      have hmatch : ∀ k ∈ st.walk d.toCluster mn kind h,
          (st.table mn kind ((d.home mn kind h + k) % d.slots mn kind)).isMatch h = false := by
        intro k hk
        rw [← slot_of_mem_walk hk, ← Bool.not_eq_true, ← Slot.classFor_match]
        exact hnone k hk
      have hfree : ∀ k ∈ st.walk d.toCluster mn kind h,
          ((st.table mn kind ((d.home mn kind h + k) % d.slots mn kind)).isTombstone ||
            (st.table mn kind ((d.home mn kind h + k) % d.slots mn kind)).isUnused) =
          ((st.slot (d.probeAddr mn kind h k)).classFor h).free := by
        intro k hk
        rw [slot_of_mem_walk hk, Slot.classFor_free (hmatch k hk)]
      refine Or.inr (Or.inl ⟨(d.home mn kind h + j) % d.slots mn kind, fun i hi => ?_, ?_, ?_⟩)
      · obtain ⟨k, hk, rfl⟩ := List.mem_map.mp hi
        exact hmatch k hk
      · rw [List.find?_map]
        exact congrArg _ ((List.find?_congr hfree).trans hfind)
      · rw [Store.resultOf, slot_of_mem_walk hj, idx_of_mem_walk hj]
  | full =>
      rw [hout] at hdesc
      obtain ⟨hwhole, hskip⟩ := hdesc
      refine Or.inr (Or.inr ⟨?_, fun i hi => ?_, _, rfl⟩)
      · rw [List.length_map, hwhole, List.length_range]
      · obtain ⟨k, hk, rfl⟩ := List.mem_map.mp hi
        rw [← slot_of_mem_walk hk, ← Slot.classFor_skip]
        exact hskip k hk

end Probe

theorem Slot.isMatch_epochs {s : Slot} {keyHash : UInt64} (h : s.isMatch keyHash = true) :
    s.guardEpoch = s.visibleEpoch := by
  simp only [Slot.isMatch, Bool.and_eq_true, beq_iff_eq] at h
  exact h.1.1

theorem Slot.free_epochs {s : Slot} (h : (s.isTombstone || s.isUnused) = true) :
    s.guardEpoch = s.visibleEpoch := by
  simp only [Slot.isTombstone, Slot.isUnused, Bool.or_eq_true, Bool.and_eq_true, beq_iff_eq] at h
  rcases h with h | h
  · exact h.1.1
  · exact h.1

section Outcomes

variable {table : Nat → Slot} {count : Nat} {keyHash : UInt64} {i : Nat}

/-- A probe that finds the key hash. -/
theorem ProbeSpec.of_found (hlast : (examined table count keyHash).getLast? = some i)
    (hmatch : (table i).isMatch keyHash = true) :
    ProbeSpec table count keyHash (.ok (foundProbe (table i) i)) where
  found := ⟨fun _ => ⟨i, hlast, hmatch⟩, fun _ => ⟨_, rfl, rfl⟩⟩
  hit := by
    intro probe hprobe _
    cases hprobe
    exact ⟨hlast, rfl, rfl, rfl⟩
  candidate := by
    intro probe hprobe hfound
    cases hprobe
    cases hfound
  chosen := by
    intro probe hprobe
    cases hprobe
    exact ⟨rfl, rfl, Slot.isMatch_epochs hmatch⟩
  error := by
    constructor
    · rintro ⟨e, he⟩
      cases he
    · rintro ⟨_, hskip⟩
      rw [(hskip i (List.mem_of_getLast? hlast)).1] at hmatch
      cases hmatch

/-- A probe that finds room for the key hash. -/
theorem ProbeSpec.of_free
    (hnone : ∀ k ∈ examined table count keyHash, (table k).isMatch keyHash = false)
    (hfind : (examined table count keyHash).find? (fun k =>
      (table k).isTombstone || (table k).isUnused) = some i) :
    ProbeSpec table count keyHash (.ok (candidateProbe (table i) i)) where
  found := by
    constructor
    · rintro ⟨probe, hprobe, hfound⟩
      cases hprobe
      cases hfound
    · rintro ⟨k, hlast, hmatch⟩
      rw [hnone k (List.mem_of_getLast? hlast)] at hmatch
      cases hmatch
  hit := by
    intro probe hprobe hfound
    cases hprobe
    cases hfound
  candidate := by
    intro probe hprobe _
    cases hprobe
    exact hfind
  chosen := by
    have hfree := List.find?_some hfind
    intro probe hprobe
    cases hprobe
    exact ⟨rfl, rfl, Slot.free_epochs hfree⟩
  error := by
    constructor
    · rintro ⟨e, he⟩
      cases he
    · rintro ⟨_, hskip⟩
      obtain ⟨_, htomb, hunused⟩ := hskip i (List.mem_of_find?_eq_some hfind)
      have hfree := List.find?_some hfind
      simp [htomb, hunused] at hfree

/-- A probe of a full array. -/
theorem ProbeSpec.of_full (hwhole : (examined table count keyHash).length = count)
    (hskip : ∀ k ∈ examined table count keyHash, (table k).isMatch keyHash = false ∧
      (table k).isTombstone = false ∧ (table k).isUnused = false) (e : Err) :
    ProbeSpec table count keyHash (.error e) where
  found := by
    constructor
    · rintro ⟨probe, hprobe, _⟩
      cases hprobe
    · rintro ⟨k, hlast, hmatch⟩
      rw [(hskip k (List.mem_of_getLast? hlast)).1] at hmatch
      cases hmatch
  hit := by
    intro probe hprobe
    cases hprobe
  candidate := by
    intro probe hprobe
    cases hprobe
  chosen := by
    intro probe hprobe
    cases hprobe
  error := ⟨fun _ => ⟨hwhole, hskip⟩, fun _ => ⟨e, rfl⟩⟩

end Outcomes

/-- `td_probe_slot` meets its specification on every array of slots, reads the slots it is to
examine in their order and no others, and none of them twice. -/
theorem probe_meets_spec (d : Deployment) (mn : Nat) (kind : RegionKind) (keyHash : UInt64)
    (st : Store) (hpos : 0 < d.slots mn kind) :
    ProbeSpec (st.table mn kind) (d.slots mn kind) keyHash
        ((probeSlot d.toCluster mn kind keyHash).run storeHandler st).1 ∧
      (probeSlot d.toCluster mn kind keyHash).transcript storeHandler st =
        (examined (st.table mn kind) (d.slots mn kind) keyHash).map (fun i =>
          ⟨.readRegion ⟨mn, kind, i⟩, some (st.table mn kind i)⟩) ∧
      (examined (st.table mn kind) (d.slots mn kind) keyHash).Nodup := by
  refine ⟨?_, transcript_probeSlot st keyHash hpos, examined_nodup _ _ _⟩
  rw [run_probeSlot]
  have hcases := probe_cases st keyHash hpos
  generalize st.probe d.toCluster mn kind keyHash = result at hcases ⊢
  obtain ⟨i, hlast, hmatch, rfl⟩ | ⟨i, hnone, hfind, rfl⟩ | ⟨hwhole, hskip, e, rfl⟩ := hcases
  · exact .of_found hlast hmatch
  · exact .of_free hnone hfind
  · exact .of_full hwhole hskip e

/-- From the home of the key hash 7 on: a torn slot of this key hash, a tombstone of another one,
and a committed slot of this one. -/
def Store.mixed : Store :=
  let torn : Slot :=
    { Slot.zero with guardEpoch := 1, visibleEpoch := 2, keyHash := 7, flags := slotFlagValid }
  let grave : Slot :=
    { Slot.zero with guardEpoch := 5, visibleEpoch := 5, keyHash := 8, flags := 3 }
  let hit : Slot :=
    { Slot.zero with guardEpoch := 3, visibleEpoch := 3, keyHash := 7, flags := slotFlagValid }
  ((Store.fresh.setSlot ⟨0, .prime, 3⟩ torn).setSlot ⟨0, .prime, 0⟩ grave).setSlot
    ⟨0, .prime, 1⟩ hit

/-- The probe goes past a torn slot and a tombstone to the match. -/
theorem probe_meets_spec_mixed :
    examined (Store.mixed.table 0 .prime) (Deployment.sample.slots 0 .prime) 7 = [3, 0, 1] ∧
      ProbeSpec (Store.mixed.table 0 .prime) (Deployment.sample.slots 0 .prime) 7
        ((probeSlot Deployment.sample.toCluster 0 .prime 7).run storeHandler .mixed).1 :=
  ⟨by decide +kernel, (probe_meets_spec .sample 0 .prime 7 .mixed (by decide)).1⟩

end TeeDist
