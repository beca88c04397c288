import TeeDist.Probe

/-!
# Tidy tables

A slot is *calm* for a key hash when it is zero or valid, and its two epochs agree
if it belongs to the key hash.  A table is *tidy* for a key hash when its slots are
calm, no key hash owns two of them, and no hole comes between the home of a key hash
and its slot.  Tables start tidy for all key hashes.  Commits at work on other key
hashes leave a table tidy.

In a tidy table the probe finds its key hash exactly when a slot of it is there
(`Tidy.probe_of_holds`, `Tidy.probe_cases`).  A commit at the slot the probe
chose keeps the table tidy (`Tidy.commit`), and of the live slots it changes
those of the committed key hash alone (`Tidy.live_commit`).
-/

namespace TeeDist

open Probing

/-! ## Updates of a store -/

@[simp] theorem Store.setSlot_slot_self (st : Store) (a : Addr) (s : Slot) :
    (st.setSlot a s).slot a = s := Function.update_self ..

theorem Store.setSlot_slot_of_ne (st : Store) {a b : Addr} (s : Slot) (h : b ≠ a) :
    (st.setSlot a s).slot b = st.slot b := Function.update_of_ne h ..

/-- A call changes at most the slot it is about. -/
theorem Call.slot_of_ne {c : Call} {a : Addr} (h : a ≠ c.addr) (st : Store) :
    (storeHandler c st).2.slot a = st.slot a := by
  cases c with
  | readRegion b => rfl
  | writeRegion b p => exact st.setSlot_slot_of_ne _ h
  | cas64 b compare swap =>
      simp only [storeHandler]
      split
      · exact st.setSlot_slot_of_ne _ h
      · rfl

@[simp] theorem Store.setSlot_setSlot (st : Store) (a : Addr) (s s' : Slot) :
    (st.setSlot a s).setSlot a s' = st.setSlot a s' := by
  simp [Store.setSlot]

/-- The table an update is in. -/
theorem Store.table_setSlot_self (st : Store) (mn : Nat) (kind : RegionKind) (i : Nat) (s : Slot) :
    (st.setSlot ⟨mn, kind, i⟩ s).table mn kind = Function.update (st.table mn kind) i s := by
  funext j
  by_cases hj : j = i
  · subst hj
    simp [Store.table]
  · rw [Function.update_of_ne hj]
    exact st.setSlot_slot_of_ne s (by simp [hj])

/-- The tables an update is not in. -/
theorem Store.table_setSlot_of_ne (st : Store) {a : Addr} {mn : Nat} {kind : RegionKind} (s : Slot)
    (h : ¬ (a.mn = mn ∧ a.kind = kind)) : (st.setSlot a s).table mn kind = st.table mn kind := by
  funext j
  refine st.setSlot_slot_of_ne s ?_
  rintro rfl
  exact h ⟨rfl, rfl⟩

/-- The same update of the same table. -/
theorem Store.table_setSlot_congr {st st' : Store} {mn : Nat} {kind : RegionKind}
    (h : st'.table mn kind = st.table mn kind) (a : Addr) (s : Slot) :
    (st'.setSlot a s).table mn kind = (st.setSlot a s).table mn kind := by
  by_cases ha : a.mn = mn ∧ a.kind = kind
  · obtain ⟨rfl, rfl⟩ := ha
    rw [st'.table_setSlot_self a.mn a.kind a.idx s, st.table_setSlot_self a.mn a.kind a.idx s, h]
  · rw [st'.table_setSlot_of_ne s ha, st.table_setSlot_of_ne s ha, h]

/-! ## Calm slots -/

/-- The key hash a slot belongs to.  A slot that is not valid belongs to none. -/
def Slot.owner (s : Slot) : Option UInt64 := if s.valid then some s.keyHash else none

/-- A slot a probe for a key hash can rely on: it is zero or valid, and no commit of the
key hash is at work on it. -/
structure Slot.Calm (s : Slot) (h : UInt64) : Prop where
  zero : s.valid = false → s = .zero
  epochs : s.owner = some h → s.guardEpoch = s.visibleEpoch

theorem Slot.owner_eq_some {s : Slot} {h : UInt64} :
    s.owner = some h ↔ s.valid = true ∧ s.keyHash = h := by
  simp [Slot.owner]

theorem Slot.owner_eq_none {s : Slot} : s.owner = none ↔ s.valid = false := by
  simp [Slot.owner]

@[simp] theorem Slot.owner_zero : Slot.zero.owner = none := by decide

theorem Slot.calm_zero (h : UInt64) : Slot.zero.Calm h := ⟨fun _ => rfl, fun _ => rfl⟩

/-- Only slots whose epochs agree are not walked past. -/
theorem Slot.classFor_epochs {s : Slot} {h : UInt64} (hc : s.classFor h ≠ .skip) :
    s.guardEpoch = s.visibleEpoch := by
  by_contra hne
  exact hc (by rw [Slot.classFor, if_pos hne])

theorem Slot.classFor_hit_inv {s : Slot} {h : UInt64} (hc : s.classFor h = .hit) :
    s.valid = true ∧ s.keyHash = h := by
  revert hc
  unfold Slot.classFor
  split_ifs with h₁ h₂ <;> simp
  simpa using h₂

theorem Slot.classFor_hit {s : Slot} {h : UInt64} (hs : s.Calm h) :
    s.classFor h = .hit ↔ s.owner = some h := by
  constructor
  · intro hc
    exact Slot.owner_eq_some.mpr (Slot.classFor_hit_inv hc)
  · intro ho
    obtain ⟨hv, hk⟩ := Slot.owner_eq_some.mp ho
    rw [Slot.classFor, if_neg (not_not.mpr (hs.epochs ho)), if_pos (by simp [hv, hk])]

theorem Slot.classFor_empty {s : Slot} {h : UInt64} (hs : s.Calm h) :
    s.classFor h = .empty ↔ s.owner = none := by
  rw [Slot.owner_eq_none]
  constructor
  · intro hc
    by_contra hv
    have hflags : s.flags ≠ 0 := by
      intro hf
      apply hv
      simp [Slot.valid, hf]
    have hne : s.isEmpty = false := by simp [Slot.isEmpty, hflags]
    revert hc
    rw [Slot.classFor, hne]
    split_ifs <;> simp_all
  · intro hv
    rw [hs.zero hv]
    rfl

theorem Slot.classFor_reusable {s : Slot} {h : UInt64} (hc : s.classFor h = .reusable) :
    s.valid = true ∧ s.tombstone = true ∧ s.keyHash ≠ h := by
  revert hc
  unfold Slot.classFor
  split_ifs with h₁ h₂ h₃ h₄
  · simp
  · simp
  · intro _
    simp only [Bool.and_eq_true, beq_iff_eq] at h₂ h₃
    exact ⟨h₃.1, h₃.2, fun hk => h₂ ⟨h₃.1, hk⟩⟩
  · simp
  · simp

/-! ## Tidy tables -/

/-- A table in which a key hash can be found. -/
structure Tidy (d : Deployment) (st : Store) (mn : Nat) (kind : RegionKind) (h : UInt64) :
    Prop where
  calm : ∀ i, (st.table mn kind i).Calm h
  placed : Placed Slot.owner (d.home mn kind) (d.slots mn kind) (st.table mn kind)

/-- The slot of a key hash in a table, live or a tombstone. -/
def Store.Holds (st : Store) (d : Deployment) (mn : Nat) (kind : RegionKind) (h : UInt64)
    (s : Slot) : Prop :=
  Owns Slot.owner (d.slots mn kind) (st.table mn kind) h s

/-- The live slot of a key hash in a table. -/
def Store.Live (st : Store) (d : Deployment) (mn : Nat) (kind : RegionKind) (h : UInt64)
    (s : Slot) : Prop :=
  st.Holds d mn kind h s ∧ s.tombstone = false

theorem tidy_fresh (d : Deployment) (mn : Nat) (kind : RegionKind) (h : UInt64) :
    Tidy d .fresh mn kind h where
  calm _ := Slot.calm_zero h
  placed := placed_of_unowned fun _ _ => Slot.owner_zero

theorem not_holds_fresh (d : Deployment) (mn : Nat) (kind : RegionKind) (h : UInt64) (s : Slot) :
    ¬ Store.fresh.Holds d mn kind h s := by
  rintro ⟨i, _, rfl, ho⟩
  have hz : (Store.fresh.table mn kind i).owner = none := Slot.owner_zero
  rw [hz] at ho
  cases ho

/-- Tidiness is about one table. -/
theorem Tidy.congr {d : Deployment} {st st' : Store} {mn : Nat} {kind : RegionKind} {k : UInt64}
    (h : st'.table mn kind = st.table mn kind) (ht : Tidy d st mn kind k) :
    Tidy d st' mn kind k where
  calm i := by rw [h]; exact ht.calm i
  placed := by rw [h]; exact ht.placed

theorem Store.holds_congr {d : Deployment} {st st' : Store} {mn : Nat} {kind : RegionKind}
    (h : st'.table mn kind = st.table mn kind) {k : UInt64} {s : Slot} :
    st'.Holds d mn kind k s ↔ st.Holds d mn kind k s := by
  rw [Store.Holds, Store.Holds, h]

theorem Store.live_congr {d : Deployment} {st st' : Store} {mn : Nat} {kind : RegionKind}
    (h : st'.table mn kind = st.table mn kind) {k : UInt64} {s : Slot} :
    st'.Live d mn kind k s ↔ st.Live d mn kind k s := by
  rw [Store.Live, Store.Live, Store.holds_congr h]

/-- So is the probe. -/
theorem Store.probe_congr {cl : Cluster} {st st' : Store} {mn : Nat} {kind : RegionKind}
    (h : st'.table mn kind = st.table mn kind) (k : UInt64) :
    st'.probe cl mn kind k = st.probe cl mn kind k := by
  have hslot : ∀ j, st'.slot (cl.probeAddr mn kind k j) = st.slot (cl.probeAddr mn kind k j) :=
    fun j => congrFun h _
  have hout : st'.outcome cl mn kind k = st.outcome cl mn kind k := by
    simp only [Store.outcome, hslot]
  rw [Store.probe, Store.probe, hout]
  cases st.outcome cl mn kind k <;> simp only [Store.resultOf, hslot]

section Probe

variable {d : Deployment} {st : Store} {mn : Nat} {kind : RegionKind} {h : UInt64} {s : Slot}

theorem Store.Holds.owner (hs : st.Holds d mn kind h s) : s.owner = some h := by
  obtain ⟨_, _, _, ho⟩ := hs
  exact ho

theorem Tidy.holds_unique (ht : Tidy d st mn kind h) {s' : Slot} (hs : st.Holds d mn kind h s)
    (hs' : st.Holds d mn kind h s') : s = s' := ht.placed.owns_unique hs hs'

/-- A live slot is present. -/
theorem Tidy.present (ht : Tidy d st mn kind h) (hl : st.Live d mn kind h s) :
    s.present h = true := by
  obtain ⟨⟨i, _, hi, ho⟩, htomb⟩ := hl
  obtain ⟨hv, hk⟩ := Slot.owner_eq_some.mp ho
  have he : s.guardEpoch = s.visibleEpoch := by
    have hcalm := ht.calm i
    rw [hi] at hcalm
    exact hcalm.epochs ho
  simp [Slot.present, hv, hk, he, htomb]

/-- The `j`-th slot a probe examines. -/
theorem Deployment.probeAddr_slot (d : Deployment) (st : Store) {j : Nat}
    (hj : j < d.slots mn kind) :
    st.slot (d.probeAddr mn kind h j) =
      st.table mn kind ((d.home mn kind h + j) % d.slots mn kind) := by
  rw [Cluster.probeAddr, d.probeIndex_eq hj]
  rfl

theorem Tidy.sees (ht : Tidy d st mn kind h) :
    Sees Slot.owner (d.home mn kind) (d.slots mn kind) (st.table mn kind) h
      (fun j => (st.slot (d.probeAddr mn kind h j)).classFor h) where
  hit j hj := by
    rw [d.probeAddr_slot st hj]
    exact Slot.classFor_hit (ht.calm _)
  empty j hj := by
    rw [d.probeAddr_slot st hj]
    exact Slot.classFor_empty (ht.calm _)

/-- A key hash that has a slot is found in it. -/
theorem Tidy.probe_of_holds (ht : Tidy d st mn kind h) (hs : st.Holds d mn kind h s) :
    ∃ i, st.probe d.toCluster mn kind h = .ok (foundProbe s i) ∧ st.slot ⟨mn, kind, i⟩ = s := by
  obtain ⟨j, hj, hscan, rfl⟩ := ht.placed.scan_found ht.sees hs
  refine ⟨(d.probeAddr mn kind h j).idx, ?_, ?_⟩
  · rw [Store.probe, Store.outcome, hscan, Store.resultOf, d.probeAddr_slot st hj]
  · exact d.probeAddr_slot st hj

/-- What a probe that succeeds says of a tidy table: the slot it chose is one
where the key hash may go, and it is the slot of the key hash, or the key hash
has none and the slot is a tombstone or empty. -/
theorem Tidy.probe_cases (ht : Tidy d st mn kind h) {pr : SlotProbe}
    (hp : st.probe d.toCluster mn kind h = .ok pr) :
    ∃ i < d.slots mn kind, Fits Slot.owner (d.home mn kind) (d.slots mn kind) (st.table mn kind) h i ∧
      ((pr = foundProbe (st.slot ⟨mn, kind, i⟩) i ∧ st.Holds d mn kind h (st.slot ⟨mn, kind, i⟩)) ∨
        (pr = candidateProbe (st.slot ⟨mn, kind, i⟩) i ∧ (∀ s, ¬ st.Holds d mn kind h s) ∧
          (st.slot ⟨mn, kind, i⟩ = .zero ∨ (st.slot ⟨mn, kind, i⟩).tombstone = true))) := by
  rw [Store.probe] at hp
  cases ho : st.outcome d.toCluster mn kind h with
  | found j =>
      rw [ho, Store.resultOf, Except.ok.injEq] at hp
      obtain ⟨hj, hfit⟩ := ht.placed.fits_of_scan ht.sees (Or.inl ho)
      have hidx : (d.probeAddr mn kind h j).idx = (d.home mn kind h + j) % d.slots mn kind :=
        d.probeIndex_eq hj
      refine ⟨(d.home mn kind h + j) % d.slots mn kind, Nat.mod_lt _ (by omega), hfit, Or.inl ?_⟩
      rw [← hidx]
      refine ⟨hp.symm, ?_⟩
      have hown := (owns_of_scan_found ht.sees ho).2
      rwa [← d.probeAddr_slot st hj] at hown
  | free j =>
      rw [ho, Store.resultOf, Except.ok.injEq] at hp
      obtain ⟨hj, hfit⟩ := ht.placed.fits_of_scan ht.sees (Or.inr ho)
      have hidx : (d.probeAddr mn kind h j).idx = (d.home mn kind h + j) % d.slots mn kind :=
        d.probeIndex_eq hj
      have hslot : st.slot ⟨mn, kind, (d.probeAddr mn kind h j).idx⟩ =
          st.slot (d.probeAddr mn kind h j) := rfl
      refine ⟨(d.home mn kind h + j) % d.slots mn kind, Nat.mod_lt _ (by omega), hfit, Or.inr ?_⟩
      rw [← hidx]
      refine ⟨hp.symm, fun s hs => ?_, ?_⟩
      · obtain ⟨i, hi, _⟩ := ht.probe_of_holds hs
        rw [Store.probe, ho, Store.resultOf] at hi
        cases hi
      · have hclass := ((scan_eq_iff _ _ _).mp ho).2.1
        rcases hclass with hc | hc
        · exact Or.inr (by rw [hslot]; exact (Slot.classFor_reusable hc).2.1)
        · left
          have hcalm : (st.slot (d.probeAddr mn kind h j)).Calm h := by
            rw [d.probeAddr_slot st hj]
            exact ht.calm _
          rw [hslot]
          exact hcalm.zero (Slot.owner_eq_none.mp ((Slot.classFor_empty hcalm).mp hc))
  | full =>
      rw [ho, Store.resultOf] at hp
      cases hp

/-- A probe for a key hash without a live slot returns no slot that is present. -/
theorem Tidy.probe_of_not_live (ht : Tidy d st mn kind h) (hl : ∀ s, ¬ st.Live d mn kind h s)
    {pr : SlotProbe} (hp : st.probe d.toCluster mn kind h = .ok pr) :
    pr.found = false ∨ pr.slot.present h = false := by
  obtain ⟨i, _, _, ⟨rfl, hh⟩ | ⟨rfl, _⟩⟩ := ht.probe_cases hp
  · right
    have htomb : (st.slot ⟨mn, kind, i⟩).tombstone = true := by
      by_contra hf
      exact hl _ ⟨hh, by simpa using hf⟩
    simp [foundProbe, Slot.present, htomb]
  · exact Or.inl rfl

/-- The slot a probe chose is the slot it says, its epochs agree, and it holds the
probe's candidate. -/
theorem Store.probe_candidate {cl : Cluster} {pr : SlotProbe}
    (hp : st.probe cl mn kind h = .ok pr) :
    pr.candidateValid = true ∧ pr.candidateSlot = st.slot ⟨mn, kind, pr.candidateSlotIndex⟩ ∧
      pr.candidateSlot.guardEpoch = pr.candidateSlot.visibleEpoch ∧
      (pr.found = true → pr = foundProbe pr.candidateSlot pr.candidateSlotIndex ∧
        pr.candidateSlot.valid = true ∧ pr.candidateSlot.keyHash = h) := by
  rw [Store.probe] at hp
  cases ho : st.outcome cl mn kind h with
  | found j =>
      rw [ho, Store.resultOf, Except.ok.injEq] at hp
      subst hp
      have hhit : (st.slot (cl.probeAddr mn kind h j)).classFor h = .hit :=
        ((scan_eq_iff _ _ _).mp ho).2.1
      exact ⟨rfl, rfl, Slot.classFor_epochs (h := h) (by rw [foundProbe, hhit]; decide),
        fun _ => ⟨rfl, Slot.classFor_hit_inv hhit⟩⟩
  | free j =>
      rw [ho, Store.resultOf, Except.ok.injEq] at hp
      subst hp
      have hfree := Meets.free_not_skip ((scan_eq_iff _ _ _).mp ho)
      exact ⟨rfl, rfl, Slot.classFor_epochs hfree, fun hf => by cases hf⟩
  | full =>
      rw [ho, Store.resultOf] at hp
      cases hp

/-- A probe of a tidy table fails only if every slot belongs to another key hash, and is
live unless a commit is at work on it. -/
theorem Tidy.probe_error (ht : Tidy d st mn kind h) {e : Err}
    (hp : st.probe d.toCluster mn kind h = .error e) :
    ∀ i < d.slots mn kind, (st.table mn kind i).valid = true ∧
      (st.table mn kind i).keyHash ≠ h ∧
      ((st.table mn kind i).guardEpoch = (st.table mn kind i).visibleEpoch →
        (st.table mn kind i).tombstone = false) := by
  intro i hi
  have ho : st.outcome d.toCluster mn kind h = .full := by
    cases ho : st.outcome d.toCluster mn kind h with
    | found j => rw [Store.probe, ho, Store.resultOf] at hp; cases hp
    | free j => rw [Store.probe, ho, Store.resultOf] at hp; cases hp
    | full => rfl
  obtain ⟨j, hj, rfl⟩ := exists_offset (d.home mn kind h) hi
  have hskip := (scan_eq_iff _ _ _).mp ho j hj
  rw [d.probeAddr_slot st hj] at hskip
  generalize hs : st.table mn kind ((d.home mn kind h + j) % d.slots mn kind) = s at hskip
  have hcalm : s.Calm h := hs ▸ ht.calm _
  have hvalid : s.valid = true := by
    by_contra hv
    have := (Slot.classFor_empty hcalm).mpr (Slot.owner_eq_none.mpr (by simpa using hv))
    rw [hskip] at this
    cases this
  have hkey : s.keyHash ≠ h := by
    intro hk
    have := (Slot.classFor_hit hcalm).mpr (Slot.owner_eq_some.mpr ⟨hvalid, hk⟩)
    rw [hskip] at this
    cases this
  refine ⟨hvalid, hkey, fun he => ?_⟩
  by_contra ht'
  have hcls : s.classFor h = .reusable := by
    rw [Slot.classFor, if_neg (not_not.mpr he), if_neg (by simp [hkey]),
      if_pos (by simpa [hvalid] using ht')]
  rw [hskip] at hcls
  cases hcls

end Probe

/-! ## Commits -/

section Commit

variable {d : Deployment} {st : Store} {mn : Nat} {kind : RegionKind} {h : UInt64} {p : Slot}
  {pr : SlotProbe}

/-- Writing a slot of the key hash where the probe chose keeps the table tidy for every
key hash for which the new slot is calm. -/
theorem Tidy.commit (ht : Tidy d st mn kind h) (hp : st.probe d.toCluster mn kind h = .ok pr)
    (ho : p.owner = some h) {k : UInt64} (hk : Tidy d st mn kind k) (hs : p.Calm k) :
    Tidy d (st.setSlot ⟨mn, kind, pr.candidateSlotIndex⟩ p) mn kind k := by
  obtain ⟨i, hi, hfit, hcase⟩ := ht.probe_cases hp
  have hidx : pr.candidateSlotIndex = i := by
    rcases hcase with ⟨rfl, _⟩ | ⟨rfl, _⟩ <;> rfl
  subst hidx
  constructor
  · intro j
    rw [Store.table_setSlot_self]
    by_cases hj : j = pr.candidateSlotIndex
    · subst hj
      rwa [Function.update_self]
    · rw [Function.update_of_ne hj]
      exact hk.calm j
  · rw [Store.table_setSlot_self]
    exact ht.placed.update ho hfit

/-- Which slots a key hash has after a commit. -/
theorem Tidy.holds_commit (ht : Tidy d st mn kind h) (hp : st.probe d.toCluster mn kind h = .ok pr)
    (ho : p.owner = some h) {s : Slot} :
    (st.setSlot ⟨mn, kind, pr.candidateSlotIndex⟩ p).Holds d mn kind h s ↔ s = p := by
  obtain ⟨i, hi, hfit, hcase⟩ := ht.probe_cases hp
  have hidx : pr.candidateSlotIndex = i := by
    rcases hcase with ⟨rfl, _⟩ | ⟨rfl, _⟩ <;> rfl
  have hown : (st.setSlot ⟨mn, kind, pr.candidateSlotIndex⟩ p).Holds d mn kind h p := by
    rw [Store.Holds, Store.table_setSlot_self, hidx]
    exact owns_update_self hi ho
  constructor
  · intro hs
    rw [Store.Holds, Store.table_setSlot_self, hidx] at hs hown
    exact (ht.placed.update ho hfit).owns_unique hs hown
  · rintro rfl
    exact hown

/-- A commit gives no other key hash a slot. -/
theorem Store.holds_of_commit (ho : p.owner = some h) {i : Nat} {k : UInt64}
    {s : Slot} (hk : k ≠ h) (hs : (st.setSlot ⟨mn, kind, i⟩ p).Holds d mn kind k s) :
    st.Holds d mn kind k s := by
  rw [Store.Holds, Store.table_setSlot_self] at hs
  obtain ⟨j, hj, hjs, hown⟩ := hs
  by_cases hji : j = i
  · subst hji
    rw [Function.update_self] at hjs
    subst hjs
    rw [ho, Option.some.injEq] at hown
    exact absurd hown.symm hk
  · rw [Function.update_of_ne hji] at hjs
    exact ⟨j, hj, hjs, hown⟩

/-- A commit changes the live slots of its own key hash alone. -/
theorem Tidy.live_commit (ht : Tidy d st mn kind h) (hp : st.probe d.toCluster mn kind h = .ok pr)
    (ho : p.owner = some h) (k : UInt64) (s : Slot) :
    (st.setSlot ⟨mn, kind, pr.candidateSlotIndex⟩ p).Live d mn kind k s ↔
      if k = h then s = p ∧ p.tombstone = false else st.Live d mn kind k s := by
  by_cases hk : k = h
  · subst hk
    rw [if_pos rfl, Store.Live, ht.holds_commit hp ho]
    constructor
    · rintro ⟨rfl, h'⟩
      exact ⟨rfl, h'⟩
    · rintro ⟨rfl, h'⟩
      exact ⟨rfl, h'⟩
  · rw [if_neg hk]
    obtain ⟨i, hi, _, hcase⟩ := ht.probe_cases hp
    have hidx : pr.candidateSlotIndex = i := by
      rcases hcase with ⟨rfl, _⟩ | ⟨rfl, _⟩ <;> rfl
    have hold : ∀ s, st.table mn kind i = s → s.owner = some k → s.tombstone = true := by
      intro s hslot hown
      have hslot' : st.slot ⟨mn, kind, i⟩ = s := hslot
      rcases hcase with ⟨_, hh⟩ | ⟨_, _, hz | htomb⟩
      · rw [hslot'] at hh
        have := hh.owner
        rw [hown, Option.some.injEq] at this
        exact absurd this hk
      · rw [hslot'] at hz
        subst hz
        cases hown
      · rwa [hslot'] at htomb
    constructor
    · rintro ⟨hholds, hlive⟩
      exact ⟨Store.holds_of_commit ho hk hholds, hlive⟩
    · rw [Store.Live, Store.Live, Store.Holds, Store.Holds, Store.table_setSlot_self, hidx]
      rintro ⟨⟨j, hj, hjs, hown⟩, hlive⟩
      have hji : j ≠ i := by
        rintro rfl
        rw [hold s hjs hown] at hlive
        cases hlive
      exact ⟨⟨j, hj, by rw [Function.update_of_ne hji]; exact hjs, hown⟩, hlive⟩

end Commit

end TeeDist
