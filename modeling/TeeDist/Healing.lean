import TeeDist.Failure
import TeeDist.FiniteMap

/-!
# Healing

Nothing is assumed of the store here: after a crash, a fault or an attack a table may hold slots
that are half written, two slots of one key, and holes before the slot of a key.  A mutation that
runs alone repairs what it is about.  It succeeds unless it is refused or some table it needs is
*jammed* for the key, and then every probe for the key finds the slot it has built, so a read
without cache returns its value and the backups agree with the primary.

What other keys do later does not undo this (`Store.Found.put`): their slots are never where the
key is, and become neither empty nor slots of the key.  This is true of live slots only: a
tombstone may be reused, and the probe then goes on to what is behind it.
-/

namespace TeeDist

open Calls Probing

/-! ## Finding a slot -/

/-- A probe for the key hash finds this slot. -/
def Store.Found (st : Store) (cl : Cluster) (mn : Nat) (kind : RegionKind) (h : UInt64) (s : Slot) :
    Prop := ∃ i, st.probe cl mn kind h = .ok (foundProbe s i)

/-- A probe for the key hash passes all slots of the table. -/
def Store.Jammed (st : Store) (cl : Cluster) (mn : Nat) (kind : RegionKind) (h : UInt64) : Prop :=
  ∀ i < cl.slots mn kind, (st.slot ⟨mn, kind, i⟩).classFor h = .skip

section Probe

variable {d : Deployment} {st : Store} {mn : Nat} {kind : RegionKind} {h : UInt64} {s p : Slot}

/-- The slots that a probe examines are different ones. -/
theorem Deployment.probeAddr_ne (d : Deployment) {i j : Nat} (hi : i < d.slots mn kind)
    (hj : j < d.slots mn kind) (hne : i ≠ j) : d.probeAddr mn kind h i ≠ d.probeAddr mn kind h j := by
  intro he
  have hidx : (d.probeAddr mn kind h i).idx = (d.probeAddr mn kind h j).idx := congrArg Addr.idx he
  rw [Cluster.probeAddr, Cluster.probeAddr, d.probeIndex_eq hi, d.probeIndex_eq hj] at hidx
  exact hne (add_mod_inj hi hj hidx)

/-- A probe finds the first slot of the key that no empty one comes before. -/
theorem Store.found_iff :
    st.Found d.toCluster mn kind h s ↔ ∃ j < d.slots mn kind,
      st.slot (d.probeAddr mn kind h j) = s ∧ s.classFor h = .hit ∧
      ∀ i < j, (st.slot (d.probeAddr mn kind h i)).classFor h ≠ .hit ∧
        (st.slot (d.probeAddr mn kind h i)).classFor h ≠ .empty := by
  constructor
  · rintro ⟨i, hi⟩
    rw [Store.probe] at hi
    cases ho : st.outcome d.toCluster mn kind h with
    | found j =>
        rw [ho, Store.resultOf, Except.ok.injEq] at hi
        obtain ⟨hj, hhit, hbefore⟩ := (scan_eq_iff _ _ _).mp ho
        obtain rfl : st.slot (d.probeAddr mn kind h j) = s := congrArg SlotProbe.slot hi
        exact ⟨j, hj, rfl, hhit, hbefore⟩
    | free j =>
        rw [ho, Store.resultOf, Except.ok.injEq] at hi
        cases congrArg SlotProbe.found hi
    | full =>
        rw [ho, Store.resultOf] at hi
        cases hi
  · rintro ⟨j, hj, rfl, hhit, hbefore⟩
    have ho : st.outcome d.toCluster mn kind h = .found j :=
      (scan_eq_iff _ _ _).mpr ⟨hj, hhit, hbefore⟩
    exact ⟨_, by rw [Store.probe, ho, Store.resultOf]⟩

/-- Where a probe that succeeds has ended. -/
theorem Store.probe_walk {pr : SlotProbe} (hp : st.probe d.toCluster mn kind h = .ok pr) :
    ∃ j < d.slots mn kind, ⟨mn, kind, pr.candidateSlotIndex⟩ = d.probeAddr mn kind h j ∧
      (st.slot (d.probeAddr mn kind h j)).classFor h ≠ .skip ∧
      ∀ i < j, (st.slot (d.probeAddr mn kind h i)).classFor h ≠ .hit ∧
        (st.slot (d.probeAddr mn kind h i)).classFor h ≠ .empty := by
  rw [Store.probe] at hp
  cases ho : st.outcome d.toCluster mn kind h with
  | found j =>
      rw [ho, Store.resultOf, Except.ok.injEq] at hp
      subst hp
      obtain ⟨hj, hhit, hbefore⟩ := (scan_eq_iff _ _ _).mp ho
      refine ⟨j, hj, rfl, fun hskip => ?_, hbefore⟩
      cases hhit.symm.trans hskip
  | free j =>
      rw [ho, Store.resultOf, Except.ok.injEq] at hp
      subst hp
      have hfree := Meets.free_not_skip ((scan_eq_iff _ _ _).mp ho)
      obtain ⟨hj, -, hskip, -⟩ := (scan_eq_iff _ _ _).mp ho
      refine ⟨j, hj, rfl, hfree, fun i hi => ?_⟩
      have hi' : (st.slot (d.probeAddr mn kind h i)).classFor h = .skip := hskip i hi
      rw [hi']
      simp
  | full =>
      rw [ho, Store.resultOf] at hp
      cases hp

/-- A probe fails just where the table is jammed. -/
theorem Store.probe_error_iff :
    (∃ e, st.probe d.toCluster mn kind h = .error e) ↔ st.Jammed d.toCluster mn kind h := by
  constructor
  · rintro ⟨e, he⟩ i hi
    cases ho : st.outcome d.toCluster mn kind h with
    | found j =>
        rw [Store.probe, ho, Store.resultOf] at he
        cases he
    | free j =>
        rw [Store.probe, ho, Store.resultOf] at he
        cases he
    | full =>
        obtain ⟨j, hj, rfl⟩ := exists_offset (d.home mn kind h) hi
        have hskip := (scan_eq_iff _ _ _).mp ho j hj
        rwa [d.probeAddr_slot st hj] at hskip
  · intro hjam
    have ho : st.outcome d.toCluster mn kind h = .full := by
      refine (scan_eq_iff _ _ _).mpr fun j hj => ?_
      rw [d.probeAddr_slot st hj]
      exact hjam _ (Nat.mod_lt _ (by omega))
    exact ⟨_, congrArg (st.resultOf d.toCluster mn kind h) ho⟩

theorem Store.probe_ok_iff :
    (∃ pr, st.probe d.toCluster mn kind h = .ok pr) ↔ ¬ st.Jammed d.toCluster mn kind h := by
  rw [← Store.probe_error_iff]
  cases st.probe d.toCluster mn kind h <;> simp

/-- A slot put where a probe has ended is found there. -/
theorem Store.found_setSlot {pr : SlotProbe} (hp : st.probe d.toCluster mn kind h = .ok pr)
    (hhit : p.classFor h = .hit) :
    (st.setSlot ⟨mn, kind, pr.candidateSlotIndex⟩ p).Found d.toCluster mn kind h p := by
  obtain ⟨j, hj, haddr, -, hbefore⟩ := Store.probe_walk hp
  rw [haddr]
  refine Store.found_iff.mpr ⟨j, hj, Store.setSlot_slot_self .., hhit, fun i hi => ?_⟩
  rw [Store.setSlot_slot_of_ne st p (d.probeAddr_ne (Nat.lt_trans hi hj) hj (Nat.ne_of_lt hi))]
  exact hbefore i hi

theorem Store.Found.congr {cl : Cluster} {st' : Store} (ht : st'.table mn kind = st.table mn kind)
    (hf : st.Found cl mn kind h s) : st'.Found cl mn kind h s := by
  obtain ⟨i, hi⟩ := hf
  exact ⟨i, (Store.probe_congr ht h).trans hi⟩

/-- A slot that a live one of another key could not be. -/
theorem Slot.classFor_live (hown : s.classFor h = .hit) (hlive : s.tombstone = false) {h' : UInt64}
    (hne : h ≠ h') : s.classFor h' = .skip := by
  obtain ⟨hvalid, rfl⟩ := Slot.classFor_hit_inv hown
  have hempty : s.isEmpty = false := by
    have hflags : s.flags ≠ 0 := by
      intro hf
      simp [Slot.valid, hf] at hvalid
    simp [Slot.isEmpty, hflags]
  unfold Slot.classFor
  simp [hne, hlive, hempty]

/-- A slot of another key stops no probe. -/
theorem Slot.classFor_other (hown : s.classFor h = .hit) {h' : UInt64} (hne : h ≠ h') :
    s.classFor h' ≠ .hit ∧ s.classFor h' ≠ .empty := by
  obtain ⟨hvalid, rfl⟩ := Slot.classFor_hit_inv hown
  cases hlive : s.tombstone with
  | false =>
      rw [Slot.classFor_live hown hlive hne]
      simp
  | true =>
      have hepochs : s.guardEpoch = s.visibleEpoch := Slot.classFor_epochs (by rw [hown]; simp)
      unfold Slot.classFor
      simp [hne, hvalid, hlive, hepochs]

/-- A slot of another key, put where a probe for that key has ended, leaves live slots where they
are found. -/
theorem Store.Found.put (hf : st.Found d.toCluster mn kind h s) (hlive : s.tombstone = false)
    {mn' : Nat} {kind' : RegionKind} {h' : UInt64} {pr : SlotProbe} (hne : h ≠ h')
    (hp : st.probe d.toCluster mn' kind' h' = .ok pr) (hhit : p.classFor h' = .hit) :
    (st.setSlot ⟨mn', kind', pr.candidateSlotIndex⟩ p).Found d.toCluster mn kind h s := by
  by_cases ht : mn' = mn ∧ kind' = kind
  · obtain ⟨rfl, rfl⟩ := ht
    obtain ⟨j, hj, hslot, hown, hbefore⟩ := Store.found_iff.mp hf
    obtain ⟨j', -, haddr, hfree, -⟩ := Store.probe_walk hp
    rw [haddr]
    refine Store.found_iff.mpr ⟨j, hj, ?_, hown, fun i hi => ?_⟩
    · rw [Store.setSlot_slot_of_ne, hslot]
      -- the slot of the key is not one that another key may take
      intro he
      rw [← he, hslot] at hfree
      exact hfree (Slot.classFor_live hown hlive hne)
    · by_cases he : d.probeAddr mn' kind' h i = d.probeAddr mn' kind' h' j'
      · rw [he, Store.setSlot_slot_self]
        exact Slot.classFor_other hhit (Ne.symm hne)
      · rw [Store.setSlot_slot_of_ne _ _ he]
        exact hbefore i hi
  · exact hf.congr (st.table_setSlot_of_ne p ht)

end Probe

/-! ## Mutations -/

section Mutation

variable {d : Deployment} {st : Store} {key : Key} {value : Value} {updateOnly tombstone : Bool}

theorem proposal_hit (cl : Cluster) (key : Key) (value : Value) (tombstone : Bool)
    (pr : SlotProbe) : (cl.proposal key value tombstone pr).classFor (hash64String key) = .hit :=
  (Slot.classFor_hit (proposal_calm cl key value tombstone pr _)).mpr (proposal_owner ..)

/-- What replication has put is found. -/
theorem Replicated.found {h : UInt64} {p : Slot} {j : Nat} {st' : Store}
    (hr : Replicated d.toCluster h p 0 j st st') (hj : j < d.sessionCount) (hhit : p.classFor h = .hit)
    {i : Nat} (hi : i < j) : st'.Found d.toCluster (d.replicaSession h (i + 1)) .backup h p := by
  obtain ⟨pr, hpr⟩ := hr.room i hi
  have hput := hr.written i hi pr hpr
  rw [Nat.zero_add] at hpr hput
  refine (Store.found_setSlot hpr hhit).congr ?_
  funext k
  by_cases hk : k = pr.candidateSlotIndex
  · subst hk
    exact hput.trans (Store.setSlot_slot_self ..).symm
  · have hkept : st'.slot ⟨d.replicaSession h (i + 1), .backup, k⟩ =
        st.slot ⟨d.replicaSession h (i + 1), .backup, k⟩ := by
      refine hr.kept _ fun i' hi' pr' hpr' he => ?_
      rw [Nat.zero_add] at hpr' he
      have hii : i + 1 = i' + 1 :=
        d.replicaSession_inj h (by omega) (by omega) (congrArg Addr.mn he)
      obtain rfl : i = i' := by omega
      obtain rfl : pr = pr' := Except.ok.inj (hpr.symm.trans hpr')
      exact hk (congrArg Addr.idx he)
    refine hkept.trans (Store.setSlot_slot_of_ne _ _ ?_).symm
    exact fun he => hk (congrArg Addr.idx he)

theorem replicated_of_none {pr : SlotProbe} {st' : Store}
    (hrep : Store.replicate d.toCluster (hash64String key) (d.proposal key value tombstone pr)
      d.backupCount 0 st = (none, st')) :
    Replicated d.toCluster (hash64String key) (d.proposal key value tombstone pr) 0 d.backupCount
      st st' := by
  have hcount := d.backupCount_lt
  obtain ⟨-, hr⟩ | ⟨e, j, -, he, -⟩ := @replicate_replicated d.toCluster (hash64String key) _
    (proposal_committed d.toCluster key value tombstone pr) d.backupCount 0 st (by omega)
  · rwa [hrep] at hr
  · rw [hrep] at he
    cases he

/-- A mutation that succeeds is found wherever its key is placed. -/
theorem found_of_ok {rule : Nat}
    (hok : (st.write d.toCluster key value updateOnly tombstone).1 = .ok rule) :
    ∃ pr, value.length ≤ maxValueSize ∧
      (st.write d.toCluster key value updateOnly tombstone).2.Found d.toCluster
        (d.primarySession (hash64String key)) .prime (hash64String key)
        (d.proposal key value tombstone pr) ∧
      ∀ j < d.backupCount,
        (st.write d.toCluster key value updateOnly tombstone).2.Found d.toCluster
          (d.replicaSession (hash64String key) (j + 1)) .backup (hash64String key)
          (d.proposal key value tombstone pr) := by
  have hw := st.written d.toCluster key value updateOnly tombstone
  generalize st.write d.toCluster key value updateOnly tombstone = res at hw hok
  cases hw with
  | probe _ => cases hok
  | refused _ _ => cases hok
  | long _ _ => cases hok
  | backup _ _ _ _ => cases hok
  | @done pr st' hp _ hlen hrep =>
      have hhit := proposal_hit d.toCluster key value tombstone pr
      have hcount := d.backupCount_lt
      have hr := replicated_of_none hrep
      refine ⟨pr, hlen, ?_, fun j hj => ?_⟩
      · rw [← Store.probe_congr (replicate_table hrep _)] at hp
        exact (Store.found_setSlot hp hhit).congr (Store.refresh_sameTables _ _ _ _ _ _ (by decide))
      · refine (hr.found hcount hhit hj).congr ?_
        rw [Store.refresh_sameTables _ _ _ _ _ _ (by decide)]
        exact Store.table_setSlot_of_ne _ _ (by simp)

/-- What an update does not refuse. -/
theorem not_refuses_iff {pr : SlotProbe}
    (hp : st.probe d.toCluster (d.primarySession (hash64String key)) .prime (hash64String key) =
      .ok pr) :
    updateRefuses updateOnly (hash64String key) pr = false ↔
      (updateOnly = true → ∃ s, st.Found d.toCluster (d.primarySession (hash64String key)) .prime
        (hash64String key) s ∧ s.tombstone = false) := by
  cases updateOnly with
  | false => simp [updateRefuses]
  | true =>
      simp only [updateRefuses, Bool.true_and, Bool.or_eq_false_iff, Bool.not_eq_false',
        true_implies]
      constructor
      · rintro ⟨⟨hfound, htomb⟩, -⟩
        obtain ⟨-, -, -, hhit⟩ := Store.probe_candidate hp
        obtain ⟨heq, -⟩ := hhit hfound
        refine ⟨pr.candidateSlot, ⟨pr.candidateSlotIndex, hp.trans (congrArg _ heq)⟩, ?_⟩
        rw [heq] at htomb
        exact htomb
      · rintro ⟨s, hs, htomb⟩
        obtain ⟨-, -, -, hhit, -⟩ := Store.found_iff.mp hs
        obtain ⟨i, hi⟩ := hs
        rw [hp, Except.ok.injEq] at hi
        subst hi
        obtain ⟨hvalid, hkey⟩ := Slot.classFor_hit_inv hhit
        have hepochs : s.guardEpoch = s.visibleEpoch := Slot.classFor_epochs (by rw [hhit]; simp)
        exact ⟨⟨rfl, htomb⟩, by simp [foundProbe, Slot.present, hvalid, hkey, hepochs, htomb]⟩

/-- When a mutation succeeds. -/
theorem write_ok_iff :
    (∃ rule, (st.write d.toCluster key value updateOnly tombstone).1 = .ok rule) ↔
      value.length ≤ maxValueSize ∧
      ¬ st.Jammed d.toCluster (d.primarySession (hash64String key)) .prime (hash64String key) ∧
      (∀ j < d.backupCount, ¬ st.Jammed d.toCluster (d.replicaSession (hash64String key) (j + 1))
        .backup (hash64String key)) ∧
      (updateOnly = true → ∃ s, st.Found d.toCluster (d.primarySession (hash64String key)) .prime
        (hash64String key) s ∧ s.tombstone = false) := by
  constructor
  · rintro ⟨rule, hok⟩
    have hw := st.written d.toCluster key value updateOnly tombstone
    generalize st.write d.toCluster key value updateOnly tombstone = res at hw hok
    cases hw with
    | probe _ => cases hok
    | refused _ _ => cases hok
    | long _ _ => cases hok
    | backup _ _ _ _ => cases hok
    | @done pr st' hp hu hlen hrep =>
        refine ⟨hlen, Store.probe_ok_iff.mp ⟨pr, hp⟩, fun j hj => ?_, (not_refuses_iff hp).mp hu⟩
        obtain ⟨pr', hpr'⟩ := (replicated_of_none hrep).room j hj
        rw [Nat.zero_add] at hpr'
        exact Store.probe_ok_iff.mp ⟨pr', hpr'⟩
  · rintro ⟨hlen, hprime, hback, hupdate⟩
    obtain ⟨pr, hp⟩ := Store.probe_ok_iff.mpr hprime
    have hu := (not_refuses_iff hp).mpr hupdate
    have hcount := d.backupCount_lt
    refine ⟨1, ?_⟩
    rw [Store.write, hp]
    simp only [hu, Bool.false_eq_true, if_false]
    rw [if_neg (Nat.not_lt.mpr hlen), Store.commitWrite]
    obtain ⟨hnone, -⟩ | ⟨e, j, hj, -, he, -⟩ := @replicate_replicated d.toCluster (hash64String key) _
      (proposal_committed d.toCluster key value tombstone pr) d.backupCount 0 st (by omega)
    · generalize Store.replicate d.toCluster (hash64String key)
        (d.proposal key value tombstone pr) d.backupCount 0 st = res at hnone
      obtain ⟨e, st'⟩ := res
      obtain rfl : e = none := hnone
      rfl
    · rw [Nat.zero_add] at he
      exact absurd (Store.probe_error_iff.mp ⟨e, he⟩) (hback j hj)

end Mutation

/-! ## What others do later -/

section Later

variable {d : Deployment} {st : Store} {mn : Nat} {kind : RegionKind} {h : UInt64} {s : Slot}

/-- Replication of another key. -/
theorem Store.Found.replicate {h' : UInt64} {p : Slot} (hp : p.committed = p)
    (hhit : p.classFor h' = .hit) (hne : h ≠ h') (hlive : s.tombstone = false) :
    ∀ (left idx : Nat) {st : Store}, st.Found d.toCluster mn kind h s →
      (Store.replicate d.toCluster h' p left idx st).2.Found d.toCluster mn kind h s
  | 0, _, _, hf => hf
  | left + 1, idx, st, hf => by
      unfold Store.replicate
      rw [hp]
      split
      · exact hf
      next pr hpr =>
        exact Store.Found.replicate hp hhit hne hlive left (idx + 1) (hf.put hlive hne hpr hhit)

/-- A mutation of another key, however it ends. -/
theorem Store.Found.write (hf : st.Found d.toCluster mn kind h s) (hkind : kind ≠ .cache)
    (hlive : s.tombstone = false) {key : Key} (hne : h ≠ hash64String key) (value : Value)
    (updateOnly tombstone : Bool) :
    (st.write d.toCluster key value updateOnly tombstone).2.Found d.toCluster mn kind h s := by
  have hw := st.written d.toCluster key value updateOnly tombstone
  generalize st.write d.toCluster key value updateOnly tombstone = res at hw
  have hback : ∀ {pr e st'}, Store.replicate d.toCluster (hash64String key)
      (d.proposal key value tombstone pr) d.backupCount 0 st = (e, st') →
      st'.Found d.toCluster mn kind h s := by
    intro pr e st' hrep
    have := hf.replicate (proposal_committed d.toCluster key value tombstone pr)
      (proposal_hit d.toCluster key value tombstone pr) hne hlive d.backupCount 0
    rwa [hrep] at this
  cases hw with
  | probe _ => exact hf
  | refused _ _ => exact hf
  | long _ _ => exact hf
  | backup _ _ _ hrep => exact hback hrep
  | @done pr st' hp _ _ hrep =>
      rw [← Store.probe_congr (replicate_table hrep _)] at hp
      have hput := (hback hrep).put hlive hne hp (proposal_hit d.toCluster key value tombstone pr)
      exact hput.congr (Store.refresh_sameTables _ _ _ _ mn kind hkind)

/-- A turn that does not mutate the key. -/
theorem Store.Found.turn (hf : st.Found d.toCluster mn kind h s) (hkind : kind ≠ .cache)
    (hlive : s.tombstone = false) :
    ∀ t : Turn, (∀ key ∈ t.mutated, h ≠ hash64String key) →
      (t.apply d st).Found d.toCluster mn kind h s
  | .op cacheOn (.read key), _ => by
      simp only [Turn.apply, Op.apply, run_readKv]
      exact hf.congr (st.afterRead_sameTables _ key mn kind hkind)
  | .op cacheOn (.mutate m), hne => by
      simp only [Turn.apply, Op.apply, Mutation.run_prog]
      have hf' : st.Found (d.client cacheOn).toCluster mn kind h s := hf
      exact hf'.write hkind hlive (hne m.key rfl) m.value m.updateOnly m.tombstone
  | .evict mn' fuel thresholdPct, _ => by
      simp only [Turn.apply]
      cases he : Store.evictIfNeeded mn' (d.header mn').cacheSlotCount fuel thresholdPct st with
      | none => exact hf
      | some st' => exact hf.congr (Store.evictIfNeeded_sameTables he mn kind hkind)

end Later

/-- The store after turns that began with a store. -/
def Deployment.afterFrom (d : Deployment) (st : Store) : List Turn → Store
  | [] => st
  | t :: ts => t.apply d (d.afterFrom st ts)

theorem Store.Found.afterFrom {d : Deployment} {st : Store} {mn : Nat} {kind : RegionKind}
    {h : UInt64} {s : Slot} (hf : st.Found d.toCluster mn kind h s) (hkind : kind ≠ .cache)
    (hlive : s.tombstone = false) :
    ∀ ts : List Turn, (∀ t ∈ ts, ∀ key ∈ t.mutated, h ≠ hash64String key) →
      (d.afterFrom st ts).Found d.toCluster mn kind h s
  | [], _ => hf
  | t :: ts, hne =>
      (hf.afterFrom hkind hlive ts fun t' ht' => hne t' (List.mem_cons_of_mem _ ht')).turn hkind hlive
        t (hne t List.mem_cons_self)

/-! ## Healing -/

/-- A key is as a mutation says: a read without cache returns the value of the mutation, or finds
nothing if the mutation is a delete, and the backups have the slot of the primary. -/
structure Healed (d : Deployment) (st : Store) (m : Mutation) : Prop where
  read : ((readKv (d.client false).toCluster m.key).run storeHandler st).1 =
    .ok (if m.tombstone then none else some m.value)
  agree : ∃ s, st.Found d.toCluster (d.primarySession (hash64String m.key)) .prime
      (hash64String m.key) s ∧
    ∀ j < d.backupCount, st.Found d.toCluster (d.replicaSession (hash64String m.key) (j + 1))
      .backup (hash64String m.key) s

/-- What the probes find makes a key healed. -/
theorem healed_of_found {d : Deployment} {st : Store} {m : Mutation} {pr : SlotProbe}
    (hlen : m.value.length ≤ maxValueSize)
    (hprime : st.Found d.toCluster (d.primarySession (hash64String m.key)) .prime
      (hash64String m.key) (d.proposal m.key m.value m.tombstone pr))
    (hback : ∀ j < d.backupCount, st.Found d.toCluster
      (d.replicaSession (hash64String m.key) (j + 1)) .backup (hash64String m.key)
      (d.proposal m.key m.value m.tombstone pr)) : Healed d st m := by
  refine ⟨?_, _, hprime, hback⟩
  obtain ⟨i, hi⟩ := hprime
  have hi' : st.probe (d.client false).toCluster
      ((d.client false).primarySession (hash64String m.key)) .prime (hash64String m.key) =
      .ok (foundProbe (d.proposal m.key m.value m.tombstone pr) i) := hi
  have hpresent : (d.proposal m.key m.value m.tombstone pr).present (hash64String m.key) =
      !m.tombstone := by
    have hepochs : (d.proposal m.key m.value m.tombstone pr).guardEpoch =
        (d.proposal m.key m.value m.tombstone pr).visibleEpoch := rfl
    have hkey : (d.proposal m.key m.value m.tombstone pr).keyHash = hash64String m.key := rfl
    simp [Slot.present, hepochs, hkey]
  rw [run_readKv, Store.readResult_off st _ m.key rfl, hi']
  simp only [primeValue, foundProbe, hpresent, Bool.not_true, Bool.false_or, Bool.not_not]
  cases htomb : m.tombstone with
  | true => rfl
  | false =>
      simp only [Bool.false_eq_true, if_false]
      have hdecode : decodeSlot (d.client false).ssl (d.client false).crypto m.key
          (d.proposal m.key m.value false pr) = some m.value :=
        decodeSlot_builtSlot d.ssl d.crypto m.key _ _ m.key hlen (proposal_valid ..)
      rw [hdecode]

/-- Whatever the memory nodes hold, a mutation by a client with or without cache succeeds exactly
if its value is not too long, no table it needs is jammed, and, if it is an update, a live slot of
its key is found.  Then its key is healed, and if it wrote a value its key stays healed, whatever
others do with other keys and whatever is evicted. -/
theorem mutation_heals (d : Deployment) (st : Store) (cacheOn : Bool) (m : Mutation) :
    ((∃ rule, ((m.prog (d.client cacheOn).toCluster).run storeHandler st).1 = .ok rule) ↔
      m.value.length ≤ maxValueSize ∧
      ¬ st.Jammed d.toCluster (d.primarySession (hash64String m.key)) .prime (hash64String m.key) ∧
      (∀ j < d.backupCount, ¬ st.Jammed d.toCluster (d.replicaSession (hash64String m.key) (j + 1))
        .backup (hash64String m.key)) ∧
      (m.updateOnly = true → ∃ s, st.Found d.toCluster (d.primarySession (hash64String m.key)) .prime
        (hash64String m.key) s ∧ s.tombstone = false)) ∧
    (∀ rule, ((m.prog (d.client cacheOn).toCluster).run storeHandler st).1 = .ok rule →
      Healed d ((m.prog (d.client cacheOn).toCluster).run storeHandler st).2 m ∧
      (m.tombstone = false → ∀ later : List Turn,
        (∀ t ∈ later, ∀ key ∈ t.mutated, hash64String m.key ≠ hash64String key) →
        Healed d (d.afterFrom ((m.prog (d.client cacheOn).toCluster).run storeHandler st).2 later)
          m)) := by
  rw [Mutation.run_prog]
  refine ⟨write_ok_iff (d := d.client cacheOn), ?_⟩
  intro rule hok
  obtain ⟨pr, hlen, hprime, hback⟩ := found_of_ok (d := d.client cacheOn) hok
  refine ⟨healed_of_found hlen hprime hback, fun htomb later hlater => ?_⟩
  have hlive : (d.proposal m.key m.value m.tombstone pr).tombstone = false := by
    rw [proposal_tombstone, htomb]
  exact healed_of_found hlen (hprime.afterFrom (d := d) (by decide) hlive later hlater)
    fun j hj => (hback j hj).afterFrom (d := d) (by decide) hlive later hlater

/-- A memory node on which a write of key `a` was interrupted, before a slot of key `a`. -/
def tornStore : Store :=
  (Store.fresh.setSlot ⟨0, .prime, 0⟩ { Slot.zero with visibleEpoch := 1, flags := slotFlagValid }).setSlot
    ⟨0, .prime, 1⟩ { Slot.zero with keyHash := hash64String [97], flags := slotFlagValid }

/-- A write repairs key `a`, and what becomes of key `b` does not matter to it. -/
theorem mutation_heals_torn :
    ((readKv (Deployment.pair.client false).toCluster [97]).run storeHandler
      (Deployment.pair.afterFrom
        (((Mutation.write [97] [49]).prog (Deployment.pair.client true).toCluster).run storeHandler
          tornStore).2 [.op true (.mutate (.write [98] [50])), .evict 0 4 0])).1 =
      .ok (some [49]) :=
  (((mutation_heals .pair tornStore true (.write [97] [49])).2 1 (by decide +kernel)).2 rfl _
    (by decide +kernel)).read

end TeeDist
