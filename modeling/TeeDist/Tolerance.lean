import TeeDist.FaultyWrite
import TeeDist.Paused

/-!
# Failing backups

What a write that succeeds owes to its backups, and what it can bear of them.

A write that returns a rule may have no replica at all (`acknowledged_alone`).  The rule of the
smallest tie-breaker looks at the slots the backups held before.  If these are empty or have
larger ties, it lets a write through all of whose votes failed, and the repair may fail as well.
`acknowledged_replicated_iff` says for which patterns of failures this happens.

A failing minority is borne as long as it fails in commits.  A backup whose probe fails ends the
write (`minority_read_fails`), and `minority_tolerated_iff` says that nothing else does.
-/

namespace TeeDist

open Calls

/-! ## Acknowledged writes -/

/-- A backup of a key hash holds a slot in `BACKUP`. -/
def Store.Replica (st : Store) (cl : Cluster) (h : UInt64) (p : Slot) : Prop :=
  ∃ b < cl.backupCount, ∃ i < cl.slots (cl.replicaSession h (b + 1)) .backup,
    st.slot ⟨cl.replicaSession h (b + 1), .backup, i⟩ = p

/-- Only writes and compare-and-swaps fail, and not those at the primary of a key hash. -/
def Faults.AtBackups (f : Faults) (cl : Cluster) (h : UInt64) : Prop :=
  (∀ mn k, f.reads mn k = .ok) ∧ ∀ k, f.changes (cl.primarySession h) k = .ok

/-- Every call to a backup that changes something is lost. -/
def Faults.blackout (cl : Cluster) (h : UInt64) : Faults where
  reads _ _ := .ok
  changes mn _ := if mn = cl.primarySession h then .ok else .lost

/-- All reads, and all writes and compare-and-swaps, at one backup of a key hash go the same way. -/
def Faults.atBackup (cl : Cluster) (h : UInt64) (b : Nat) (reads changes : Fault) : Faults where
  reads mn _ := if mn = cl.replicaSession h (b + 1) then reads else .ok
  changes mn _ := if mn = cl.replicaSession h (b + 1) then changes else .ok

/-- A commit at the slot a probe of a backup chooses makes it `p`, if its calls go like `c`. -/
def Store.Takes (st : Store) (cl : Cluster) (h : UInt64) (p : Slot) (c : Nat → Fault) (b : Nat) :
    Prop :=
  (st.backupProbe cl h (b + 1)).isOk = true ∧ (st.votingSlot cl h b).Lands p (c 0) (c 1)

instance (st : Store) (cl : Cluster) (h : UInt64) (p : Slot) (c : Nat → Fault) (b : Nat) :
    Decidable (st.Takes cl h p c b) := inferInstanceAs (Decidable (_ ∧ _))

/-- The failures let `p` through to a backup: at its vote, or at its repair.  The repair finds the
array as the vote has left it, and its calls are the ones that come next. -/
def Store.Reached (st : Store) (cl : Cluster) (h : UInt64) (p : Slot) (c : Nat → Fault) (b : Nat) :
    Prop :=
  st.Takes cl h p c b ∨
    (st.tried cl h p c b).Takes cl h p (fun k => c (k + commitCalls (c 0))) b

instance (st : Store) (cl : Cluster) (h : UInt64) (p : Slot) (c : Nat → Fault) (b : Nat) :
    Decidable (st.Reached cl h p c b) := inferInstanceAs (Decidable (_ ∨ _))

/-- A write would be let through without a replica: every backup has room for the key, none of
them stands against the tie-breaker of the proposal, none is reached in spite of the failures, and
none holds the proposal already. -/
def Exposed (cl : Cluster) (st : Store) (key : Key) (value : Value) (updateOnly tombstone : Bool)
    (f : Faults) : Prop :=
  ∃ pr, Proposes cl st key value updateOnly pr ∧
    (∀ b < cl.backupCount, (st.backupProbe cl (hash64String key) (b + 1)).isOk = true ∧
      ¬ st.Blocks cl (hash64String key) (cl.proposal key value tombstone pr).tieBreaker b ∧
      ¬ st.Reached cl (hash64String key) (cl.proposal key value tombstone pr)
        (f.changes (cl.replicaSession (hash64String key) (b + 1))) b) ∧
    ¬ st.Replica cl (hash64String key) (cl.proposal key value tombstone pr)

section Acknowledged

variable {cl : Cluster} {st : Store} {key : Key} {value : Value} {updateOnly tombstone : Bool}
  {f : Faults}

theorem Faults.AtBackups.healthy {h : UInt64} (hf : f.AtBackups cl h) :
    f.Healthy (cl.primarySession h) := ⟨hf.1 _, hf.2⟩

theorem Faults.AtBackups.heard {h : UInt64} (hf : f.AtBackups cl h) {b : Nat} :
    Heard st cl h f b ↔ (st.backupProbe cl h (b + 1)).isOk = true :=
  ⟨fun hb => hb.1, fun hb => ⟨hb, fun k _ => hf.1 _ k⟩⟩

theorem Faults.blackout_atBackups (cl : Cluster) (h : UInt64) :
    (Faults.blackout cl h).AtBackups cl h :=
  ⟨fun _ _ => rfl, fun _ => if_pos rfl⟩

theorem Faults.atBackup_atBackups {h : UInt64} {b : Nat} (hb : b < cl.backupCount)
    (changes : Fault) : (Faults.atBackup cl h b .ok changes).AtBackups cl h :=
  ⟨fun _ _ => ite_self _, fun _ => if_neg (cl.replicaSession_ne_primary h hb).symm⟩

/-! ### Replicas at one backup -/

/-- One backup holds a slot in `BACKUP`. -/
def Store.ReplicaAt (st : Store) (cl : Cluster) (h : UInt64) (p : Slot) (b : Nat) : Prop :=
  ∃ i < cl.slots (cl.replicaSession h (b + 1)) .backup,
    st.slot ⟨cl.replicaSession h (b + 1), .backup, i⟩ = p

theorem Store.replicaAt_congr {st' : Store} {h : UInt64} {p : Slot} {b : Nat}
    (ht : st'.table (cl.replicaSession h (b + 1)) .backup =
      st.table (cl.replicaSession h (b + 1)) .backup) :
    st'.ReplicaAt cl h p b ↔ st.ReplicaAt cl h p b := by
  have hslot : ∀ i, st'.slot ⟨cl.replicaSession h (b + 1), .backup, i⟩ =
      st.slot ⟨cl.replicaSession h (b + 1), .backup, i⟩ := congrFun ht
  simp only [Store.ReplicaAt, hslot]

/-- After a commit of `p` a backup holds `p` if it did before, or the commit made the slot `p`. -/
theorem Store.replicaAt_tried {h : UInt64} {p : Slot} {c : Nat → Fault} {b : Nat} :
    (st.tried cl h p c b).ReplicaAt cl h p b ↔ st.ReplicaAt cl h p b ∨ st.Takes cl h p c b := by
  by_cases hok : (st.backupProbe cl h (b + 1)).isOk = true
  swap
  · rw [Store.tried, if_neg hok]
    exact ⟨Or.inl, fun hor => hor.resolve_right fun ht => hok ht.1⟩
  have hprobe := SlotProbe.eq_ofResult hok
  have hidx := Store.probe_index_lt hprobe
  have hslot : st.votingSlot cl h b = st.slot (st.votingAddr cl h b) :=
    (Store.probe_candidate hprobe).2.1
  have hself : (st.tried cl h p c b).slot (st.votingAddr cl h b) =
      (st.votingSlot cl h b).afterCommit p (c 0) (c 1) := by
    rw [Store.tried, if_pos hok, Store.setSlot_slot_self]
  have hother : ∀ a ≠ st.votingAddr cl h b, (st.tried cl h p c b).slot a = st.slot a := by
    intro a ha
    rw [Store.tried, if_pos hok, Store.setSlot_slot_of_ne _ _ ha]
  constructor
  · rintro ⟨i, hi, hp⟩
    by_cases ha : (⟨cl.replicaSession h (b + 1), .backup, i⟩ : Addr) = st.votingAddr cl h b
    · rw [ha, hself, Slot.afterCommit_eq_iff] at hp
      refine hp.imp (fun hold => ⟨i, hi, ?_⟩) fun hlands => ⟨hok, hlands⟩
      rw [ha, ← hslot, hold]
    · rw [hother _ ha] at hp
      exact Or.inl ⟨i, hi, hp⟩
  · rintro (⟨i, hi, hp⟩ | ⟨_, hlands⟩)
    · refine ⟨i, hi, ?_⟩
      by_cases ha : (⟨cl.replicaSession h (b + 1), .backup, i⟩ : Addr) = st.votingAddr cl h b
      · rw [ha] at hp ⊢
        rw [hself, Slot.afterCommit_eq_iff, hslot]
        exact Or.inl hp
      · rw [hother _ ha]
        exact hp
    · exact ⟨_, hidx, hself.trans (Slot.afterCommit_eq_iff.mpr (Or.inr hlands))⟩

/-- A vote that is won reaches its backup. -/
theorem VoteOf.reached {st' : Store} {h : UInt64} {p : Slot} {f' : Faults} {b : Nat} {vote : Vote}
    (hv : VoteOf st st' cl h p f f' b vote) (hok : (st.backupProbe cl h (b + 1)).isOk = true)
    (hwon : vote.success = true) :
    st.Takes cl h p (f.changes (cl.replicaSession h (b + 1))) b := by
  obtain ⟨hwrite, hswap⟩ := hv.success.mp hwon
  refine ⟨hok, Or.inl ⟨hwrite, ?_⟩⟩
  rw [hswap]
  decide

/-- The replicas a write leaves that meets a rule: those that were there, and those of the backups
that are reached. -/
theorem replicaAt_of_write {p : Slot} (hp : p.committed = p) {st₁ : Store} {f₁ : Faults}
    {slotIndex : Nat} {currentEpoch : UInt64} {vote : Nat → Vote} (rule : Nat) {b : Nat}
    (hb : b < cl.backupCount)
    (hok : (st.backupProbe cl (hash64String key) (b + 1)).isOk = true)
    (hvote : VoteOf st st₁ cl (hash64String key) p f f₁ b (vote b))
    (hepoch : (st₁.slot (cl.primeAddr key slotIndex)).guardEpoch = currentEpoch)
    (hf₁ : f₁.Healthy (cl.primarySession (hash64String key))) (hreadable : f₁.Readable) :
    ((commitPrimary cl key p slotIndex currentEpoch ((List.range cl.backupCount).map vote)
        rule).run faultyHandler (st₁, f₁)).2.1.ReplicaAt cl (hash64String key) p b ↔
      st.ReplicaAt cl (hash64String key) p b ∨ st.Reached cl (hash64String key) p
        (f.changes (cl.replicaSession (hash64String key) (b + 1))) b := by
  have hbackups := commitPrimary_backups hp hepoch hf₁ hreadable vote rule hb
  cases hwon : (vote b).success with
  | true =>
      rw [hwon, if_pos rfl, hvote.table] at hbackups
      have htakes := hvote.reached hok hwon
      rw [Store.replicaAt_congr hbackups, Store.replicaAt_tried]
      exact or_congr_right (iff_of_true htakes (Or.inl htakes))
  | false =>
      rw [hwon, if_neg Bool.false_ne_true, funext hvote.changes] at hbackups
      rw [Store.replicaAt_congr (hbackups.trans (Store.tried_congr hvote.table _)),
        Store.replicaAt_tried, Store.replicaAt_tried, or_assoc, Store.Reached]

/-! ### Votes -/

/-- No backup stands against a tie-breaker if it is below all that the backups hold. -/
theorem forall_not_blocks_iff {h tie : UInt64} {n : Nat} (hn : 0 < n) :
    (∀ b < n, ¬ st.Blocks cl h tie b) ↔ tie < 0xffffffffffffffff ∧
      ∀ b < n, (st.votingSlot cl h b).tieBreaker ≠ 0 → tie < (st.votingSlot cl h b).tieBreaker := by
  have hne : ∀ b, (st.votingSlot cl h b).guardEpoch + 1 ≠ (st.votingSlot cl h b).guardEpoch := by
    intro b
    simp
  have hiff := @lt_ties_iff_blocks st cl h tie n
    (fun b => (st.votingSlot cl h b).guardEpoch + 1) ⟨0, hn, hne 0⟩
  simp only [hne, ne_eq, not_false_eq_true, forall_const, imp_false] at hiff
  exact hiff.symm

/-- Without a vote that was won, a rule is met exactly if no backup stands against the
tie-breaker. -/
theorem evaluateVotes_none_won {h tie : UInt64} {n : Nat} (hn : 0 < n) {vote : Nat → Vote}
    (hlost : ∀ b < n, (vote b).success = false ∧
      (vote b).observedTie = (st.votingSlot cl h b).tieBreaker) :
    evaluateVotes ((List.range n).map vote) tie =
      if ∀ b < n, ¬ st.Blocks cl h tie b then 3 else 0 := by
  have hmem : ∀ v ∈ (List.range n).map vote, ∃ b < n, vote b = v := by
    intro v hv
    obtain ⟨b, hb, hv⟩ := List.mem_map.mp hv
    exact ⟨b, List.mem_range.mp hb, hv⟩
  have hnone : voteSuccesses ((List.range n).map vote) = 0 := by
    refine List.countP_eq_zero.mpr fun v hv => ?_
    obtain ⟨b, hb, rfl⟩ := hmem v hv
    simp [(hlost b hb).1]
  have hties : tie < minOther ((List.range n).map vote) ↔ ∀ b < n, ¬ st.Blocks cl h tie b := by
    rw [lt_minOther_iff, forall_not_blocks_iff hn]
    refine and_congr_right fun _ => ⟨fun hall b hb hz => ?_, fun hall v hv _ hz => ?_⟩
    · obtain ⟨hs, ht⟩ := hlost b hb
      rw [← ht] at hz ⊢
      exact hall _ (List.mem_map.mpr ⟨b, List.mem_range.mpr hb, rfl⟩) hs hz
    · obtain ⟨b, hb, rfl⟩ := hmem v hv
      rw [(hlost b hb).2] at hz ⊢
      exact hall b hb hz
  have hlen : ((List.range n).map vote).length = n := by simp
  rw [evaluateVotes, hlen, hnone, if_neg (by omega), if_neg (by omega)]
  simp only [hties]

/-- An exposed write succeeds and has no replica. -/
theorem Exposed.alone (hn : 0 < cl.backupCount) (hf : f.AtBackups cl (hash64String key))
    (hexp : Exposed cl st key value updateOnly tombstone f) :
    ∃ pr, Proposes cl st key value updateOnly pr ∧
      ((writeValue cl key value updateOnly tombstone).run faultyHandler (st, f)).1 = .ok 3 ∧
      ¬ ((writeValue cl key value updateOnly tombstone).run faultyHandler (st, f)).2.1.Replica cl
        (hash64String key) (cl.proposal key value tombstone pr) := by
  obtain ⟨pr, hpr, hbackups, hnone⟩ := hexp
  have hp := proposal_committed cl key value tombstone pr
  obtain ⟨vote, st₁, f₁, hvote, hf₁, hread₁, hepoch, _, hrule⟩ := faulty_write_voted tombstone
    hf.healthy hpr fun b hb => hf.heard.mpr (hbackups b hb).1
  have hlost : ∀ b < cl.backupCount, (vote b).success = false ∧
      (vote b).observedTie = (st.votingSlot cl (hash64String key) b).tieBreaker := by
    intro b hb
    have hfalse : (vote b).success = false := by
      by_contra hs
      exact (hbackups b hb).2.2
        (Or.inl ((hvote b hb).reached (hbackups b hb).1 (by simpa using hs)))
    exact ⟨hfalse, (hvote b hb).tie hfalse⟩
  rw [evaluateVotes_none_won hn hlost, if_pos fun b hb => (hbackups b hb).2.1] at hrule
  have hrun := hrule (by decide)
  refine ⟨pr, hpr, ?_, ?_⟩
  · rw [hrun]
    exact (commitPrimary_prime hp hepoch hf₁ _ 3).1
  · rw [hrun]
    rintro ⟨b, hb, hrep⟩
    rcases (replicaAt_of_write hp 3 hb (hbackups b hb).1 (hvote b hb) hepoch hf₁
      (hread₁ hf.1)).mp hrep with hold | hreached
    · exact hnone ⟨b, hb, hold⟩
    · exact (hbackups b hb).2.2 hreached

end Acknowledged

/-- If the write returns a rule under a pattern of failures, a backup of the key holds the proposal
as a committed slot. -/
def AcknowledgedReplicated (cl : Cluster) (st : Store) (key : Key) (value : Value)
    (updateOnly tombstone : Bool) (f : Faults) : Prop :=
  ∀ rule, 0 < rule →
    ((writeValue cl key value updateOnly tombstone).run faultyHandler (st, f)).1 = .ok rule →
    ∃ pr, st.probe cl (cl.primarySession (hash64String key)) .prime (hash64String key) = .ok pr ∧
      ((writeValue cl key value updateOnly tombstone).run faultyHandler (st, f)).2.1.Replica cl
        (hash64String key) (cl.proposal key value tombstone pr)

/-- Acknowledged means replicated.  A write runs alone, in any store, and has at least one backup.
For every pattern of failures of writes and compare-and-swaps at the backups, a write that returns
a rule has a replica, if and only if the write is not exposed. -/
theorem acknowledged_replicated_iff (cl : Cluster) (hcl : 2 ≤ min cl.replication cl.sessionCount)
    (st : Store) (key : Key) (value : Value) (updateOnly tombstone : Bool) (f : Faults)
    (hf : f.AtBackups cl (hash64String key)) :
    AcknowledgedReplicated cl st key value updateOnly tombstone f ↔
      ¬ Exposed cl st key value updateOnly tombstone f := by
  have hn : 0 < cl.backupCount := Nat.sub_pos_of_lt hcl
  constructor
  · intro hack hexp
    obtain ⟨pr, hpr, hok, hnone⟩ := hexp.alone hn hf
    obtain ⟨pr', hpr', hrep⟩ := hack 3 (by decide) hok
    have heq : pr' = pr := Except.ok.inj (hpr'.symm.trans hpr.probe)
    rw [heq] at hrep
    exact hnone hrep
  · intro hnot rule _ hres
    have hheard : ∃ pr, Proposes cl st key value updateOnly pr ∧
        ∀ b < cl.backupCount, Heard st cl (hash64String key) f b := by
      by_contra hno
      obtain ⟨e, he⟩ := faulty_write_unheard tombstone hf.healthy hno
      rw [hres] at he
      cases he
    obtain ⟨pr, hpr, hheard⟩ := hheard
    have hp := proposal_committed cl key value tombstone pr
    obtain ⟨vote, st₁, f₁, hvote, hf₁, hread₁, hepoch, hzero, hrule⟩ :=
      faulty_write_voted tombstone hf.healthy hpr hheard
    have hmet : evaluateVotes ((List.range cl.backupCount).map vote)
        (cl.proposal key value tombstone pr).tieBreaker ≠ 0 := by
      intro h0
      rw [hzero h0] at hres
      cases hres
    have hreplica : ∀ b < cl.backupCount,
        st.ReplicaAt cl (hash64String key) (cl.proposal key value tombstone pr) b ∨
          st.Reached cl (hash64String key) (cl.proposal key value tombstone pr)
            (f.changes (cl.replicaSession (hash64String key) (b + 1))) b →
        ((writeValue cl key value updateOnly tombstone).run faultyHandler (st, f)).2.1.Replica cl
          (hash64String key) (cl.proposal key value tombstone pr) := by
      intro b hb hor
      rw [hrule hmet]
      exact ⟨b, hb, (replicaAt_of_write hp _ hb (hheard b hb).1 (hvote b hb) hepoch hf₁
        (hread₁ hf.1)).mpr hor⟩
    refine ⟨pr, hpr.probe, ?_⟩
    by_contra hnone
    have hunreached : ∀ b < cl.backupCount, ¬ st.Reached cl (hash64String key)
        (cl.proposal key value tombstone pr)
        (f.changes (cl.replicaSession (hash64String key) (b + 1))) b :=
      fun b hb hreached => hnone (hreplica b hb (Or.inr hreached))
    have hlost : ∀ b < cl.backupCount, (vote b).success = false ∧
        (vote b).observedTie = (st.votingSlot cl (hash64String key) b).tieBreaker := by
      intro b hb
      have hfalse : (vote b).success = false := by
        by_contra hs
        exact hunreached b hb (Or.inl ((hvote b hb).reached (hheard b hb).1 (by simpa using hs)))
      exact ⟨hfalse, (hvote b hb).tie hfalse⟩
    rw [evaluateVotes_none_won hn hlost] at hmet
    have hfree : ∀ b < cl.backupCount, ¬ st.Blocks cl (hash64String key)
        (cl.proposal key value tombstone pr).tieBreaker b := by
      by_contra hblocks
      exact hmet (if_neg hblocks)
    exact hnot ⟨pr, hpr, fun b hb => ⟨(hheard b hb).1, hfree b hb, hunreached b hb⟩,
      fun ⟨b, hb, hold⟩ => hnone (hreplica b hb (Or.inl hold))⟩

/-- On fresh memory nodes one backup of two loses all requests to change something.  The write of
key `a` returns rule 3, and the other backup has its proposal. -/
theorem acknowledged_replicated_second :
    ((writeValue Deployment.sample.toCluster [97] [49] false false).run faultyHandler
        (.fresh, .atBackup Deployment.sample.toCluster (hash64String [97]) 0 .ok .lost)).1 = .ok 3 ∧
      AcknowledgedReplicated Deployment.sample.toCluster .fresh [97] [49] false false
        (.atBackup Deployment.sample.toCluster (hash64String [97]) 0 .ok .lost) := by
  refine ⟨by decide +kernel, (acknowledged_replicated_iff Deployment.sample.toCluster (by decide)
    .fresh [97] [49] false false _ (Faults.atBackup_atBackups (by decide) .lost)).mpr ?_⟩
  rintro ⟨pr, hpr, hbackups, _⟩
  have hreached : (Store.fresh.probe Deployment.sample.toCluster
      (Deployment.sample.primarySession (hash64String [97])) .prime (hash64String [97])).toOption.all
      (fun pr => decide (Store.fresh.Reached Deployment.sample.toCluster (hash64String [97])
        (Deployment.sample.proposal [97] [49] false pr)
        ((Faults.atBackup Deployment.sample.toCluster (hash64String [97]) 0 .ok .lost).changes
          (Deployment.sample.replicaSession (hash64String [97]) 2)) 1)) = true := by
    decide +kernel
  rw [hpr.probe] at hreached
  exact (hbackups 1 (by decide)).2.2 (by simpa [Except.toOption] using hreached)

/-- On fresh memory nodes a write of key `a` is exposed if all calls that change the backups are
lost. -/
theorem exposed_fresh : Exposed Deployment.sample.toCluster .fresh [97] [49] false false
    (.blackout Deployment.sample.toCluster (hash64String [97])) := by
  refine ⟨.ofResult (Store.fresh.probe Deployment.sample.toCluster
    (Deployment.sample.primarySession (hash64String [97])) .prime (hash64String [97])),
    ⟨SlotProbe.eq_ofResult (by decide +kernel), rfl, by decide⟩, by decide +kernel, ?_⟩
  rintro ⟨b, _, i, _, hslot⟩
  have hflags : (0 : UInt32) = proposalFlags false := congrArg Slot.flags hslot
  exact absurd hflags (by decide)

/-- An acknowledged write may have no replica: on fresh memory nodes, all calls that change the
backups are lost, and the write returns rule 3. -/
theorem acknowledged_alone :
    ¬ ∀ cl : Cluster, 2 ≤ min cl.replication cl.sessionCount →
      ∀ st key value updateOnly tombstone, ∀ f : Faults, f.AtBackups cl (hash64String key) →
        AcknowledgedReplicated cl st key value updateOnly tombstone f := by
  intro hall
  have hf := Faults.blackout_atBackups Deployment.sample.toCluster (hash64String [97])
  obtain ⟨pr, hpr, hok, hnone⟩ := exposed_fresh.alone (by decide) hf
  obtain ⟨pr', hpr', hrep⟩ := hall Deployment.sample.toCluster (by decide) .fresh [97] [49] false
    false _ hf 3 (by decide) hok
  have heq : pr' = pr := Except.ok.inj (hpr'.symm.trans hpr.probe)
  rw [heq] at hrep
  exact hnone hrep

/-! ## A failing minority -/

/-- Calls fail at some backups of a key hash only. -/
def Faults.Within (f : Faults) (cl : Cluster) (h : UInt64) (F : Finset Nat) : Prop :=
  ∀ mn, (∀ b ∈ F, mn ≠ cl.replicaSession h (b + 1)) → f.Healthy mn

/-- A write returns rule 1 or 2 and has committed its proposal at the primary. -/
def WriteSucceeds (cl : Cluster) (st : Store) (key : Key) (value : Value) (updateOnly tombstone : Bool)
    (f : Faults) : Prop :=
  (((writeValue cl key value updateOnly tombstone).run faultyHandler (st, f)).1 = .ok 1 ∨
    ((writeValue cl key value updateOnly tombstone).run faultyHandler (st, f)).1 = .ok 2) ∧
  ∃ pr, st.probe cl (cl.primarySession (hash64String key)) .prime (hash64String key) = .ok pr ∧
    ((writeValue cl key value updateOnly tombstone).run faultyHandler (st, f)).2.1.slot
      (cl.primeAddr key pr.candidateSlotIndex) = cl.proposal key value tombstone pr

/-- A majority of the votes meets rule 1 or 2. -/
theorem evaluateVotes_majority {n : Nat} {vote : Nat → Vote} {F : Finset Nat} (tie : UInt64)
    (hmaj : n < 2 * (n - F.card)) (hwon : ∀ b < n, b ∉ F → (vote b).success = true) :
    evaluateVotes ((List.range n).map vote) tie = 1 ∨
      evaluateVotes ((List.range n).map vote) tie = 2 := by
  have hcount : n - F.card ≤ voteSuccesses ((List.range n).map vote) := by
    have hsub : Finset.range n \ F ⊆ (Finset.range n).filter fun b => (vote b).success = true := by
      intro b hb
      rw [Finset.mem_sdiff, Finset.mem_range] at hb
      exact Finset.mem_filter.mpr ⟨Finset.mem_range.mpr hb.1, hwon b hb.1 hb.2⟩
    have hcard : voteSuccesses ((List.range n).map vote) =
        ((Finset.range n).filter fun b => (vote b).success = true).card := by
      rw [voteSuccesses, List.countP_map, ← Nat.count_eq_card_filter_range, Nat.count]
      exact List.countP_congr fun b _ => by simp
    calc n - F.card = (Finset.range n).card - F.card := by rw [Finset.card_range]
      _ ≤ (Finset.range n \ F).card := Finset.le_card_sdiff _ _
      _ ≤ _ := by rw [hcard]; exact Finset.card_le_card hsub
  have hlen : ((List.range n).map vote).length = n := by simp
  rw [evaluateVotes, hlen]
  split
  · exact Or.inl rfl
  · rw [if_pos (by omega)]
    exact Or.inr rfl

/-- A minority of failing backups.  A write runs alone, in any store.  Any calls may fail at the
backups of `F`, the others are a majority, and these and the primary have room for the key.  Then
the write commits its proposal at the primary and returns rule 1 or 2, if and only if it is not
refused or too long, and the vote loop gets past the backups of `F`: each has room for the key,
and no read fails that the probe makes there. -/
theorem minority_tolerated_iff (cl : Cluster) (st : Store) (key : Key) (value : Value)
    (updateOnly tombstone : Bool) (F : Finset Nat) (hF : ∀ b ∈ F, b < cl.backupCount)
    (hmaj : cl.backupCount < 2 * (cl.backupCount - F.card)) (f : Faults)
    (hf : f.Within cl (hash64String key) F)
    (hroom : ∀ b < cl.backupCount, b ∉ F →
      (st.backupProbe cl (hash64String key) (b + 1)).isOk = true) :
    WriteSucceeds cl st key value updateOnly tombstone f ↔
      (∃ pr, Proposes cl st key value updateOnly pr) ∧
        ∀ b ∈ F, Heard st cl (hash64String key) f b := by
  have hprimary : f.Healthy (cl.primarySession (hash64String key)) :=
    hf _ fun b hb => (cl.replicaSession_ne_primary _ (hF b hb)).symm
  have hhealthy : ∀ b < cl.backupCount, b ∉ F →
      f.Healthy (cl.replicaSession (hash64String key) (b + 1)) := by
    intro b hb hbF
    refine hf _ fun b' hb' => ?_
    have hlt := cl.backupCount_lt
    have hb'lt := hF b' hb'
    refine replicaSession_ne (by omega) (by omega) ?_
    rintro rfl
    exact hbF hb'
  constructor
  · rintro ⟨hres, _⟩
    by_contra hnot
    have hun : ¬ ∃ pr, Proposes cl st key value updateOnly pr ∧
        ∀ b < cl.backupCount, Heard st cl (hash64String key) f b :=
      fun ⟨pr, hpr, hall⟩ => hnot ⟨⟨pr, hpr⟩, fun b hb => hall b (hF b hb)⟩
    obtain ⟨e, he⟩ := faulty_write_unheard tombstone hprimary hun
    rw [he] at hres
    rcases hres with hres | hres <;> cases hres
  · rintro ⟨⟨pr, hpr⟩, hheard⟩
    have hall : ∀ b < cl.backupCount, Heard st cl (hash64String key) f b := by
      intro b hb
      by_cases hbF : b ∈ F
      · exact hheard b hbF
      · exact ⟨hroom b hb hbF, fun k _ => (hhealthy b hb hbF).1 k⟩
    obtain ⟨vote, st₁, f₁, hvote, hf₁, _, hepoch, _, hrule⟩ :=
      faulty_write_voted tombstone hprimary hpr hall
    have hmet := evaluateVotes_majority (cl.proposal key value tombstone pr).tieBreaker hmaj
      fun b hb hbF => (hvote b hb).success.mpr ⟨(hhealthy b hb hbF).2 0, (hhealthy b hb hbF).2 1⟩
    obtain ⟨hok, hfinal⟩ := commitPrimary_prime (proposal_committed cl key value tombstone pr) hepoch
      hf₁ ((List.range cl.backupCount).map vote)
      (evaluateVotes ((List.range cl.backupCount).map vote)
        (cl.proposal key value tombstone pr).tieBreaker)
    rw [WriteSucceeds, hrule (by rcases hmet with h | h <;> rw [h] <;> decide)]
    refine ⟨?_, pr, hpr.probe, hfinal⟩
    rw [hok]
    rcases hmet with h | h <;> rw [h]
    · exact Or.inl rfl
    · exact Or.inr rfl

/-- Four memory nodes, and three backups for each key. -/
def Deployment.quad : Deployment := .uniform .sample .sample 4 3 2 2 2

theorem Faults.atBackup_within (cl : Cluster) (h : UInt64) (b : Nat) (reads changes : Fault) :
    (Faults.atBackup cl h b reads changes).Within cl h {b} := by
  intro mn hmn
  have hne := hmn b (Finset.mem_singleton_self b)
  exact ⟨fun _ => if_neg hne, fun _ => if_neg hne⟩

/-- One backup of three loses all requests to change something: the write succeeds. -/
theorem minority_tolerated_changes :
    WriteSucceeds Deployment.quad.toCluster .fresh [97] [49] false false
      (.atBackup Deployment.quad.toCluster (hash64String [97]) 0 .ok .lost) := by
  refine (minority_tolerated_iff Deployment.quad.toCluster .fresh [97] [49] false false {0}
    (by decide) (by decide) _ (Faults.atBackup_within _ _ _ _ _) (by decide +kernel)).mpr
    ⟨⟨.ofResult (Store.fresh.probe Deployment.quad.toCluster
      (Deployment.quad.primarySession (hash64String [97])) .prime (hash64String [97])),
      SlotProbe.eq_ofResult (by decide +kernel), rfl, by decide⟩, by decide +kernel⟩

/-- A minority is not borne if it fails in reads: one backup of three does not answer the probe of
the vote loop, and the write ends with an error. -/
theorem minority_read_fails :
    ¬ ∀ (cl : Cluster) (st : Store) (key : Key) (value : Value) (F : Finset Nat) (f : Faults),
      3 ≤ cl.backupCount → value.length ≤ maxValueSize → (∀ b ∈ F, b < cl.backupCount) →
      cl.backupCount < 2 * (cl.backupCount - F.card) → f.Within cl (hash64String key) F →
      (st.probe cl (cl.primarySession (hash64String key)) .prime (hash64String key)).isOk = true →
      (∀ b < cl.backupCount, b ∉ F → (st.backupProbe cl (hash64String key) (b + 1)).isOk = true) →
      WriteSucceeds cl st key value false false f := by
  intro hall
  have hsucc := hall Deployment.quad.toCluster .fresh [97] [49] {0}
    (.atBackup Deployment.quad.toCluster (hash64String [97]) 0 .lost .ok) (by decide) (by decide)
    (by decide) (by decide) (Faults.atBackup_within _ _ _ _ _) (by decide +kernel) (by decide +kernel)
  have hfails : ((writeValue Deployment.quad.toCluster [97] [49] false false).run faultyHandler
      (.fresh, .atBackup Deployment.quad.toCluster (hash64String [97]) 0 .lost .ok)).1 =
      .error .transport := by
    decide +kernel
  rw [WriteSucceeds, hfails] at hsucc
  rcases hsucc.1 with h | h <;> cases h

end TeeDist
