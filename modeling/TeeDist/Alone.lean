import TeeDist.Table

/-!
# Operations, run alone

What a read and a write do to a store that no other client touches, as functions
on stores.  `run_readValue` and `run_writeValue` equate the programs of
`TeeDist.Cluster` with these functions.  Alone, every compare-and-swap finds the
epoch the probe saw, so every vote succeeds and nothing is repaired: a write
stops at a probe that fails, or commits everywhere.
-/

namespace TeeDist

open Calls

/-! ## Commits -/

/-- A slot as a commit leaves it. -/
def Slot.committed (s : Slot) : Slot := s.withGuard s.visibleEpoch

theorem Slot.committed_eq {s : Slot} (h : s.guardEpoch = s.visibleEpoch) : s.committed = s := by
  cases s
  simp_all [Slot.committed, Slot.withGuard]

theorem run_commitSlotAt (a : Addr) (p : Slot) (compareEpoch : UInt64) (st : Store) :
    (commitSlotAt a p compareEpoch).run storeHandler st =
      (some (st.slot a).guardEpoch,
        if (st.slot a).guardEpoch = compareEpoch then st.setSlot a p.committed
        else st.setSlot a ((st.slot a).withBody p)) := by
  simp only [commitSlotAt, writeRegion, cas64, Prog.bind_eq, Prog.call_bind, Prog.ret_bind,
    Prog.run_call, Prog.run_ret, storeHandler, Store.setSlot_slot_self, Slot.withBody,
    Store.setSlot_setSlot]
  split <;> rfl

/-- A commit that expects the epoch that is there. -/
theorem run_commitSlotAt_self (a : Addr) (p : Slot) (st : Store) :
    (commitSlotAt a p (st.slot a).guardEpoch).run storeHandler st =
      (some (st.slot a).guardEpoch, st.setSlot a p.committed) := by
  rw [run_commitSlotAt, if_pos rfl]

/-! ## Reading -/

/-- A store after a cache refresh. -/
def Store.refresh (st : Store) (cl : Cluster) (key : Key) (slot : Slot) : Store :=
  if cl.cacheOn then
    match st.probe cl (cl.primarySession (hash64String key)) .cache (hash64String key) with
    | .error _ => st
    | .ok pr =>
        st.setSlot ⟨cl.primarySession (hash64String key), .cache, pr.candidateSlotIndex⟩
          slot.committed
  else st

theorem run_refreshCacheBestEffort (cl : Cluster) (key : Key) (slot : Slot) (st : Store) :
    (refreshCacheBestEffort cl key slot).run storeHandler st = ((), st.refresh cl key slot) := by
  unfold refreshCacheBestEffort Store.refresh
  cases hon : cl.cacheOn with
  | false => rfl
  | true =>
      simp only [Bool.not_true, Bool.false_eq_true, if_false, if_true, Prog.bind_eq, Prog.run_bind,
        run_probeSlot]
      cases hp : st.probe cl (cl.primarySession (hash64String key)) .cache (hash64String key) with
      | error e => rfl
      | ok pr =>
          obtain ⟨hv, hs, _⟩ := Store.probe_candidate hp
          simp only [hv, Bool.not_true, Bool.false_eq_true, if_false, Prog.run_bind, hs,
            run_commitSlotAt_self, Prog.pure_eq, Prog.run_ret]

/-- The value a read takes from the cache. -/
def Store.cacheValue (st : Store) (cl : Cluster) (key : Key) (primeProbe : SlotProbe) :
    Option Value :=
  if cl.cacheOn then
    match st.probe cl (cl.primarySession (hash64String key)) .cache (hash64String key) with
    | .error _ => none
    | .ok cacheProbe =>
        if cacheConsistent (hash64String key) cacheProbe primeProbe then
          decodeSlot cl.ssl cl.crypto key cacheProbe.slot
        else none
  else none

/-- A value taken from the cache is that of a slot that validated. -/
theorem Store.cacheValue_eq_some {st : Store} {cl : Cluster} {key : Key} {primeProbe : SlotProbe}
    {value : Value} :
    st.cacheValue cl key primeProbe = some value ↔
      cl.cacheOn = true ∧ ∃ cacheProbe,
        st.probe cl (cl.primarySession (hash64String key)) .cache (hash64String key) =
          .ok cacheProbe ∧
        cacheConsistent (hash64String key) cacheProbe primeProbe = true ∧
        decodeSlot cl.ssl cl.crypto key cacheProbe.slot = some value := by
  unfold Store.cacheValue
  constructor
  · intro h
    split at h
    next hon =>
      split at h
      · cases h
      next cacheProbe hc =>
        split at h
        next hcons => exact ⟨hon, cacheProbe, hc, hcons, h⟩
        · cases h
    · cases h
  · rintro ⟨hon, cacheProbe, hc, hcons, hdec⟩
    rw [if_pos hon, hc]
    exact (if_pos hcons).trans hdec

theorem run_readCache (cl : Cluster) (key : Key) (primeProbe : SlotProbe) (st : Store) :
    (readCache cl key primeProbe).run storeHandler st = (st.cacheValue cl key primeProbe, st) := by
  unfold readCache Store.cacheValue
  cases hon : cl.cacheOn with
  | false => rfl
  | true =>
      simp only [Bool.not_true, Bool.false_eq_true, if_false, if_true, Prog.bind_eq, Prog.run_bind,
        run_probeSlot]
      cases st.probe cl (cl.primarySession (hash64String key)) .cache (hash64String key) with
      | error e => rfl
      | ok pr =>
          simp only []
          split <;> rfl

/-- The result of a read that does not use the cache. -/
def primeValue (cl : Cluster) (key : Key) (primeProbe : SlotProbe) : Except Err (Option Value) :=
  if !primeProbe.found || !primeProbe.slot.present (hash64String key) then .ok none
  else
    match decodeSlot cl.ssl cl.crypto key primeProbe.slot with
    | none => .error (.mac key)
    | some value => .ok (some value)

/-- What a read returns. -/
def Store.readResult (st : Store) (cl : Cluster) (key : Key) : Except Err (Option Value) :=
  match st.probe cl (cl.primarySession (hash64String key)) .prime (hash64String key) with
  | .error e => .error e
  | .ok primeProbe =>
      match st.cacheValue cl key primeProbe with
      | some value => .ok (some value)
      | none => primeValue cl key primeProbe

theorem Store.readResult_off (st : Store) (cl : Cluster) (key : Key) (hoff : cl.cacheOn = false) :
    st.readResult cl key =
      match st.probe cl (cl.primarySession (hash64String key)) .prime (hash64String key) with
      | .error e => .error e
      | .ok primeProbe => primeValue cl key primeProbe := by
  unfold Store.readResult Store.cacheValue
  rw [hoff]
  rfl

/-- The store after a read: refreshed if the value came from `PRIME`. -/
def Store.afterRead (st : Store) (cl : Cluster) (key : Key) : Store :=
  match st.probe cl (cl.primarySession (hash64String key)) .prime (hash64String key) with
  | .error _ => st
  | .ok primeProbe =>
      match st.cacheValue cl key primeProbe, primeValue cl key primeProbe with
      | none, .ok (some _) => st.refresh cl key primeProbe.slot
      | _, _ => st

theorem run_readPrime (cl : Cluster) (key : Key) (primeProbe : SlotProbe) (st : Store) :
    (readPrime cl key primeProbe).run storeHandler st =
      (primeValue cl key primeProbe,
        match primeValue cl key primeProbe with
        | .ok (some _) => st.refresh cl key primeProbe.slot
        | _ => st) := by
  unfold readPrime primeValue
  split
  · rfl
  · cases decodeSlot cl.ssl cl.crypto key primeProbe.slot with
    | none => rfl
    | some value =>
        simp only [Prog.bind_eq, Prog.run_bind, run_refreshCacheBestEffort, Prog.pure_eq,
          Prog.run_ret]

theorem run_readValue (cl : Cluster) (key : Key) (st : Store) :
    (readValue cl key).run storeHandler st = (st.readResult cl key, st.afterRead cl key) := by
  unfold readValue Store.readResult Store.afterRead
  simp only [Prog.bind_eq, Prog.run_bind, run_probeSlot]
  cases st.probe cl (cl.primarySession (hash64String key)) .prime (hash64String key) with
  | error e => rfl
  | ok primeProbe =>
      simp only [Prog.run_bind, run_readCache]
      cases st.cacheValue cl key primeProbe with
      | some value => rfl
      | none =>
          simp only [run_readPrime]
          cases primeValue cl key primeProbe with
          | error e => rfl
          | ok v => cases v <;> rfl

/-! ## Writing -/

/-- The backups of a proposal written one after another, from the `idx`-th on.
Stops at a backup whose probe fails. -/
def Store.replicate (cl : Cluster) (keyHash : UInt64) (p : Slot) :
    Nat → Nat → Store → Option Err × Store
  | 0, _, st => (none, st)
  | left + 1, idx, st =>
      match st.probe cl (cl.replicaSession keyHash (idx + 1)) .backup keyHash with
      | .error e => (some e, st)
      | .ok pr =>
          Store.replicate cl keyHash p left (idx + 1)
            (st.setSlot ⟨cl.replicaSession keyHash (idx + 1), .backup, pr.candidateSlotIndex⟩
              p.committed)

/-- A vote that succeeded. -/
def Vote.won : Vote := ⟨true, 0, 0⟩

theorem run_backupLoop (cl : Cluster) (keyHash : UInt64) (p : Slot) :
    ∀ (left idx : Nat) (observed : UInt64) (votes : List Vote) (st : Store),
      (backupLoop cl keyHash p left idx observed votes).run storeHandler st =
        match Store.replicate cl keyHash p left idx st with
        | (some e, st') => (.error e, st')
        | (none, st') => (.ok (votes ++ List.replicate left Vote.won), st')
  | 0, idx, observed, votes, st => by simp [backupLoop, Store.replicate]
  | left + 1, idx, observed, votes, st => by
      simp only [backupLoop, Store.replicate, Prog.bind_eq, Prog.run_bind, run_probeSlot]
      cases hp : st.probe cl (cl.replicaSession keyHash (idx + 1)) .backup keyHash with
      | error e => rfl
      | ok pr =>
          obtain ⟨hv, hs, _⟩ := Store.probe_candidate hp
          simp only [hv, Bool.not_true, Bool.false_eq_true, if_false, Prog.run_bind, hs,
            run_commitSlotAt_self, Option.isSome_some, Option.getD_some, and_self, if_true,
            run_backupLoop cl keyHash p left (idx + 1)]
          rw [List.append_assoc]
          rfl

theorem run_repairLoop_won (cl : Cluster) (keyHash : UInt64) (p : Slot) (st : Store) :
    ∀ (n idx : Nat),
      (repairLoop cl keyHash p idx (List.replicate n Vote.won)).run storeHandler st = ((), st)
  | 0, _ => rfl
  | n + 1, idx => run_repairLoop_won cl keyHash p st n (idx + 1)

theorem evaluateVotes_won (n : Nat) (myTie : UInt64) :
    evaluateVotes (List.replicate n Vote.won) myTie = 1 := by
  have hall : voteSuccesses (List.replicate n Vote.won) = n := by
    rw [voteSuccesses, List.countP_replicate]
    rfl
  simp [evaluateVotes, hall]

/-- Replication writes only `BACKUP` slots of the replicas. -/
theorem Store.replicate_slot (cl : Cluster) (keyHash : UInt64) (p : Slot) {a : Addr}
    (ha : a.kind ≠ .backup) :
    ∀ (left idx : Nat) (st : Store),
      (Store.replicate cl keyHash p left idx st).2.slot a = st.slot a
  | 0, idx, st => rfl
  | left + 1, idx, st => by
      unfold Store.replicate
      split
      · rfl
      · rw [Store.replicate_slot cl keyHash p ha left]
        refine st.setSlot_slot_of_ne _ ?_
        rintro rfl
        exact ha rfl

/-- The slot a write proposes. -/
def Cluster.proposal (cl : Cluster) (key : Key) (value : Value) (tombstone : Bool)
    (pr : SlotProbe) : Slot :=
  builtSlot cl.ssl cl.crypto key value (proposalFlags tombstone)
    (pr.candidateSlot.guardEpoch + 1)

/-- Whether an update refuses what the primary probe returned. -/
def updateRefuses (updateOnly : Bool) (keyHash : UInt64) (pr : SlotProbe) : Bool :=
  updateOnly && (!pr.found || pr.tombstone || !pr.slot.present keyHash)

/-- What a write does from the backup loop on. -/
def Store.commitWrite (st : Store) (cl : Cluster) (key : Key) (p : Slot) (slotIndex : Nat) :
    Except Err Nat × Store :=
  match Store.replicate cl (hash64String key) p cl.backupCount 0 st with
  | (some e, st') => (.error e, st')
  | (none, st') =>
      (.ok 1, (st'.setSlot ⟨cl.primarySession (hash64String key), .prime, slotIndex⟩
        p.committed).refresh cl key p)

/-- What a write does. -/
def Store.write (st : Store) (cl : Cluster) (key : Key) (value : Value)
    (updateOnly tombstone : Bool) : Except Err Nat × Store :=
  match st.probe cl (cl.primarySession (hash64String key)) .prime (hash64String key) with
  | .error e => (.error e, st)
  | .ok pr =>
      if updateRefuses updateOnly (hash64String key) pr then (.error (.updateNotFound key), st)
      else if value.length > maxValueSize then (.error .prepare, st)
      else st.commitWrite cl key (cl.proposal key value tombstone pr) pr.candidateSlotIndex

theorem run_writeProposal (cl : Cluster) (key : Key) (p : Slot) (st : Store) (slotIndex : Nat)
    (currentEpoch : UInt64)
    (he : (st.slot ⟨cl.primarySession (hash64String key), .prime, slotIndex⟩).guardEpoch =
      currentEpoch) :
    (writeProposal cl key p slotIndex currentEpoch).run storeHandler st =
      st.commitWrite cl key p slotIndex := by
  unfold writeProposal Store.commitWrite
  simp only [Prog.bind_eq, Prog.run_bind, run_backupLoop]
  have hprime := Store.replicate_slot cl (hash64String key) p
    (a := ⟨cl.primarySession (hash64String key), .prime, slotIndex⟩) (by simp) cl.backupCount 0 st
  cases hrep : Store.replicate cl (hash64String key) p cl.backupCount 0 st with
  | mk e st' =>
      cases e with
      | some e => rfl
      | none =>
          rw [hrep] at hprime
          have he' : (st'.slot ⟨cl.primarySession (hash64String key), .prime,
              slotIndex⟩).guardEpoch = currentEpoch := by rw [hprime]; exact he
          simp only [List.nil_append, evaluateVotes_won, Nat.one_ne_zero, if_false, commitPrimary,
            Prog.bind_eq, Prog.run_bind, run_commitSlotAt, he', if_true, ne_eq, not_true_eq_false,
            run_repairLoop_won, run_refreshCacheBestEffort, Prog.pure_eq, Prog.run_ret]

theorem run_writeValue (cl : Cluster) (key : Key) (value : Value) (updateOnly tombstone : Bool)
    (st : Store) :
    (writeValue cl key value updateOnly tombstone).run storeHandler st =
      st.write cl key value updateOnly tombstone := by
  unfold writeValue Store.write
  simp only [Prog.bind_eq, Prog.run_bind, run_probeSlot]
  cases hp : st.probe cl (cl.primarySession (hash64String key)) .prime (hash64String key) with
  | error e => rfl
  | ok pr =>
      obtain ⟨_, hs, _⟩ := Store.probe_candidate hp
      simp only [makeSlot]
      by_cases hu : updateRefuses updateOnly (hash64String key) pr = true
      · simp only [if_pos hu]
        rw [updateRefuses] at hu
        rw [if_pos hu]
        rfl
      · simp only [if_neg hu]
        rw [updateRefuses] at hu
        rw [if_neg hu]
        by_cases hlen : value.length > maxValueSize
        · simp only [if_pos hlen]
          rfl
        · simp only [if_neg hlen]
          exact run_writeProposal cl key _ st _ _ (by rw [← hs])

end TeeDist
