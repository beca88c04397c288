import TeeDist.Snapshot
import TeeDist.Walk

/-!
# Calls that fail

A session call can fail in two ways.  The request is *lost* before the memory node sees
it, or the connection is *cut* after the memory node has carried it out; the compute node
sees the same.  A pattern of failures says for each memory node which of its reads, and
which of its writes and compare-and-swaps, fail (`Faults`), and `faultyHandler` answers
the calls accordingly.

The calls of a write all read, or put its proposal somewhere (`Call.Puts`).  What a commit
leaves in its slot depends on how its two calls go (`Slot.afterCommit`).
-/

namespace TeeDist

open Calls

/-! ## Patterns of failures -/

/-- How a call goes. -/
inductive Fault where
  /-- The call is answered. -/
  | ok
  /-- The request does not reach the memory node. -/
  | lost
  /-- The request is carried out, and its answer does not come back. -/
  | cut
deriving DecidableEq

/-- A pattern of failures: how the calls to each memory node go, in their order. -/
structure Faults where
  /-- The reads. -/
  reads : Nat → Nat → Fault
  /-- The writes and compare-and-swaps. -/
  changes : Nat → Nat → Fault

/-- How a call goes. -/
def Faults.next (f : Faults) : Call → Fault
  | .readRegion a => f.reads a.mn 0
  | .writeRegion a _ => f.changes a.mn 0
  | .cas64 a _ _ => f.changes a.mn 0

/-- A sequence of faults for each memory node, after one more call to `mn`. -/
def dropFirst (g : Nat → Nat → Fault) (mn : Nat) : Nat → Nat → Fault :=
  Function.update g mn fun k => g mn (k + 1)

/-- What is left of a pattern after a call. -/
def Faults.rest (f : Faults) : Call → Faults
  | .readRegion a => { f with reads := dropFirst f.reads a.mn }
  | .writeRegion a _ => { f with changes := dropFirst f.changes a.mn }
  | .cas64 a _ _ => { f with changes := dropFirst f.changes a.mn }

/-- The reply of a call that failed. -/
def Call.failed : (c : Call) → c.Reply
  | .readRegion _ => none
  | .writeRegion _ _ => none
  | .cas64 _ _ _ => none

/-- What the session calls do to a store under a pattern of failures. -/
def faultyHandler : Handler Net (Store × Faults) := fun c s =>
  match s.2.next c with
  | .ok => ((storeHandler c s.1).1, (storeHandler c s.1).2, s.2.rest c)
  | .lost => (c.failed, s.1, s.2.rest c)
  | .cut => (c.failed, (storeHandler c s.1).2, s.2.rest c)

/-- No call to a memory node fails. -/
def Faults.Healthy (f : Faults) (mn : Nat) : Prop :=
  (∀ k, f.reads mn k = .ok) ∧ ∀ k, f.changes mn k = .ok

section Handler

variable {f : Faults} {st : Store} {c : Call} {α : Type}

/-- What is left for a memory node is a part of what there was. -/
theorem dropFirst_apply (g : Nat → Nat → Fault) (mn mn' k : Nat) :
    dropFirst g mn mn' k = g mn' (if mn' = mn then k + 1 else k) := by
  unfold dropFirst
  by_cases h : mn' = mn
  · subst h
    rw [Function.update_self, if_pos rfl]
  · rw [Function.update_of_ne h, if_neg h]

theorem Faults.Healthy.rest {mn : Nat} (h : f.Healthy mn) (c : Call) : (f.rest c).Healthy mn := by
  obtain ⟨hr, hc⟩ := h
  cases c with
  | readRegion a => exact ⟨fun k => (dropFirst_apply ..).trans (hr _), hc⟩
  | writeRegion a p => exact ⟨hr, fun k => (dropFirst_apply ..).trans (hc _)⟩
  | cas64 a compare swap => exact ⟨hr, fun k => (dropFirst_apply ..).trans (hc _)⟩

theorem Faults.Healthy.next {mn : Nat} (h : f.Healthy mn) {c : Call} (hc : c.addr.mn = mn) :
    f.next c = .ok := by
  subst hc
  cases c with
  | readRegion a => exact h.1 0
  | writeRegion a p => exact h.2 0
  | cas64 a compare swap => exact h.2 0

theorem faultyHandler_ok (h : f.next c = .ok) :
    faultyHandler c (st, f) = ((storeHandler c st).1, (storeHandler c st).2, f.rest c) := by
  simp only [faultyHandler, h]

/-- What a call preserves when it is answered it preserves when it fails. -/
theorem faultyHandler_inv {I : Store → Prop} (hI : I st → I (storeHandler c st).2) (hst : I st) :
    I (faultyHandler c (st, f)).2.1 := by
  simp only [faultyHandler]
  split
  · exact hI hst
  · exact hst
  · exact hI hst

theorem faultyHandler_rest (s : Store × Faults) : (faultyHandler c s).2.2 = s.2.rest c := by
  simp only [faultyHandler]
  split <;> rfl

/-- What the calls of a program preserve when they are answered, its run preserves. -/
theorem faulty_run_inv {Q : Call → Prop} {I : Store → Prop}
    (hI : ∀ c st, Q c → I st → I (storeHandler c st).2) {p : Prog Net α} {s : Store × Faults}
    (hp : p.Within Q) (hs : I s.1) : I (p.run faultyHandler s).2.1 :=
  hp.run_inv (I := fun s : Store × Faults => I s.1) (fun c s hc hi => faultyHandler_inv (hI c s.1 hc) hi) hs

/-- What is true of a pattern whatever is left of it stays true. -/
theorem faulty_run_faults {I : Faults → Prop} (hI : ∀ f c, I f → I (f.rest c)) {p : Prog Net α}
    {s : Store × Faults} (hs : I s.2) : I (p.run faultyHandler s).2.2 := by
  induction p generalizing s with
  | ret a => exact hs
  | call c k ih =>
      refine ih _ ?_
      rw [faultyHandler_rest]
      exact hI _ _ hs

/-- A healthy memory node stays healthy. -/
theorem healthy_run {p : Prog Net α} {s : Store × Faults} {mn : Nat} (hs : s.2.Healthy mn) :
    (p.run faultyHandler s).2.2.Healthy mn :=
  faulty_run_faults (I := fun f => f.Healthy mn) (fun _ c h => h.rest c) hs

/-- No read fails. -/
def Faults.Readable (f : Faults) : Prop := ∀ mn k, f.reads mn k = .ok

theorem Faults.Readable.rest (h : f.Readable) (c : Call) : (f.rest c).Readable := by
  cases c with
  | readRegion a => exact fun mn k => (dropFirst_apply ..).trans (h _ _)
  | writeRegion a p => exact h
  | cas64 a compare swap => exact h

theorem readable_run {p : Prog Net α} {s : Store × Faults} (hs : s.2.Readable) :
    (p.run faultyHandler s).2.2.Readable :=
  faulty_run_faults (I := Faults.Readable) (fun _ c h => h.rest c) hs

end Handler

/-! ## Probes -/

/-- The number of slots a probe reads. -/
def Store.probeReads (st : Store) (cl : Cluster) (mn : Nat) (kind : RegionKind) (h : UInt64) : Nat :=
  ((probeSlot cl mn kind h).transcript storeHandler st).length

section Probe

variable {f : Faults} {st : Store} {mn : Nat} {kind : RegionKind} {α : Type}

/-- Reads of one memory node that are all answered. -/
theorem run_faulty_reads (st : Store) {f : Faults} {p : Prog Net α} (hp : p.Within (Call.Reads mn kind))
    (hf : ∀ k < (p.transcript storeHandler st).length, f.reads mn k = .ok) :
    ∃ f', p.run faultyHandler (st, f) = ((p.run storeHandler st).1, st, f') ∧
      f'.changes = f.changes ∧ ∀ mn' ≠ mn, f'.reads mn' = f.reads mn' := by
  induction p generalizing f with
  | ret a => exact ⟨f, rfl, rfl, fun _ _ => rfl⟩
  | call c k ih =>
      cases c with
      | writeRegion a p => exact hp.1.elim
      | cas64 a compare swap => exact hp.1.elim
      | readRegion a =>
          obtain ⟨⟨rfl, _⟩, hk⟩ := hp
          have hrest : ∀ j < ((k (some (st.slot a))).transcript storeHandler st).length,
              (f.rest (.readRegion a)).reads a.mn j = .ok := by
            intro j hj
            refine (dropFirst_apply ..).trans ?_
            rw [if_pos rfl]
            exact hf (j + 1) (Nat.succ_lt_succ hj)
          obtain ⟨f', hrun, hc, hr⟩ := ih _ (hk _) hrest
          have hnext : f.next (.readRegion a) = .ok := hf 0 (Nat.succ_pos _)
          refine ⟨f', ?_, hc, fun mn' hne => (hr mn' hne).trans (Function.update_of_ne hne ..)⟩
          rw [Prog.run_call, faultyHandler_ok hnext]
          exact hrun

/-- A program that ends with an error as soon as a call fails. -/
def Stops : Prog Net (Except Err α) → Prop
  | .ret _ => True
  | .call c k => k c.failed = .ret (.error .transport) ∧ ∀ r, Stops (k r)

theorem probeLoop_stops (h : UInt64) (home count : Nat) :
    ∀ (left idx : Nat) (probe : SlotProbe), Stops (probeLoop mn kind h home count left idx probe)
  | 0, _, _ => trivial
  | left + 1, idx, probe => by
      rw [probeLoop_succ]
      refine ⟨rfl, fun r => ?_⟩
      cases r with
      | none => trivial
      | some slot =>
          simp only [probeStep]
          cases slot.classFor h with
          | hit => trivial
          | reusable => exact probeLoop_stops h home count left (idx + 1) _
          | empty => trivial
          | skip => exact probeLoop_stops h home count left (idx + 1) probe

/-- Reads of one memory node one of which fails. -/
theorem run_faulty_stops {p : Prog Net (Except Err α)} (hp : p.Within (Call.Reads mn kind))
    (hs : Stops p) (hf : ∃ k < (p.transcript storeHandler st).length, f.reads mn k ≠ .ok) :
    (p.run faultyHandler (st, f)).1 = .error .transport := by
  induction p generalizing f with
  | ret a =>
      obtain ⟨k, hk, _⟩ := hf
      exact absurd hk (Nat.not_lt_zero k)
  | call c k ih =>
      cases c with
      | writeRegion a p => exact hp.1.elim
      | cas64 a compare swap => exact hp.1.elim
      | readRegion a =>
          obtain ⟨⟨rfl, _⟩, hk⟩ := hp
          obtain ⟨hstop, hstops⟩ := hs
          rw [Prog.run_call]
          by_cases hnext : f.next (.readRegion a) = .ok
          · rw [faultyHandler_ok hnext]
            refine ih _ (hk _) (hstops _) ?_
            obtain ⟨j, hj, hbad⟩ := hf
            cases j with
            | zero => exact absurd hnext hbad
            | succ j =>
                refine ⟨j, Nat.lt_of_succ_lt_succ hj, fun hok => hbad ?_⟩
                have hdrop := dropFirst_apply f.reads a.mn a.mn j
                rw [if_pos rfl] at hdrop
                exact hdrop.symm.trans hok
          · have hfailed : (faultyHandler (.readRegion a) (st, f)).1 =
                (Call.readRegion a).failed := by
              simp only [faultyHandler]
              split
              next hok => exact absurd hok hnext
              · rfl
              · rfl
            rw [hfailed, hstop]
            rfl

end Probe

/-! ## Programs that put one slot -/

/-- A call that reads, or that is a step of a commit of `p` to a slot of one kind. -/
def Call.Puts (p : Slot) (kind : RegionKind) : Call → Prop
  | .readRegion _ => True
  | .writeRegion a body => body = p ∧ a.kind = kind
  | .cas64 a _ swap => swap = p.visibleEpoch ∧ a.kind = kind

section Puts

variable {cl : Cluster} {p : Slot} {kind : RegionKind} {st : Store} {a : Addr}

/-- Slots of other kinds stay as they are. -/
theorem Call.Puts.slot_of_ne {c : Call} (hc : c.Puts p kind) (ha : a.kind ≠ kind) :
    (storeHandler c st).2.slot a = st.slot a := by
  cases c with
  | readRegion b => rfl
  | writeRegion b body => exact Call.slot_of_ne (fun he => ha (by rw [he]; exact hc.2)) st
  | cas64 b compare swap => exact Call.slot_of_ne (fun he => ha (by rw [he]; exact hc.2)) st

theorem bears_puts : Bears (.only (Call.Puts p kind)) cl (fun kind' p' => kind' = kind ∧ p' = p) () :=
  bears_only (fun _ _ _ => trivial) fun _ _ _ hp _ _ => ⟨hp.symm, congrArg _ hp.2, hp.1⟩

theorem backupLoop_puts (h : UInt64) (left idx : Nat) (observed : UInt64) (votes : List Vote) :
    (backupLoop cl h p left idx observed votes).Within (Call.Puts p .backup) :=
  (backupLoop_obeys bears_puts h ⟨rfl, rfl⟩ left idx observed votes).only

theorem repairLoop_puts (h : UInt64) (votes : List Vote) (idx : Nat) :
    (repairLoop cl h p idx votes).Within (Call.Puts p .backup) :=
  (repairLoop_obeys bears_puts h ⟨rfl, rfl⟩ votes idx).only

theorem refreshCache_puts (key : Key) :
    (refreshCacheBestEffort cl key p).Within (Call.Puts p .cache) :=
  (refreshCacheBestEffort_obeys bears_puts key ⟨rfl, rfl⟩).only

end Puts

/-! ## Commits -/

/-- What a commit of `p` leaves in a slot that held `old`, if its write and its compare-and-swap go
like this.  If the write fails there is no compare-and-swap. -/
def Slot.afterCommit (old p : Slot) (write swap : Fault) : Slot :=
  match write with
  | .lost => old
  | .cut => old.withBody p
  | .ok => if swap = .lost then old.withBody p else p

/-- The number of calls a commit makes. -/
def commitCalls (write : Fault) : Nat := if write = .ok then 2 else 1

/-- A commit of `p` makes the slot `p`: both calls are carried out, or the body alone where the
guard epoch is that of `p` already. -/
def Slot.Lands (old p : Slot) (write swap : Fault) : Prop :=
  (write = .ok ∧ swap ≠ .lost) ∨ (write ≠ .lost ∧ old.guardEpoch = p.guardEpoch)

instance (old p : Slot) (write swap : Fault) : Decidable (old.Lands p write swap) :=
  inferInstanceAs (Decidable (_ ∨ _))

section Commit

variable {p : Slot}

theorem Slot.withBody_eq_iff {old : Slot} : old.withBody p = p ↔ old.guardEpoch = p.guardEpoch := by
  constructor
  · intro h
    have hguard : (old.withBody p).guardEpoch = p.guardEpoch := by rw [h]
    exact hguard
  · intro h
    rw [Slot.withBody, h]

/-- A commit keeps a slot that is `p`, and makes the others `p` if it lands. -/
theorem Slot.afterCommit_eq_iff {old : Slot} {write swap : Fault} :
    old.afterCommit p write swap = p ↔ old = p ∨ old.Lands p write swap := by
  have hbody : old = p → old.guardEpoch = p.guardEpoch := fun h => by rw [h]
  cases write with
  | lost => simp [Slot.afterCommit, Slot.Lands]
  | cut =>
      simp only [Slot.afterCommit, Slot.Lands, Slot.withBody_eq_iff, reduceCtorEq, false_and,
        false_or, ne_eq, not_false_eq_true, true_and]
      exact ⟨Or.inr, fun h => h.elim hbody id⟩
  | ok =>
      by_cases hswap : swap = .lost
      · simp only [Slot.afterCommit, Slot.Lands, hswap, if_true, Slot.withBody_eq_iff, ne_eq,
          not_true_eq_false, and_false, false_or, reduceCtorEq, not_false_eq_true, true_and]
        exact ⟨Or.inr, fun h => h.elim hbody id⟩
      · simp [Slot.afterCommit, Slot.Lands, hswap]

/-- A commit of `p` that expects the epoch that is there, under failures. -/
theorem run_commitSlotAt_faulty (st : Store) (f : Faults) (a : Addr) (hp : p.committed = p)
    {epoch : UInt64} (hepoch : epoch = (st.slot a).guardEpoch) :
    ∃ f', (commitSlotAt a p epoch).run faultyHandler (st, f) =
        (if f.changes a.mn 0 = .ok ∧ f.changes a.mn 1 = .ok then some epoch else none,
          st.setSlot a ((st.slot a).afterCommit p (f.changes a.mn 0) (f.changes a.mn 1)), f') ∧
      f'.reads = f.reads ∧ (∀ mn ≠ a.mn, f'.changes mn = f.changes mn) ∧
      ∀ k, f'.changes a.mn k = f.changes a.mn (k + commitCalls (f.changes a.mn 0)) := by
  have hsame : st.setSlot a (st.slot a) = st := by simp [Store.setSlot]
  have hdrop : ∀ g : Nat → Nat → Fault, ∀ mn ≠ a.mn, dropFirst g a.mn mn = g mn :=
    fun g mn hmn => Function.update_of_ne hmn ..
  have hself : ∀ g : Nat → Nat → Fault, ∀ k, dropFirst g a.mn a.mn k = g a.mn (k + 1) := by
    intro g k
    rw [dropFirst_apply, if_pos rfl]
  have hone : ∀ mn ≠ a.mn, (f.rest (.writeRegion a p)).changes mn = f.changes mn :=
    hdrop f.changes
  have htwo : ∀ mn ≠ a.mn,
      ((f.rest (.writeRegion a p)).rest (.cas64 a epoch p.visibleEpoch)).changes mn =
        f.changes mn := fun mn hmn => (hdrop _ mn hmn).trans (hone mn hmn)
  cases h₀ : f.changes a.mn 0 with
  | lost =>
      refine ⟨f.rest (.writeRegion a p), ?_, rfl, hone, hself f.changes⟩
      simp [commitSlotAt, writeRegion, faultyHandler, Faults.next, h₀, Call.failed,
        Slot.afterCommit, hsame]
  | cut =>
      refine ⟨f.rest (.writeRegion a p), ?_, rfl, hone, hself f.changes⟩
      simp [commitSlotAt, writeRegion, faultyHandler, Faults.next, h₀, Call.failed, storeHandler,
        Slot.afterCommit]
  | ok =>
      have hguard : ((st.slot a).withBody p).guardEpoch = epoch := hepoch.symm
      have hswapped : ((st.slot a).withBody p).withGuard p.visibleEpoch = p := hp
      refine ⟨(f.rest (.writeRegion a p)).rest (.cas64 a epoch p.visibleEpoch), ?_, rfl, htwo,
        fun k => ?_⟩
      · cases h₁ : f.changes a.mn 1 <;>
          simp [commitSlotAt, writeRegion, cas64, faultyHandler, Faults.next, Faults.rest, h₀, h₁,
            hself, Call.failed, storeHandler, hguard, hswapped, Slot.afterCommit]
      · exact (hself _ k).trans (hself f.changes (k + 1))

end Commit

end TeeDist
