import TeeDist.Epochs
import TeeDist.Snapshot

/-!
# Torn slots

A slot is torn while its epochs differ.  A commit tears the slot with its first call, and
mends it with the second one, a compare-and-swap of the guard epoch, if it succeeds.  A
client that comes late writes its body in spite of a guard epoch that has moved on; its
compare-and-swap fails, and the slot stays torn (`torn_slot_left`).  Probes skip it from
then on.

The swaps that are due in a state are the compare-and-swaps that are next in line.
`Mends` says of a slot that it is whole or one of them will mend it, and that none of
those which can succeed will tear it.  In runs in which every write of a body leaves its
slot so, no torn slot is left when all operations have ended (`no_torn_slot_left`).
-/

namespace TeeDist

open Calls

/-! ## A swap after every body -/

/-- A compare-and-swap of the guard epoch of a slot. -/
structure Swap where
  addr : Addr
  compare : UInt64
  swap : UInt64
deriving DecidableEq

/-- The automaton of an operation that follows every body it writes by a compare-and-swap to
the epoch in the body, and makes no other compare-and-swap.  The state is the slot and the
epoch of a body that was just written. -/
def commitProtocol : Protocol Net (Option (Addr × UInt64)) where
  allow g c :=
    match g, c with
    | some due, .cas64 a _ swap => due = (a, swap)
    | some _, _ => False
    | none, .cas64 _ _ _ => False
    | none, _ => True
  next g c r :=
    match g, c, r with
    | none, .writeRegion a p, some () => some (a, p.visibleEpoch)
    | _, _, _ => none

/-- The protocol bears every client while no swap is due. -/
theorem bears_commits (cl : Cluster) : Bears commitProtocol cl (fun _ _ => True) none where
  reads _ _ _ := ⟨trivial, fun _ => rfl⟩
  commits _ _ _ _ _ _ := by
    refine ⟨trivial, fun r => ?_⟩
    cases r with
    | none => rfl
    | some _ => exact ⟨rfl, fun _ => rfl⟩

/-- Operations are made of commits and reads. -/
theorem op_commits (cl : Cluster) (op : Op) :
    (op.prog cl).Obeys commitProtocol (fun g _ => g = none) none := by
  cases op with
  | read key =>
      have hread := readValue_obeys (bears_commits cl) (fun _ => trivial) key
      exact Prog.Obeys.bind (hread.mono fun _ _ hg => hg)
  | mutate m =>
      rw [Op.prog, Mutation.prog_eq]
      refine Prog.Obeys.bind (Prog.Obeys.mono (fun _ _ hg => ?_)
        (writeValue_borne (bears_commits cl) fun _ _ => trivial))
      exact hg

/-! ## Swaps that are due -/

/-- The compare-and-swap a program makes next, if its next call is one. -/
def nextSwap {α : Type} : Prog Net α → Option Swap
  | .call (.cas64 a compare swap) _ => some ⟨a, compare, swap⟩
  | _ => none

/-- The compare-and-swap a program makes after the body it is about to write. -/
def comingSwap {α : Type} : Prog Net α → Option Swap
  | .call (.writeRegion _ _) k => nextSwap (k (some ()))
  | _ => none

/-- A slot with the given epochs is whole or will be mended by one of the swaps `due` at it, and
a swap that finds one of the two epochs swaps in the visible one. -/
def Mends (due : Swap → Prop) (a : Addr) (guard visible : UInt64) : Prop :=
  (guard = visible ∨ ∃ w, due w ∧ w.addr = a ∧ w.compare = guard) ∧
    ∀ w, due w → w.addr = a → w.compare = guard ∨ w.compare = visible → w.swap = visible

section Mends

variable {due due' : Swap → Prop} {a : Addr} {guard visible : UInt64}

/-- Swaps at other slots do not count. -/
theorem Mends.congr (h : Mends due a guard visible)
    (hdue : ∀ w, w.addr = a → (due' w ↔ due w)) : Mends due' a guard visible := by
  refine ⟨h.1.imp_right fun ⟨w, hw, ha, hc⟩ => ⟨w, (hdue w ha).mpr hw, ha, hc⟩, fun w hw ha => ?_⟩
  exact h.2 w ((hdue w ha).mp hw) ha

/-- A due swap is made and finds the guard epoch. -/
theorem Mends.swap (h : Mends due a guard visible) {w : Swap} (hw : due w) (ha : w.addr = a)
    (hc : w.compare = guard) (hdue : ∀ w', due' w' → due w') :
    Mends due' a w.swap visible := by
  have hv : w.swap = visible := h.2 w hw ha (Or.inl hc)
  rw [hv]
  exact ⟨Or.inl rfl, fun w' hw' ha' hc' => h.2 w' (hdue w' hw') ha' (Or.inr (hc'.elim id id))⟩

/-- A due swap is made and does not find the guard epoch. -/
theorem Mends.fail (h : Mends due a guard visible) {w : Swap} (hc : w.compare ≠ guard)
    (hdue : ∀ w', due' w' → due w') (hkeep : ∀ w', due w' → w' ≠ w → due' w') :
    Mends due' a guard visible := by
  refine ⟨h.1.imp_right fun ⟨w', hw', ha', hc'⟩ => ⟨w', hkeep w' hw' ?_, ha', hc'⟩,
    fun w' hw' => h.2 w' (hdue w' hw')⟩
  intro he
  rw [he] at hc'
  exact hc hc'

end Mends

/-- The swaps that are due in a state. -/
def Due {ι σ α : Type} (Q : Pool ι Net σ α) (w : Swap) : Prop := ∃ j, w ∈ nextSwap (Q.prog j)

/-- A slot of the two kinds that hold what was committed. -/
def Addr.Durable (a : Addr) : Prop := a.kind = .prime ∨ a.kind = .backup

instance (a : Addr) : Decidable a.Durable := inferInstanceAs (Decidable (_ ∨ _))

/-- If the event writes a body to `PRIME` or `BACKUP`, the swap that comes after it or one that
is due will mend the slot, and no swap that is due will tear it. -/
def Orderly {ι α : Type} (Q : Pool ι Net Store α) (ev : Event ι Net) : Prop :=
  match ev.call with
  | .writeRegion a p => a.Durable →
      ((Q.shared.slot a).guardEpoch = p.visibleEpoch ∨
        (∃ w ∈ comingSwap (Q.prog ev.who), w.compare = (Q.shared.slot a).guardEpoch) ∨
        ∃ j, ∃ w ∈ nextSwap (Q.prog j), w.addr = a ∧ w.compare = (Q.shared.slot a).guardEpoch) ∧
      ∀ j, ∀ w ∈ nextSwap (Q.prog j), w.addr = a →
        w.compare = (Q.shared.slot a).guardEpoch ∨ w.compare = p.visibleEpoch →
        w.swap = p.visibleEpoch
  | _ => True

instance {ι α : Type} [Fintype ι] (Q : Pool ι Net Store α) (ev : Event ι Net) :
    Decidable (Orderly Q ev) :=
  match ev with
  | ⟨_, .readRegion _, _⟩ => isTrue trivial
  | ⟨_, .cas64 _ _ _, _⟩ => isTrue trivial
  | ⟨_, .writeRegion _ _, _⟩ => inferInstanceAs (Decidable (_ → (_ ∨ _ ∨ ∃ _, _) ∧ ∀ _, _))

/-! ## The invariant -/

/-- Every slot of `PRIME` and `BACKUP` is whole or will be mended. -/
def Mending {ι α : Type} (Q : Pool ι Net Store α) : Prop :=
  ∀ a : Addr, a.Durable →
    Mends (Due Q) a (Q.shared.slot a).guardEpoch (Q.shared.slot a).visibleEpoch

section Step

variable {ι α : Type} [DecidableEq ι] {Q : Pool ι Net Store α} {i : ι} {st : Store}
  {p' : Prog Net α}

/-- What is due after a program has made a call. -/
theorem due_update (w : Swap) :
    Due (⟨st, Function.update Q.prog i p'⟩ : Pool ι Net Store α) w ↔
      w ∈ nextSwap p' ∨ ∃ j, j ≠ i ∧ w ∈ nextSwap (Q.prog j) := by
  constructor
  · rintro ⟨j, hj⟩
    by_cases hji : j = i
    · subst hji
      simp only [Function.update_self] at hj
      exact Or.inl hj
    · simp only [Function.update_of_ne hji] at hj
      exact Or.inr ⟨j, hji, hj⟩
  · rintro (hw | ⟨j, hji, hj⟩)
    · exact ⟨i, by simpa only [Function.update_self] using hw⟩
    · exact ⟨j, by simpa only [Function.update_of_ne hji] using hj⟩

/-- If the swaps of a program before and after its call are not at `a`, the same swaps are due
at `a`. -/
theorem due_update_same {a : Addr} (hi : ∀ w ∈ nextSwap (Q.prog i), w.addr ≠ a)
    (hp' : ∀ w ∈ nextSwap p', w.addr ≠ a) (w : Swap) (hw : w.addr = a) :
    Due (⟨st, Function.update Q.prog i p'⟩ : Pool ι Net Store α) w ↔ Due Q w := by
  rw [due_update]
  constructor
  · rintro (h | ⟨j, _, hj⟩)
    · exact absurd hw (hp' w h)
    · exact ⟨j, hj⟩
  · rintro ⟨j, hj⟩
    refine Or.inr ⟨j, ?_, hj⟩
    intro hji
    rw [hji] at hj
    exact hi w hj hw

variable {post : Option (Addr × UInt64) → α → Prop}

/-- No swap is due right after one, or after a read. -/
theorem nextSwap_of_none {p : Prog Net α} (hp : p.Obeys commitProtocol post none) :
    nextSwap p = none := by
  cases p with
  | ret a => rfl
  | call c k =>
      cases c with
      | readRegion a => rfl
      | writeRegion a body => rfl
      | cas64 a compare swap => exact hp.1.elim

/-- After a body its swap is due. -/
theorem nextSwap_of_some {p : Prog Net α} {a : Addr} {epoch : UInt64}
    (hp : p.Obeys commitProtocol (fun g _ => g = none) (some (a, epoch))) :
    ∃ compare, nextSwap p = some ⟨a, compare, epoch⟩ := by
  cases p with
  | ret x => cases hp
  | call c k =>
      cases c with
      | readRegion b => exact hp.1.elim
      | writeRegion b body => exact hp.1.elim
      | cas64 b compare swap =>
          cases hp.1
          exact ⟨compare, rfl⟩

/-- A body is written. -/
theorem Mending.write (hQ : Mending Q) {b : Addr} {p : Slot}
    {k : Option Unit → Prog Net α} (hc : Q.prog i = .call (.writeRegion b p) k)
    {compare : UInt64} (hk : nextSwap (k (some ())) = some ⟨b, compare, p.visibleEpoch⟩)
    (hok : Orderly Q ⟨i, .writeRegion b p, some ()⟩) :
    Mending (⟨Q.shared.setSlot b ((Q.shared.slot b).withBody p),
      Function.update Q.prog i (k (some ()))⟩ : Pool ι Net Store α) := by
  have hi : nextSwap (Q.prog i) = none := by rw [hc]; rfl
  have hcoming : comingSwap (Q.prog i) = some ⟨b, compare, p.visibleEpoch⟩ := by
    rw [hc]
    exact hk
  intro a ha
  by_cases hab : a = b
  · subst hab
    obtain ⟨hmend, hagree⟩ := hok ha
    simp only [Store.setSlot_slot_self]
    constructor
    · rcases hmend with he | ⟨w, hw, hcmp⟩ | ⟨j, w, hw, haddr, hcmp⟩
      · exact Or.inl he
      · rw [hcoming] at hw
        cases hw
        exact Or.inr ⟨_, (due_update _).mpr (Or.inl hk), rfl, hcmp⟩
      · refine Or.inr ⟨w, (due_update w).mpr (Or.inr ⟨j, ?_, hw⟩), haddr, hcmp⟩
        intro hji
        rw [hji, hi] at hw
        cases hw
    · intro w hw haddr hcmp
      rcases (due_update w).mp hw with hw | ⟨j, _, hw⟩
      · rw [hk] at hw
        cases hw
        rfl
      · exact hagree j w hw haddr hcmp
  · rw [Store.setSlot_slot_of_ne _ _ hab]
    refine (hQ a ha).congr (due_update_same (fun w hw => ?_) fun w hw => ?_)
    · rw [hi] at hw
      cases hw
    · rw [hk] at hw
      cases hw
      exact Ne.symm hab

/-- A swap is made. -/
theorem Mending.swap (hQ : Mending Q) {b : Addr} {compare swap : UInt64}
    {k : Option UInt64 → Prog Net α} (hc : Q.prog i = .call (.cas64 b compare swap) k)
    (hk : ∀ r, nextSwap (k r) = none) :
    Mending (⟨(storeHandler (.cas64 b compare swap) Q.shared).2,
      Function.update Q.prog i (k (storeHandler (.cas64 b compare swap) Q.shared).1)⟩ :
        Pool ι Net Store α) := by
  have hi : nextSwap (Q.prog i) = some ⟨b, compare, swap⟩ := by rw [hc]; rfl
  have hnone : ∀ {st' : Store} {r : Option UInt64} (w : Swap),
      Due (⟨st', Function.update Q.prog i (k r)⟩ : Pool ι Net Store α) w →
      ∃ j, j ≠ i ∧ w ∈ nextSwap (Q.prog j) := by
    intro st' r w hw
    rcases (due_update w).mp hw with hw | hw
    · rw [hk] at hw
      cases hw
    · exact hw
  intro a ha
  by_cases hab : a = b
  · subst hab
    simp only [storeHandler]
    split
    next hguard =>
      have hslot : (Q.shared.setSlot a ((Q.shared.slot a).withGuard swap)).slot a =
          (Q.shared.slot a).withGuard swap := Store.setSlot_slot_self ..
      rw [hslot]
      refine (hQ a ha).swap (w := ⟨a, compare, swap⟩) ⟨i, hi⟩ rfl hguard.symm fun w hw => ?_
      obtain ⟨j, _, hj⟩ := hnone w hw
      exact ⟨j, hj⟩
    next hguard =>
      refine (hQ a ha).fail (w := ⟨a, compare, swap⟩) (Ne.symm hguard) (fun w hw => ?_)
        fun w hw hne => ?_
      · obtain ⟨j, _, hj⟩ := hnone w hw
        exact ⟨j, hj⟩
      · obtain ⟨j, hj⟩ := hw
        refine (due_update w).mpr (Or.inr ⟨j, ?_, hj⟩)
        intro hji
        rw [hji, hi] at hj
        cases hj
        exact hne rfl
  · have hslot : ((storeHandler (.cas64 b compare swap) Q.shared).2).slot a = Q.shared.slot a := by
      simp only [storeHandler]
      split
      · exact Store.setSlot_slot_of_ne _ _ hab
      · rfl
    rw [hslot]
    refine (hQ a ha).congr (due_update_same (fun w hw => ?_) fun w hw => ?_)
    · rw [hi] at hw
      cases hw
      exact Ne.symm hab
    · rw [hk] at hw
      cases hw

/-- One call of an operation. -/
theorem Mending.call (hQ : Mending Q) {g : Option (Addr × UInt64)} {c : Call}
    {k : c.Reply → Prog Net α}
    (hobeys : (Q.prog i).Obeys commitProtocol (fun g _ => g = none) g)
    (hc : Q.prog i = .call c k) (hok : Orderly Q ⟨i, c, (storeHandler c Q.shared).1⟩) :
    Mending (⟨(storeHandler c Q.shared).2,
      Function.update Q.prog i (k (storeHandler c Q.shared).1)⟩ : Pool ι Net Store α) := by
  rw [hc] at hobeys
  cases c with
  | readRegion b =>
      cases g with
      | some due => exact hobeys.1.elim
      | none =>
          have hk := nextSwap_of_none (hobeys.2 (some (Q.shared.slot b)))
          intro a ha
          refine (hQ a ha).congr (due_update_same (fun w hw => ?_) fun w hw => ?_)
          · rw [hc] at hw
            cases hw
          · rw [storeHandler, hk] at hw
            cases hw
  | writeRegion b p =>
      cases g with
      | some due => exact hobeys.1.elim
      | none =>
          obtain ⟨compare, hk⟩ := nextSwap_of_some (hobeys.2 (some ()))
          exact hQ.write hc hk hok
  | cas64 b compare swap =>
      cases g with
      | none => exact hobeys.1.elim
      | some due => exact hQ.swap hc fun r => nextSwap_of_none (hobeys.2 r)

end Step

/-! ## The theorem -/

section Run

variable {ι : Type} [DecidableEq ι]

/-- In every state of a run of orderly writes, every torn slot will be mended. -/
theorem mending_of_run {d : Deployment} {jobs : ι → Job} {tr : List (Option (Event ι Net))}
    {Q : Pool ι Net Store (Except Err Answer)}
    (hrun : Run storeHandler (StoreEvicts d) Orderly (d.pool jobs .fresh) tr Q) : Mending Q := by
  have hP : ∀ i, ((d.pool jobs Store.fresh).prog i).Obeys commitProtocol (fun g _ => g = none)
      none := fun i => op_commits _ (jobs i).op
  refine Run.invariant (I := fun _ Q => Mending Q) ?_ ?_ ?_ hrun
  · intro a _
    refine ⟨Or.inl rfl, fun w hw => ?_⟩
    obtain ⟨j, hj⟩ := hw
    rw [nextSwap_of_none (hP j)] at hj
    cases hj
  · intro tr Q i c k hr ih hc hok
    exact ih.call (hr.obeys hP i) hc hok
  · intro tr Q st _ ih he a ha
    have hslot : st.slot a = Q.shared.slot a := by
      refine congrFun (he.sameTables a.mn a.kind ?_) a.idx
      rcases ha with ha | ha <;> rw [ha] <;> decide
    rw [hslot]
    exact ih a ha

/-- No operation is in flight: each has returned or has not made a call yet. -/
def NoneInFlight {α : Type} (tr : List (Option (Event ι Net))) (Q : Pool ι Net Store α) : Prop :=
  ∀ i, (∃ r, Q.prog i = .ret r) ∨ ∀ c r, some ⟨i, c, r⟩ ∉ tr

/-- No torn slot is left behind.  Let operations of any number of clients run side by side, with
evictions, and let all their writes of bodies be orderly.  In every state of the run in which no
operation is in flight, the guard epoch of every slot of `PRIME` and `BACKUP` is its visible
epoch. -/
theorem no_torn_slot_left (d : Deployment) (jobs : ι → Job) {tr : List (Option (Event ι Net))}
    {Q : Pool ι Net Store (Except Err Answer)}
    (hrun : Run storeHandler (StoreEvicts d) Orderly (d.pool jobs .fresh) tr Q)
    (hrest : NoneInFlight tr Q) (mn : Nat) (kind : RegionKind) (hkind : kind ≠ .cache) (i : Nat) :
    (Q.shared.slot ⟨mn, kind, i⟩).guardEpoch = (Q.shared.slot ⟨mn, kind, i⟩).visibleEpoch := by
  have hP : ∀ i, ((d.pool jobs Store.fresh).prog i).Obeys commitProtocol (fun g _ => g = none)
      none := fun i => op_commits _ (jobs i).op
  have hdurable : (⟨mn, kind, i⟩ : Addr).Durable := by
    cases kind with
    | prime => exact Or.inl rfl
    | cache => exact absurd rfl hkind
    | backup => exact Or.inr rfl
  have hnone : ∀ j, nextSwap (Q.prog j) = none := by
    intro j
    rcases hrest j with ⟨r, hr⟩ | hsilent
    · rw [hr]
      rfl
    · have hobeys := hrun.obeys hP j
      rw [protocolState_of_silent _ _ hsilent] at hobeys
      exact nextSwap_of_none hobeys
  rcases (mending_of_run hrun ⟨mn, kind, i⟩ hdurable).1 with he | ⟨w, ⟨j, hj⟩, _⟩
  · exact he
  · rw [hnone j] at hj
    cases hj

end Run

/-- Two writers of key `a` write their bodies one after the other.  One of the two swaps
succeeds, and the slot is whole. -/
theorem no_torn_slot_left_race :
    ∃ tr Q, Run storeHandler (StoreEvicts .pair) Orderly (Deployment.pair.pool rivals .fresh) tr Q ∧
      NoneInFlight tr Q ∧ (Q.shared.slot ⟨0, .prime, 0⟩).guardEpoch = 1 ∧
      (Q.shared.slot ⟨0, .prime, 0⟩).guardEpoch = (Q.shared.slot ⟨0, .prime, 0⟩).visibleEpoch := by
  have hrun := Pool.run_schedule storeHandler (StoreEvicts .pair) Orderly
    (Deployment.pair.pool rivals .fresh) [false, true, true, false, true, false] (by decide +kernel)
  have hrest : NoneInFlight ((Deployment.pair.pool rivals .fresh).schedule storeHandler
      [false, true, true, false, true, false]).1 ((Deployment.pair.pool rivals .fresh).schedule
        storeHandler [false, true, true, false, true, false]).2 := by
    intro b
    cases b <;> exact Or.inl ⟨_, rfl⟩
  exact ⟨_, _, hrun, hrest, by decide +kernel,
    no_torn_slot_left .pair rivals hrun hrest 0 .prime (by decide) 0⟩

/-- Three clients that write key `a`. -/
def trio (i : Fin 3) : Job := ⟨false, .mutate (.write [97] [49 + UInt8.ofNat i])⟩

/-- Without the condition a torn slot can be left.  One writer has probed the empty slot.  The
two others write the key, one after the other.  Then the first one writes its body, and its
compare-and-swap fails: the guard epoch is 2, and the visible epoch is 1 again. -/
theorem torn_slot_left :
    ¬ ∀ (ι : Type) [DecidableEq ι] (d : Deployment) (jobs : ι → Job)
        (tr : List (Option (Event ι Net))) (Q : Pool ι Net Store (Except Err Answer)),
      Run storeHandler (fun _ _ => False) (fun _ _ => True) (d.pool jobs .fresh) tr Q →
      NoneInFlight tr Q → ∀ mn kind, kind ≠ .cache → ∀ i,
        (Q.shared.slot ⟨mn, kind, i⟩).guardEpoch = (Q.shared.slot ⟨mn, kind, i⟩).visibleEpoch := by
  intro h
  have hrun := Pool.run_schedule storeHandler (fun _ _ => False) (fun _ _ => True)
    (Deployment.pair.pool trio .fresh) [2, 2, 1, 1, 1, 0, 0, 0, 2] (Pool.respects_true ..)
  have hrest : NoneInFlight ((Deployment.pair.pool trio .fresh).schedule storeHandler
      [2, 2, 1, 1, 1, 0, 0, 0, 2]).1 ((Deployment.pair.pool trio .fresh).schedule storeHandler
        [2, 2, 1, 1, 1, 0, 0, 0, 2]).2 := by
    intro i
    match i with
    | 0 => exact Or.inl ⟨_, rfl⟩
    | 1 => exact Or.inl ⟨_, rfl⟩
    | 2 => exact Or.inl ⟨_, rfl⟩
  have htorn := h (Fin 3) .pair trio _ _ hrun hrest 0 .prime (by decide) 0
  revert htorn
  decide +kernel

end TeeDist
