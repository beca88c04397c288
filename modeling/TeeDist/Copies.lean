import TeeDist.Integrity

/-!
# Copies of a key

A probe skips a slot whose epochs differ, also if another client is just about to commit
the very key the probe is for.  The client that probes takes the next free slot then, and
the key has two slots once both have committed (`second_copy`).

A client *acts on a current probe* if the slot it writes has the key hash already, or if a
new probe of the key hash would choose the same slot and no commit of the key hash is open.
In runs whose body writes all act on current probes, no key hash has two slots
(`one_slot_per_key`).  The `PRIME` tables stay placed (`Shaped`): the slot that a probe of
a placed table chooses is one the key hash may be put in.
-/

namespace TeeDist

open Calls Probing

/-- A probe of the key hash made now would choose this slot. -/
def Store.Chooses (st : Store) (d : Deployment) (a : Addr) (h : UInt64) : Prop :=
  match st.probe d.toCluster a.mn .prime h with
  | .ok pr => pr.candidateSlotIndex = a.idx
  | .error _ => False

instance (st : Store) (d : Deployment) (a : Addr) (h : UInt64) : Decidable (st.Chooses d a h) :=
  match hp : st.probe d.toCluster a.mn .prime h with
  | .ok pr => decidable_of_iff (pr.candidateSlotIndex = a.idx) (by simp [Store.Chooses, hp])
  | .error _ => isFalse (by simp [Store.Chooses, hp])

theorem Store.Chooses.probe {st : Store} {d : Deployment} {a : Addr} {h : UInt64}
    (hc : st.Chooses d a h) :
    ∃ pr, st.probe d.toCluster a.mn .prime h = .ok pr ∧ pr.candidateSlotIndex = a.idx := by
  cases hp : st.probe d.toCluster a.mn .prime h with
  | ok pr =>
      simp only [Store.Chooses, hp] at hc
      exact ⟨pr, rfl, hc⟩
  | error e =>
      simp only [Store.Chooses, hp] at hc

/-- If the event writes a body to `PRIME`, the probe it acts on is current: the slot has the
key hash already, or it is the one to choose and no commit of the key hash is open. -/
def ActsOnCurrent {ι α : Type} (d : Deployment) (Q : Pool ι Net Store α) (ev : Event ι Net) :
    Prop :=
  match ev.call with
  | .writeRegion a p => a.kind = .prime → (Q.shared.slot a).owner = some p.keyHash ∨
      (Q.shared.Chooses d a p.keyHash ∧ Q.shared.Closed d p.keyHash)
  | _ => True

instance {ι α : Type} (d : Deployment) (Q : Pool ι Net Store α) (ev : Event ι Net) :
    Decidable (ActsOnCurrent d Q ev) :=
  match ev with
  | ⟨_, .readRegion _, _⟩ => isTrue trivial
  | ⟨_, .cas64 _ _ _, _⟩ => isTrue trivial
  | ⟨_, .writeRegion a p, _⟩ =>
      inferInstanceAs (Decidable (a.kind = .prime → (Q.shared.slot a).owner = some p.keyHash ∨
        (Q.shared.Chooses d a p.keyHash ∧ Q.shared.Closed d p.keyHash)))

/-! ## The invariant -/

/-- The `PRIME` tables are placed, and the slot an operation is about to swap is there and has
an owner. -/
structure Filed {ι : Type} (d : Deployment) (phase : ι → Phase) (st : Store) : Prop
    extends Shaped d st where
  wrote : ∀ i a p, phase i = .wrote a p →
    a.kind = .prime ∧ a.idx < d.slots a.mn .prime ∧ ∃ h, (st.slot a).owner = some h

section Step

variable {ι : Type} {d : Deployment} {phase : ι → Phase} {st : Store}

theorem filed_fresh (d : Deployment) : Filed d (fun _ : ι => .idle) .fresh where
  toShaped := shaped_fresh d
  wrote _ _ _ h := by cases h

/-- `Filed` is about `PRIME`. -/
theorem Filed.congr {st' : Store} (hf : Filed d phase st)
    (h : ∀ mn, st'.table mn .prime = st.table mn .prime) : Filed d phase st' := by
  refine ⟨hf.toShaped.congr h, fun i a p hi => ?_⟩
  obtain ⟨ha, hidx, ho⟩ := hf.wrote i a p hi
  rw [Store.slot_of_table ha h]
  exact ⟨ha, hidx, ho⟩

/-- The slot a current probe chose is one the key hash may be put in. -/
theorem Shaped.fits_of_chooses (hs : Shaped d st) {mn idx : Nat} {h : UInt64}
    (hmn : mn = d.primarySession h) (hc : st.Chooses d ⟨mn, .prime, idx⟩ h)
    (hclosed : st.Closed d h) :
    Fits Slot.owner (d.home mn .prime) (d.slots mn .prime) (st.table mn .prime) h idx := by
  obtain ⟨pr, hp, hidx⟩ := hc.probe
  have ht : Tidy d st mn .prime h := by
    rw [hmn]
    exact hs.tidy hclosed
  obtain ⟨i, _, hfit, hcase⟩ := ht.probe_cases hp
  have hi : pr.candidateSlotIndex = i := by
    rcases hcase with ⟨rfl, _⟩ | ⟨rfl, _⟩ <;> rfl
  rw [hidx] at hi
  simp only at hi
  subst hi
  exact hfit

variable [DecidableEq ι]

/-- A `PRIME` slot changes hands.  The operations that are about to swap a slot keep theirs. -/
theorem Filed.setSlot (hf : Filed d phase st) {i : ι} {mn idx : Nat} {s : Slot} {h : UInt64}
    {next : Phase} (hidx : idx < d.slots mn .prime) (ho : s.owner = some h)
    (hfit : Fits Slot.owner (d.home mn .prime) (d.slots mn .prime) (st.table mn .prime) h idx)
    (hnext : ∀ a p, next = .wrote a p → a = ⟨mn, .prime, idx⟩) :
    Filed d (Function.update phase i next) (st.setSlot ⟨mn, .prime, idx⟩ s) := by
  refine ⟨hf.toShaped.setSlot hidx ho hfit, fun j b q hj => ?_⟩
  have hown : ∀ c : Addr, c = ⟨mn, .prime, idx⟩ →
      ∃ k, ((st.setSlot ⟨mn, .prime, idx⟩ s).slot c).owner = some k := by
    rintro c rfl
    rw [Store.setSlot_slot_self]
    exact ⟨h, ho⟩
  obtain ⟨rfl, hq⟩ | ⟨_, hj⟩ := phase_update hj
  · have hb := hnext b q hq
    refine ⟨?_, ?_, hown b hb⟩
    · rw [hb]
    · rw [hb]
      exact hidx
  · obtain ⟨hb, hbi, hbo⟩ := hf.wrote j b q hj
    refine ⟨hb, hbi, ?_⟩
    by_cases hba : b = ⟨mn, .prime, idx⟩
    · exact hown b hba
    · rw [Store.setSlot_slot_of_ne _ _ hba]
      exact hbo

/-- The write of a body that acts on a current probe. -/
theorem Filed.write (hf : Filed d phase st) {job : Job} {i : ι} {a : Addr} {p : Slot}
    (ha : a.kind = .prime) (hidx : a.idx < d.slots a.mn .prime) (hoff : job.Offers d a p)
    (hok : (st.slot a).owner = some p.keyHash ∨
      (st.Chooses d a p.keyHash ∧ st.Closed d p.keyHash)) :
    Filed d (Function.update phase i (.wrote a p)) (st.setSlot a ((st.slot a).withBody p)) := by
  obtain ⟨mn, kind, idx⟩ := a
  cases ha
  have hown : ((st.slot ⟨mn, .prime, idx⟩).withBody p).owner = some p.keyHash := hoff.owner
  refine hf.setSlot hidx hown ?_ fun b q hb => ?_
  · rcases hok with ho | ⟨hc, hclosed⟩
    · exact Or.inl ho
    · exact hf.toShaped.fits_of_chooses hoff.mn hc hclosed
  · cases hb
    rfl

/-- The swap of the guard epoch of a slot that has an owner.  The owner stays. -/
theorem Filed.swap (hf : Filed d phase st) {i : ι} {a : Addr} {p : Slot} {next : Phase}
    (hwrote : phase i = .wrote a p) (epoch : UInt64) (hnext : ∀ b q, next ≠ .wrote b q) :
    Filed d (Function.update phase i next) (st.setSlot a ((st.slot a).withGuard epoch)) := by
  obtain ⟨ha, hidx, h, ho⟩ := hf.wrote i a p hwrote
  obtain ⟨mn, kind, idx⟩ := a
  cases ha
  have hown : ((st.slot ⟨mn, .prime, idx⟩).withGuard epoch).owner = some h := ho
  exact hf.setSlot hidx hown (Or.inl ho) fun b q hb => absurd hb (hnext b q)

/-- An operation leaves the phase it was in without a change of `PRIME`. -/
theorem Filed.leave (hf : Filed d phase st) {i : ι} {next : Phase}
    (hnext : ∀ b q, next ≠ .wrote b q) : Filed d (Function.update phase i next) st := by
  refine ⟨hf.toShaped, fun j b q hj => ?_⟩
  obtain ⟨_, hq⟩ | ⟨_, hj⟩ := phase_update hj
  · exact absurd hq (hnext b q)
  · exact hf.wrote j b q hj

end Step

/-! ## The theorem -/

section Run

variable {ι : Type} [DecidableEq ι] {d : Deployment} {jobs : ι → Job}
  {tr : List (Option (Event ι Net))}

/-- One call of a run whose body writes act on current probes. -/
theorem filed_call {st : Store} {i : ι} {c : Call} (hf : Filed d (phases d jobs tr) st)
    (hallow : (primeProtocol d.toCluster ((jobs i).Offers d)).allow (phases d jobs tr i) c)
    (hok : ∀ a p, c = .writeRegion a p → a.kind = .prime →
      (st.slot a).owner = some p.keyHash ∨ (st.Chooses d a p.keyHash ∧ st.Closed d p.keyHash)) :
    Filed d (phases d jobs (some ⟨i, c, (storeHandler c st).1⟩ :: tr)) (storeHandler c st).2 := by
  rw [phases_call]
  by_cases hquiet : (phases d jobs tr i).Free ∧ c.Quiet
  · rw [(hquiet.2.allowed _ _ hallow.1 hquiet.1).2, Function.update_eq_self]
    exact hf.congr (hquiet.2.table_prime st)
  · cases hphase : phases d jobs tr i with
    | won _ _ =>
        rw [hphase] at hallow hquiet
        exact absurd ⟨trivial, hallow.2⟩ hquiet
    | lost =>
        rw [hphase] at hallow hquiet
        exact absurd ⟨trivial, hallow.2⟩ hquiet
    | idle =>
        rw [hphase] at hallow hquiet
        cases c with
        | readRegion _ => exact absurd ⟨trivial, trivial⟩ hquiet
        | cas64 _ _ _ => exact absurd ⟨trivial, hallow.2⟩ hquiet
        | writeRegion a p =>
            have ha : a.kind = .prime := by
              by_contra hne
              exact hquiet ⟨trivial, hne⟩
            have hidx := hallow.1
            rw [Call.addr, ha] at hidx
            have hnext : (primeProtocol d.toCluster ((jobs i).Offers d)).next .idle
                (.writeRegion a p) (some ()) = .wrote a p := by
              simp [primeProtocol, ha]
            simp only [storeHandler]
            rw [hnext]
            exact hf.write ha hidx (hallow.2 ha) (hok a p rfl ha)
    | wrote a p =>
        rw [hphase] at hallow
        cases c with
        | readRegion _ => exact hallow.2.elim
        | writeRegion _ _ => exact hallow.2.elim
        | cas64 a' compare swap =>
            obtain ⟨rfl, rfl, _⟩ := hallow.2
            have hnext : ∀ r b q, (primeProtocol d.toCluster ((jobs i).Offers d)).next (.wrote a' p)
                (.cas64 a' compare p.visibleEpoch) r ≠ .wrote b q := by
              intro r b q
              simp only [primeProtocol]
              split <;> simp
            simp only [storeHandler]
            split
            · exact hf.swap hphase _ (hnext _)
            · exact hf.leave (hnext _)

/-- In every state of a run whose body writes act on current probes, the `PRIME` tables are
placed. -/
theorem filed_of_run {Q : Pool ι Net Store (Except Err Answer)}
    (hr : Run storeHandler (StoreEvicts d) (ActsOnCurrent d) (d.pool jobs .fresh) tr Q) :
    Filed d (phases d jobs tr) Q.shared := by
  have hP : ∀ i, ((d.pool jobs Store.fresh).prog i).Obeys
      (primeProtocol d.toCluster ((jobs i).Offers d)) (jobs i).Ended .idle :=
    fun i => job_obeys d (jobs i)
  refine Run.invariant (I := fun tr Q => Filed d (phases d jobs tr) Q.shared) ?_ ?_ ?_ hr
  · exact filed_fresh d
  · intro tr Q i c k hr ih hc hok
    refine filed_call ih (hr.allows hP hc) ?_
    rintro a p rfl ha
    exact hok ha
  · intro tr Q st _ ih he
    exact ih.congr fun mn => he.sameTables mn .prime (by decide)

/-- No `PRIME` region has two committed, valid slots with the same key hash. -/
def OneSlotPerKey (d : Deployment) (st : Store) : Prop :=
  ∀ mn i j, i < d.slots mn .prime → j < d.slots mn .prime → i ≠ j →
    (st.slot ⟨mn, .prime, i⟩).guardEpoch = (st.slot ⟨mn, .prime, i⟩).visibleEpoch →
    (st.slot ⟨mn, .prime, j⟩).guardEpoch = (st.slot ⟨mn, .prime, j⟩).visibleEpoch →
    (st.slot ⟨mn, .prime, i⟩).valid = true → (st.slot ⟨mn, .prime, j⟩).valid = true →
    (st.slot ⟨mn, .prime, i⟩).keyHash ≠ (st.slot ⟨mn, .prime, j⟩).keyHash

/-- One slot per key.  Let operations of any number of clients run side by side, with evictions,
and let every write of a `PRIME` body act on a current probe: the slot has the key hash already,
or a probe made at that moment would choose it and no commit of the key hash is open.  Then in
every state of the run no two slots of a `PRIME` region are committed, valid, and have the same
key hash. -/
theorem one_slot_per_key (d : Deployment) (jobs : ι → Job) {tr : List (Option (Event ι Net))}
    {Q : Pool ι Net Store (Except Err Answer)}
    (hrun : Run storeHandler (StoreEvicts d) (ActsOnCurrent d) (d.pool jobs .fresh) tr Q) :
    OneSlotPerKey d Q.shared := by
  intro mn i j hi hj hne _ _ hvi hvj hkey
  have hplaced := (filed_of_run hrun).placed mn
  exact hne (hplaced.unique hi hj (Slot.owner_eq_some.mpr ⟨hvi, hkey⟩)
    (Slot.owner_eq_some.mpr ⟨hvj, rfl⟩))

end Run

/-- Two writers of key `a` that take turns use one slot, at epochs 1 and 2. -/
theorem one_slot_per_key_turns :
    ∃ tr Q, Run storeHandler (StoreEvicts .pair) (ActsOnCurrent .pair)
        (Deployment.pair.pool rivals .fresh) tr Q ∧
      (Q.shared.slot ⟨0, .prime, 0⟩).guardEpoch = 2 ∧ OneSlotPerKey .pair Q.shared := by
  have hrun := Pool.run_schedule storeHandler (StoreEvicts .pair) (ActsOnCurrent .pair)
    (Deployment.pair.pool rivals .fresh) [false, false, false, true, true, true] (by decide +kernel)
  exact ⟨_, _, hrun, by decide +kernel, one_slot_per_key .pair rivals hrun⟩

/-- Different keys of a run have different hashes. -/
def NoCollisions {ι : Type} (jobs : ι → Job) : Prop :=
  ∀ i j, hash64String (jobs i).op.key = hash64String (jobs j).op.key →
    (jobs i).op.key = (jobs j).op.key

/-- Without the condition a key can get two slots.  One writer of key `a` has written its body
to the first slot.  The other one probes, skips this slot, and takes the second.  Both
commit. -/
theorem second_copy :
    ¬ ∀ (ι : Type) [DecidableEq ι] (d : Deployment) (jobs : ι → Job)
        (tr : List (Option (Event ι Net))) (Q : Pool ι Net Store (Except Err Answer)),
      NoCollisions jobs →
      Run storeHandler (fun _ _ => False) (fun _ _ => True) (d.pool jobs .fresh) tr Q →
      OneSlotPerKey d Q.shared := by
  intro h
  have hrun := Pool.run_schedule storeHandler (fun _ _ => False) (fun _ _ => True)
    (Deployment.pair.pool rivals .fresh) [false, true, true, true, true, false, false]
    (Pool.respects_true ..)
  exact h Bool .pair rivals _ _ (fun _ _ _ => rfl) hrun 0 0 1 (by decide) (by decide) (by decide)
    (by decide +kernel) (by decide +kernel) (by decide +kernel) (by decide +kernel)
    (by decide +kernel)

end TeeDist
