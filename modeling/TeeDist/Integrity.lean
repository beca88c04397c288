import TeeDist.Epochs
import TeeDist.Paused

/-!
# Concurrent writers

A commit writes the body of a `PRIME` slot before its compare-and-swap, and nothing
protects the slot in between.  If the probe a writer acts on is no longer current when
it writes the body, the body of another writer is lost (`body_overwritten`).  A write
of a body is *undisturbed* if a new probe of the key would choose the same slot at the
same epoch, and no commit of the same key hash is open.  In runs whose body writes are
all undisturbed, every slot whose epochs agree has the body of the operation that
installed its epoch, and reads return what was committed last
(`committed_integrity`).

The invariant is `Sound`.  It follows a run through the phases of the operations, the
bodies they wrote and the slots they installed.
-/

namespace TeeDist

open Calls Probing

/-! ## What was installed -/

section Trace

variable {ι : Type} [DecidableEq ι]

/-- The body an operation last wrote to `PRIME`. -/
def bodyOf (i : ι) : List (Option (Event ι Net)) → Option Slot
  | [] => none
  | some ⟨j, .writeRegion a p, _⟩ :: tr => if j = i ∧ a.kind = .prime then some p else bodyOf i tr
  | _ :: tr => bodyOf i tr

/-- A slot that a compare-and-swap installed in `PRIME`. -/
structure Install (ι : Type) where
  who : ι
  addr : Addr
  /-- The body the operation wrote before. -/
  slot : Slot

/-- The slots installed in a run, newest first. -/
def installs : List (Option (Event ι Net)) → List (Install ι)
  | [] => []
  | e :: tr =>
      ((primeCommit e).bind fun c =>
        (bodyOf c.who tr).map fun p => (⟨c.who, c.addr, p⟩ : Install ι)).toList ++ installs tr

/-- The last slot installed at an address. -/
def installedAt (xs : List (Install ι)) (a : Addr) : Option (Install ι) :=
  xs.find? fun x => x.addr = a

/-- The last slot installed for a key hash. -/
def committedOf (xs : List (Install ι)) (h : UInt64) : Option (Install ι) :=
  xs.find? fun x => x.slot.keyHash = h

/-- A quiet call installs nothing and writes no body to `PRIME`. -/
theorem Call.Quiet.trace {c : Call} (hc : c.Quiet) (i : ι) (r : c.Reply)
    (tr : List (Option (Event ι Net))) :
    installs (some ⟨i, c, r⟩ :: tr) = installs tr ∧
      ∀ j, bodyOf j (some ⟨i, c, r⟩ :: tr) = bodyOf j tr := by
  cases c with
  | readRegion a => exact ⟨rfl, fun _ => rfl⟩
  | writeRegion a p => exact ⟨rfl, fun j => if_neg fun h => hc h.2⟩
  | cas64 a compare swap =>
      have hnone : primeCommit (some ⟨i, .cas64 a compare swap, r⟩) = none := if_neg fun h => hc h.1
      exact ⟨by rw [installs, hnone]; rfl, fun _ => rfl⟩

end Trace

/-! ## Undisturbed writes -/

/-- No commit of a key hash is open: the epochs of its `PRIME` slots agree. -/
def Store.Closed (st : Store) (d : Deployment) (h : UInt64) : Prop :=
  ∀ i < d.slots (d.primarySession h) .prime,
    (st.slot ⟨d.primarySession h, .prime, i⟩).owner = some h →
      (st.slot ⟨d.primarySession h, .prime, i⟩).guardEpoch =
        (st.slot ⟨d.primarySession h, .prime, i⟩).visibleEpoch

instance (st : Store) (d : Deployment) (h : UInt64) : Decidable (st.Closed d h) :=
  inferInstanceAs (Decidable (∀ i < d.slots (d.primarySession h) .prime, _ → _))

/-- A probe made now would choose this slot, at the epoch before that of the proposal. -/
def Store.Current (st : Store) (d : Deployment) (a : Addr) (p : Slot) : Prop :=
  match st.probe d.toCluster a.mn .prime p.keyHash with
  | .ok pr => pr.candidateSlotIndex = a.idx ∧ pr.candidateSlot.guardEpoch + 1 = p.visibleEpoch
  | .error _ => False

instance (st : Store) (d : Deployment) (a : Addr) (p : Slot) : Decidable (st.Current d a p) :=
  match hp : st.probe d.toCluster a.mn .prime p.keyHash with
  | .ok pr => decidable_of_iff
      (pr.candidateSlotIndex = a.idx ∧ pr.candidateSlot.guardEpoch + 1 = p.visibleEpoch)
      (by simp [Store.Current, hp])
  | .error _ => isFalse (by simp [Store.Current, hp])

theorem Store.Current.probe {st : Store} {d : Deployment} {a : Addr} {p : Slot}
    (h : st.Current d a p) :
    ∃ pr, st.probe d.toCluster a.mn .prime p.keyHash = .ok pr ∧ pr.candidateSlotIndex = a.idx ∧
      pr.candidateSlot.guardEpoch + 1 = p.visibleEpoch := by
  unfold Store.Current at h
  split at h
  next pr hp => exact ⟨pr, hp, h⟩
  · exact h.elim

/-- If the event writes a body to `PRIME`, the probe it acts on is current, and no commit of the
key hash is open. -/
def Undisturbed {ι α : Type} (d : Deployment) (Q : Pool ι Net Store α) (ev : Event ι Net) : Prop :=
  match ev.call with
  | .writeRegion a p => a.kind = .prime → Q.shared.Current d a p ∧ Q.shared.Closed d p.keyHash
  | _ => True

instance {ι α : Type} (d : Deployment) (Q : Pool ι Net Store α) (ev : Event ι Net) :
    Decidable (Undisturbed d Q ev) :=
  match ev with
  | ⟨_, .readRegion _, _⟩ => isTrue trivial
  | ⟨_, .cas64 _ _ _, _⟩ => isTrue trivial
  | ⟨_, .writeRegion a p, _⟩ =>
      inferInstanceAs (Decidable (a.kind = .prime → Q.shared.Current d a p ∧
        Q.shared.Closed d p.keyHash))

/-! ## The invariant -/

section Offers

variable {d : Deployment} {job : Job} {a : Addr} {p : Slot}

theorem Job.Offers.mn (h : job.Offers d a p) : a.mn = d.primarySession p.keyHash := by
  obtain ⟨m, epoch, _, _, hmn, rfl⟩ := h
  exact hmn

theorem Job.Offers.epochs (h : job.Offers d a p) : p.guardEpoch = p.visibleEpoch := by
  obtain ⟨m, epoch, _, _, _, rfl⟩ := h
  rfl

theorem Job.Offers.owner (h : job.Offers d a p) : p.owner = some p.keyHash := by
  obtain ⟨m, epoch, _, _, _, rfl⟩ := h
  refine Slot.owner_eq_some.mpr ⟨?_, rfl⟩
  rw [builtSlot_valid]
  cases m.tombstone <;> decide

end Offers

/-- A slot as it is between the two steps of a commit of `p`. -/
def OpenFor (st : Store) (a : Addr) (p : Slot) : Prop :=
  ∃ epoch, epoch + 1 = p.visibleEpoch ∧ st.slot a = p.withGuard epoch

/-- An open slot's epochs differ. -/
theorem OpenFor.torn {st : Store} {a : Addr} {p : Slot} (h : OpenFor st a p) :
    (st.slot a).guardEpoch ≠ (st.slot a).visibleEpoch := by
  obtain ⟨epoch, he, hs⟩ := h
  have hne : epoch ≠ epoch + 1 := by simp
  rw [hs, he] at *
  exact hne

theorem OpenFor.owner {st : Store} {a : Addr} {p : Slot} (h : OpenFor st a p) :
    (st.slot a).owner = p.owner := by
  obtain ⟨epoch, _, hs⟩ := h
  rw [hs]
  rfl

/-- The `PRIME` tables are placed, and slots that are not valid or do not exist are zero. -/
structure Shaped (d : Deployment) (st : Store) : Prop where
  placed : ∀ mn, Placed Slot.owner (d.home mn .prime) (d.slots mn .prime) (st.table mn .prime)
  zero : ∀ a, a.kind = .prime → (st.slot a).valid = false → st.slot a = .zero
  range : ∀ a, a.kind = .prime → ¬ a.idx < d.slots a.mn .prime → st.slot a = .zero

section Shaped

variable {d : Deployment} {st : Store}

theorem shaped_fresh (d : Deployment) : Shaped d .fresh where
  placed _ := placed_of_unowned fun _ _ => Slot.owner_zero
  zero _ _ _ := rfl
  range _ _ _ := rfl

/-- `Shaped` is about `PRIME`. -/
theorem Shaped.congr {st' : Store} (hs : Shaped d st)
    (h : ∀ mn, st'.table mn .prime = st.table mn .prime) : Shaped d st' := by
  have hslot : ∀ a, a.kind = .prime → st'.slot a = st.slot a :=
    fun a ha => Store.slot_of_table ha h
  refine ⟨fun mn => ?_, fun a ha => ?_, fun a ha => ?_⟩
  · rw [h]
    exact hs.placed mn
  · rw [hslot a ha]
    exact hs.zero a ha
  · rw [hslot a ha]
    exact hs.range a ha

/-- The table of a key hash with no open commit is tidy for it. -/
theorem Shaped.tidy (hs : Shaped d st) {h : UInt64} (hc : st.Closed d h) :
    Tidy d st (d.primarySession h) .prime h where
  calm i := by
    refine ⟨hs.zero ⟨_, .prime, i⟩ rfl, fun ho => ?_⟩
    by_cases hi : i < d.slots (d.primarySession h) .prime
    · exact hc i hi ho
    · have hz := hs.range ⟨d.primarySession h, .prime, i⟩ rfl hi
      rw [Store.table, hz]
      rfl
  placed := hs.placed _

theorem Shaped.setSlot (hs : Shaped d st) {mn idx : Nat} {s : Slot} {h : UInt64}
    (hidx : idx < d.slots mn .prime) (ho : s.owner = some h)
    (hfit : Fits Slot.owner (d.home mn .prime) (d.slots mn .prime) (st.table mn .prime) h idx) :
    Shaped d (st.setSlot ⟨mn, .prime, idx⟩ s) := by
  refine ⟨fun mn' => ?_, fun b hb hv => ?_, fun b hb hr => ?_⟩
  · by_cases hmn : mn = mn'
    · subst hmn
      rw [Store.table_setSlot_self]
      exact (hs.placed mn).update ho hfit
    · rw [Store.table_setSlot_of_ne _ _ fun h => hmn h.1]
      exact hs.placed mn'
  · by_cases hba : b = ⟨mn, .prime, idx⟩
    · subst hba
      rw [Store.setSlot_slot_self] at hv
      rw [Slot.owner_eq_none.mpr hv] at ho
      cases ho
    · rw [Store.setSlot_slot_of_ne _ _ hba] at hv ⊢
      exact hs.zero b hb hv
  · rw [Store.setSlot_slot_of_ne _ _ fun h => hr (by rw [h]; exact hidx)]
    exact hs.range b hb hr

/-- A commit that is open was open before, unless the slot that changed was the one. -/
theorem Store.Closed.of_setSlot {a : Addr} {s : Slot} {k : UInt64} (hk : (st.setSlot a s).Closed d k)
    (ha : (st.slot a).owner = some k → (st.slot a).guardEpoch = (st.slot a).visibleEpoch) :
    st.Closed d k := by
  intro j hj ho
  by_cases hja : (⟨d.primarySession k, .prime, j⟩ : Addr) = a
  · rw [hja] at ho ⊢
    exact ha ho
  · have := hk j hj
    rw [Store.setSlot_slot_of_ne _ _ hja] at this
    exact this ho

end Shaped

/-- What holds in every state of a run of undisturbed writes, given the phases of the
operations, the bodies they wrote, and the slots that were installed. -/
structure Sound {ι : Type} (d : Deployment) (jobs : ι → Job) (phase : ι → Phase)
    (body : ι → Option Slot) (xs : List (Install ι)) (st : Store) : Prop extends Shaped d st where
  /-- A slot whose epochs agree is the one installed last. -/
  settled : ∀ a, a.kind = .prime → (st.slot a).guardEpoch = (st.slot a).visibleEpoch →
    st.slot a = .zero ∨ ∃ x, installedAt xs a = some x ∧ x.slot = st.slot a
  /-- A slot whose body was written waits for the compare-and-swap. -/
  wrote : ∀ i a p, phase i = .wrote a p → a.kind = .prime ∧ a.idx < d.slots a.mn .prime ∧
    (jobs i).Offers d a p ∧ body i = some p ∧ OpenFor st a p
  /-- One operation at a time is at work on a slot. -/
  alone : ∀ i j a p p', phase i = .wrote a p → phase j = .wrote a p' → i = j
  /-- A key hash with no open commit has the slot that was committed last. -/
  live : ∀ h, st.Closed d h → ∀ s, st.Live d (d.primarySession h) .prime h s ↔
    ∃ x, committedOf xs h = some x ∧ x.slot = s ∧ s.tombstone = false
  installed : ∀ x ∈ xs, (jobs x.who).Offers d x.addr x.slot ∧ phase x.who = .won x.addr x.slot
  won : ∀ i a p, phase i = .won a p → ∃ x ∈ xs, x.who = i

section Sound

variable {ι : Type} {d : Deployment} {jobs : ι → Job} {phase : ι → Phase} {body : ι → Option Slot}
  {xs : List (Install ι)} {st : Store}

theorem sound_fresh (d : Deployment) (jobs : ι → Job) :
    Sound d jobs (fun _ => .idle) (fun _ => none) [] .fresh where
  toShaped := shaped_fresh d
  settled _ _ _ := Or.inl rfl
  wrote _ _ _ h := by cases h
  alone _ _ _ _ _ h := by cases h
  live h _ s := by
    constructor
    · intro hl
      exact absurd hl.1 (not_holds_fresh d _ _ _ s)
    · rintro ⟨x, hx, _⟩
      cases hx
  installed x hx := by cases hx
  won _ _ _ h := by cases h

/-- `Sound` is about `PRIME`. -/
theorem Sound.congr {st' : Store} (hs : Sound d jobs phase body xs st)
    (h : ∀ mn, st'.table mn .prime = st.table mn .prime) : Sound d jobs phase body xs st' := by
  have hslot : ∀ a, a.kind = .prime → st'.slot a = st.slot a :=
    fun a ha => Store.slot_of_table ha h
  refine ⟨hs.toShaped.congr h, fun a ha => ?_, fun i a p hi => ?_, hs.alone, fun k hk s => ?_,
    hs.installed, hs.won⟩
  · rw [hslot a ha]
    exact hs.settled a ha
  · obtain ⟨ha, hidx, hoff, hbody, epoch, he, hopen⟩ := hs.wrote i a p hi
    exact ⟨ha, hidx, hoff, hbody, epoch, he, by rw [hslot a ha, hopen]⟩
  · rw [Store.live_congr (h _)]
    refine hs.live k (fun i hi => ?_) s
    have := hk i hi
    rwa [hslot _ rfl] at this

/-- A body that is written makes no difference to the key hashes with no open commit. -/
theorem Sound.live_begin (hs : Sound d jobs phase body xs st) {mn idx : Nat} {p : Slot}
    {pr : SlotProbe} (ht : Tidy d st mn .prime p.keyHash) (hmn : mn = d.primarySession p.keyHash)
    (hidx : idx < d.slots mn .prime) (hp : st.probe d.toCluster mn .prime p.keyHash = .ok pr)
    (hpi : pr.candidateSlotIndex = idx)
    (hown : ((st.slot ⟨mn, .prime, idx⟩).withBody p).owner = some p.keyHash)
    (hagree : (st.slot ⟨mn, .prime, idx⟩).guardEpoch = (st.slot ⟨mn, .prime, idx⟩).visibleEpoch)
    (hopen : OpenFor (st.setSlot ⟨mn, .prime, idx⟩ ((st.slot ⟨mn, .prime, idx⟩).withBody p))
      ⟨mn, .prime, idx⟩ p) {k : UInt64}
    (hk : (st.setSlot ⟨mn, .prime, idx⟩ ((st.slot ⟨mn, .prime, idx⟩).withBody p)).Closed d k)
    (s : Slot) :
    (st.setSlot ⟨mn, .prime, idx⟩ ((st.slot ⟨mn, .prime, idx⟩).withBody p)).Live d
        (d.primarySession k) .prime k s ↔
      ∃ x, committedOf xs k = some x ∧ x.slot = s ∧ s.tombstone = false := by
  -- The key hash of the proposal has an open commit now.  Those of the others are untouched.
  have hkne : k ≠ p.keyHash := by
    rintro rfl
    have hself := hk idx (by rw [← hmn]; exact hidx)
    rw [← hmn] at hself
    exact hopen.torn (hself (by rw [Store.setSlot_slot_self]; exact hown))
  rw [← hs.live k (hk.of_setSlot fun _ => hagree) s]
  by_cases hmnk : mn = d.primarySession k
  · have hlive := ht.live_commit hp hown k s
    rw [if_neg hkne, hpi] at hlive
    rw [← hmnk]
    exact hlive
  · exact Store.live_congr (st.table_setSlot_of_ne _ fun h => hmnk h.1)

/-- The key hash of a slot that is installed has that slot. -/
theorem Sound.live_finish (hs : Sound d jobs phase body xs st) {i : ι} {mn idx : Nat} {p : Slot}
    (hidx : idx < d.slots mn .prime) (hoff : (jobs i).Offers d ⟨mn, .prime, idx⟩ p)
    (hold : (st.table mn .prime idx).owner = some p.keyHash) {k : UInt64}
    (hk : (st.setSlot ⟨mn, .prime, idx⟩ p).Closed d k) (s : Slot) :
    (st.setSlot ⟨mn, .prime, idx⟩ p).Live d (d.primarySession k) .prime k s ↔
      ∃ x, committedOf (⟨i, ⟨mn, .prime, idx⟩, p⟩ :: xs) k = some x ∧ x.slot = s ∧
        s.tombstone = false := by
  have hmn : mn = d.primarySession p.keyHash := hoff.mn
  by_cases hkp : k = p.keyHash
  · subst hkp
    have hlast : committedOf (⟨i, ⟨mn, .prime, idx⟩, p⟩ :: xs) p.keyHash =
        some ⟨i, ⟨mn, .prime, idx⟩, p⟩ := List.find?_cons_of_pos (by simp)
    have hholds : ∀ s, (st.setSlot ⟨mn, .prime, idx⟩ p).Holds d mn .prime p.keyHash s ↔ s = p := by
      intro s
      have hplaced := (hs.toShaped.setSlot hidx hoff.owner (Or.inl hold)).placed mn
      rw [Store.table_setSlot_self] at hplaced
      rw [Store.Holds, Store.table_setSlot_self]
      constructor
      · exact fun h => hplaced.owns_unique h (owns_update_self hidx hoff.owner)
      · rintro rfl
        exact owns_update_self hidx hoff.owner
    rw [hlast, ← hmn, Store.Live, hholds]
    constructor
    · rintro ⟨rfl, htomb⟩
      exact ⟨_, rfl, rfl, htomb⟩
    · rintro ⟨x, hx, rfl, htomb⟩
      cases hx
      exact ⟨rfl, htomb⟩
  · have hlast : committedOf (⟨i, ⟨mn, .prime, idx⟩, p⟩ :: xs) k = committedOf xs k :=
      List.find?_cons_of_neg (by simpa using Ne.symm hkp)
    have hclosed : st.Closed d k := hk.of_setSlot fun ho => by
      have hown : (st.slot ⟨mn, .prime, idx⟩).owner = some p.keyHash := hold
      rw [hown, Option.some.injEq] at ho
      exact absurd ho.symm hkp
    rw [hlast, ← hs.live k hclosed s]
    by_cases hmnk : mn = d.primarySession k
    · rw [← hmnk, Store.Live, Store.Live, Store.Holds, Store.Holds, Store.table_setSlot_self,
        owns_update_of_ne hoff.owner hkp]
      rw [hold, ne_eq, Option.some.injEq]
      exact Ne.symm hkp
    · exact Store.live_congr (st.table_setSlot_of_ne _ fun h => hmnk h.1)

variable [DecidableEq ι]

/-- Who is in a phase after one operation went on: that operation, or one that was before. -/
theorem phase_update {i j : ι} {next now : Phase} (h : Function.update phase i next j = now) :
    (j = i ∧ next = now) ∨ (j ≠ i ∧ phase j = now) := by
  by_cases hji : j = i
  · subst hji
    rw [Function.update_self] at h
    exact .inl ⟨rfl, h⟩
  · rw [Function.update_of_ne hji] at h
    exact .inr ⟨hji, h⟩

/-- An operation that has installed a slot is not the one that goes on. -/
theorem Sound.installed_update (hs : Sound d jobs phase body xs st) {i : ι}
    (hi : ∀ a p, phase i ≠ .won a p) (next : Phase) : ∀ x ∈ xs,
    (jobs x.who).Offers d x.addr x.slot ∧ Function.update phase i next x.who = .won x.addr x.slot := by
  intro x hx
  obtain ⟨hoff, hwon⟩ := hs.installed x hx
  have hxi : x.who ≠ i := by
    rintro rfl
    exact hi _ _ hwon
  rw [Function.update_of_ne hxi]
  exact ⟨hoff, hwon⟩

/-- An operation writes the body of a slot. -/
theorem Sound.begin (hs : Sound d jobs phase body xs st) {i : ι} {a : Addr} {p : Slot}
    (hidle : phase i = .idle) (ha : a.kind = .prime) (hidx : a.idx < d.slots a.mn .prime)
    (hoff : (jobs i).Offers d a p) (hcur : st.Current d a p) (hclosed : st.Closed d p.keyHash) :
    Sound d jobs (Function.update phase i (.wrote a p)) (Function.update body i (some p)) xs
      (st.setSlot a ((st.slot a).withBody p)) := by
  obtain ⟨mn, kind, idx⟩ := a
  cases ha
  have hmn : mn = d.primarySession p.keyHash := hoff.mn
  obtain ⟨pr, hp, hpi, hepoch⟩ := hcur.probe
  simp only at hp hpi hidx
  have ht : Tidy d st mn .prime p.keyHash := by
    rw [hmn]
    exact hs.tidy hclosed
  obtain ⟨_, hcand, hagree, _⟩ := Store.probe_candidate hp
  rw [hpi] at hcand
  rw [hcand] at hagree hepoch
  have hown : ((st.slot ⟨mn, .prime, idx⟩).withBody p).owner = some p.keyHash := hoff.owner
  have hopen : OpenFor (st.setSlot ⟨mn, .prime, idx⟩ ((st.slot ⟨mn, .prime, idx⟩).withBody p))
      ⟨mn, .prime, idx⟩ p := ⟨_, hepoch, Store.setSlot_slot_self ..⟩
  have hfree : ∀ j p', phase j ≠ .wrote ⟨mn, .prime, idx⟩ p' := fun j p' hj =>
    (hs.wrote j _ p' hj).2.2.2.2.torn hagree
  have hkeep : ∀ b, b ≠ ⟨mn, .prime, idx⟩ →
      (st.setSlot ⟨mn, .prime, idx⟩ ((st.slot ⟨mn, .prime, idx⟩).withBody p)).slot b = st.slot b :=
    fun b hb => st.setSlot_slot_of_ne _ hb
  refine ⟨?_, fun b hb => ?_, fun j b q hj => ?_, fun j j' b q q' hj hj' => ?_,
    fun k hk s => ?_, fun x hx => ?_, fun j b q hj => ?_⟩
  · obtain ⟨i₀, _, hfit, hcase⟩ := ht.probe_cases hp
    have hi₀ : pr.candidateSlotIndex = i₀ := by
      rcases hcase with ⟨rfl, _⟩ | ⟨rfl, _⟩ <;> rfl
    rw [hpi] at hi₀
    subst hi₀
    exact hs.toShaped.setSlot hidx hown hfit
  · by_cases hba : b = ⟨mn, .prime, idx⟩
    · subst hba
      exact fun he => absurd he hopen.torn
    · rw [hkeep b hba]
      exact hs.settled b hb
  · obtain ⟨rfl, hq⟩ | ⟨hji, hj⟩ := phase_update hj
    · cases hq
      rw [Function.update_self]
      exact ⟨rfl, hidx, hoff, rfl, hopen⟩
    · rw [Function.update_of_ne hji]
      have hba : b ≠ ⟨mn, .prime, idx⟩ := fun h => hfree j q (h ▸ hj)
      obtain ⟨hb, hbi, hboff, hbody, epoch, he, hbo⟩ := hs.wrote j b q hj
      exact ⟨hb, hbi, hboff, hbody, epoch, he, by rw [hkeep b hba, hbo]⟩
  · obtain ⟨rfl, hq⟩ | ⟨_, hwas⟩ := phase_update hj
    · cases hq
      obtain ⟨rfl, _⟩ | ⟨_, hwas'⟩ := phase_update hj'
      · rfl
      · exact absurd hwas' (hfree j' q')
    · obtain ⟨rfl, hq⟩ | ⟨_, hwas'⟩ := phase_update hj'
      · cases hq
        exact absurd hwas (hfree j q)
      · exact hs.alone j j' b q q' hwas hwas'
  · exact hs.live_begin ht hmn hidx hp hpi hown hagree hopen hk s
  · exact hs.installed_update (fun _ _ h => by rw [hidle] at h; cases h) _ x hx
  · obtain ⟨rfl, hq⟩ | ⟨_, hj⟩ := phase_update hj
    · cases hq
    · exact hs.won j b q hj

/-- An operation swaps the guard epoch of the slot it wrote. -/
theorem Sound.finish (hs : Sound d jobs phase body xs st) {i : ι} {a : Addr} {p : Slot}
    (hwrote : phase i = .wrote a p) :
    Sound d jobs (Function.update phase i (.won a p)) body (⟨i, a, p⟩ :: xs) (st.setSlot a p) := by
  obtain ⟨ha, hidx, hoff, _, hopen⟩ := hs.wrote i a p hwrote
  obtain ⟨mn, kind, idx⟩ := a
  cases ha
  have hold : (st.table mn .prime idx).owner = some p.keyHash := by
    have := hopen.owner
    rw [hoff.owner] at this
    exact this
  have hkeep : ∀ b, b ≠ ⟨mn, .prime, idx⟩ → (st.setSlot ⟨mn, .prime, idx⟩ p).slot b = st.slot b :=
    fun b hb => st.setSlot_slot_of_ne _ hb
  have hother : ∀ j b q, j ≠ i → phase j = .wrote b q → b ≠ ⟨mn, .prime, idx⟩ := by
    rintro j b q hji hj rfl
    exact hji (hs.alone j i _ q p hj hwrote)
  refine ⟨hs.toShaped.setSlot hidx hoff.owner (Or.inl hold), fun b hb => ?_, fun j b q hj => ?_,
    fun j j' b q q' hj hj' => ?_, fun k hk s => hs.live_finish hidx hoff hold hk s, fun x hx => ?_,
    fun j b q hj => ?_⟩
  · by_cases hba : b = ⟨mn, .prime, idx⟩
    · subst hba
      rw [Store.setSlot_slot_self]
      exact fun _ => Or.inr ⟨⟨i, _, p⟩, List.find?_cons_of_pos (by simp), rfl⟩
    · rw [hkeep b hba, installedAt, List.find?_cons_of_neg (by simpa using Ne.symm hba)]
      exact hs.settled b hb
  · obtain ⟨_, hq⟩ | ⟨hji, hj⟩ := phase_update hj
    · cases hq
    · obtain ⟨hb, hbi, hboff, hbody, epoch, he, hbo⟩ := hs.wrote j b q hj
      exact ⟨hb, hbi, hboff, hbody, epoch, he, by rw [hkeep b (hother j b q hji hj), hbo]⟩
  · obtain ⟨_, hq⟩ | ⟨_, hj⟩ := phase_update hj
    · cases hq
    · obtain ⟨_, hq⟩ | ⟨_, hj'⟩ := phase_update hj'
      · cases hq
      · exact hs.alone j j' b q q' hj hj'
  · rcases List.mem_cons.mp hx with rfl | hx
    · rw [Function.update_self]
      exact ⟨hoff, rfl⟩
    · exact hs.installed_update (fun _ _ h => by rw [hwrote] at h; cases h) _ x hx
  · obtain ⟨rfl, _⟩ | ⟨_, hj⟩ := phase_update hj
    · exact ⟨_, List.mem_cons_self, rfl⟩
    · obtain ⟨x, hx, hw⟩ := hs.won j b q hj
      exact ⟨x, List.mem_cons_of_mem _ hx, hw⟩

end Sound

/-! ## Runs -/

section Run

variable {ι : Type} [DecidableEq ι] {d : Deployment} {jobs : ι → Job}
  {tr : List (Option (Event ι Net))} {Q : Pool ι Net Store (Except Err Answer)}

/-- The phases of the operations of a run. -/
def phases (d : Deployment) (jobs : ι → Job) (tr : List (Option (Event ι Net))) : ι → Phase :=
  protocolState (fun i => primeProtocol d.toCluster ((jobs i).Offers d)) (fun _ => .idle) tr

theorem phases_call (d : Deployment) (jobs : ι → Job) (tr : List (Option (Event ι Net))) (i : ι)
    (c : Call) (r : c.Reply) :
    phases d jobs (some ⟨i, c, r⟩ :: tr) = Function.update (phases d jobs tr) i
      ((primeProtocol d.toCluster ((jobs i).Offers d)).next (phases d jobs tr i) c r) := rfl

/-- One call of a run of undisturbed writes. -/
theorem sound_call {st : Store} {i : ι} {c : Call} (hs : Sound d jobs (phases d jobs tr)
      (fun i => bodyOf i tr) (installs tr) st)
    (hallow : (primeProtocol d.toCluster ((jobs i).Offers d)).allow (phases d jobs tr i) c)
    (hok : ∀ a p, c = .writeRegion a p → a.kind = .prime →
      st.Current d a p ∧ st.Closed d p.keyHash) :
    Sound d jobs (phases d jobs (some ⟨i, c, (storeHandler c st).1⟩ :: tr))
      (fun j => bodyOf j (some ⟨i, c, (storeHandler c st).1⟩ :: tr))
      (installs (some ⟨i, c, (storeHandler c st).1⟩ :: tr)) (storeHandler c st).2 := by
  rw [phases_call]
  by_cases hquiet : (phases d jobs tr i).Free ∧ c.Quiet
  · obtain ⟨hinstalls, hbody⟩ := hquiet.2.trace i (storeHandler c st).1 tr
    rw [(hquiet.2.allowed _ _ hallow.1 hquiet.1).2, Function.update_eq_self, hinstalls,
      funext hbody]
    exact hs.congr (hquiet.2.table_prime st)
  · cases hphase : phases d jobs tr i with
    | won _ _ =>
        rw [hphase] at hallow hquiet
        exact absurd ⟨trivial, hallow.2⟩ hquiet
    | lost =>
        rw [hphase] at hallow hquiet
        exact absurd ⟨trivial, hallow.2⟩ hquiet
    | idle =>
        rw [hphase] at hallow hquiet
        cases c with
        | readRegion _ => exact absurd ⟨trivial, trivial⟩ hquiet
        | cas64 _ _ _ => exact absurd ⟨trivial, hallow.2⟩ hquiet
        | writeRegion a p =>
            have ha : a.kind = .prime := by
              by_contra hne
              exact hquiet ⟨trivial, hne⟩
            have hidx := hallow.1
            rw [Call.addr, ha] at hidx
            obtain ⟨hcur, hclosed⟩ := hok a p rfl ha
            have hbody : (fun j => bodyOf j (some ⟨i, .writeRegion a p, some ()⟩ :: tr)) =
                Function.update (fun j => bodyOf j tr) i (some p) := by
              funext j
              by_cases hj : j = i
              · subst hj
                rw [Function.update_self]
                exact if_pos ⟨rfl, ha⟩
              · rw [Function.update_of_ne hj]
                exact if_neg fun h => hj h.1.symm
            have hnext : (primeProtocol d.toCluster ((jobs i).Offers d)).next .idle
                (.writeRegion a p) (some ()) = .wrote a p := by
              simp [primeProtocol, ha]
            simp only [storeHandler]
            rw [hnext, hbody]
            exact hs.begin hphase ha hidx (hallow.2 ha) hcur hclosed
    | wrote a p =>
        rw [hphase] at hallow
        obtain ⟨ha, _, hoff, hbody, epoch, hepoch, hslot⟩ := hs.wrote i a p hphase
        cases c with
        | readRegion _ => exact hallow.2.elim
        | writeRegion _ _ => exact hallow.2.elim
        | cas64 a' compare swap =>
            obtain ⟨rfl, rfl, hcmp⟩ := hallow.2
            have hguard : (st.slot a').guardEpoch = compare := by
              rw [hslot]
              exact (UInt64.add_left_inj 1).mp (hepoch.trans hcmp.symm)
            have hnext : (primeProtocol d.toCluster ((jobs i).Offers d)).next (.wrote a' p)
                (.cas64 a' compare p.visibleEpoch) (some compare) = .won a' p := by
              simp [primeProtocol]
            have hinstalls : installs (some ⟨i, .cas64 a' compare p.visibleEpoch, some compare⟩ :: tr) =
                ⟨i, a', p⟩ :: installs tr := by
              simp [installs, primeCommit, ha, hbody]
            have hp : (st.slot a').withGuard p.visibleEpoch = p := by
              rw [hslot]
              exact Slot.committed_eq hoff.epochs
            simp only [storeHandler, hguard, if_true]
            rw [hnext, hinstalls, hp]
            exact hs.finish hphase

/-- Every state of a run of undisturbed writes is sound. -/
theorem sound_of_run (hr : Run storeHandler (StoreEvicts d) (Undisturbed d) (d.pool jobs .fresh)
    tr Q) :
    Sound d jobs (phases d jobs tr) (fun i => bodyOf i tr) (installs tr) Q.shared := by
  have hP : ∀ i, ((d.pool jobs Store.fresh).prog i).Obeys
      (primeProtocol d.toCluster ((jobs i).Offers d)) (jobs i).Ended .idle :=
    fun i => job_obeys d (jobs i)
  refine Run.invariant (I := fun tr Q => Sound d jobs (phases d jobs tr) (fun i => bodyOf i tr)
    (installs tr) Q.shared) ?_ ?_ ?_ hr
  · exact sound_fresh d jobs
  · intro tr Q i c k hr ih hc hok
    refine sound_call ih (hr.allows hP hc) ?_
    rintro a p rfl ha
    exact hok ha
  · intro tr Q st _ ih he
    exact ih.congr fun mn => he.sameTables mn .prime (by decide)

end Run

/-! ## Reads -/

/-- The value of the operation that committed a key hash last, if it was not a delete. -/
def LastValue {ι : Type} (jobs : ι → Job) (xs : List (Install ι)) (h : UInt64) (v : Value) : Prop :=
  ∃ x m, committedOf xs h = some x ∧ (jobs x.who).op = .mutate m ∧ m.tombstone = false ∧ v = m.value

section Read

variable {ι : Type} {d : Deployment} {jobs : ι → Job} {phase : ι → Phase} {body : ι → Option Slot}
  {xs : List (Install ι)} {st : Store}

/-- A value the cache of a reader gives is the last one, unless the cache is stale. -/
theorem lastValue_of_cache {cl : Cluster} {key : Key} {pr : SlotProbe} {ok : Value → Prop}
    (hp : st.probe cl (cl.primarySession (hash64String key)) .prime (hash64String key) = .ok pr)
    (hstale : ¬ st.StaleCache cl key ok) {v : Value} (hv : st.cacheValue cl key pr = some v) :
    ok v := by
  by_contra hno
  obtain ⟨hon, cp, hc, hcons, hdec⟩ := Store.cacheValue_eq_some.mp hv
  exact hstale ⟨hon, cp, pr, v, hc, hp, hcons, hdec, hno⟩

/-- A live key has the value of the operation that committed it last. -/
theorem Sound.lastValue_live (hs : Sound d jobs phase body xs st) {key : Key} {s : Slot}
    (hclosed : st.Closed d (hash64String key))
    (hl : st.Live d (d.primarySession (hash64String key)) .prime (hash64String key) s) :
    ∃ value, decodeSlot d.ssl d.crypto key s = some value ∧
      ∀ v, LastValue jobs xs (hash64String key) v ↔ v = value := by
  obtain ⟨x, hx, rfl, htomb⟩ := (hs.live _ hclosed s).mp hl
  obtain ⟨m, epoch, hop, hlen, _, hslot⟩ := (hs.installed x (List.mem_of_find?_eq_some hx)).1
  have hm : m.tombstone = false := by
    have hflags := htomb
    rw [hslot, builtSlot_tombstone] at hflags
    cases hmt : m.tombstone with
    | false => rfl
    | true =>
        rw [hmt] at hflags
        exact absurd hflags (by decide)
  refine ⟨m.value, ?_, fun v => ?_⟩
  · rw [hslot]
    exact decodeSlot_builtSlot d.ssl d.crypto m.key _ _ key hlen
      (by rw [builtSlot_valid]; cases m.tombstone <;> decide)
  · constructor
    · rintro ⟨x', m', hx', hop', _, rfl⟩
      rw [hx] at hx'
      cases hx'
      rw [hop] at hop'
      cases hop'
      rfl
    · rintro rfl
      exact ⟨x, m, hx, hop, hm, rfl⟩

/-- For a key that is not live nothing was committed, or a delete. -/
theorem Sound.lastValue_absent (hs : Sound d jobs phase body xs st) {key : Key}
    (hclosed : st.Closed d (hash64String key))
    (hl : ¬ ∃ s, st.Live d (d.primarySession (hash64String key)) .prime (hash64String key) s)
    (v : Value) : ¬ LastValue jobs xs (hash64String key) v := by
  rintro ⟨x, m, hx, hop, hm, _⟩
  obtain ⟨m', epoch, hop', _, _, hslot⟩ := (hs.installed x (List.mem_of_find?_eq_some hx)).1
  rw [hop] at hop'
  cases hop'
  refine hl ⟨x.slot, (hs.live _ hclosed x.slot).mpr ⟨x, hx, rfl, ?_⟩⟩
  rw [hslot, builtSlot_tombstone, hm]
  decide

/-- A read of a key with no open commit returns the value committed last. -/
theorem Sound.read_iff (hs : Sound d jobs phase body xs st) {key : Key} (cacheOn : Bool)
    (hclosed : st.Closed d (hash64String key))
    (hstale : ¬ st.StaleCache (d.client cacheOn).toCluster key
      (LastValue jobs xs (hash64String key))) (v : Value) :
    st.readResult (d.client cacheOn).toCluster key = .ok (some v) ↔
      LastValue jobs xs (hash64String key) v := by
  have ht := hs.toShaped.tidy hclosed
  by_cases hl : ∃ s, st.Live d (d.primarySession (hash64String key)) .prime (hash64String key) s
  · obtain ⟨s, hl⟩ := hl
    obtain ⟨value, hdec, hlast⟩ := hs.lastValue_live hclosed hl
    obtain ⟨i, hfound, _⟩ := ht.probe_of_holds hl.1
    have hp : st.probe (d.client cacheOn).toCluster
        ((d.client cacheOn).primarySession (hash64String key)) .prime (hash64String key) =
        .ok (foundProbe s i) := hfound
    have hprime : primeValue (d.client cacheOn).toCluster key (foundProbe s i) =
        .ok (some value) := by
      have hdec' : decodeSlot (d.client cacheOn).ssl (d.client cacheOn).crypto key s =
          some value := hdec
      simp only [primeValue, foundProbe, ht.present hl, Bool.not_true, Bool.or_self,
        Bool.false_eq_true, if_false, hdec']
    have hread : st.readResult (d.client cacheOn).toCluster key = .ok (some value) := by
      rw [Store.readResult, hp]
      simp only []
      cases hc : st.cacheValue (d.client cacheOn).toCluster key (foundProbe s i) with
      | none => exact hprime
      | some v' =>
          have hv' := (hlast v').mp (lastValue_of_cache hp hstale hc)
          rw [hv']
    rw [hlast, hread, Except.ok.injEq, Option.some.injEq]
    exact eq_comm
  · have hnone := hs.lastValue_absent hclosed hl
    refine iff_of_false (fun hread => ?_) (hnone v)
    unfold Store.readResult at hread
    cases hp : st.probe (d.client cacheOn).toCluster
        ((d.client cacheOn).primarySession (hash64String key)) .prime (hash64String key) with
    | error e =>
        rw [hp] at hread
        cases hread
    | ok pr =>
        rw [hp] at hread
        simp only [] at hread
        cases hc : st.cacheValue (d.client cacheOn).toCluster key pr with
        | some v' => exact hnone v' (lastValue_of_cache hp hstale hc)
        | none =>
            have habsent : (!pr.found || !pr.slot.present (hash64String key)) = true := by
              have hp' : st.probe d.toCluster (d.primarySession (hash64String key)) .prime
                  (hash64String key) = .ok pr := hp
              rcases ht.probe_of_not_live (fun s hs => hl ⟨s, hs⟩) hp' with hf | hf <;> simp [hf]
            rw [hc] at hread
            simp only [primeValue, habsent, if_true] at hread
            cases hread

end Read

/-! ## Integrity -/

section Integrity

variable {ι : Type} [DecidableEq ι]

/-- Integrity of committed slots.  Let operations of any number of clients run side by side, with
evictions, and let all their writes of `PRIME` bodies be undisturbed.  In every state of the run,
a `PRIME` slot whose epochs agree and are not zero is the proposal of the operation whose
compare-and-swap installed its epoch.  A mutation that returned success installed its proposal,
and one that installed a proposal does not return an error.  A read of a key with no open
commit, by a client whose cache is not stale, returns the value of the last operation that
installed a proposal for the key hash, and nothing else. -/
theorem committed_integrity (d : Deployment) (jobs : ι → Job) {tr : List (Option (Event ι Net))}
    {Q : Pool ι Net Store (Except Err Answer)}
    (hrun : Run storeHandler (StoreEvicts d) (Undisturbed d) (d.pool jobs .fresh) tr Q) :
    (∀ mn i, (Q.shared.slot ⟨mn, .prime, i⟩).guardEpoch = (Q.shared.slot ⟨mn, .prime, i⟩).visibleEpoch →
      (Q.shared.slot ⟨mn, .prime, i⟩).guardEpoch ≠ 0 →
      ∃ x, installedAt (installs tr) ⟨mn, .prime, i⟩ = some x ∧
        Q.shared.slot ⟨mn, .prime, i⟩ = x.slot) ∧
    (∀ i m answer, (jobs i).op = .mutate m → Q.prog i = .ret (.ok answer) →
      ∃ x ∈ installs tr, x.who = i) ∧
    (∀ x ∈ installs tr, ∀ e, Q.prog x.who ≠ .ret (.error e)) ∧
    ∀ key cacheOn, Q.shared.Closed d (hash64String key) →
      ¬ Q.shared.StaleCache (d.client cacheOn).toCluster key
        (LastValue jobs (installs tr) (hash64String key)) →
      ∀ v, ((readKv (d.client cacheOn).toCluster key).run storeHandler Q.shared).1 = .ok (some v) ↔
        LastValue jobs (installs tr) (hash64String key) v := by
  have hP : ∀ i, ((d.pool jobs Store.fresh).prog i).Obeys
      (primeProtocol d.toCluster ((jobs i).Offers d)) (jobs i).Ended .idle :=
    fun i => job_obeys d (jobs i)
  have hs := sound_of_run hrun
  refine ⟨fun mn i he hne => ?_, fun i m answer hop hret => ?_, fun x hx e hret => ?_,
    fun key cacheOn hclosed hstale v => ?_⟩
  · rcases hs.settled ⟨mn, .prime, i⟩ rfl he with hz | ⟨x, hx, hslot⟩
    · rw [hz] at hne
      exact absurd rfl hne
    · exact ⟨x, hx, hslot.symm⟩
  · obtain ⟨a, p, hg⟩ := hrun.returns hP hret m hop
    exact hs.won i a p hg
  · obtain ⟨⟨m, _, hop, _⟩, hwon⟩ := hs.installed x hx
    have hended := hrun.returns hP hret m hop
    rw [← phases, hwon] at hended
    rcases hended with h | h <;> cases h
  · rw [run_readKv]
    exact hs.read_iff cacheOn hclosed hstale v

end Integrity

/-- Two writers of one key take turns.  The slot they share holds what was installed last. -/
theorem committed_integrity_turns :
    ∃ tr Q, Run storeHandler (StoreEvicts .pair) (Undisturbed .pair)
        (Deployment.pair.pool rivals .fresh) tr Q ∧
      (Q.shared.slot ⟨0, .prime, 0⟩).guardEpoch = 2 ∧
      ∃ x, installedAt (installs tr) ⟨0, .prime, 0⟩ = some x ∧
        Q.shared.slot ⟨0, .prime, 0⟩ = x.slot := by
  have hrun := Pool.run_schedule storeHandler (StoreEvicts .pair) (Undisturbed .pair)
    (Deployment.pair.pool rivals .fresh) [false, false, false, true, true, true] (by decide +kernel)
  have hepochs : (((Deployment.pair.pool rivals .fresh).schedule storeHandler
      [false, false, false, true, true, true]).2.shared.slot ⟨0, .prime, 0⟩).guardEpoch = 2 ∧
      (((Deployment.pair.pool rivals .fresh).schedule storeHandler
        [false, false, false, true, true, true]).2.shared.slot ⟨0, .prime, 0⟩).visibleEpoch = 2 := by
    decide +kernel
  generalize (Deployment.pair.pool rivals .fresh).schedule storeHandler
    [false, false, false, true, true, true] = res at hrun hepochs
  obtain ⟨hguard, hvisible⟩ := hepochs
  refine ⟨res.1, res.2, hrun, hguard, (committed_integrity .pair rivals hrun).1 0 0 ?_ ?_⟩
  · rw [hguard, hvisible]
  · rw [hguard]
    decide

/-- Without the condition integrity fails.  Two writers of key `a` probe, both see the empty
slot, one of them commits, and then the other one writes its body: the slot has the epoch of
the first writer in both places, and the body of the second. -/
theorem body_overwritten :
    ¬ ∀ (ι : Type) [DecidableEq ι] (d : Deployment) (jobs : ι → Job)
        (tr : List (Option (Event ι Net))) (Q : Pool ι Net Store (Except Err Answer)),
      Run storeHandler (fun _ _ => False) (fun _ _ => True) (d.pool jobs .fresh) tr Q →
      ∀ mn i, (Q.shared.slot ⟨mn, .prime, i⟩).guardEpoch =
          (Q.shared.slot ⟨mn, .prime, i⟩).visibleEpoch →
        (Q.shared.slot ⟨mn, .prime, i⟩).guardEpoch ≠ 0 →
        ∃ x, installedAt (installs tr) ⟨mn, .prime, i⟩ = some x ∧
          Q.shared.slot ⟨mn, .prime, i⟩ = x.slot := by
  intro h
  have hrun := Pool.run_schedule storeHandler (fun _ _ => False) (fun _ _ => True)
    (Deployment.pair.pool rivals .fresh) [false, true, true, false, true] (Pool.respects_true ..)
  obtain ⟨x, hx, hslot⟩ := h Bool .pair rivals _ _ hrun 0 0 (by decide +kernel) (by decide +kernel)
  have hties : (installedAt (installs ((Deployment.pair.pool rivals .fresh).schedule storeHandler
      [false, true, true, false, true]).1) ⟨0, .prime, 0⟩).map (fun x => x.slot.tieBreaker) ≠
      some (((Deployment.pair.pool rivals .fresh).schedule storeHandler
        [false, true, true, false, true]).2.shared.slot ⟨0, .prime, 0⟩).tieBreaker := by
    decide +kernel
  rw [hx, hslot] at hties
  exact hties rfl

end TeeDist
