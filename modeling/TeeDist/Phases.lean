import TeeDist.Walk

/-!
# The phases of an operation

What the operations of a compute node do to `PRIME`, whatever the memory nodes
answer.  An operation is idle until it writes the body of a `PRIME` slot.  The call
after that is the compare-and-swap on the guard epoch of the same slot, from one
epoch to the next.  If it finds the epoch it expects the operation has won, and
otherwise it is lost.  Reads stay idle.  Everything else an operation does to a
memory node is quiet: it does not write to `PRIME`.

`primeProtocol` is this automaton.  It bears a client in every state but the one before the
swap (`bears_prime`), so operations obey it (`readValue_phases`, `writeValue_phases`).  The
predicate `offer` collects what is known of the bodies written to `PRIME`.
-/

namespace TeeDist

open Calls

/-! ## The automaton -/

/-- Where an operation stands with `PRIME`. -/
inductive Phase where
  /-- Nothing was written to `PRIME`. -/
  | idle
  /-- The body of a slot was written. -/
  | wrote (a : Addr) (p : Slot)
  /-- The compare-and-swap succeeded. -/
  | won (a : Addr) (p : Slot)
  /-- The compare-and-swap did not succeed. -/
  | lost

/-- No compare-and-swap is due. -/
def Phase.Free : Phase → Prop
  | .wrote _ _ => False
  | _ => True

theorem Phase.free_idle : Phase.idle.Free := trivial

theorem Phase.free_won (a : Addr) (p : Slot) : (Phase.won a p).Free := trivial

/-- A call that does not write to `PRIME`. -/
def Call.Quiet : Call → Prop
  | .readRegion _ => True
  | .writeRegion a _ => a.kind ≠ .prime
  | .cas64 a _ _ => a.kind ≠ .prime

/-- The calls of an operation, phase by phase.  All are about slots that exist. -/
def primeProtocol (cl : Cluster) (offer : Addr → Slot → Prop) : Protocol Net Phase where
  allow g c := c.addr.idx < cl.slots c.addr.mn c.addr.kind ∧
    match g, c with
    | .idle, .writeRegion a p => a.kind = .prime → offer a p
    | .wrote a p, .cas64 a' compare swap =>
        a' = a ∧ swap = p.visibleEpoch ∧ compare + 1 = p.visibleEpoch
    | .wrote _ _, _ => False
    | _, c => c.Quiet
  next g c r :=
    match g, c, r with
    | .idle, .writeRegion a p, r =>
        if a.kind = .prime then if r = some () then .wrote a p else .lost else .idle
    | .wrote a p, .cas64 _ compare _, r => if r = some compare then .won a p else .lost
    | g, _, _ => g

section Quiet

variable {cl : Cluster} {offer : Addr → Slot → Prop} {g : Phase}

/-- A quiet call is permitted in every free phase, and does not change it. -/
theorem Call.Quiet.allowed (cl : Cluster) (offer : Addr → Slot → Prop) {c : Call} (hc : c.Quiet)
    (hr : c.addr.idx < cl.slots c.addr.mn c.addr.kind) (hg : g.Free) :
    (primeProtocol cl offer).allow g c ∧ ∀ r, (primeProtocol cl offer).next g c r = g := by
  cases c with
  | readRegion a => cases g <;> first | exact ⟨⟨hr, hc⟩, fun _ => rfl⟩ | exact hg.elim
  | writeRegion a p =>
      cases g with
      | idle => exact ⟨⟨hr, fun hp => absurd hp hc⟩, fun _ => if_neg hc⟩
      | wrote _ _ => exact hg.elim
      | won _ _ => exact ⟨⟨hr, hc⟩, fun _ => rfl⟩
      | lost => exact ⟨⟨hr, hc⟩, fun _ => rfl⟩
  | cas64 a compare swap => cases g <;> first | exact ⟨⟨hr, hc⟩, fun _ => rfl⟩ | exact hg.elim

/-- A commit outside `PRIME` is quiet. -/
theorem commitSlotAt_quiet (hg : g.Free) {a : Addr} (ha : a.kind ≠ .prime)
    (hr : a.idx < cl.slots a.mn a.kind) (p : Slot) (compareEpoch : UInt64) :
    (commitSlotAt a p compareEpoch).Obeys (primeProtocol cl offer) (fun g' _ => g' = g) g := by
  obtain ⟨hw, hwn⟩ := Call.Quiet.allowed cl offer (c := .writeRegion a p) ha hr hg
  obtain ⟨hc, hcn⟩ := Call.Quiet.allowed cl offer
    (c := .cas64 a compareEpoch p.visibleEpoch) ha hr hg
  refine ⟨hw, fun r => ?_⟩
  rw [hwn r]
  cases r with
  | none => exact rfl
  | some _ =>
      refine ⟨hc, fun r => ?_⟩
      rw [hcn r]
      exact rfl

/-- Unless a swap is due, the protocol bears a client with its commits outside `PRIME`. -/
theorem bears_prime (hg : g.Free) :
    Bears (primeProtocol cl offer) cl (fun kind _ => kind ≠ .prime) g where
  reads _ _ hi := Call.Quiet.allowed cl offer trivial hi hg
  commits _ p epoch ha _ hi := commitSlotAt_quiet hg ha hi p epoch

end Quiet

/-! ## Operations -/

/-- How a write ends: with success after it has won, or with an error otherwise. -/
def Ended (offer : Addr → Slot → Prop) (g : Phase) : Except Err Nat → Prop
  | .ok _ => ∃ a p, offer a p ∧ g = .won a p
  | .error _ => g = .idle ∨ g = .lost

section Operations

variable {cl : Cluster} {offer : Addr → Slot → Prop}

/-- A read is quiet. -/
theorem readValue_phases {g : Phase} (hg : g.Free) (key : Key) :
    (readValue cl key).Obeys (primeProtocol cl offer) (fun g' _ => g' = g) g :=
  readValue_obeys (bears_prime hg) (fun _ => nofun) key

/-- A commit to `PRIME` writes its body and swaps the guard epoch.  It has won if it has found the
epoch it expected. -/
theorem commitSlotAt_phases {a : Addr} {p : Slot} {epoch : UInt64} (ha : a.kind = .prime)
    (ho : offer a p) (hi : a.idx < cl.slots a.mn a.kind) (he : epoch + 1 = p.visibleEpoch) :
    (commitSlotAt a p epoch).Obeys (primeProtocol cl offer)
      (Decides (primeProtocol cl offer) cl (fun kind _ => kind ≠ .prime) (Ended offer) epoch)
      .idle := by
  refine ⟨⟨hi, fun _ => ho⟩, fun r => ?_⟩
  cases r with
  | none =>
      simp only [primeProtocol, ha, if_true, reduceCtorEq, if_false]
      exact fun _ => Or.inr rfl
  | some u =>
      have hwrote : (primeProtocol cl offer).next .idle (.writeRegion a p) (some u) = .wrote a p := by
        simp [primeProtocol, ha]
      rw [hwrote]
      refine ⟨⟨hi, rfl, rfl, he⟩, fun r => ?_⟩
      by_cases hr : r = some epoch
      · subst hr
        have hwon : (primeProtocol cl offer).next (.wrote a p) (.cas64 a epoch p.visibleEpoch)
            (some epoch) = .won a p := if_pos rfl
        rw [hwon]
        show Decides ..
        rw [Decides, if_pos rfl]
        exact ⟨bears_prime (Phase.free_won a p), fun _ => ⟨a, p, ho, rfl⟩⟩
      · have hlost : (primeProtocol cl offer).next (.wrote a p) (.cas64 a epoch p.visibleEpoch) r =
            .lost := if_neg hr
        rw [hlost]
        show Decides ..
        rw [Decides, if_neg hr]
        exact fun _ => Or.inr rfl

theorem writeProposal_phases (key : Key) {p : Slot} {slotIndex : Nat} {currentEpoch : UInt64}
    (ho : offer ⟨cl.primarySession (hash64String key), .prime, slotIndex⟩ p)
    (hi : slotIndex < cl.slots (cl.primarySession (hash64String key)) .prime)
    (he : currentEpoch + 1 = p.visibleEpoch) :
    (writeProposal cl key p slotIndex currentEpoch).Obeys (primeProtocol cl offer)
      (Ended offer) .idle :=
  writeProposal_obeys (bears_prime Phase.free_idle) (fun _ => Or.inl rfl) nofun nofun
    (commitSlotAt_phases rfl ho hi he)

/-- A write is idle, writes one body it has to offer, and swaps its guard epoch.  It
returns success exactly if the swap succeeded. -/
theorem writeValue_phases (key : Key) (value : Value) (updateOnly tombstone : Bool)
    (ho : ∀ i e, i < cl.slots (cl.primarySession (hash64String key)) .prime →
      value.length ≤ maxValueSize →
      offer ⟨cl.primarySession (hash64String key), .prime, i⟩
        (builtSlot cl.ssl cl.crypto key value (proposalFlags tombstone) (e + 1))) :
    (writeValue cl key value updateOnly tombstone).Obeys (primeProtocol cl offer)
      (Ended offer) .idle :=
  writeValue_obeys (bears_prime Phase.free_idle) (fun _ => Or.inl rfl) (fun _ _ _ hkind => hkind)
    fun i epoch hi hlen => commitSlotAt_phases rfl (ho i epoch hi hlen) hi rfl

end Operations

end TeeDist
