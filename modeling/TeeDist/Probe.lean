import TeeDist.Cluster
import TeeDist.Lib.Probing

/-!
# The probe, run alone

Run on a store nobody else touches, `probeSlot` changes nothing and returns what
the walk of `Probing.scan` says (`run_probeSlot`).  A `Deployment` is a cluster
whose memory nodes mapped enough memory for their headers, which keeps the index
arithmetic of the probe exact (`Deployment.probeIndex_eq`).
-/

namespace TeeDist

open Calls Probing

/-! ## Deployments -/

/-- The slot arrays of a header lie inside a mapping of a given size. -/
def RegionHeader.Fits (header : RegionHeader) (mapped : Nat) : Prop :=
  headerBytes + (header.primeSlotCount.toNat + header.cacheSlotCount.toNat +
    header.backupSlotCount.toNat) * slotBytes ≤ mapped ∧ mapped < sizeModulus

/-- A cluster together with what its memory nodes mapped. -/
structure Deployment extends Cluster where
  /-- The mapped bytes of each memory node. -/
  mapped : Nat → Nat
  fits : ∀ mn, (header mn).Fits (mapped mn)

/-- A deployment of `others + 1` memory nodes with the same configuration: one MiB of
memory and the given numbers of slots. -/
def Deployment.uniform (ssl : Openssl) (crypto : CryptoCtx) (replication others : Nat)
    (prime cache backup : UInt8) : Deployment where
  ssl := ssl
  crypto := crypto
  cacheOn := false
  replication := replication
  sessionCount := others + 1
  sessionCount_pos := Nat.succ_pos others
  header _ := RegionConfig.header
    { mnMemorySize := 1048576
      nodeId := 0
      primeSlots := prime.toUInt64
      cacheSlots := cache.toUInt64
      backupSlots := backup.toUInt64
      maxValueSize := 256
      cacheMode := 0 }
  mapped _ := 1048576
  fits _ := by
    have h₁ := prime.toNat_lt
    have h₂ := cache.toNat_lt
    have h₃ := backup.toNat_lt
    simp only [RegionHeader.Fits, RegionConfig.header, UInt8.toNat_toUInt64, headerBytes, slotBytes,
      sizeModulus]
    omega

/-- Three memory nodes and two backups for each key. -/
def Deployment.sample : Deployment := .uniform .sample .sample 3 2 4 2 4

/-- One memory node with two slots of each kind. -/
def Deployment.pair : Deployment := .uniform .sample .sample 1 0 2 2 2

/-- The number of slots of one kind at a memory node. -/
def Cluster.slots (cl : Cluster) (mn : Nat) (kind : RegionKind) : Nat :=
  kindSlotCount (cl.header mn) kind

/-- The home of a key hash in an array. -/
def Cluster.home (cl : Cluster) (mn : Nat) (kind : RegionKind) (keyHash : UInt64) : Nat :=
  slotIndex (cl.header mn) kind keyHash

theorem RegionHeader.Fits.slots_le {header : RegionHeader} {mapped : Nat}
    (h : header.Fits mapped) (kind : RegionKind) : kindSlotCount header kind ≤ 2 ^ 63 := by
  obtain ⟨h₁, h₂⟩ := h
  simp only [slotBytes, sizeModulus] at h₁ h₂
  cases kind <;> simp only [kindSlotCount] <;> omega

/-- The index arithmetic of the probe does not wrap around. -/
theorem Deployment.probeIndex_eq (d : Deployment) {mn : Nat} {kind : RegionKind} {keyHash : UInt64}
    {j : Nat} (hj : j < d.slots mn kind) :
    probeIndex (d.home mn kind keyHash) (d.slots mn kind) j =
      (d.home mn kind keyHash + j) % d.slots mn kind := by
  have hle := (d.fits mn).slots_le kind
  have hhome : d.home mn kind keyHash < d.slots mn kind := by
    unfold Cluster.home slotIndex Cluster.slots at *
    simp only []
    split
    next h0 => omega
    next h0 => exact Nat.mod_lt _ (by omega)
  unfold Cluster.slots at *
  rw [probeIndex, Nat.mod_eq_of_lt (a := _ + j)]
  simp only [sizeModulus]
  omega

/-! ## The probe as a walk -/

/-- How a probe for a key hash sees a slot. -/
def Slot.classFor (s : Slot) (keyHash : UInt64) : SlotClass :=
  if s.guardEpoch ≠ s.visibleEpoch then .skip
  else if s.valid && s.keyHash == keyHash then .hit
  else if s.valid && s.tombstone then .reusable
  else if s.isEmpty then .empty
  else .skip

/-- The address of the `j`-th slot a probe examines. -/
def Cluster.probeAddr (cl : Cluster) (mn : Nat) (kind : RegionKind) (keyHash : UInt64) (j : Nat) :
    Addr :=
  ⟨mn, kind, probeIndex (cl.home mn kind keyHash) (cl.slots mn kind) j⟩

/-- The outcome of the walk of a probe over a store. -/
def Store.outcome (st : Store) (cl : Cluster) (mn : Nat) (kind : RegionKind) (keyHash : UInt64) :
    Outcome :=
  scan (fun j => (st.slot (cl.probeAddr mn kind keyHash j)).classFor keyHash)
    (cl.slots mn kind) 0 none

/-- The record of a probe that holds only a candidate. -/
def candidateProbe (slot : Slot) (slotIndex : Nat) : SlotProbe :=
  ⟨.zero, 0, false, false, slot, slotIndex, true⟩

/-- The record of a probe that found its key. -/
def foundProbe (slot : Slot) (slotIndex : Nat) : SlotProbe :=
  ⟨slot, slotIndex, true, slot.tombstone, slot, slotIndex, true⟩

/-- What a probe returns for an outcome of its walk. -/
def Store.resultOf (st : Store) (cl : Cluster) (mn : Nat) (kind : RegionKind) (keyHash : UInt64) :
    Outcome → Except Err SlotProbe
  | .found j => .ok (foundProbe (st.slot (cl.probeAddr mn kind keyHash j))
      (cl.probeAddr mn kind keyHash j).idx)
  | .free j => .ok (candidateProbe (st.slot (cl.probeAddr mn kind keyHash j))
      (cl.probeAddr mn kind keyHash j).idx)
  | .full => .error (if cl.slots mn kind = 0 then .noSlots kind else .full kind keyHash)

/-- What a probe returns, run alone. -/
def Store.probe (st : Store) (cl : Cluster) (mn : Nat) (kind : RegionKind) (keyHash : UInt64) :
    Except Err SlotProbe :=
  st.resultOf cl mn kind keyHash (st.outcome cl mn kind keyHash)

/-- What the loop of the probe does with the slot it has read. -/
def probeStep (mn : Nat) (kind : RegionKind) (keyHash : UInt64) (home count left idx : Nat)
    (probe : SlotProbe) (slot : Slot) : Prog Net (Except Err SlotProbe) :=
  match slot.classFor keyHash with
  | .hit => .ret (.ok (foundProbe slot (probeIndex home count idx)))
  | .reusable =>
      probeLoop mn kind keyHash home count left (idx + 1)
        (probe.offer slot (probeIndex home count idx))
  | .empty => .ret (.ok (probe.offer slot (probeIndex home count idx)))
  | .skip => probeLoop mn kind keyHash home count left (idx + 1) probe

/-- One turn of the loop: read a slot, and go on by its class. -/
theorem probeLoop_succ (mn : Nat) (kind : RegionKind) (keyHash : UInt64)
    (home count left idx : Nat) (probe : SlotProbe) :
    probeLoop mn kind keyHash home count (left + 1) idx probe =
      .call (.readRegion ⟨mn, kind, probeIndex home count idx⟩) fun r =>
        match r with
        | none => .ret (.error .transport)
        | some slot => probeStep mn kind keyHash home count left idx probe slot := by
  simp only [probeLoop, readRegion, Prog.bind_eq, Prog.call_bind, Prog.ret_bind, Prog.pure_eq]
  congr 1
  funext r
  cases r with
  | none => rfl
  | some slot =>
      simp only [probeStep, Slot.classFor]
      split_ifs <;> rfl

section Run

variable (cl : Cluster) (st : Store) (mn : Nat) (kind : RegionKind) (keyHash : UInt64)

/-- The probe record while the walk has the candidate `cand`. -/
def Store.walkProbe (st : Store) (cl : Cluster) (mn : Nat) (kind : RegionKind) (keyHash : UInt64) :
    Option Nat → SlotProbe
  | none => .zero
  | some c => candidateProbe (st.slot (cl.probeAddr mn kind keyHash c))
      (cl.probeAddr mn kind keyHash c).idx

theorem Store.walkProbe_offer (j : Nat) (cand : Option Nat) :
    (st.walkProbe cl mn kind keyHash cand).offer (st.slot (cl.probeAddr mn kind keyHash j))
        (cl.probeAddr mn kind keyHash j).idx =
      st.walkProbe cl mn kind keyHash (cand.or (some j)) := by
  cases cand <;> rfl

theorem run_probeLoop (hc : cl.slots mn kind ≠ 0) :
    ∀ (left idx : Nat) (cand : Option Nat),
      (probeLoop mn kind keyHash (cl.home mn kind keyHash) (cl.slots mn kind) left idx
          (st.walkProbe cl mn kind keyHash cand)).run storeHandler st =
        (st.resultOf cl mn kind keyHash
          (scan (fun j => (st.slot (cl.probeAddr mn kind keyHash j)).classFor keyHash)
            left idx cand), st)
  | 0, idx, none => by
      simp [probeLoop, Store.walkProbe, scan, Store.resultOf, SlotProbe.zero, hc]
  | 0, idx, some c => by
      simp [probeLoop, Store.walkProbe, scan, Store.resultOf, candidateProbe]
  | left + 1, idx, cand => by
      rw [probeLoop_succ, scan]
      show Prog.run storeHandler (probeStep mn kind keyHash _ _ left idx _
        (st.slot (cl.probeAddr mn kind keyHash idx))) st = _
      unfold probeStep
      cases hcls : (st.slot (cl.probeAddr mn kind keyHash idx)).classFor keyHash with
      | hit => rfl
      | reusable =>
          simp only [← run_probeLoop hc left (idx + 1), ← Store.walkProbe_offer]
          rfl
      | empty => cases cand <;> rfl
      | skip => exact run_probeLoop hc left (idx + 1) cand

/-- Run alone, the probe changes nothing and returns the result of its walk. -/
@[simp] theorem run_probeSlot :
    (probeSlot cl mn kind keyHash).run storeHandler st = (st.probe cl mn kind keyHash, st) := by
  unfold probeSlot
  by_cases hc : cl.slots mn kind = 0
  · have hc' : kindSlotCount (cl.header mn) kind = 0 := hc
    simp [Store.probe, Store.outcome, hc, hc', scan, Store.resultOf]
  · have hc' : ¬ kindSlotCount (cl.header mn) kind = 0 := hc
    simp only [hc', if_false]
    exact run_probeLoop cl st mn kind keyHash hc (cl.slots mn kind) 0 none

end Run

end TeeDist
