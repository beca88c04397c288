import TeeDist.Alone
import TeeDist.Refinement

/-!
# Where slots lie, and what a commit touches

The slots of a region lie one after another behind its header, whatever their numbers are, as
long as the mapping is large enough for them (`RegionHeader.Fits`).  `RegionHeader.Laid` lists
what follows: the offsets do not overflow, the slots are aligned, do not meet the header or each
other, and are inside of the mapping.  `CommitEffect` is what `td_commit_slot_at` does to the
bytes of a region.  `slots_laid_and_framed` has both.
-/

namespace TeeDist

open Bytes Calls

/-! ## Layout -/

/-- The slots of a header in a mapping. -/
structure RegionHeader.Laid (header : RegionHeader) (mapped : Nat) : Prop where
  /-- The offset is the product and the sum it stands for, with no overflow. -/
  offset : ∀ kind, ∀ i < kindSlotCount header kind,
    slotOffsetForIndex header kind i = headerBytes + slotOrdinal header kind i * slotBytes
  /-- A slot is behind the header and inside of the mapping. -/
  inside : ∀ kind, ∀ i < kindSlotCount header kind,
    headerBytes ≤ slotOffsetForIndex header kind i ∧
      slotOffsetForIndex header kind i + slotBytes ≤ mapped
  aligned : ∀ kind, ∀ i < kindSlotCount header kind, slotOffsetForIndex header kind i % 8 = 0
  disjoint : ∀ kind kind', ∀ i < kindSlotCount header kind, ∀ i' < kindSlotCount header kind',
    ¬ (kind = kind' ∧ i = i') →
    slotOffsetForIndex header kind i + slotBytes ≤ slotOffsetForIndex header kind' i' ∨
      slotOffsetForIndex header kind' i' + slotBytes ≤ slotOffsetForIndex header kind i

theorem RegionHeader.Fits.laid {header : RegionHeader} {mapped : Nat} (hfits : header.Fits mapped) :
    header.Laid mapped where
  offset _ _ hi := (slotOffset_eq hfits hi).1
  inside _ _ hi := by
    obtain ⟨hoff, hend, _⟩ := slotOffset_eq hfits hi
    rw [hoff]
    exact ⟨Nat.le_add_right _ _, hend⟩
  aligned _ _ hi := by
    rw [(slotOffset_eq hfits hi).1, headerBytes, slotBytes]
    omega
  disjoint _ _ _ hi _ hi' hne := by
    have hord := slotOrdinal_ne hi hi' hne
    rw [(slotOffset_eq hfits hi).1, (slotOffset_eq hfits hi').1, slotBytes]
    omega

/-! ## Commits -/

/-- What a commit of `p` to the slot at an offset does to memory. -/
structure CommitEffect (p : Slot) (compare : UInt64) (off : Nat) (mem mem' : Mem) : Prop where
  /-- No byte outside of the slot changes. -/
  frame : ∀ b, b < off ∨ off + slotBytes ≤ b → mem' b = mem b
  /-- The guard epoch changes only if it is the one that was expected. -/
  guard : toUInt64 (load mem off 8) ≠ compare → load mem' off 8 = load mem off 8
  /-- If it is, the slot is the proposal, byte by byte. -/
  slot : toUInt64 (load mem off 8) = compare → p.guardEpoch = p.visibleEpoch →
    load mem' off slotBytes = p.toBytes

theorem store_of_outside (mem : Mem) {off b : Nat} {bs : List UInt8}
    (h : b < off ∨ off + bs.length ≤ b) : store mem off bs b = mem b := if_neg (by omega)

theorem Slot.length_body (p : Slot) : (p.toBytes.drop bodyOffset).length = 336 := by
  simp [slotBytes, bodyOffset]

/-- Memory after the body of a slot was written. -/
def bodyMem (p : Slot) (off : Nat) (mem : Mem) : Mem :=
  store mem (off + bodyOffset) (p.toBytes.drop bodyOffset)

/-- Memory after the two writes of a commit. -/
def committedMem (p : Slot) (compare : UInt64) (off : Nat) (mem : Mem) : Mem :=
  if toUInt64 (load mem off 8) = compare then store (bodyMem p off mem) off (ofUInt64 p.visibleEpoch)
  else bodyMem p off mem

theorem load_bodyMem (p : Slot) (off : Nat) (mem : Mem) :
    load (bodyMem p off mem) off 8 = load mem off 8 :=
  load_store_disjoint (Or.inr (Nat.le_refl _))

theorem bodyMem_of_outside (p : Slot) (mem : Mem) {off b : Nat}
    (hb : b < off ∨ off + slotBytes ≤ b) : bodyMem p off mem b = mem b := by
  refine store_of_outside mem ?_
  rw [p.length_body]
  simp only [slotBytes, bodyOffset] at hb ⊢
  omega

theorem commitEffect (p : Slot) (compare : UInt64) (off : Nat) (mem : Mem) :
    CommitEffect p compare off mem (committedMem p compare off mem) where
  frame b hb := by
    unfold committedMem
    split
    · have hout : b < off ∨ off + (ofUInt64 p.visibleEpoch).length ≤ b := by
        rw [length_ofUInt64]
        simp only [slotBytes] at hb
        omega
      rw [store_of_outside _ hout, bodyMem_of_outside p mem hb]
    · exact bodyMem_of_outside p mem hb
  guard hne := by
    rw [committedMem, if_neg hne]
    exact load_bodyMem p off mem
  slot heq hp := by
    rw [committedMem, if_pos heq]
    have hhead : load (store (bodyMem p off mem) off (ofUInt64 p.visibleEpoch)) off bodyOffset =
        ofUInt64 p.visibleEpoch := load_store _ _ _
    have hrest : load (store (bodyMem p off mem) off (ofUInt64 p.visibleEpoch)) (off + bodyOffset)
        336 = p.toBytes.drop bodyOffset := by
      rw [load_store_disjoint (Or.inl (by simp [bodyOffset])), bodyMem, ← p.length_body, load_store]
    rw [load_slot, hhead, hrest, ← hp]
    simp [Slot.toBytes, bodyOffset]

section Run

variable {header : Nat → RegionHeader} {rs : Nat → Region} {a : Addr}

/-- A commit to a slot that exists makes these two writes, and its compare-and-swap is not
rejected. -/
theorem run_commitSlotAt_region (hfits : (header a.mn).Fits (rs a.mn).mappedBytes)
    (ha : a.idx < kindSlotCount (header a.mn) a.kind) (p : Slot) (compare : UInt64) :
    (commitSlotAt a p compare).run (regionHandler header) rs =
      (some (toUInt64 (load (rs a.mn).mem (slotOffsetForIndex (header a.mn) a.kind a.idx) 8)),
        Function.update rs a.mn ⟨(rs a.mn).mappedBytes,
          committedMem p compare (slotOffsetForIndex (header a.mn) a.kind a.idx) (rs a.mn).mem⟩) := by
  obtain ⟨_, hend, hmapped⟩ := slotOffset_eq hfits ha
  rw [← (slotOffset_eq hfits ha).1] at hend
  have halign := hfits.laid.aligned a.kind a.idx ha
  have hstart : (slotOffsetForIndex (header a.mn) a.kind a.idx + bodyOffset) % sizeModulus =
      slotOffsetForIndex (header a.mn) a.kind a.idx + bodyOffset := by
    refine Nat.mod_eq_of_lt ?_
    simp only [slotBytes, bodyOffset] at hend ⊢
    omega
  have hwritable : ¬ (slotOffsetForIndex (header a.mn) a.kind a.idx + bodyOffset +
      (p.toBytes.drop bodyOffset).length) % sizeModulus > (rs a.mn).mappedBytes := by
    rw [p.length_body]
    simp only [slotBytes, bodyOffset, sizeModulus] at hend hmapped ⊢
    omega
  have hswappable : ¬ ((slotOffsetForIndex (header a.mn) a.kind a.idx + 8) % sizeModulus >
      (rs a.mn).mappedBytes ∨ slotOffsetForIndex (header a.mn) a.kind a.idx % 8 ≠ 0) := by
    simp only [slotBytes, sizeModulus] at hend hmapped ⊢
    omega
  have hwrite : regionHandler header (.writeRegion a p) rs =
      (some (), Function.update rs a.mn ⟨(rs a.mn).mappedBytes,
        bodyMem p (slotOffsetForIndex (header a.mn) a.kind a.idx) (rs a.mn).mem⟩) := by
    simp only [regionHandler, Region.writeBytes, hstart, if_neg hwritable]
    rfl
  simp only [commitSlotAt, writeRegion, Prog.bind_eq, Prog.call_bind, Prog.ret_bind, Prog.run_call,
    hwrite]
  simp only [TeeDist.cas64, Prog.run_call, Prog.run_ret, regionHandler, Region.cas64,
    Function.update_self, if_neg hswappable, load_bodyMem]
  by_cases hcompare : toUInt64 (load (rs a.mn).mem
      (slotOffsetForIndex (header a.mn) a.kind a.idx) 8) = compare
  · simp only [committedMem, if_pos hcompare, Function.update_idem]
  · simp only [committedMem, if_neg hcompare, Function.update_idem]

end Run

/-- Let a mapping be large enough for the slots of a header.  Then the slots are laid out as they
should be.  And a call of `td_commit_slot_at` on one of them, through a session with that header,
is not rejected, returns the guard epoch it has found, leaves the other memory nodes alone, and
does to this one what a commit is to do. -/
theorem slots_laid_and_framed (h : RegionHeader) (mapped : Nat) (hfits : h.Fits mapped) :
    h.Laid mapped ∧
    ∀ (header : Nat → RegionHeader) (rs : Nat → Region) (mn : Nat) (kind : RegionKind) (i : Nat)
      (p : Slot) (compare : UInt64), header mn = h → (rs mn).mappedBytes = mapped →
      i < kindSlotCount h kind →
      ∃ mem, (commitSlotAt ⟨mn, kind, i⟩ p compare).run (regionHandler header) rs =
          (some (toUInt64 (load (rs mn).mem (slotOffsetForIndex h kind i) 8)),
            Function.update rs mn ⟨mapped, mem⟩) ∧
        CommitEffect p compare (slotOffsetForIndex h kind i) (rs mn).mem mem := by
  refine ⟨hfits.laid, ?_⟩
  rintro header rs mn kind i p compare rfl rfl hi
  have hrun := run_commitSlotAt_region (a := ⟨mn, kind, i⟩) hfits hi p compare
  exact ⟨_, hrun, commitEffect p compare _ _⟩

/-- The first version of a slot of key hash 7. -/
def Slot.first : Slot :=
  { Slot.zero with guardEpoch := 1, visibleEpoch := 1, keyHash := 7, flags := slotFlagValid }

/-- A commit of it to the last backup slot of a region of one MiB. -/
theorem slots_laid_and_framed_sample :
    ∃ mem, (commitSlotAt ⟨0, .backup, 3⟩ .first 0).run (regionHandler Deployment.sample.header)
        (fun _ => Region.create ⟨1048576, 0, 4, 2, 4, 256, 0⟩) =
          (some 0, Function.update (fun _ => Region.create ⟨1048576, 0, 4, 2, 4, 256, 0⟩) 0
            ⟨1048576, mem⟩) ∧
      load mem (slotOffsetForIndex (Deployment.sample.header 0) .backup 3) slotBytes =
        Slot.first.toBytes := by
  obtain ⟨mem, hrun, heffect⟩ := (slots_laid_and_framed (Deployment.sample.header 0) 1048576
    (Deployment.sample.fits 0)).2 Deployment.sample.header
    (fun _ => Region.create ⟨1048576, 0, 4, 2, 4, 256, 0⟩) 0 .backup 3 .first 0 rfl
    (by decide +kernel) (by decide +kernel)
  have hguard : toUInt64 (load (Region.create ⟨1048576, 0, 4, 2, 4, 256, 0⟩).mem
      (slotOffsetForIndex (Deployment.sample.header 0) .backup 3) 8) = 0 := by
    decide +kernel
  refine ⟨mem, hrun.trans (congrArg (fun x : UInt64 => (some x, _)) hguard), ?_⟩
  exact heffect.slot hguard rfl

end TeeDist
