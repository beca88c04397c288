import TeeDist.Table

/-!
# Regions refine stores

The bytes a memory node maps, seen as slots.  On regions large enough for their
headers the slots lie side by side after the header (`slotOffset_eq`), so a call of
a compute node about one slot changes that slot as `storeHandler` says and no other
(`Models.call`).  The eviction thread is matched in the same way, one turn of its
loop at a time (`Models.countCacheUsage`, `Models.evictTurn`).
-/

namespace TeeDist

open Bytes Calls

/-! ## Byte images -/

@[simp] theorem Slot.length_toBytes (s : Slot) : s.toBytes.length = slotBytes := by
  simp [Slot.toBytes, slotBytes]

theorem vectorAt_append {n : Nat} (v : Vector UInt8 n) {bs cs : List UInt8} {off : Nat}
    (h : bs.length = off) : vectorAt n (bs ++ (v.toList ++ cs)) off = v := by
  subst h
  apply Vector.ext
  intro i hi
  have hlen : i < v.toList.length := by simpa using hi
  simp [vectorAt, List.getElem?_append_left hlen, hi]

theorem ofBytes_toBytes_flat (s : Slot) :
    s.toBytes = ofUInt64 s.guardEpoch ++ ofUInt64 s.visibleEpoch ++ ofUInt64 s.keyHash ++
      ofUInt64 s.tieBreaker ++ ofUInt32 s.flags ++ ofUInt32 s.valueLen ++ (s.iv.toList ++
        (s.mac.toList ++ s.ciphertext.toList)) := by
  simp [Slot.toBytes]

/-- A slot is read back from its bytes. -/
@[simp] theorem Slot.ofBytes_toBytes (s : Slot) : Slot.ofBytes s.toBytes = s := by
  have hiv : vectorAt 16 s.toBytes 40 = s.iv := by
    rw [ofBytes_toBytes_flat]
    exact vectorAt_append _ (by simp)
  have hmac : vectorAt 32 s.toBytes 56 = s.mac := by
    rw [ofBytes_toBytes_flat, ← List.append_assoc]
    exact vectorAt_append _ (by simp)
  have hct : vectorAt 256 s.toBytes 88 = s.ciphertext := by
    rw [ofBytes_toBytes_flat, ← List.append_nil s.ciphertext.toList, ← List.append_assoc,
      ← List.append_assoc]
    exact vectorAt_append _ (by simp)
  unfold Slot.ofBytes
  rw [hiv, hmac, hct]
  simp [Slot.toBytes, List.drop_append, List.drop_of_length_le]

/-- A guard epoch in front of the rest of a slot's bytes. -/
theorem Slot.ofBytes_guard (epoch : UInt64) (bs : List UInt8) :
    Slot.ofBytes (ofUInt64 epoch ++ bs.drop bodyOffset) = (Slot.ofBytes bs).withGuard epoch := by
  have hdrop : ∀ k, 8 ≤ k → (ofUInt64 epoch ++ bs.drop bodyOffset).drop k = bs.drop k := by
    intro k hk
    rw [List.drop_append, List.drop_of_length_le (by simpa using hk), List.nil_append,
      List.drop_drop, length_ofUInt64, bodyOffset, Nat.add_sub_cancel' hk]
  have hguard : ((ofUInt64 epoch ++ bs.drop bodyOffset).drop 0).take 8 = ofUInt64 epoch := by
    simp
  simp only [Slot.ofBytes, Slot.withGuard, vectorAt, hguard, toUInt64_ofUInt64, hdrop 8 (by omega),
    hdrop 16 (by omega), hdrop 24 (by omega), hdrop 32 (by omega), hdrop 36 (by omega),
    hdrop 40 (by omega), hdrop 56 (by omega), hdrop 88 (by omega)]

section Mem

variable (mem : Mem) (off : Nat)

theorem load_slot :
    load mem off slotBytes = load mem off bodyOffset ++ load mem (off + bodyOffset) 336 :=
  load_add mem off 8 336

theorem guardEpoch_load :
    (Slot.ofBytes (load mem off slotBytes)).guardEpoch = toUInt64 (load mem off 8) := by
  have hlen : (load mem off bodyOffset).length = 8 := length_load ..
  rw [load_slot, Slot.ofBytes, List.drop_zero, ← hlen, List.take_left]
  rfl

/-- Writing the body of a slot leaves its guard epoch. -/
theorem load_store_body (body : Slot) :
    Slot.ofBytes (load (store mem (off + bodyOffset) (body.toBytes.drop bodyOffset)) off slotBytes) =
      (Slot.ofBytes (load mem off slotBytes)).withBody body := by
  have hlen : (body.toBytes.drop bodyOffset).length = 336 := by simp [slotBytes, bodyOffset]
  have hbody : load (store mem (off + bodyOffset) (body.toBytes.drop bodyOffset))
      (off + bodyOffset) 336 = body.toBytes.drop bodyOffset := by
    rw [← hlen]
    exact load_store ..
  have hguard : load (store mem (off + bodyOffset) (body.toBytes.drop bodyOffset)) off bodyOffset =
      ofUInt64 (toUInt64 (load mem off 8)) := by
    rw [load_store_disjoint (Or.inr (Nat.le_refl _)), ofUInt64_toUInt64 (length_load ..)]
    rfl
  rw [load_slot, hbody, hguard, Slot.ofBytes_guard, Slot.ofBytes_toBytes, Slot.withBody,
    guardEpoch_load]
  rfl

/-- Writing the guard epoch of a slot leaves its body. -/
theorem load_store_guard (epoch : UInt64) :
    Slot.ofBytes (load (store mem off (ofUInt64 epoch)) off slotBytes) =
      (Slot.ofBytes (load mem off slotBytes)).withGuard epoch := by
  have hguard : load (store mem off (ofUInt64 epoch)) off bodyOffset = ofUInt64 epoch := by
    have := load_store mem off (ofUInt64 epoch)
    rwa [length_ofUInt64] at this
  have hlen : (load mem off bodyOffset).length = bodyOffset := length_load ..
  have hbody : load (store mem off (ofUInt64 epoch)) (off + bodyOffset) 336 =
      (load mem off slotBytes).drop bodyOffset := by
    rw [load_store_disjoint (Or.inl (by simp [bodyOffset])), load_slot,
      List.drop_left' hlen]
  rw [load_slot, hguard, hbody, Slot.ofBytes_guard]

/-- Writing a whole slot. -/
theorem load_store_slot (s : Slot) :
    Slot.ofBytes (load (store mem off s.toBytes) off slotBytes) = s := by
  rw [← s.length_toBytes, load_store, Slot.ofBytes_toBytes]

end Mem

/-! ## Where slots lie -/

/-- The position of a slot in the sequence of all slots of a region. -/
def slotOrdinal (header : RegionHeader) : RegionKind → Nat → Nat
  | .prime, i => i
  | .cache, i => header.primeSlotCount.toNat + i
  | .backup, i => header.primeSlotCount.toNat + header.cacheSlotCount.toNat + i

/-- On a region large enough for its header the slots lie one after another behind the
header, and inside the mapping. -/
theorem slotOffset_eq {header : RegionHeader} {mapped : Nat} (hfits : header.Fits mapped)
    {kind : RegionKind} {i : Nat} (hi : i < kindSlotCount header kind) :
    slotOffsetForIndex header kind i = headerBytes + slotOrdinal header kind i * slotBytes ∧
      headerBytes + slotOrdinal header kind i * slotBytes + slotBytes ≤ mapped ∧
      mapped < sizeModulus := by
  obtain ⟨h₁, h₂⟩ := hfits
  simp only [headerBytes, slotBytes, sizeModulus] at h₁ h₂ ⊢
  cases kind <;>
    simp only [kindSlotCount, slotOffsetForIndex, kindBaseOffset, slotOrdinal, headerBytes, slotBytes,
      sizeModulus] at hi ⊢ <;> omega

/-- Two slots of a region have different positions. -/
theorem slotOrdinal_ne {header : RegionHeader} {kind kind' : RegionKind} {i i' : Nat}
    (hi : i < kindSlotCount header kind) (hi' : i' < kindSlotCount header kind')
    (hne : ¬ (kind = kind' ∧ i = i')) : slotOrdinal header kind i ≠ slotOrdinal header kind' i' := by
  cases kind <;> cases kind' <;>
    simp only [kindSlotCount, slotOrdinal, true_and, ne_eq, reduceCtorEq, false_and,
      not_false_eq_true] at hi hi' hne ⊢ <;> omega

/-- The offsets of a header depend on its slot counts alone. -/
theorem slotOffset_congr {header header' : RegionHeader}
    (h : ∀ kind, kindSlotCount header' kind = kindSlotCount header kind) (kind : RegionKind)
    (i : Nat) : slotOffsetForIndex header' kind i = slotOffsetForIndex header kind i := by
  have hprime : header'.primeSlotCount.toNat = header.primeSlotCount.toNat := h .prime
  have hcache : header'.cacheSlotCount.toNat = header.cacheSlotCount.toNat := h .cache
  cases kind <;> simp only [slotOffsetForIndex, kindBaseOffset, hprime, hcache]

/-! ## The relation -/

/-- A region holds the slots and the header words that a store has for a memory node. -/
structure Region.Models (r : Region) (d : Deployment) (mn : Nat) (st : Store) : Prop where
  mapped : r.mappedBytes = d.mapped mn
  counts : ∀ kind, kindSlotCount r.header kind = d.slots mn kind
  slot : ∀ kind i, i < d.slots mn kind → r.slot kind i = st.slot ⟨mn, kind, i⟩
  cursor : r.header.evictionCursor = st.evictionCursor mn
  usage : r.header.cacheUsage = st.cacheUsage mn

/-- The regions of the memory nodes hold what a store says. -/
def Models (d : Deployment) (rs : Nat → Region) (st : Store) : Prop := ∀ mn, (rs mn).Models d mn st

/-- A store behind the header leaves the header. -/
theorem RegionHeader.ofMem_store (mem : Mem) {off : Nat} (h : headerBytes ≤ off) (bs : List UInt8) :
    RegionHeader.ofMem (store mem off bs) = RegionHeader.ofMem mem := by
  simp only [headerBytes] at h
  have hload : ∀ k, k + 8 ≤ 88 → load (store mem off bs) k 8 = load mem k 8 :=
    fun k hk => load_store_disjoint (Or.inr (by omega))
  simp [RegionHeader.ofMem, hload]

section Region

variable {d : Deployment} {r : Region} {mn : Nat} {st : Store}

/-- Where the session header says a slot is, there it is. -/
theorem Region.Models.offset (hm : r.Models d mn st) (kind : RegionKind) (i : Nat) :
    slotOffsetForIndex r.header kind i = slotOffsetForIndex (d.header mn) kind i :=
  slotOffset_congr hm.counts kind i

theorem Region.Models.load_slot (hm : r.Models d mn st) {kind : RegionKind} {i : Nat}
    (hi : i < d.slots mn kind) :
    Slot.ofBytes (load r.mem (slotOffsetForIndex (d.header mn) kind i) slotBytes) =
      st.slot ⟨mn, kind, i⟩ := by
  rw [← hm.slot kind i hi, Region.slot, hm.offset]

/-- Bytes written inside one slot change that slot. -/
theorem Region.Models.write (hm : r.Models d mn st) {kind : RegionKind} {i : Nat}
    (hi : i < d.slots mn kind) {off : Nat} (bs : List UInt8)
    (hlo : slotOffsetForIndex (d.header mn) kind i ≤ off)
    (hhi : off + bs.length ≤ slotOffsetForIndex (d.header mn) kind i + slotBytes) :
    Region.Models { r with mem := store r.mem off bs } d mn
      (st.setSlot ⟨mn, kind, i⟩ (Slot.ofBytes
        (load (store r.mem off bs) (slotOffsetForIndex (d.header mn) kind i) slotBytes))) := by
  obtain ⟨hoff, _, _⟩ := slotOffset_eq (d.fits mn) hi
  have hheader : Region.header { r with mem := store r.mem off bs } = r.header :=
    RegionHeader.ofMem_store r.mem (by omega) bs
  constructor
  · exact hm.mapped
  · rw [hheader]
    exact hm.counts
  · intro kind' i' hi'
    rw [Region.slot, hheader, hm.offset]
    by_cases hsame : kind = kind' ∧ i = i'
    · obtain ⟨rfl, rfl⟩ := hsame
      rw [Store.setSlot_slot_self]
    · have hord := slotOrdinal_ne hi hi' hsame
      obtain ⟨hoff', _, _⟩ := slotOffset_eq (d.fits mn) hi'
      have hdisj : off + bs.length ≤ slotOffsetForIndex (d.header mn) kind' i' ∨
          slotOffsetForIndex (d.header mn) kind' i' + slotBytes ≤ off := by
        simp only [slotBytes] at hoff hoff' hhi ⊢
        omega
      rw [load_store_disjoint hdisj, hm.load_slot hi', Store.setSlot_slot_of_ne]
      rintro ⟨⟩
      exact hsame ⟨rfl, rfl⟩
  · rw [hheader]
    exact hm.cursor
  · rw [hheader]
    exact hm.usage

/-- A region does not notice what happens at other memory nodes. -/
theorem Region.Models.of_ne (hm : r.Models d mn st) {a : Addr} (ha : a.mn ≠ mn) (s : Slot) :
    r.Models d mn (st.setSlot a s) where
  mapped := hm.mapped
  counts := hm.counts
  slot kind i hi := by
    rw [hm.slot kind i hi, Store.setSlot_slot_of_ne]
    rintro rfl
    exact ha rfl
  cursor := hm.cursor
  usage := hm.usage

end Region

section Call

variable {d : Deployment} {rs : Nat → Region} {st : Store}

/-- A change of one slot of one region. -/
theorem Models.setSlot (hm : Models d rs st) {a : Addr} {r : Region} {s : Slot}
    (hr : r.Models d a.mn (st.setSlot a s)) :
    Models d (Function.update rs a.mn r) (st.setSlot a s) := by
  intro mn
  by_cases hmn : mn = a.mn
  · subst hmn
    rwa [Function.update_self]
  · rw [Function.update_of_ne hmn]
    exact (hm mn).of_ne (fun h => hmn h.symm) s

/-- A slot that exists is aligned and inside the mapping. -/
theorem Deployment.slot_bounds (d : Deployment) {a : Addr} (ha : a.idx < d.slots a.mn a.kind) :
    slotOffsetForIndex (d.header a.mn) a.kind a.idx + slotBytes ≤ d.mapped a.mn ∧
      d.mapped a.mn < sizeModulus ∧ slotOffsetForIndex (d.header a.mn) a.kind a.idx % 8 = 0 := by
  obtain ⟨hoff, hend, hmapped⟩ := slotOffset_eq (d.fits a.mn) ha
  rw [← hoff] at hend
  refine ⟨hend, hmapped, ?_⟩
  simp only [headerBytes, slotBytes] at hoff
  omega

variable {a : Addr}

theorem Models.readRegion (hm : Models d rs st) (ha : a.idx < d.slots a.mn a.kind) :
    regionHandler d.header (.readRegion a) rs = (some (st.slot a), rs) := by
  obtain ⟨hend, hmapped, _⟩ := d.slot_bounds ha
  have hok : ¬ (slotOffsetForIndex (d.header a.mn) a.kind a.idx + slotBytes) % sizeModulus >
      (rs a.mn).mappedBytes := by
    rw [(hm a.mn).mapped, Nat.mod_eq_of_lt (Nat.lt_of_le_of_lt hend hmapped)]
    exact Nat.not_lt.mpr hend
  simp only [regionHandler, Region.readBytes, if_neg hok, (hm a.mn).load_slot ha]

theorem Models.writeRegion (hm : Models d rs st) (ha : a.idx < d.slots a.mn a.kind) (body : Slot) :
    (regionHandler d.header (.writeRegion a body) rs).1 = some () ∧
      Models d (regionHandler d.header (.writeRegion a body) rs).2
        (st.setSlot a ((st.slot a).withBody body)) := by
  obtain ⟨hend, hmapped, _⟩ := d.slot_bounds ha
  have hlen : (body.toBytes.drop bodyOffset).length = 336 := by simp [slotBytes, bodyOffset]
  have hstart : (slotOffsetForIndex (d.header a.mn) a.kind a.idx + bodyOffset) % sizeModulus =
      slotOffsetForIndex (d.header a.mn) a.kind a.idx + bodyOffset := by
    refine Nat.mod_eq_of_lt ?_
    simp only [slotBytes, bodyOffset] at hend ⊢
    omega
  have hok : ¬ (slotOffsetForIndex (d.header a.mn) a.kind a.idx + bodyOffset +
      (body.toBytes.drop bodyOffset).length) % sizeModulus > (rs a.mn).mappedBytes := by
    rw [(hm a.mn).mapped, hlen]
    simp only [slotBytes, bodyOffset, sizeModulus] at hend hmapped ⊢
    omega
  have hwrite := (hm a.mn).write ha (body.toBytes.drop bodyOffset) (Nat.le_add_right _ bodyOffset)
    (by rw [hlen]; simp [bodyOffset, slotBytes])
  rw [load_store_body, (hm a.mn).load_slot ha] at hwrite
  simp only [regionHandler, Region.writeBytes, hstart, if_neg hok]
  exact ⟨trivial, hm.setSlot hwrite⟩

theorem Models.cas64 (hm : Models d rs st) (ha : a.idx < d.slots a.mn a.kind)
    (compare swap : UInt64) :
    (regionHandler d.header (.cas64 a compare swap) rs).1 = some (st.slot a).guardEpoch ∧
      Models d (regionHandler d.header (.cas64 a compare swap) rs).2
        (if (st.slot a).guardEpoch = compare then st.setSlot a ((st.slot a).withGuard swap)
          else st) := by
  obtain ⟨hend, hmapped, halign⟩ := d.slot_bounds ha
  have hok : ¬ ((slotOffsetForIndex (d.header a.mn) a.kind a.idx + 8) % sizeModulus >
      (rs a.mn).mappedBytes ∨ slotOffsetForIndex (d.header a.mn) a.kind a.idx % 8 ≠ 0) := by
    rw [(hm a.mn).mapped]
    simp only [slotBytes, sizeModulus] at hend hmapped ⊢
    omega
  have hguard : toUInt64 (load (rs a.mn).mem
      (slotOffsetForIndex (d.header a.mn) a.kind a.idx) 8) = (st.slot a).guardEpoch := by
    rw [← guardEpoch_load, (hm a.mn).load_slot ha]
  have hwrite := (hm a.mn).write ha (ofUInt64 swap) (Nat.le_refl _) (by simp [slotBytes])
  rw [load_store_guard, (hm a.mn).load_slot ha] at hwrite
  simp only [regionHandler, Region.cas64, if_neg hok, hguard]
  by_cases hcmp : (st.slot a).guardEpoch = compare
  · simp only [if_pos hcmp]
    exact ⟨trivial, hm.setSlot hwrite⟩
  · simp only [if_neg hcmp, Function.update_eq_self]
    exact ⟨trivial, hm⟩

/-- Calls about slots that exist have the same replies and the same effect on regions and
on stores. -/
theorem Models.call (hm : Models d rs st) (c : Call)
    (hc : c.addr.idx < d.slots c.addr.mn c.addr.kind) :
    (regionHandler d.header c rs).1 = (storeHandler c st).1 ∧
      Models d (regionHandler d.header c rs).2 (storeHandler c st).2 := by
  cases c with
  | readRegion a =>
      have h := hm.readRegion (a := a) hc
      rw [h]
      exact ⟨rfl, hm⟩
  | writeRegion a body => exact hm.writeRegion hc body
  | cas64 a compare swap => exact hm.cas64 hc compare swap

end Call

/-! ## Eviction -/

section Evict

variable {d : Deployment} {rs : Nat → Region} {st : Store} {mn : Nat}

theorem Region.Models.cacheSlotCount {r : Region} (hm : r.Models d mn st) :
    r.header.cacheSlotCount = (d.header mn).cacheSlotCount :=
  UInt64.toNat_inj.mp (hm.counts .cache)

/-- A header word behind the slot counts. -/
theorem Region.Models.header_word {r : Region} (hm : r.Models d mn st) (off : Nat)
    (hlo : 48 ≤ off) (hhi : off ≤ 80) (x : UInt64) :
    (∀ kind, kindSlotCount (Region.header { r with mem := store r.mem off (ofUInt64 x) }) kind =
        d.slots mn kind) ∧
      ∀ kind i, i < d.slots mn kind →
        Region.slot { r with mem := store r.mem off (ofUInt64 x) } kind i = st.slot ⟨mn, kind, i⟩ := by
  have hload : ∀ k, k + 8 ≤ 48 → load (store r.mem off (ofUInt64 x)) k 8 = load r.mem k 8 :=
    fun k hk => load_store_disjoint (Or.inr (by omega))
  have hcounts : ∀ kind, kindSlotCount
      (Region.header { r with mem := store r.mem off (ofUInt64 x) }) kind = d.slots mn kind := by
    intro kind
    rw [← hm.counts kind]
    cases kind <;> simp only [Region.header, RegionHeader.ofMem, kindSlotCount]
    · rw [hload 24 (by omega)]
    · rw [hload 32 (by omega)]
    · rw [hload 40 (by omega)]
  refine ⟨hcounts, fun kind i hi => ?_⟩
  obtain ⟨hoff, _, _⟩ := slotOffset_eq (d.fits mn) hi
  rw [Region.slot, slotOffset_congr hcounts]
  rw [load_store_disjoint (Or.inl (by rw [hoff, length_ofUInt64, headerBytes]; omega)),
    hm.load_slot hi]

theorem Region.Models.countUsed {r : Region} (hm : r.Models d mn st) :
    ∀ n ≤ d.slots mn .cache, r.countUsed n = st.countUsed mn n
  | 0, _ => rfl
  | n + 1, hn => by
      rw [Region.countUsed, Store.countUsed, hm.countUsed n (by omega), hm.slot .cache n (by omega)]
      rfl

/-- The usage count of a region is that of its store. -/
theorem Region.Models.countCacheUsage {r : Region} (hm : r.Models d mn st) :
    r.countCacheUsage.1 = st.countUsed mn (d.slots mn .cache) ∧
      r.countCacheUsage.2.Models d mn (st.countCacheUsage mn (d.slots mn .cache)).2 := by
  have hused : r.countUsed r.header.cacheSlotCount.toNat = st.countUsed mn (d.slots mn .cache) := by
    rw [hm.cacheSlotCount]
    exact hm.countUsed _ (Nat.le_refl _)
  simp only [Region.countCacheUsage, hused, true_and]
  generalize hx : UInt64.ofNat (st.countUsed mn (d.slots mn .cache)) = x
  obtain ⟨hcounts, hslot⟩ := hm.header_word 56 (by omega) (by omega) x
  refine ⟨hm.mapped, hcounts, hslot, ?_, ?_⟩
  · have hload : load (store r.mem 56 (ofUInt64 x)) 64 8 = load r.mem 64 8 :=
      load_store_disjoint (Or.inl (by simp))
    rw [Region.header, RegionHeader.ofMem, hload]
    exact hm.cursor
  · have hload : load (store r.mem 56 (ofUInt64 x)) 56 8 = ofUInt64 x := by
      have := load_store r.mem 56 (ofUInt64 x)
      rwa [length_ofUInt64] at this
    rw [Region.header, RegionHeader.ofMem, hload, toUInt64_ofUInt64, ← hx]
    simp [Store.countCacheUsage]

/-- One turn of the eviction loop of a region is one of its store. -/
theorem Region.Models.evictTurn {r : Region} (hm : r.Models d mn st) (hpos : 0 < d.slots mn .cache)
    (target : Nat) :
    (r.evictTurn target).1 = (st.evictTurn mn (d.header mn).cacheSlotCount target).1 ∧
      (r.evictTurn target).2.Models d mn (st.evictTurn mn (d.header mn).cacheSlotCount target).2 := by
  generalize hidx : (st.evictionCursor mn % (d.header mn).cacheSlotCount).toNat = idx
  have hlt : idx < d.slots mn .cache := by
    rw [← hidx, UInt64.toNat_mod]
    exact Nat.mod_lt _ hpos
  have hcleared : ∀ r', (if (r.slot .cache idx).valid then r.setSlot .cache idx .zero else r) = r' →
      r'.Models d mn
        (if (st.slot ⟨mn, .cache, idx⟩).valid then st.setSlot ⟨mn, .cache, idx⟩ .zero else st) := by
    rintro r' rfl
    rw [hm.slot .cache idx hlt]
    split
    · have hwrite := hm.write hlt Slot.zero.toBytes (Nat.le_refl _) (by simp)
      rw [load_store_slot] at hwrite
      rw [Region.setSlot, hm.offset]
      exact hwrite
    · exact hm
  simp only [Region.evictTurn, Store.evictTurn, hm.cursor, hm.cacheSlotCount, hidx,
    hm.slot .cache idx hlt, true_and]
  rw [← hm.slot .cache idx hlt]
  generalize hr' : (if (r.slot .cache idx).valid then r.setSlot .cache idx .zero else r) = r'
  have hm' := hcleared r' hr'
  rw [← hm.slot .cache idx hlt] at hm'
  generalize hst' : (if (r.slot .cache idx).valid then st.setSlot ⟨mn, .cache, idx⟩ .zero else st) =
    st' at hm'
  have hcursor : st'.evictionCursor mn = st.evictionCursor mn := by
    rw [← hst']
    split <;> rfl
  rw [hm'.cursor, hm'.cacheSlotCount, hcursor]
  generalize hx : (st.evictionCursor mn + 1) % (d.header mn).cacheSlotCount = x
  obtain ⟨hcounts, hslot⟩ := hm'.header_word 64 (by omega) (by omega) x
  refine ⟨hm'.mapped, hcounts, hslot, ?_, ?_⟩
  · have hload : load (store r'.mem 64 (ofUInt64 x)) 64 8 = ofUInt64 x := by
      have := load_store r'.mem 64 (ofUInt64 x)
      rwa [length_ofUInt64] at this
    rw [Region.header, RegionHeader.ofMem, hload, toUInt64_ofUInt64]
    simp
  · have hload : load (store r'.mem 64 (ofUInt64 x)) 56 8 = load r'.mem 56 8 :=
      load_store_disjoint (Or.inr (by omega))
    rw [Region.header, RegionHeader.ofMem, hload]
    exact hm'.usage

/-- A region does not notice an eviction at another memory node. -/
theorem Region.Models.evictTurn_of_ne {r : Region} {mn' : Nat} (hm : r.Models d mn st) (h : mn ≠ mn')
    (total : UInt64) (target : Nat) : r.Models d mn (st.evictTurn mn' total target).2 := by
  generalize hidx : (st.evictionCursor mn' % total).toNat = idx
  have hcleared : r.Models d mn
      (if (st.slot ⟨mn', .cache, idx⟩).valid then st.setSlot ⟨mn', .cache, idx⟩ .zero else st) := by
    split
    · exact hm.of_ne (fun he => h he.symm) _
    · exact hm
  simp only [Store.evictTurn, hidx]
  refine ⟨hcleared.mapped, hcleared.counts, hcleared.slot, ?_, hcleared.usage⟩
  simpa [h] using hm.cursor

end Evict

/-- A step of the eviction thread of a memory node: a usage count, or one turn of the eviction
loop, which runs only if the node has cache slots. -/
inductive Evicts (rs : Nat → Region) : (Nat → Region) → Prop where
  | count (mn : Nat) : Evicts rs (Function.update rs mn (rs mn).countCacheUsage.2)
  | turn (mn target : Nat) : (rs mn).header.cacheSlotCount.toNat ≠ 0 →
      Evicts rs (Function.update rs mn ((rs mn).evictTurn target).2)

/-- The same on a store. -/
inductive StoreEvicts (d : Deployment) (st : Store) : Store → Prop where
  | count (mn : Nat) : StoreEvicts d st (st.countCacheUsage mn (d.slots mn .cache)).2
  | turn (mn target : Nat) :
      StoreEvicts d st (st.evictTurn mn (d.header mn).cacheSlotCount target).2

/-- A step of an eviction thread is matched on the store. -/
theorem Models.evicts {d : Deployment} {rs rs' : Nat → Region} {st : Store} (hm : Models d rs st)
    (h : Evicts rs rs') : ∃ st', StoreEvicts d st st' ∧ Models d rs' st' := by
  cases h with
  | count mn =>
      refine ⟨_, .count mn, fun mn' => ?_⟩
      by_cases hmn : mn' = mn
      · subst hmn
        rw [Function.update_self]
        exact (hm mn').countCacheUsage.2
      · rw [Function.update_of_ne hmn]
        have hr := hm mn'
        refine ⟨hr.mapped, hr.counts, hr.slot, hr.cursor, ?_⟩
        simpa [Store.countCacheUsage, hmn] using hr.usage
  | turn mn target hpos =>
      refine ⟨_, .turn mn target, fun mn' => ?_⟩
      by_cases hmn : mn' = mn
      · subst hmn
        rw [Function.update_self]
        refine ((hm mn').evictTurn ?_ target).2
        rw [← (hm mn').counts .cache]
        exact Nat.pos_of_ne_zero hpos
      · rw [Function.update_of_ne hmn]
        exact (hm mn').evictTurn_of_ne hmn _ target

/-! ## Fresh regions -/

/-- The memory nodes a deployment talks to were opened with these configurations. -/
def Deployment.Opened (d : Deployment) (cfg : Nat → RegionConfig) : Prop :=
  ∀ mn, (∀ kind, kindSlotCount (d.header mn) kind = kindSlotCount (cfg mn).header kind) ∧
    d.mapped mn = (cfg mn).mnMemorySize.toNat

@[simp] theorem RegionHeader.length_toBytes (h : RegionHeader) : h.toBytes.length = headerBytes := by
  simp [RegionHeader.toBytes, headerBytes]

/-- A header is read back from its bytes. -/
theorem RegionHeader.ofMem_toBytes (mem : Mem) (h : RegionHeader) :
    RegionHeader.ofMem (store mem 0 h.toBytes) = h := by
  have hload : ∀ k, k + 8 ≤ 88 → load (store mem 0 h.toBytes) k 8 = (h.toBytes.drop k).take 8 := by
    intro k hk
    have hpart := load_store_part mem 0 h.toBytes (k := k) (n := 8)
      (by rw [h.length_toBytes]; exact hk)
    rwa [Nat.zero_add] at hpart
  simp (disch := omega) only [RegionHeader.ofMem, hload]
  simp [RegionHeader.toBytes, List.drop_append, List.drop_of_length_le, List.take_of_length_le]

/-- A freshly opened region holds the header of its configuration. -/
theorem Region.header_create (cfg : RegionConfig) : (Region.create cfg).header = cfg.header :=
  RegionHeader.ofMem_toBytes _ _

theorem ofBytes_zero : Slot.ofBytes (List.replicate slotBytes 0) = .zero := by
  have h : List.replicate slotBytes 0 = Slot.zero.toBytes := by decide +kernel
  rw [h, Slot.ofBytes_toBytes]

/-- Freshly opened memory nodes hold the fresh store. -/
theorem models_fresh {d : Deployment} {cfg : Nat → RegionConfig} (h : d.Opened cfg) :
    Models d (fun mn => Region.create (cfg mn)) .fresh := by
  intro mn
  obtain ⟨hcounts, hmapped⟩ := h mn
  have hheader := Region.header_create (cfg mn)
  refine ⟨hmapped.symm, ?_, fun kind i hi => ?_, ?_, ?_⟩
  · intro kind
    rw [hheader]
    exact (hcounts kind).symm
  · obtain ⟨hoff, _, _⟩ := slotOffset_eq (d.fits mn) hi
    have hzero : load (fun _ => 0) (slotOffsetForIndex (d.header mn) kind i) slotBytes =
        List.replicate slotBytes 0 := by simp [load, List.map_const']
    rw [Region.slot, hheader, slotOffset_congr (fun kind => (hcounts kind).symm)]
    simp only [Region.create]
    rw [load_store_disjoint (Or.inl (by simp [hoff])), hzero, ofBytes_zero]
    rfl
  · rw [hheader]
    rfl
  · rw [hheader]
    rfl

end TeeDist
