import TeeDist.Table

/-!
# Hostile memory nodes

A memory node may answer as it likes: any header, any bytes for a slot, any word for
a compare-and-swap, any order.  A read is then a program with arbitrary replies
(`Prog.Answers`).  If authentication codes cannot be forged, a value that such a read
returns was written: it is the plaintext of a slot some client built, not as a
tombstone, for a key with the hash of the key read (`read_authentic`).
-/

namespace TeeDist

open Calls

/-! ## Honest slots and unforgeable codes -/

/-- A successful call of `td_crypto_make_slot`. -/
structure MakeCall where
  key : Key
  value : Value
  flags : UInt32
  epoch : UInt64
  /-- The call succeeds only on values that fit. -/
  fits : value.length ≤ maxValueSize

/-- The slot a call built. -/
def MakeCall.slot (ssl : Openssl) (ctx : CryptoCtx) (c : MakeCall) : Slot :=
  builtSlot ssl ctx c.key c.value c.flags c.epoch

/-- The slots a transcript delivers. -/
def delivered : List (Σ c : Call, Call.Reply c) → List Slot
  | [] => []
  | ⟨.readRegion _, some s⟩ :: tr => s :: delivered tr
  | _ :: tr => delivered tr

/-- Unforgeability of the code on given slots: a code that verifies was computed, on the
same bytes, in one of the calls of a log.  Slots whose length is out of range are never
verified. -/
def Unforgeable (ssl : Openssl) (ctx : CryptoCtx) (log : List MakeCall) (slots : List Slot) : Prop :=
  ∀ s ∈ slots, s.valueLen.toNat ≤ maxValueSize →
    ssl.hmacSha256 ctx.macKey (macInput s) = s.mac →
    ∃ c ∈ log, macInput s = macInput (c.slot ssl ctx)

/-- A slot that decodes is one of those built, up to what the code does not cover: the
guard epoch and the bytes after the value. -/
theorem decode_authentic {ssl : Openssl} {ctx : CryptoCtx} {log : List MakeCall} {slots : List Slot}
    (hmac : Unforgeable ssl ctx log slots) {s : Slot} (hs : s ∈ slots) {key : Key} {v : Value}
    (hdec : decodeSlot ssl ctx key s = some v) :
    ∃ c ∈ log, c.value = v ∧ s.keyHash = hash64String c.key ∧ s.flags = c.flags := by
  unfold decodeSlot at hdec
  split at hdec
  · cases hdec
  next hlen =>
    split at hdec
    · cases hdec
    · split at hdec
      · cases hdec
      next hcode =>
        split at hdec
        · cases hdec
        · obtain ⟨c, hc, hin⟩ := hmac s hs (Nat.not_lt.mp hlen) (not_not.mp hcode)
          obtain ⟨hk, _, _, hf, hvl, hiv, hct⟩ := macInput_inj hin
          refine ⟨c, hc, ?_, hk, hf⟩
          rw [Option.some.injEq] at hdec
          rw [MakeCall.slot, builtSlot_valueLen ssl ctx c.key c.flags c.epoch c.fits,
            builtSlot_ciphertext ssl ctx c.key c.flags c.epoch c.fits] at hct
          rw [← hdec, hct, hiv]
          exact (ctrCrypt_ctrCrypt ssl ctx.encKey (slotIv ssl c.key c.epoch) c.value).symm

/-! ## Reads -/

theorem delivered_append :
    ∀ tr tr' : List (Σ c : Call, Call.Reply c), delivered (tr ++ tr') = delivered tr ++ delivered tr'
  | [], _ => rfl
  | ⟨.readRegion _, some s⟩ :: tr, tr' => by
      rw [List.cons_append, delivered, delivered, delivered_append tr tr', List.cons_append]
  | ⟨.readRegion _, none⟩ :: tr, tr' => delivered_append tr tr'
  | ⟨.writeRegion _ _, _⟩ :: tr, tr' => delivered_append tr tr'
  | ⟨.cas64 _ _ _, _⟩ :: tr, tr' => delivered_append tr tr'

theorem SlotProbe.offer_found (probe : SlotProbe) (s : Slot) (i : Nat) :
    (probe.offer s i).found = probe.found := by
  unfold SlotProbe.offer
  split <;> rfl

/-- A slot that a probe found was delivered, and carries the key hash. -/
theorem probeLoop_found {mn : Nat} {kind : RegionKind} {h : UInt64} {home count : Nat}
    {pr : SlotProbe} (hfound : pr.found = true) :
    ∀ {left idx : Nat} {probe : SlotProbe} {tr : List (Σ c : Call, Call.Reply c)},
      probe.found = false →
      (probeLoop mn kind h home count left idx probe).Answers tr (.ok pr) →
      pr.slot ∈ delivered tr ∧ pr.slot.keyHash = h
  | 0, idx, probe, tr, hprobe, hans => by
      obtain ⟨_, hret⟩ := hans.ret_inv
      split at hret
      · cases hret
        rw [hprobe] at hfound
        cases hfound
      · cases hret
  | left + 1, idx, probe, tr, hprobe, hans => by
      rw [probeLoop_succ] at hans
      obtain ⟨r, tr', rfl, hrest⟩ := hans.call_inv
      cases r with
      | none =>
          obtain ⟨_, hret⟩ := hrest.ret_inv
          cases hret
      | some slot =>
          rw [delivered]
          simp only [probeStep] at hrest
          cases hcls : slot.classFor h with
          | hit =>
              rw [hcls] at hrest
              obtain ⟨_, hret⟩ := hrest.ret_inv
              cases hret
              exact ⟨List.mem_cons_self, (Slot.classFor_hit_inv hcls).2⟩
          | reusable =>
              rw [hcls] at hrest
              have ih := probeLoop_found hfound (by rw [SlotProbe.offer_found, hprobe]) hrest
              exact ⟨List.mem_cons_of_mem _ ih.1, ih.2⟩
          | empty =>
              rw [hcls] at hrest
              obtain ⟨_, hret⟩ := hrest.ret_inv
              cases hret
              rw [SlotProbe.offer_found, hprobe] at hfound
              cases hfound
          | skip =>
              rw [hcls] at hrest
              have ih := probeLoop_found hfound hprobe hrest
              exact ⟨List.mem_cons_of_mem _ ih.1, ih.2⟩

theorem probeSlot_found {cl : Cluster} {mn : Nat} {kind : RegionKind} {h : UInt64} {pr : SlotProbe}
    {tr : List (Σ c : Call, Call.Reply c)} (hans : (probeSlot cl mn kind h).Answers tr (.ok pr))
    (hfound : pr.found = true) : pr.slot ∈ delivered tr ∧ pr.slot.keyHash = h := by
  unfold probeSlot at hans
  simp only [] at hans
  split at hans
  · obtain ⟨_, hret⟩ := hans.ret_inv
    cases hret
  · exact probeLoop_found hfound rfl hans

/-- A value taken from the cache is that of a delivered slot which is present. -/
theorem readCache_delivered {cl : Cluster} {key : Key} {primeProbe : SlotProbe} {v : Value}
    {tr : List (Σ c : Call, Call.Reply c)} (hans : (readCache cl key primeProbe).Answers tr (some v)) :
    ∃ s ∈ delivered tr, s.present (hash64String key) = true ∧
      decodeSlot cl.ssl cl.crypto key s = some v := by
  unfold readCache at hans
  simp only [] at hans
  split at hans
  · obtain ⟨_, hret⟩ := hans.ret_inv
    cases hret
  · rw [Prog.bind_eq] at hans
    obtain ⟨r, tr₁, tr₂, rfl, h₁, h₂⟩ := hans.bind_inv
    cases r with
    | error e =>
        obtain ⟨_, hret⟩ := h₂.ret_inv
        cases hret
    | ok cacheProbe =>
        simp only [] at h₂
        split at h₂
        next hcons =>
          obtain ⟨_, hret⟩ := h₂.ret_inv
          simp only [cacheConsistent, Bool.and_eq_true] at hcons
          refine ⟨cacheProbe.slot, ?_, hcons.2, hret.symm⟩
          rw [delivered_append]
          exact List.mem_append_left _ (probeSlot_found h₁ hcons.1.1.1.1).1
        · obtain ⟨_, hret⟩ := h₂.ret_inv
          cases hret

/-- A value taken from `PRIME` is that of the slot the probe found. -/
theorem readPrime_decodes {cl : Cluster} {key : Key} {primeProbe : SlotProbe} {v : Value}
    {tr : List (Σ c : Call, Call.Reply c)}
    (hans : (readPrime cl key primeProbe).Answers tr (.ok (some v))) :
    primeProbe.found = true ∧ primeProbe.slot.present (hash64String key) = true ∧
      decodeSlot cl.ssl cl.crypto key primeProbe.slot = some v := by
  unfold readPrime at hans
  split at hans
  · obtain ⟨_, hret⟩ := hans.ret_inv
    cases hret
  next hn =>
    simp only [Bool.or_eq_true, Bool.not_eq_true', not_or, Bool.not_eq_false] at hn
    cases hdec : decodeSlot cl.ssl cl.crypto key primeProbe.slot with
    | none =>
        rw [hdec] at hans
        obtain ⟨_, hret⟩ := hans.ret_inv
        cases hret
    | some value =>
        rw [hdec] at hans
        obtain ⟨_, _, _, _, _, h₂⟩ := Prog.Answers.bind_inv hans
        obtain ⟨_, hret⟩ := h₂.ret_inv
        cases hret
        exact ⟨hn.1, hn.2, rfl⟩

/-- A value a read returns is that of a delivered slot which is present. -/
theorem readKv_delivered {cl : Cluster} {key : Key} {v : Value} {tr : List (Σ c : Call, Call.Reply c)}
    (hans : (readKv cl key).Answers tr (.ok (some v))) :
    ∃ s ∈ delivered tr, s.present (hash64String key) = true ∧
      decodeSlot cl.ssl cl.crypto key s = some v := by
  unfold readKv readValue at hans
  simp only [Prog.bind_eq] at hans
  obtain ⟨r, tr₁, tr₂, rfl, h₁, h₂⟩ := hans.bind_inv
  rw [delivered_append]
  cases r with
  | error e =>
      obtain ⟨_, hret⟩ := h₂.ret_inv
      cases hret
  | ok primeProbe =>
      obtain ⟨c, tr₃, tr₄, rfl, h₃, h₄⟩ := Prog.Answers.bind_inv h₂
      rw [delivered_append]
      cases c with
      | some value =>
          obtain ⟨_, hret⟩ := h₄.ret_inv
          cases hret
          obtain ⟨s, hs, hpres, hdec⟩ := readCache_delivered h₃
          exact ⟨s, List.mem_append_right _ (List.mem_append_left _ hs), hpres, hdec⟩
      | none =>
          obtain ⟨hfound, hpres, hdec⟩ := readPrime_decodes h₄
          exact ⟨_, List.mem_append_left _ (probeSlot_found h₁ hfound).1, hpres, hdec⟩

/-- Integrity against hostile memory nodes.  Whatever headers the sessions received and
whatever the memory nodes answer, if codes on the slots they deliver cannot be forged,
then a value a read returns is the plaintext of an earlier call of
`td_crypto_make_slot`, not for a tombstone, whose key has the hash of the key read. -/
theorem read_authentic (cl : Cluster) (log : List MakeCall) (key : Key) (v : Value)
    (tr : List (Σ c : Call, Call.Reply c))
    (hmac : Unforgeable cl.ssl cl.crypto log (delivered tr))
    (hans : (readKv cl key).Answers tr (.ok (some v))) :
    ∃ c ∈ log, c.value = v ∧ hash64String c.key = hash64String key ∧
      c.flags &&& slotFlagTombstone = 0 := by
  obtain ⟨s, hs, hpres, hdec⟩ := readKv_delivered hans
  obtain ⟨c, hc, hval, hk, hf⟩ := decode_authentic hmac hs hdec
  simp only [Slot.present, Slot.tombstone, Bool.and_eq_true, beq_iff_eq, Bool.not_eq_true',
    bne_eq_false_iff_eq] at hpres
  exact ⟨c, hc, hval, by rw [← hk, hpres.1.1.2], by rw [← hf, hpres.2]⟩

/-- The slot of key `a` and value `1`, with a byte after the value changed. -/
def tamperedSlot : Slot :=
  { builtSlot .sample .sample [97] [49] slotFlagValid 1 with
    ciphertext := Vector.ofFn fun i => if i = 0 then 0 else 255 }

/-- A memory node with one `PRIME` slot. -/
def oneSlot : Cluster :=
  (Deployment.uniform .sample .sample 1 0 1 0 0).toCluster

/-- What the memory node answers if it holds the tampered slot. -/
def tamperedAnswers : List (Σ c : Call, Call.Reply c) :=
  (readKv oneSlot [97]).transcript storeHandler (Store.fresh.setSlot ⟨0, .prime, 0⟩ tamperedSlot)

/-- A read of the tampered slot still returns the value written. -/
theorem read_authentic_tampered :
    ∃ c ∈ [MakeCall.mk [97] [49] slotFlagValid 1 (by decide)], c.value = [49] ∧
      hash64String c.key = hash64String [97] ∧ c.flags &&& slotFlagTombstone = 0 := by
  have hdel : ∀ s ∈ delivered tamperedAnswers,
      macInput s = macInput (builtSlot .sample .sample [97] [49] slotFlagValid 1) := by
    decide +kernel
  have hval : ((readKv oneSlot [97]).run storeHandler
      (Store.fresh.setSlot ⟨0, .prime, 0⟩ tamperedSlot)).1 = .ok (some [49]) := by decide +kernel
  refine read_authentic oneSlot _ [97] [49] tamperedAnswers ?_ ?_
  · intro s hs _ _
    exact ⟨_, List.mem_singleton_self _, hdel s hs⟩
  · rw [← hval]
    exact Prog.answers_transcript storeHandler _ _

end TeeDist
