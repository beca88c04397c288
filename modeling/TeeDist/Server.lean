import TeeDist.Wire

/-!
# The memory node's side of a session

What `td_tcp_connection_main` and `td_rdma_server_conn_main` make of one request: the
response, the bytes that follow it, and the region afterwards.  `touched` collects the
bytes of the region that `td_region_read_bytes`, `td_region_write_bytes` and
`td_region_cas64` read or write, by their offsets from the base of the mapping.

The sections check `offset + length > mapped_bytes` in `size_t`.  The sum wraps around for
offsets near `2 ^ 64`, and then the section goes on outside of the mapping
(`cas_outside_mapping`).  `bounds_safe_iff` says for which requests this happens: over TCP
only for those with the magic number, and with a length that `malloc` may find.
-/

namespace TeeDist

open Bytes

/-! ## The bytes a section touches -/

/-- The offsets of `n` bytes from an offset on. -/
def block (offset n : Nat) : List Nat := (List.range n).map (offset + ·)

theorem mem_block {offset n i : Nat} : i ∈ block offset n ↔ offset ≤ i ∧ i < offset + n := by
  simp only [block, List.mem_map, List.mem_range]
  constructor
  · rintro ⟨j, hj, rfl⟩
    omega
  · intro h
    exact ⟨i - offset, by omega, by omega⟩

/-- The bytes that `td_region_read_bytes` reads, and those that `td_region_write_bytes` writes:
`memcpy` touches `len` bytes from `base + offset` on, unless the check fails. -/
def Region.copyTouched (region : Region) (offset len : Nat) : List Nat :=
  if (offset + len) % sizeModulus > region.mappedBytes then [] else block offset len

/-- The bytes that `td_region_cas64` reads, and writes if it swaps. -/
def Region.casTouched (region : Region) (offset : Nat) : List Nat :=
  if (offset + 8) % sizeModulus > region.mappedBytes ∨ offset % 8 ≠ 0 then [] else block offset 8

section Touched

variable {region region' : Region} {offset len : Nat}

/-- A read depends on the bytes it touches. -/
theorem Region.readBytes_congr (hmapped : region'.mappedBytes = region.mappedBytes)
    (h : ∀ i ∈ region.copyTouched offset len, region'.mem i = region.mem i) :
    region'.readBytes offset len = region.readBytes offset len := by
  unfold Region.readBytes Region.copyTouched at *
  rw [hmapped]
  split
  · rfl
  next hc =>
    rw [if_neg hc] at h
    congr 1
    refine load_congr fun i hi => h _ (mem_block.mpr ?_)
    omega

/-- A write changes no byte that it does not touch. -/
theorem Region.writeBytes_frame {bs : List UInt8} (h : region.writeBytes offset bs = some region')
    {i : Nat} (hi : i ∉ region.copyTouched offset bs.length) : region'.mem i = region.mem i := by
  unfold Region.writeBytes Region.copyTouched at *
  split at h
  · cases h
  next hc =>
    cases h
    rw [if_neg hc, mem_block] at hi
    exact if_neg hi

/-- A compare-and-swap changes no byte that it does not touch. -/
theorem Region.cas64_frame {compare swap observed : UInt64}
    (h : region.cas64 offset compare swap = some (observed, region')) {i : Nat}
    (hi : i ∉ region.casTouched offset) : region'.mem i = region.mem i := by
  unfold Region.cas64 Region.casTouched at *
  split at h
  · cases h
  next hc =>
    rw [if_neg hc, mem_block] at hi
    simp only [] at h
    split at h
    · obtain ⟨_, rfl⟩ := Prod.mk.inj (Option.some.inj h)
      show store region.mem offset (ofUInt64 swap) i = region.mem i
      rw [store, length_ofUInt64, if_neg hi]
    · obtain ⟨_, rfl⟩ := Prod.mk.inj (Option.some.inj h)
      rfl

end Touched

/-! ## One request -/

/-- The profile words of a response. -/
structure ServerProfile where
  totalNs : UInt64
  stage1Ns : UInt64
  stage2Ns : UInt64
  stage3Ns : UInt64

/-- What the handling of a request depends on besides the region and the request. -/
structure ServerEnv where
  /-- `eviction_threshold_pct`. -/
  evictionThresholdPct : Nat
  /-- Whether `malloc` finds that many bytes. -/
  malloc : Nat → Bool
  /-- What the clock measured. -/
  profile : ServerProfile
  /-- The address of the mapping, and the key of its memory region, for RDMA. -/
  base : UInt64
  rkey : UInt32
  /-- The turns an eviction loop may take. -/
  fuel : Nat

/-- What a request led to. -/
structure Handled where
  response : WireMsg
  /-- The bytes sent after the response. -/
  data : List UInt8
  region : Region
  touched : List Nat

/-- A response before the request is looked at. -/
def WireMsg.ackFor (request : WireMsg) : WireMsg :=
  { WireMsg.zero with magic := wireMagic, op := WireOp.ack.code, flags := request.flags }

/-- The profile words, if the request asks for them. -/
def WireMsg.withProfile (response request : WireMsg) (profile : ServerProfile) : WireMsg :=
  if request.flags &&& wireFlagProfile ≠ 0 then
    { response with
      profileTotalNs := profile.totalNs
      profileStage1Ns := profile.stage1Ns
      profileStage2Ns := profile.stage2Ns
      profileStage3Ns := profile.stage3Ns }
  else response

/-- A request that changes nothing. -/
def Handled.plain (env : ServerEnv) (request response : WireMsg) (region : Region) : Handled :=
  ⟨response.withProfile request env.profile, [], region, []⟩

/-- The response of a request that fails. -/
def WireMsg.refuse (request : WireMsg) : WireMsg := { request.ackFor with status := 1 }

/-- `TD_WIRE_READ`. -/
def handleRead (env : ServerEnv) (region : Region) (request : WireMsg) : Handled :=
  if env.malloc request.length.toNat then
    match region.readBytes request.offset.toNat request.length.toNat with
    | none =>
        ⟨request.refuse.withProfile request env.profile, [], region,
          region.copyTouched request.offset.toNat request.length.toNat⟩
    | some data =>
        ⟨({ request.ackFor with length := request.length }).withProfile request env.profile, data,
          region, region.copyTouched request.offset.toNat request.length.toNat⟩
  else .plain env request request.refuse region

/-- `TD_WIRE_WRITE`, given the payload if it was received. -/
def handleWrite (env : ServerEnv) (region : Region) (request : WireMsg)
    (payload : Option (List UInt8)) : Handled :=
  match payload with
  | none => .plain env request request.refuse region
  | some bs =>
      match region.writeBytes request.offset.toNat bs with
      | none =>
          ⟨request.refuse.withProfile request env.profile, [], region,
            region.copyTouched request.offset.toNat bs.length⟩
      | some region' =>
          ⟨request.ackFor.withProfile request env.profile, [], region',
            region.copyTouched request.offset.toNat bs.length⟩

/-- `TD_WIRE_CAS`, of both transports. -/
def handleCas (env : ServerEnv) (region : Region) (request : WireMsg) : Handled :=
  match region.cas64 request.offset.toNat request.compare request.swap with
  | none =>
      ⟨request.refuse.withProfile request env.profile, [], region,
        region.casTouched request.offset.toNat⟩
  | some (observed, region') =>
      ⟨({ request.ackFor with compare := observed }).withProfile request env.profile, [], region',
        region.casTouched request.offset.toNat⟩

/-- `TD_WIRE_EVICT`, of both transports.  `none` if the eviction does not end. -/
def handleEvict (env : ServerEnv) (region : Region) (request : WireMsg) : Option Handled :=
  (region.evictIfNeeded env.fuel env.evictionThresholdPct).map
    (.plain env request request.ackFor ·)

/-- The `switch` of `td_tcp_connection_main`. -/
def tcpHandle (env : ServerEnv) (region : Region) (request : WireMsg)
    (payload : Option (List UInt8)) : Option Handled :=
  match WireOp.ofCode request.op with
  | some .hello => some (.plain env request { request.ackFor with header := region.header } region)
  | some .read => some (handleRead env region request)
  | some .write => some (handleWrite env region request payload)
  | some .cas => some (handleCas env region request)
  | some .evict => handleEvict env region request
  | some .close => some (.plain env request request.ackFor region)
  | some .ack => some (.plain env request request.refuse region)
  | none => some (.plain env request request.refuse region)

/-- The branches of `td_rdma_server_conn_main`.  Reads and writes do not come here: the client
makes them by RDMA. -/
def rdmaHandle (env : ServerEnv) (region : Region) (request : WireMsg) : Option Handled :=
  match WireOp.ofCode request.op with
  | some .hello =>
      some (.plain env request { request.ackFor with
        header := region.header, remoteAddr := env.base, rkey := env.rkey } region)
  | some .cas => some (handleCas env region request)
  | some .evict => handleEvict env region request
  | some .close => some (.plain env request request.ackFor region)
  | _ => some (.plain env request request.refuse region)

/-! ## Bounds -/

/-- What a memory node makes of a request.  Over TCP a request without the magic number ends the
connection, and is not looked at.  `td_rdma_server_conn_main` does not look at the magic number. -/
def Transport.handle (t : Transport) (env : ServerEnv) (region : Region) (request : WireMsg)
    (payload : Option (List UInt8)) : Option Handled :=
  match t with
  | .tcp => if request.magic ≠ wireMagic then none else tcpHandle env region request payload
  | .rdma => rdmaHandle env region request

/-- The largest object there is has `PTRDIFF_MAX` bytes. -/
def ptrdiffModulus : Nat := 2 ^ 63

/-- `malloc` finds no block of more than `PTRDIFF_MAX` bytes. -/
def ServerEnv.Bounded (env : ServerEnv) : Prop := ∀ n, env.malloc n = true → n < ptrdiffModulus

/-- However a request is handled, the bytes of the region it touches are inside of the mapping, and
if it is answered with status 1 the region is unchanged.  A payload is received into a block
of the request's length. -/
def BoundsSafe (t : Transport) (region : Region) (request : WireMsg) : Prop :=
  ∀ (env : ServerEnv) (payload : Option (List UInt8)) (handled : Handled), env.Bounded →
    (∀ bs ∈ payload, bs.length = request.length.toNat ∧ env.malloc request.length.toNat = true) →
    t.handle env region request payload = some handled →
    (∀ i ∈ handled.touched, i < region.mappedBytes) ∧
      (handled.response.status = 1 → handled.region = region)

/-- The check of a request is fooled: the sum of offset and length wraps around, and what is left
of it is inside of the mapping.  A compare-and-swap has the length 8 and an aligned offset.  Over
TCP the request has the magic number, and there is a block for a read or a write. -/
def Escapes (t : Transport) (region : Region) (request : WireMsg) : Prop :=
  (t = .tcp → request.magic = wireMagic) ∧
  match t, WireOp.ofCode request.op with
  | .tcp, some .read | .tcp, some .write =>
      request.length.toNat < ptrdiffModulus ∧ 0 < request.length.toNat ∧
        sizeModulus ≤ request.offset.toNat + request.length.toNat ∧
        request.offset.toNat + request.length.toNat - sizeModulus ≤ region.mappedBytes
  | _, some .cas => request.offset.toNat = sizeModulus - 8
  | _, _ => False

section Bounds

variable {region : Region} {env : ServerEnv} {request : WireMsg}

theorem copyTouched_bounded_iff (hmapped : region.mappedBytes < sizeModulus) {offset len : Nat}
    (hoff : offset < sizeModulus) (hlen : len < sizeModulus) :
    (∀ i ∈ region.copyTouched offset len, i < region.mappedBytes) ↔
      ¬ (0 < len ∧ sizeModulus ≤ offset + len ∧ offset + len - sizeModulus ≤ region.mappedBytes) := by
  unfold Region.copyTouched
  by_cases hwrap : sizeModulus ≤ offset + len
  · have hmod : (offset + len) % sizeModulus = offset + len - sizeModulus := by
      rw [Nat.mod_eq_sub_mod hwrap, Nat.mod_eq_of_lt (by omega)]
    rw [hmod]
    split
    next hc => exact iff_of_true (fun i hi => by cases hi) (by omega)
    next hc =>
      refine iff_of_false (fun hall => ?_) (by omega)
      have := hall (offset + len - 1) (mem_block.mpr (by omega))
      omega
  · rw [Nat.mod_eq_of_lt (by omega)]
    refine iff_of_true (fun i hi => ?_) (by omega)
    split at hi
    · cases hi
    · have := mem_block.mp hi
      omega

theorem casTouched_bounded_iff (hmapped : region.mappedBytes < sizeModulus) {offset : Nat}
    (hoff : offset < sizeModulus) :
    (∀ i ∈ region.casTouched offset, i < region.mappedBytes) ↔ ¬ offset = sizeModulus - 8 := by
  have height : sizeModulus % 8 = 0 := rfl
  unfold Region.casTouched
  by_cases hwrap : sizeModulus ≤ offset + 8
  · have hmod : (offset + 8) % sizeModulus = offset + 8 - sizeModulus := by
      rw [Nat.mod_eq_sub_mod hwrap, Nat.mod_eq_of_lt (by omega)]
    rw [hmod]
    split
    next hc => exact iff_of_true (fun i hi => by cases hi) (by omega)
    next hc =>
      refine iff_of_false (fun hall => ?_) (by omega)
      have := hall (offset + 7) (mem_block.mpr (by omega))
      omega
  · rw [Nat.mod_eq_of_lt (by omega)]
    refine iff_of_true (fun i hi => ?_) (by omega)
    split at hi
    · cases hi
    · have := mem_block.mp hi
      omega

@[simp] theorem WireMsg.status_withProfile (response request : WireMsg) (profile : ServerProfile) :
    (response.withProfile request profile).status = response.status := by
  unfold WireMsg.withProfile
  split <;> rfl

/-- A write that is refused leaves the region. -/
theorem handleWrite_unchanged {payload : Option (List UInt8)}
    (h : (handleWrite env region request payload).response.status = 1) :
    (handleWrite env region request payload).region = region := by
  unfold handleWrite at *
  cases payload with
  | none => rfl
  | some bs =>
      simp only [] at h ⊢
      split
      · rfl
      next r hr =>
        simp only [hr, WireMsg.status_withProfile] at h
        cases h

/-- A compare-and-swap that is refused leaves the region. -/
theorem handleCas_unchanged (h : (handleCas env region request).response.status = 1) :
    (handleCas env region request).region = region := by
  unfold handleCas at *
  split
  · rfl
  next observed r hr =>
    simp only [hr, WireMsg.status_withProfile] at h
    cases h

theorem handleRead_region : (handleRead env region request).region = region := by
  unfold handleRead
  split
  · split <;> rfl
  · rfl

/-- An eviction is not refused, and touches nothing in the sense of `Handled`. -/
theorem handleEvict_cases {handled : Handled} (h : handleEvict env region request = some handled) :
    handled.touched = [] ∧ handled.response.status = 0 := by
  unfold handleEvict at h
  obtain ⟨r, _, rfl⟩ := Option.map_eq_some_iff.mp h
  exact ⟨rfl, WireMsg.status_withProfile ..⟩

/-- The bytes a compare-and-swap touches. -/
theorem handleCas_touched :
    (handleCas env region request).touched = region.casTouched request.offset.toNat := by
  unfold handleCas
  split <;> rfl

/-- The bytes a write touches. -/
theorem handleWrite_touched {payload : Option (List UInt8)} :
    (handleWrite env region request payload).touched =
      (payload.map fun bs => region.copyTouched request.offset.toNat bs.length).getD [] := by
  unfold handleWrite
  cases payload with
  | none => rfl
  | some bs =>
      simp only []
      split <;> rfl

/-- The bytes a read touches. -/
theorem handleRead_touched :
    (handleRead env region request).touched =
      if env.malloc request.length.toNat then
        region.copyTouched request.offset.toNat request.length.toNat
      else [] := by
  unfold handleRead
  split
  · split <;> rfl
  · rfl

/-- A request whose handling touches nothing and keeps the region is safe. -/
theorem boundsSafe_of_plain {t : Transport}
    (h : ∀ env payload handled, t.handle env region request payload = some handled →
      handled.touched = [] ∧ (handled.response.status = 1 → handled.region = region)) :
    BoundsSafe t region request := by
  intro env payload handled _ _ hhandle
  obtain ⟨htouched, hregion⟩ := h env payload handled hhandle
  refine ⟨?_, hregion⟩
  rw [htouched]
  intro i hi
  cases hi

/-- A request without the magic number is dropped. -/
theorem boundsSafe_of_magic (hmagic : request.magic ≠ wireMagic) :
    BoundsSafe .tcp region request := by
  intro env payload handled _ _ hhandle
  simp [Transport.handle, hmagic] at hhandle

theorem handle_tcp (hmagic : request.magic = wireMagic) (payload : Option (List UInt8)) :
    Transport.tcp.handle env region request payload = tcpHandle env region request payload := by
  simp [Transport.handle, hmagic]

/-- An environment in which memory is never short. -/
def ServerEnv.plentiful : ServerEnv where
  evictionThresholdPct := 80
  malloc _ := true
  profile := ⟨0, 0, 0, 0⟩
  base := 0
  rkey := 0
  fuel := 0

/-- An environment with every block that `malloc` can give. -/
def ServerEnv.ample : ServerEnv :=
  { ServerEnv.plentiful with malloc := fun n => n < ptrdiffModulus }

theorem ServerEnv.ample_bounded : ServerEnv.ample.Bounded :=
  fun _ h => of_decide_eq_true h

theorem ServerEnv.malloc_ample {n : Nat} (h : n < ptrdiffModulus) :
    ServerEnv.ample.malloc n = true := decide_eq_true h

theorem boundsSafe_cas_iff (hmapped : region.mappedBytes < sizeModulus) {t : Transport}
    (hmagic : t = .tcp → request.magic = wireMagic)
    (hop : WireOp.ofCode request.op = some .cas) :
    BoundsSafe t region request ↔ ¬ request.offset.toNat = sizeModulus - 8 := by
  have hhandle (env payload) : t.handle env region request payload =
      some (handleCas env region request) := by
    cases t with
    | tcp => simp only [handle_tcp (hmagic rfl), tcpHandle, hop]
    | rdma => simp only [Transport.handle, rdmaHandle, hop]
  rw [← casTouched_bounded_iff hmapped request.offset.toNat_lt]
  constructor
  · intro h
    have := (h .ample none _ ServerEnv.ample_bounded (by nofun) (hhandle _ _)).1
    rwa [handleCas_touched] at this
  · intro h env payload handled _ _ hh
    obtain rfl := Option.some.inj ((hhandle env payload).symm.trans hh)
    rw [handleCas_touched]
    exact ⟨h, handleCas_unchanged⟩

/-- A read touches the bytes it asks for, if there is a block for them. -/
theorem boundsSafe_read_iff (hmagic : request.magic = wireMagic)
    (hop : WireOp.ofCode request.op = some .read) :
    BoundsSafe .tcp region request ↔ (request.length.toNat < ptrdiffModulus →
      ∀ i ∈ region.copyTouched request.offset.toNat request.length.toNat,
        i < region.mappedBytes) := by
  have hhandle (env payload) : Transport.tcp.handle env region request payload =
      some (handleRead env region request) := by
    simp only [handle_tcp hmagic, tcpHandle, hop]
  constructor
  · intro h hlen
    have := (h .ample none _ ServerEnv.ample_bounded (by nofun) (hhandle _ _)).1
    rwa [handleRead_touched, if_pos (ServerEnv.malloc_ample hlen)] at this
  · intro h env payload handled hbounded _ hh
    obtain rfl := Option.some.inj ((hhandle env payload).symm.trans hh)
    refine ⟨?_, fun _ => handleRead_region⟩
    rw [handleRead_touched]
    split
    next hmalloc => exact h (hbounded _ hmalloc)
    · intro i hi
      cases hi

/-- A write touches the bytes of its payload, if there is a block for them. -/
theorem boundsSafe_write_iff (hmagic : request.magic = wireMagic)
    (hop : WireOp.ofCode request.op = some .write) :
    BoundsSafe .tcp region request ↔ (request.length.toNat < ptrdiffModulus →
      ∀ i ∈ region.copyTouched request.offset.toNat request.length.toNat,
        i < region.mappedBytes) := by
  have hhandle (env payload) : Transport.tcp.handle env region request payload =
      some (handleWrite env region request payload) := by
    simp only [handle_tcp hmagic, tcpHandle, hop]
  constructor
  · intro h hlen
    have hpayload : ∀ bs ∈ some (List.replicate request.length.toNat (0 : UInt8)),
        bs.length = request.length.toNat ∧
          ServerEnv.ample.malloc request.length.toNat = true := by
      intro bs hbs
      cases hbs
      exact ⟨List.length_replicate, ServerEnv.malloc_ample hlen⟩
    have := (h .ample _ _ ServerEnv.ample_bounded hpayload (hhandle _ _)).1
    rwa [handleWrite_touched, Option.map_some, Option.getD_some, List.length_replicate] at this
  · intro h env payload handled hbounded hpayload hh
    obtain rfl := Option.some.inj ((hhandle env payload).symm.trans hh)
    refine ⟨?_, handleWrite_unchanged⟩
    rw [handleWrite_touched]
    cases payload with
    | none =>
        intro i hi
        cases hi
    | some bs =>
        obtain ⟨hlen, hmalloc⟩ := hpayload bs rfl
        rw [Option.map_some, Option.getD_some, hlen]
        exact h (hbounded _ hmalloc)

/-- What the two transports make of the remaining operations. -/
theorem boundsSafe_rest {t : Transport} (hcas : WireOp.ofCode request.op ≠ some .cas)
    (hcopy : t = .tcp → WireOp.ofCode request.op ≠ some .read ∧
      WireOp.ofCode request.op ≠ some .write) : BoundsSafe t region request := by
  refine boundsSafe_of_plain fun env payload handled hh => ?_
  have hplain : ∀ {response}, some (Handled.plain env request response region) = some handled →
      handled.touched = [] ∧ (handled.response.status = 1 → handled.region = region) := by
    intro response h
    cases h
    exact ⟨rfl, fun _ => rfl⟩
  have hevict : handleEvict env region request = some handled →
      handled.touched = [] ∧ (handled.response.status = 1 → handled.region = region) := by
    intro h
    obtain ⟨htouched, hstatus⟩ := handleEvict_cases h
    exact ⟨htouched, fun h1 => by rw [hstatus] at h1; cases h1⟩
  cases t with
  | tcp =>
      obtain ⟨hread, hwrite⟩ := hcopy rfl
      by_cases hmagic : request.magic = wireMagic
      swap
      · simp [Transport.handle, hmagic] at hh
      simp only [handle_tcp hmagic, tcpHandle] at hh
      split at hh
      case h_2 h => exact absurd h hread
      case h_3 h => exact absurd h hwrite
      case h_4 h => exact absurd h hcas
      case h_5 => exact hevict hh
      all_goals exact hplain hh
  | rdma =>
      simp only [Transport.handle, rdmaHandle] at hh
      split at hh
      case h_2 h => exact absurd h hcas
      case h_3 => exact hevict hh
      all_goals exact hplain hh

end Bounds

/-- A request is handled inside of the mapping, and without a change if it is refused, unless the
sum in its check wraps around. -/
theorem bounds_safe_iff (t : Transport) (region : Region)
    (hmapped : region.mappedBytes < sizeModulus) (request : WireMsg) :
    BoundsSafe t region request ↔ ¬ Escapes t region request := by
  have hcopy := copyTouched_bounded_iff hmapped request.offset.toNat_lt request.length.toNat_lt
  by_cases hmagic : t = .tcp → request.magic = wireMagic
  swap
  · obtain ⟨rfl, hne⟩ := Classical.not_imp.mp hmagic
    exact iff_of_true (boundsSafe_of_magic hne) fun h => hne (h.1 rfl)
  by_cases hcas : WireOp.ofCode request.op = some .cas
  · rw [boundsSafe_cas_iff hmapped hmagic hcas]
    cases t with
    | tcp => simp only [Escapes, hcas, hmagic rfl, implies_true, true_and]
    | rdma => simp only [Escapes, hcas, reduceCtorEq, false_implies, true_and]
  cases t with
  | rdma =>
      refine iff_of_true (boundsSafe_rest hcas nofun) fun h => ?_
      have hfalse := h.2
      split at hfalse <;> simp_all
  | tcp =>
      by_cases hread : WireOp.ofCode request.op = some .read
      · rw [boundsSafe_read_iff (hmagic rfl) hread, hcopy]
        simp only [Escapes, hread, hmagic rfl, implies_true, true_and]
        exact not_and.symm
      by_cases hwrite : WireOp.ofCode request.op = some .write
      · rw [boundsSafe_write_iff (hmagic rfl) hwrite, hcopy]
        simp only [Escapes, hwrite, hmagic rfl, implies_true, true_and]
        exact not_and.symm
      refine iff_of_true (boundsSafe_rest hcas fun _ => ⟨hread, hwrite⟩) fun h => ?_
      have hfalse := h.2
      split at hfalse <;> simp_all

/-- A compare-and-swap of a slot's guard is safe. -/
theorem bounds_safe_guard :
    ∃ request : WireMsg, request.op = WireOp.cas.code ∧ request.magic = wireMagic ∧
      request.offset = 88 ∧ BoundsSafe .tcp (Region.create ⟨4096, 0, 4, 1, 4, 256, 1⟩) request :=
  ⟨{ WireMsg.zero with magic := wireMagic, op := WireOp.cas.code, offset := 88 }, rfl, rfl, rfl,
    (bounds_safe_iff .tcp _ (by decide) _).mpr fun h =>
      absurd h.2 (show ¬ (88 : UInt64).toNat = sizeModulus - 8 by decide)⟩

/-- A compare-and-swap at the last word of the address space is carried out: it reads and writes
the eight bytes before the mapping. -/
theorem cas_outside_mapping :
    ¬ ∀ (t : Transport) (region : Region) (request : WireMsg),
        region.mappedBytes < sizeModulus → BoundsSafe t region request := by
  intro h
  have := h .tcp (Region.create ⟨4096, 0, 4, 1, 4, 256, 1⟩)
    { WireMsg.zero with
      magic := wireMagic, op := WireOp.cas.code, offset := 0xfffffffffffffff8 } (by decide)
  rw [boundsSafe_cas_iff (by decide) (fun _ => rfl) rfl] at this
  exact this rfl

end TeeDist
