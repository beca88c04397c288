import TeeDist.Epochs
import TeeDist.Profile

/-!
# Measuring changes nothing

With or without a profile, an operation makes the session calls that it makes without measurements,
one after the other, and returns the same.  So whatever clients that measure can do together, clients
that do not measure can do (`profiled_clients`).
-/

namespace TeeDist

open Calls Prog

/-- Parts of a program that only look at the clock. -/
abbrev Quiet {α : Type} (p : Timed α) : Prop := p.Measures (fun _ => ()) (.ret ())

section Quiet

variable {π : Type}

theorem quiet_begin (profile : Option π) : Quiet (profileBegin profile) := by
  cases profile with
  | none => exact .ret _
  | some P => exact .now fun t => .ret t

theorem quiet_end (add : π → UInt64 → π) (profile : Option π) (start : UInt64) :
    Quiet (measureEnd add profile start) := by
  cases profile with
  | none => exact .ret _
  | some P =>
      unfold measureEnd
      simp only []
      split
      · exact .now fun t => .ret _
      · exact .ret _

/-- One part after another. -/
theorem Quiet.bind {α β : Type} {p : Timed α} {k : α → Timed β} (hp : Quiet p)
    (hk : ∀ x, Quiet (k x)) : Quiet (p.bind k) := hp.first fun x _ => hk x

/-- What comes before the rest of a program. -/
theorem Quiet.then {α β δ : Type} {p : Timed α} {k : α → Timed β} {f : β → δ} {q : Prog Net δ}
    (hp : Quiet p) (hk : ∀ x, (k x).Measures f q) : (p.bind k).Measures f q :=
  hp.first fun x _ => hk x

theorem quiet_profileEnd (profile : Option LatencyProfile) (start : UInt64) (f : NsField) :
    Quiet (profileEnd profile start f) := quiet_end _ profile start

theorem quiet_cryptoProfileEnd (profile : Option CryptoProfile) (start : UInt64) (f : CryptoField) :
    Quiet (cryptoProfileEnd profile start f) := quiet_end _ profile start

theorem quiet_cryptoStage (profile : Option CryptoProfile) (f : CryptoField) :
    Quiet (cryptoStage profile f) :=
  (quiet_begin profile).bind fun start => quiet_cryptoProfileEnd profile start f

theorem quiet_hashMeasured (cl : Cluster) (profile : Option LatencyProfile) :
    Quiet (hashMeasured cl profile) := by
  cases profile with
  | none => exact .ret _
  | some P => exact .now fun start => .now fun t => .ret _

end Quiet

/-! ## Slots under encryption -/

section Crypto

variable (ssl : Openssl) (ctx : CryptoCtx) (profile : Option CryptoProfile)

theorem slotMac_measures (s : Slot) (f : CryptoField) :
    (slotMacProfiled ssl ctx s f profile).Measures Prod.fst (.ret (slotMac ssl ctx s)) := by
  unfold slotMacProfiled
  apply (quiet_begin profile).then
  intro start
  apply (quiet_cryptoStage profile .macSetup).then
  intro profile
  apply (quiet_cryptoStage profile .macBody).then
  intro profile
  apply (quiet_cryptoStage profile .macFinalize).then
  intro profile
  apply (quiet_cryptoProfileEnd profile start f).then
  intro profile
  exact .ret _

theorem makeSlot_measures (key : Key) (value : Value) (flags : UInt32) (epoch : UInt64) :
    (makeSlotProfiled ssl ctx key value flags epoch profile).Measures Prod.fst
      (.ret (makeSlot ssl ctx key value flags epoch)) := by
  unfold makeSlotProfiled makeSlot
  split
  · exact .ret _
  · apply (quiet_cryptoStage profile .slotHash).then
    intro profile
    apply (quiet_cryptoStage profile .tieBreaker).then
    intro profile
    apply (quiet_cryptoStage profile .iv).then
    intro profile
    apply (quiet_cryptoStage profile .encryptSetup).then
    intro profile
    apply (quiet_cryptoStage profile .encrypt).then
    intro profile
    apply (slotMac_measures ssl ctx profile _ .mac).first
    rintro ⟨mac, profile⟩ rfl
    exact .ret _

theorem decodeSlot_measures (key : Key) (s : Slot) :
    (decodeSlotProfiled ssl ctx s profile).Measures Prod.fst
      (.ret (decodeSlot ssl ctx key s)) := by
  unfold decodeSlotProfiled decodeSlot
  split
  · exact .ret _
  · split
    · exact .ret _
    · apply (slotMac_measures ssl ctx profile s .verifyMac).first
      rintro ⟨mac, profile⟩ rfl
      simp only []
      split
      · exact .ret _
      · split
        · exact .ret _
        · apply (quiet_cryptoStage profile .decryptSetup).then
          intro profile
          apply (quiet_cryptoStage profile .decrypt).then
          intro profile
          exact .ret _

end Crypto

section Operations

variable (cl : Cluster) (profile : Option LatencyProfile)

theorem decodeMeasured_measures (key : Key) (s : Slot) (f : NsField) :
    (decodeMeasured cl s f profile).Measures Prod.fst
      (.ret (decodeSlot cl.ssl cl.crypto key s)) := by
  unfold decodeMeasured
  apply (quiet_begin profile).then
  intro start
  apply (decodeSlot_measures cl.ssl cl.crypto _ key s).first
  rintro ⟨value, crypto⟩ rfl
  apply (quiet_profileEnd profile start f).then
  intro profile
  exact .ret _

theorem encodeMeasured_measures (key : Key) (value : Value) (flags : UInt32) (epoch : UInt64) :
    (encodeMeasured cl key value flags epoch profile).Measures Prod.fst
      (.ret (makeSlot cl.ssl cl.crypto key value flags epoch)) := by
  unfold encodeMeasured
  apply (quiet_begin profile).then
  intro start
  apply (makeSlot_measures cl.ssl cl.crypto _ key value flags epoch).first
  rintro ⟨slot, crypto⟩ rfl
  apply (quiet_profileEnd profile start .cryptoEncode).then
  intro profile
  exact .ret _

/-! ## Probes and commits -/

theorem fetchSlotAt_measures (a : Addr) (site : ProbeSite) :
    (fetchSlotAt a site profile).Measures Prod.fst (readRegion a) := by
  unfold fetchSlotAt
  apply (quiet_begin profile).then
  intro start
  refine .call fun r => ?_
  apply (quiet_profileEnd profile start (.probe site)).then
  intro profile
  exact .ret _

theorem probeLoop_measures (mn : Nat) (kind : RegionKind) (keyHash : UInt64) (home count : Nat)
    (site : ProbeSite) (left : Nat) :
    ∀ (idx : Nat) (probe : SlotProbe) (profile : Option LatencyProfile),
      (probeLoopProfiled mn kind keyHash home count site left idx probe profile).Measures Prod.fst
        (probeLoop mn kind keyHash home count left idx probe) := by
  induction left with
  | zero => exact fun idx probe profile => .ret _
  | succ left ih =>
      intro idx probe profile
      unfold probeLoopProfiled probeLoop
      apply (fetchSlotAt_measures profile _ site).bind
      rintro ⟨slot, profile⟩
      cases slot with
      | none => exact .ret _
      | some slot =>
          apply (quiet_begin profile).then
          intro start
          simp only []
          split_ifs
          · exact (quiet_profileEnd _ start _).then fun profile => ih (idx + 1) probe profile
          · exact (quiet_profileEnd _ start _).then fun profile => .ret _
          · exact (quiet_profileEnd _ start _).then fun profile => ih (idx + 1) _ profile
          · exact (quiet_profileEnd _ start _).then fun profile => .ret _
          · exact (quiet_profileEnd _ start _).then fun profile => ih (idx + 1) probe profile

theorem probeSlot_measures (mn : Nat) (kind : RegionKind) (keyHash : UInt64) (site : ProbeSite) :
    (probeSlotProfiled cl mn kind keyHash site profile).Measures Prod.fst
      (probeSlot cl mn kind keyHash) := by
  unfold probeSlotProfiled probeSlot
  simp only []
  split
  · exact .ret _
  · exact probeLoop_measures mn kind keyHash _ _ site _ 0 .zero profile

theorem commitSlotAt_measures (a : Addr) (slot : Slot) (compareEpoch : UInt64)
    (timing : Option CommitTiming) :
    (commitSlotAtProfiled a slot compareEpoch timing).Measures Prod.fst
      (commitSlotAt a slot compareEpoch) := by
  have hwritten : ∀ start, Quiet (commitTimingWritten timing start) := by
    intro start
    cases timing with
    | none => exact .ret _
    | some T =>
        unfold commitTimingWritten
        simp only []
        split
        · exact .now fun t => .now fun t' => .ret _
        · exact .ret _
  unfold commitSlotAtProfiled commitSlotAt
  apply (quiet_begin timing).then
  intro start
  refine .call fun r => ?_
  cases r with
  | none => exact .ret _
  | some u =>
      apply (hwritten start).then
      rintro ⟨start', timing'⟩
      refine .call fun r => ?_
      cases r with
      | none => exact .ret _
      | some observed => exact (quiet_end _ timing' start').then fun timing => .ret _

theorem commitMeasured_measures (a : Addr) (slot : Slot) (compareEpoch : UInt64)
    (site : CommitSite) :
    (commitMeasured a slot compareEpoch site profile).Measures Prod.fst
      (commitSlotAt a slot compareEpoch) :=
  (commitSlotAt_measures a slot compareEpoch _).last fun _ => .ret _

/-! ## Reads -/

theorem refreshCache_measures (key : Key) (slot : Slot) :
    (refreshCacheProfiled cl key slot profile).Measures (fun _ => ())
      (refreshCacheBestEffort cl key slot) := by
  unfold refreshCacheProfiled refreshCacheBestEffort
  simp only []
  split
  · exact .ret _
  · apply (probeSlot_measures cl profile _ _ _ _).bind
    rintro ⟨r, profile⟩
    cases r with
    | error e => exact .ret _
    | ok probe =>
        simp only []
        split
        · exact .ret _
        · exact (commitMeasured_measures profile _ _ _ _).bind fun x => .ret _

theorem readCache_measures (key : Key) (primeProbe : SlotProbe) :
    (readCacheProfiled cl key primeProbe profile).Measures Prod.fst
      (readCache cl key primeProbe) := by
  unfold readCacheProfiled readCache
  simp only []
  split
  · exact .ret _
  · apply (probeSlot_measures cl profile _ _ _ _).bind
    rintro ⟨r, profile⟩
    cases r with
    | error e => exact .ret _
    | ok cacheProbe =>
        apply (quiet_begin profile).then
        intro start
        apply (quiet_profileEnd profile start .cacheValidation).then
        intro profile
        simp only []
        split
        · apply (decodeMeasured_measures cl profile key cacheProbe.slot .cacheDecode).first
          rintro ⟨value, profile⟩ hv
          rw [← hv]
          cases value with
          | none => exact .ret _
          | some value => exact .ret _
        · exact .ret _

theorem readPrime_measures (key : Key) (primeProbe : SlotProbe) :
    (readPrimeProfiled cl key primeProbe profile).Measures Prod.fst
      (readPrime cl key primeProbe) := by
  unfold readPrimeProfiled readPrime
  split
  · exact .ret _
  · apply (decodeMeasured_measures cl profile key primeProbe.slot .primeDecode).first
    rintro ⟨value, profile⟩ hv
    rw [← hv]
    cases value with
    | none => exact .ret _
    | some value =>
        exact (refreshCache_measures cl profile key primeProbe.slot).bind fun profile => .ret _

theorem readValue_measures (key : Key) :
    (readValueProfiled cl key profile).Measures Prod.fst (readValue cl key) := by
  unfold readValueProfiled readValue
  apply (quiet_hashMeasured cl profile).then
  intro profile
  apply (probeSlot_measures cl profile _ _ _ _).bind
  rintro ⟨r, profile⟩
  cases r with
  | error e => exact .ret _
  | ok primeProbe =>
      apply (readCache_measures cl profile key primeProbe).bind
      rintro ⟨value, profile⟩
      cases value with
      | none => exact readPrime_measures cl profile key primeProbe
      | some value => exact .ret _

/-! ## Writes -/

theorem backupLoop_measures (keyHash : UInt64) (proposal : Slot) (left : Nat) :
    ∀ (idx : Nat) (observed : UInt64) (votes : List Vote) (profile : Option LatencyProfile),
      (backupLoopProfiled cl keyHash proposal left idx observed votes profile).Measures Prod.fst
        (backupLoop cl keyHash proposal left idx observed votes) := by
  induction left with
  | zero => exact fun idx observed votes profile => .ret _
  | succ left ih =>
      intro idx observed votes profile
      unfold backupLoopProfiled backupLoop
      apply (probeSlot_measures cl profile _ _ _ _).bind
      rintro ⟨r, profile⟩
      cases r with
      | error e => exact .ret _
      | ok probe =>
          simp only []
          split
          · exact .ret _
          · apply (commitMeasured_measures profile _ _ _ _).bind
            rintro ⟨result, profile⟩
            simp only []
            split_ifs
            · exact ih _ _ _ _
            · exact ih _ _ _ _

theorem waitLoop_measures (keyHash oldEpoch : UInt64) (attempts : Nat) :
    ∀ profile : Option LatencyProfile,
      (waitLoopProfiled cl keyHash oldEpoch attempts profile).Measures Prod.fst
        (waitForPrimaryChange cl keyHash oldEpoch attempts) := by
  induction attempts with
  | zero => exact fun profile => .ret _
  | succ attempts ih =>
      intro profile
      unfold waitLoopProfiled waitForPrimaryChange
      apply (probeSlot_measures cl none _ _ _ _).bind
      rintro ⟨r, profile'⟩
      cases r with
      | error e => exact ih _
      | ok probe =>
          simp only []
          split
          · exact .ret _
          · exact ih _

theorem waitForPrimaryChange_measures (keyHash oldEpoch : UInt64) :
    (waitForPrimaryChangeProfiled cl keyHash oldEpoch profile).Measures Prod.fst
      (waitForPrimaryChange cl keyHash oldEpoch 50) := by
  unfold waitForPrimaryChangeProfiled
  apply (quiet_begin profile).then
  intro start
  apply (waitLoop_measures cl keyHash oldEpoch 50 profile).last
  rintro ⟨changed, profile⟩
  apply (quiet_profileEnd profile start .waitForPrimaryChange).then
  intro profile
  exact .ret _

theorem repairLoop_measures (keyHash : UInt64) (proposal : Slot) (votes : List Vote) :
    ∀ (idx : Nat) (profile : Option LatencyProfile),
      (repairLoopProfiled cl keyHash proposal idx votes profile).Measures (fun _ => ())
        (repairLoop cl keyHash proposal idx votes) := by
  induction votes with
  | nil => exact fun idx profile => .ret _
  | cons vote votes ih =>
      intro idx profile
      unfold repairLoopProfiled repairLoop
      split
      · exact ih _ _
      · apply (probeSlot_measures cl _ _ _ _ _).bind
        rintro ⟨r, profile⟩
        cases r with
        | error e => exact ih _ _
        | ok probe =>
            simp only []
            split
            · exact ih _ _
            · exact (commitMeasured_measures profile _ _ _ _).bind fun x => ih _ _

theorem commitPrimary_measures (key : Key) (proposal : Slot) (slotIndex : Nat)
    (currentEpoch : UInt64) (votes : List Vote) (rule : Nat) :
    (commitPrimaryProfiled cl key proposal slotIndex currentEpoch votes rule profile).Measures Prod.fst
      (commitPrimary cl key proposal slotIndex currentEpoch votes rule) := by
  unfold commitPrimaryProfiled commitPrimary
  apply (commitMeasured_measures profile _ _ _ _).bind
  rintro ⟨result, profile⟩
  cases result with
  | none => exact .ret _
  | some observed =>
      simp only []
      split
      · exact .ret _
      · apply (repairLoop_measures cl _ proposal votes 0 profile).bind
        intro profile
        exact (refreshCache_measures cl profile key proposal).bind fun profile => .ret _

theorem writeProposal_measures (key : Key) (proposal : Slot) (slotIndex : Nat)
    (currentEpoch : UInt64) :
    (writeProposalProfiled cl key proposal slotIndex currentEpoch profile).Measures Prod.fst
      (writeProposal cl key proposal slotIndex currentEpoch) := by
  unfold writeProposalProfiled writeProposal
  apply (backupLoop_measures cl _ proposal _ 0 0 [] profile).bind
  rintro ⟨r, profile⟩
  cases r with
  | error e => exact .ret _
  | ok votes =>
      apply (quiet_begin profile).then
      intro start
      apply (quiet_profileEnd profile start .ruleEval).then
      intro profile
      simp only []
      split
      · exact (waitForPrimaryChange_measures cl profile _ _).bind fun x => .ret _
      · exact commitPrimary_measures cl profile key proposal slotIndex currentEpoch votes _

theorem writeValue_measures (key : Key) (value : Value) (updateOnly tombstone : Bool) :
    (writeValueProfiled cl key value updateOnly tombstone profile).Measures Prod.fst
      (writeValue cl key value updateOnly tombstone) := by
  unfold writeValueProfiled writeValue
  apply (quiet_hashMeasured cl profile).then
  intro profile
  apply (probeSlot_measures cl _ _ _ _ _).bind
  rintro ⟨r, profile⟩
  cases r with
  | error e => exact .ret _
  | ok probe =>
      simp only []
      split
      · exact .ret _
      · apply (encodeMeasured_measures cl profile key value _ _).first
        rintro ⟨slot, profile⟩ hslot
        rw [← hslot]
        cases slot with
        | none => exact .ret _
        | some proposal => exact writeProposal_measures cl profile key proposal _ _

/-! ## Whole operations -/

theorem readKv_measures (key : Key) :
    (readKvProfiled cl key profile).Measures Prod.fst (readKv cl key) := by
  unfold readKvProfiled
  apply (quiet_begin profile).then
  intro start
  apply (readValue_measures cl profile key).last
  rintro ⟨result, profile⟩
  exact (quiet_end _ profile start).then fun profile => .ret _

theorem mutation_measures (m : Mutation) :
    (m.profiled cl profile).Measures Prod.fst (m.prog cl) := by
  rw [Mutation.prog_eq]
  unfold Mutation.profiled
  apply (quiet_begin profile).then
  intro start
  apply (writeValue_measures cl profile m.key m.value m.updateOnly m.tombstone).last
  rintro ⟨result, profile⟩
  exact (quiet_end _ profile start).then fun profile => .ret _

end Operations

/-! ## Clients that measure -/

/-- An operation with its profile. -/
def Op.profiled (cl : Cluster) (profile : Option LatencyProfile) :
    Op → Timed (Except Err Answer × Option LatencyProfile)
  | .read key => do
      let (result, profile) ← readKvProfiled cl key profile
      return (result.map .value, profile)
  | .mutate m => do
      let (result, profile) ← m.profiled cl profile
      return (result.map .rule, profile)

/-- A client that carries out operations one after the other. -/
def client (cl : Cluster) : List Op → Prog Net (List (Except Err Answer))
  | [] => return []
  | o :: ops => do
      let answer ← o.prog cl
      let answers ← client cl ops
      return answer :: answers

/-- The same, some of the operations being measured. -/
def clientProfiled (cl : Cluster) :
    List (Op × Option LatencyProfile) → Timed (List (Except Err Answer × Option LatencyProfile))
  | [] => return []
  | (o, profile) :: ops => do
      let answer ← o.profiled cl profile
      let answers ← clientProfiled cl ops
      return answer :: answers

theorem op_measures (cl : Cluster) (profile : Option LatencyProfile) (o : Op) :
    (o.profiled cl profile).Measures Prod.fst (o.prog cl) := by
  cases o with
  | read key => exact (readKv_measures cl profile key).bind fun x => .ret _
  | mutate m => exact (mutation_measures cl profile m).bind fun x => .ret _

theorem client_measures (cl : Cluster) (ops : List (Op × Option LatencyProfile)) :
    (clientProfiled cl ops).Measures (List.map Prod.fst) (client cl (ops.map Prod.fst)) := by
  induction ops with
  | nil => exact .ret _
  | cons o ops ih =>
      obtain ⟨o, profile⟩ := o
      apply (op_measures cl profile o).bind
      intro answer
      exact ih.bind fun answers => .ret _

/-- Any number of clients, each with operations of which some are measured, at work on the regions of
the memory nodes together, with evictions and with clocks of any kind: whatever they do, clients that
measure nothing can do.  The session calls are the same and in the same order, with the same replies,
they leave the same regions, and the operations return the same. -/
theorem profiled_clients {ι κ : Type} [DecidableEq ι] (header : Nat → RegionHeader)
    (cl : ι → Cluster) (ops : ι → List (Op × Option LatencyProfile)) (rs : Nat → Region)
    (clock : Ticker Net (Nat → Region) κ) (k : κ)
    (tr : List (Option (Event ι Net.timed)))
    (Q : Pool ι Net.timed ((Nat → Region) × κ) (List (Except Err Answer × Option LatencyProfile)))
    (hr : Run ((regionHandler header).timed clock) (Passing Evicts) (fun _ _ => True)
      ⟨(rs, k), fun i => clientProfiled (cl i) (ops i)⟩ tr Q) :
    ∃ tr' q, Run (regionHandler header) Evicts (fun _ _ => True)
        ⟨rs, fun i => client (cl i) ((ops i).map Prod.fst)⟩ tr' ⟨Q.shared.1, q⟩ ∧
      tr'.reduceOption = tr.reduceOption.filterMap Event.untimed ∧
      ∀ i answers, Q.prog i = .ret answers → q i = .ret (answers.map Prod.fst) := by
  obtain ⟨tr', q, hrun, htr, hq⟩ := hr.untimed fun i => client_measures (cl i) (ops i)
  refine ⟨tr', q, hrun, htr, fun i answers hret => ?_⟩
  have hi := hq i
  rw [hret] at hi
  exact hi.ret_inv

/-- A clock that counts. -/
def countingClock : Ticker Net (Nat → Region) Nat where
  reads _ k := (UInt64.ofNat (k + 1), k + 1)
  passes _ _ k := k + 1

/-- One client measures a write, and one reads. -/
def measuringOps (first : Bool) : List (Op × Option LatencyProfile) :=
  if first then [(.mutate (.write [97] [49]), some (.zero false))] else [(.read [97], none)]

/-- What they are answered. -/
def measuredAnswers (first : Bool) : List (Except Err Answer) :=
  if first then [.ok (.rule 1)] else [.ok (.value (some [49]))]

/-- The write is carried out, and then the read. -/
theorem profiled_clients_write : ∃ tr' s q,
    Run (regionHandler Deployment.pair.header) Evicts (fun _ _ => True)
      ⟨fun _ => Region.create .pair, fun i =>
        client Deployment.pair.toCluster ((measuringOps i).map Prod.fst)⟩ tr' ⟨s, q⟩ ∧
    ∀ i, q i = .ret (measuredAnswers i) := by
  have hrun := Pool.run_schedule ((regionHandler Deployment.pair.header).timed countingClock)
    (Passing Evicts) (fun _ _ => True)
    ⟨((fun _ => Region.create .pair), 0), fun i =>
      clientProfiled Deployment.pair.toCluster (measuringOps i)⟩
    (List.replicate 4 false ++ List.replicate 40 true) (Pool.respects_true _ _ _)
  have hdone : ∀ i, (match (Pool.schedule ((regionHandler Deployment.pair.header).timed countingClock)
      ⟨((fun _ => Region.create .pair), 0), fun i =>
        clientProfiled Deployment.pair.toCluster (measuringOps i)⟩
      (List.replicate 4 false ++ List.replicate 40 true)).2.prog i with
      | .ret answers => decide (answers.map Prod.fst = measuredAnswers i)
      | .call _ _ => false) = true := by
    intro i
    cases i <;> decide +kernel
  obtain ⟨tr', q, h, -, hq⟩ := profiled_clients Deployment.pair.header
    (fun _ => Deployment.pair.toCluster) measuringOps (fun _ => Region.create .pair) countingClock 0 _ _
    hrun
  refine ⟨tr', _, q, h, fun i => ?_⟩
  have hi := hdone i
  split at hi
  next answers hret =>
    rw [hq i answers hret, of_decide_eq_true hi]
  next => cases hi

end TeeDist
