import TeeDist.Lib.Clock
import TeeDist.Sequential

/-!
# Operations that are measured

`cluster.c` and `crypto.c` once more, with the latency profile that `-t` asks for.  A profile is
passed down as a pointer that may be null, here an `Option`; a function that gets one reads the
clock around its parts, adds up durations and counts what it sees.  What the transports add to their
own profile is left out.
-/

namespace TeeDist

open Calls

/-! ## Profiles -/

/-- The fields of `td_crypto_profile_t`. -/
inductive CryptoField where
  | slotHash
  | tieBreaker
  | iv
  | macSetup
  | macBody
  | macFinalize
  | encryptSetup
  | mac
  | verifyMac
  | encrypt
  | decryptSetup
  | decrypt
deriving DecidableEq

/-- The probes that `td_latency_profile_t` tells apart. -/
inductive ProbeSite where
  | prime
  | cache
  | refreshCache
  | backup
  | repair
deriving DecidableEq

/-- The commits that it tells apart. -/
inductive CommitSite where
  | refreshCache
  | backup
  | primary
  | repair
deriving DecidableEq

/-- The durations in `td_latency_profile_t`. -/
inductive NsField where
  | hash
  | probe (site : ProbeSite)
  | probeScan (site : ProbeSite)
  | cacheDecode
  | primeDecode
  | cacheValidation
  | cryptoEncode
  | write (site : CommitSite)
  | cas (site : CommitSite)
  | ruleEval
  | waitForPrimaryChange
  | crypto (f : CryptoField)
deriving DecidableEq

/-- The numbers in `td_latency_profile_t`. -/
inductive CountField where
  | probeReads (site : ProbeSite)
  | probeSlotsExamined (site : ProbeSite)
  | probeGuardMismatch (site : ProbeSite)
  | probeTombstones (site : ProbeSite)
  | probeEmptyHits (site : ProbeSite)
  | backupTargets
  | backupSuccesses
  | repairAttempts
  | waitForPrimaryChangeAttempts
deriving DecidableEq

/-- `td_crypto_profile_t`. -/
abbrev CryptoProfile : Type := CryptoField → UInt64

/-- `td_latency_profile_t`. -/
structure LatencyProfile where
  totalNs : UInt64
  ns : NsField → UInt64
  count : CountField → Nat
  cacheEnabled : Bool
  cacheHit : Bool

/-- A profile as an operation sets it up. -/
def LatencyProfile.zero (cacheOn : Bool) : LatencyProfile := ⟨0, fun _ => 0, fun _ => 0, cacheOn, false⟩

/-- `profile->f += d`. -/
def LatencyProfile.addNs (P : LatencyProfile) (f : NsField) (d : UInt64) : LatencyProfile :=
  { P with ns := Function.update P.ns f (P.ns f + d) }

/-- `++profile->f`. -/
def LatencyProfile.bump (P : LatencyProfile) (f : CountField) : LatencyProfile :=
  { P with count := Function.update P.count f (P.count f + 1) }

/-- The fields of a crypto profile are added one after the other. -/
def LatencyProfile.addCrypto (C : CryptoProfile) : List CryptoField → LatencyProfile → LatencyProfile
  | [], P => P
  | f :: fs, P => LatencyProfile.addCrypto C fs (P.addNs (.crypto f) (C f))

/-- The fields that are added after an encoding. -/
def encodeFields : List CryptoField :=
  [.slotHash, .tieBreaker, .iv, .macSetup, .macBody, .macFinalize, .encryptSetup, .encrypt, .mac]

/-- The fields that are added after a decoding. -/
def decodeFields : List CryptoField :=
  [.macSetup, .macBody, .macFinalize, .verifyMac, .decryptSetup, .decrypt]

/-! ## Measuring -/

/-- Programs of a compute node that may read the clock. -/
abbrev Timed (α : Type) : Type := Prog Net.timed α

section Measuring

variable {π : Type}

/-- `td_profile_begin` and `td_crypto_profile_begin`. -/
def profileBegin (profile : Option π) : Timed UInt64 :=
  match profile with
  | some _ => Prog.now
  | none => return 0

/-- The end of a measurement that began at `start`. -/
def measureEnd (add : π → UInt64 → π) (profile : Option π) (start : UInt64) : Timed (Option π) :=
  match profile with
  | none => return none
  | some P =>
      if start ≠ 0 then do
        let now ← Prog.now
        return some (add P (now - start))
      else return some P

end Measuring

/-- `td_profile_end`. -/
def profileEnd (profile : Option LatencyProfile) (start : UInt64) (f : NsField) :
    Timed (Option LatencyProfile) := measureEnd (fun P => P.addNs f) profile start

/-- `td_crypto_profile_end`. -/
def cryptoProfileEnd (profile : Option CryptoProfile) (start : UInt64) (f : CryptoField) :
    Timed (Option CryptoProfile) :=
  measureEnd (fun C d => Function.update C f (C f + d)) profile start

/-! ## Slots under encryption -/

/-- A part of a function of `crypto.c` that only computes. -/
def cryptoStage (profile : Option CryptoProfile) (f : CryptoField) : Timed (Option CryptoProfile) :=
  do
    let start ← profileBegin profile
    cryptoProfileEnd profile start f

/-- `td_crypto_mac`, the field `f` being what `latency_ns` points to. -/
def slotMacProfiled (ssl : Openssl) (ctx : CryptoCtx) (s : Slot) (f : CryptoField)
    (profile : Option CryptoProfile) : Timed (Vector UInt8 32 × Option CryptoProfile) := do
  let totalStart ← profileBegin profile
  let profile ← cryptoStage profile .macSetup
  let profile ← cryptoStage profile .macBody
  let profile ← cryptoStage profile .macFinalize
  let profile ← cryptoProfileEnd profile totalStart f
  return (slotMac ssl ctx s, profile)

/-- `td_crypto_make_slot_profiled`. -/
def makeSlotProfiled (ssl : Openssl) (ctx : CryptoCtx) (key : Key) (value : Value) (flags : UInt32)
    (epoch : UInt64) (profile : Option CryptoProfile) :
    Timed (Option Slot × Option CryptoProfile) := do
  if value.length > maxValueSize then return (none, profile)
  else
    let profile ← cryptoStage profile .slotHash
    let profile ← cryptoStage profile .tieBreaker
    let profile ← cryptoStage profile .iv
    let profile ← cryptoStage profile .encryptSetup
    let profile ← cryptoStage profile .encrypt
    let slot := plainSlot ssl ctx key value flags epoch
    let (mac, profile) ← slotMacProfiled ssl ctx slot .mac profile
    return (some { slot with mac := mac }, profile)

/-- `td_crypto_decode_slot_profiled`. -/
def decodeSlotProfiled (ssl : Openssl) (ctx : CryptoCtx) (s : Slot)
    (profile : Option CryptoProfile) : Timed (Option Value × Option CryptoProfile) := do
  if s.valueLen.toNat > maxValueSize then return (none, profile)
  else if s.guardEpoch ≠ s.visibleEpoch then return (none, profile)
  else
    let (mac, profile) ← slotMacProfiled ssl ctx s .verifyMac profile
    if mac ≠ s.mac then return (none, profile)
    else if !s.valid then return (none, profile)
    else
      let profile ← cryptoStage profile .decryptSetup
      let profile ← cryptoStage profile .decrypt
      return (some (ctrCrypt ssl ctx.encKey s.iv (s.ciphertext.toList.take s.valueLen.toNat)), profile)

/-- What a crypto profile adds to a profile. -/
def addCrypto (fs : List CryptoField) (crypto : Option CryptoProfile)
    (profile : Option LatencyProfile) : Option LatencyProfile :=
  match crypto with
  | none => profile
  | some C => profile.map (LatencyProfile.addCrypto C fs)

/-- A crypto profile of zeros, if there is a profile to add it to. -/
def cryptoProfile (profile : Option LatencyProfile) : Option CryptoProfile :=
  profile.map fun _ => fun _ => 0

/-- A decoding in `td_cluster_read_value`. -/
def decodeMeasured (cl : Cluster) (s : Slot) (f : NsField) (profile : Option LatencyProfile) :
    Timed (Option Value × Option LatencyProfile) := do
  let start ← profileBegin profile
  let (value, crypto) ← decodeSlotProfiled cl.ssl cl.crypto s (cryptoProfile profile)
  let profile ← profileEnd profile start f
  return (value, addCrypto decodeFields crypto profile)

/-- The encoding in `td_cluster_write_value`. -/
def encodeMeasured (cl : Cluster) (key : Key) (value : Value) (flags : UInt32) (epoch : UInt64)
    (profile : Option LatencyProfile) : Timed (Option Slot × Option LatencyProfile) := do
  let start ← profileBegin profile
  let (slot, crypto) ← makeSlotProfiled cl.ssl cl.crypto key value flags epoch (cryptoProfile profile)
  let profile ← profileEnd profile start .cryptoEncode
  return (slot, addCrypto encodeFields crypto profile)

/-! ## Slots and probes -/

/-- A session call. -/
def ask (c : Call) : Timed c.Reply := Prog.timed (.call (S := Net) c .ret)

/-- `td_fetch_slot_at`. -/
def fetchSlotAt (a : Addr) (site : ProbeSite) (profile : Option LatencyProfile) :
    Timed (Option Slot × Option LatencyProfile) := do
  let start ← profileBegin profile
  let rc ← ask (.readRegion a)
  let profile ← profileEnd profile start (.probe site)
  return (rc, profile.map (·.bump (.probeReads site)))

/-- The loop of `td_probe_slot`. -/
def probeLoopProfiled (mn : Nat) (kind : RegionKind) (keyHash : UInt64) (home count : Nat)
    (site : ProbeSite) : Nat → Nat → SlotProbe → Option LatencyProfile →
      Timed (Except Err SlotProbe × Option LatencyProfile)
  | 0, _, probe, profile =>
      return (if probe.candidateValid then .ok probe else .error (.full kind keyHash), profile)
  | left + 1, idx, probe, profile => do
      let slotIndex := probeIndex home count idx
      match ← fetchSlotAt ⟨mn, kind, slotIndex⟩ site profile with
      | (none, profile) => return (.error .transport, profile)
      | (some slot, profile) =>
          let start ← profileBegin profile
          let profile := profile.map (·.bump (.probeSlotsExamined site))
          if slot.guardEpoch ≠ slot.visibleEpoch then
            let profile ← profileEnd (profile.map (·.bump (.probeGuardMismatch site))) start
              (.probeScan site)
            probeLoopProfiled mn kind keyHash home count site left (idx + 1) probe profile
          else if slot.valid && slot.keyHash == keyHash then
            let profile ← profileEnd profile start (.probeScan site)
            return (.ok ⟨slot, slotIndex, true, slot.tombstone, slot, slotIndex, true⟩, profile)
          else if slot.valid && slot.tombstone then
            let profile ← profileEnd (profile.map (·.bump (.probeTombstones site))) start
              (.probeScan site)
            probeLoopProfiled mn kind keyHash home count site left (idx + 1)
              (probe.offer slot slotIndex) profile
          else if slot.isEmpty then
            let profile ← profileEnd (profile.map (·.bump (.probeEmptyHits site))) start
              (.probeScan site)
            return (.ok (probe.offer slot slotIndex), profile)
          else
            let profile ← profileEnd profile start (.probeScan site)
            probeLoopProfiled mn kind keyHash home count site left (idx + 1) probe profile

/-- `td_probe_slot`. -/
def probeSlotProfiled (cl : Cluster) (mn : Nat) (kind : RegionKind) (keyHash : UInt64)
    (site : ProbeSite) (profile : Option LatencyProfile) :
    Timed (Except Err SlotProbe × Option LatencyProfile) :=
  let count := kindSlotCount (cl.header mn) kind
  let home := slotIndex (cl.header mn) kind keyHash
  if count = 0 then return (.error (.noSlots kind), profile)
  else probeLoopProfiled mn kind keyHash home count site count 0 .zero profile

/-- `td_commit_timing_t`. -/
structure CommitTiming where
  writeNs : UInt64
  casNs : UInt64

/-- What `td_commit_slot_at` does with its timing between its calls.  It also begins to measure the
second one. -/
def commitTimingWritten (timing : Option CommitTiming) (start : UInt64) :
    Timed (UInt64 × Option CommitTiming) :=
  match timing with
  | none => return (start, none)
  | some T =>
      if start ≠ 0 then do
        let now ← Prog.now
        let start' ← Prog.now
        return (start', some { T with writeNs := T.writeNs + (now - start) })
      else return (start, some T)

/-- `td_commit_slot_at`. -/
def commitSlotAtProfiled (a : Addr) (slot : Slot) (compareEpoch : UInt64)
    (timing : Option CommitTiming) : Timed (Option UInt64 × Option CommitTiming) := do
  let start ← profileBegin timing
  match ← ask (.writeRegion a slot) with
  | none => return (none, timing)
  | some _ =>
      let (start, timing) ← commitTimingWritten timing start
      match ← ask (.cas64 a compareEpoch slot.visibleEpoch) with
      | none => return (none, timing)
      | some observed =>
          let timing ← measureEnd (fun T d => { T with casNs := T.casNs + d }) timing start
          return (some observed, timing)

/-- What a commit adds to the profile. -/
def LatencyProfile.addTiming (P : LatencyProfile) (site : CommitSite) (T : CommitTiming) :
    LatencyProfile := (P.addNs (.write site) T.writeNs).addNs (.cas site) T.casNs

/-- A commit with its timing. -/
def commitMeasured (a : Addr) (slot : Slot) (compareEpoch : UInt64) (site : CommitSite)
    (profile : Option LatencyProfile) : Timed (Option UInt64 × Option LatencyProfile) := do
  let (result, timing) ← commitSlotAtProfiled a slot compareEpoch (profile.map fun _ => ⟨0, 0⟩)
  return (result, profile.bind fun P => timing.map (P.addTiming site))

/-! ## Reading -/

/-- The beginning of an operation: the profile is set up, and the key is hashed. -/
def hashMeasured (cl : Cluster) (profile : Option LatencyProfile) : Timed (Option LatencyProfile) :=
  match profile with
  | none => return none
  | some _ => do
      let start ← Prog.now
      let now ← Prog.now
      return some ((LatencyProfile.zero cl.cacheOn).addNs .hash (now - start))

/-- `td_refresh_cache_best_effort`. -/
def refreshCacheProfiled (cl : Cluster) (key : Key) (slot : Slot)
    (profile : Option LatencyProfile) : Timed (Option LatencyProfile) := do
  let keyHash := hash64String key
  let primary := cl.primarySession keyHash
  if !cl.cacheOn then return profile
  else
    match ← probeSlotProfiled cl primary .cache keyHash .refreshCache profile with
    | (.error _, profile) => return profile
    | (.ok probe, profile) =>
        if !probe.candidateValid then return profile
        else
          let (_, profile) ← commitMeasured ⟨primary, .cache, probe.candidateSlotIndex⟩ slot
            probe.candidateSlot.guardEpoch .refreshCache profile
          return profile

/-- The part of `td_cluster_read_value` that uses the cache. -/
def readCacheProfiled (cl : Cluster) (key : Key) (primeProbe : SlotProbe)
    (profile : Option LatencyProfile) : Timed (Option Value × Option LatencyProfile) := do
  let keyHash := hash64String key
  if !cl.cacheOn then return (none, profile)
  else
    match ← probeSlotProfiled cl (cl.primarySession keyHash) .cache keyHash .cache profile with
    | (.error _, profile) => return (none, profile)
    | (.ok cacheProbe, profile) =>
        let start ← profileBegin profile
        let profile ← profileEnd profile start .cacheValidation
        if cacheConsistent keyHash cacheProbe primeProbe then
          match ← decodeMeasured cl cacheProbe.slot .cacheDecode profile with
          | (some value, profile) =>
              return (some value, profile.map fun P => { P with cacheHit := true })
          | (none, profile) => return (none, profile)
        else return (none, profile)

/-- The rest of a read that did not use the cache. -/
def readPrimeProfiled (cl : Cluster) (key : Key) (primeProbe : SlotProbe)
    (profile : Option LatencyProfile) :
    Timed (Except Err (Option Value) × Option LatencyProfile) := do
  if !primeProbe.found || !primeProbe.slot.present (hash64String key) then
    return (.ok none, profile)
  else
    match ← decodeMeasured cl primeProbe.slot .primeDecode profile with
    | (none, profile) => return (.error (.mac key), profile)
    | (some value, profile) =>
        let profile ← refreshCacheProfiled cl key primeProbe.slot profile
        return (.ok (some value), profile)

/-- `td_cluster_read_value`. -/
def readValueProfiled (cl : Cluster) (key : Key) (profile : Option LatencyProfile) :
    Timed (Except Err (Option Value) × Option LatencyProfile) := do
  let keyHash := hash64String key
  let profile ← hashMeasured cl profile
  match ← probeSlotProfiled cl (cl.primarySession keyHash) .prime keyHash .prime profile with
  | (.error e, profile) => return (.error e, profile)
  | (.ok primeProbe, profile) =>
      match ← readCacheProfiled cl key primeProbe profile with
      | (some value, profile) => return (.ok (some value), profile)
      | (none, profile) => readPrimeProfiled cl key primeProbe profile

/-! ## Writing -/

/-- The backup loop of `td_cluster_write_value`. -/
def backupLoopProfiled (cl : Cluster) (keyHash : UInt64) (proposal : Slot) :
    Nat → Nat → UInt64 → List Vote → Option LatencyProfile →
      Timed (Except Err (List Vote) × Option LatencyProfile)
  | 0, _, _, votes, profile => return (.ok votes, profile)
  | left + 1, idx, observed, votes, profile => do
      let backup := cl.replicaSession keyHash (idx + 1)
      match ← probeSlotProfiled cl backup .backup keyHash .backup profile with
      | (.error e, profile) => return (.error e, profile)
      | (.ok probe, profile) =>
          if !probe.candidateValid then return (.error (.full .backup keyHash), profile)
          else
            let priorEpoch := probe.candidateSlot.guardEpoch
            let (result, profile) ← commitMeasured ⟨backup, .backup, probe.candidateSlotIndex⟩
              proposal priorEpoch .backup profile
            let observed' := result.getD observed
            if result.isSome ∧ observed' = priorEpoch then
              backupLoopProfiled cl keyHash proposal left (idx + 1) observed'
                (votes ++ [⟨true, 0, 0⟩]) (profile.map (·.bump .backupSuccesses))
            else
              backupLoopProfiled cl keyHash proposal left (idx + 1) observed'
                (votes ++ [⟨false, observed', probe.candidateSlot.tieBreaker⟩]) profile

/-- The loop of `td_wait_for_primary_change`.  Its probes are not measured. -/
def waitLoopProfiled (cl : Cluster) (keyHash oldEpoch : UInt64) :
    Nat → Option LatencyProfile → Timed (Bool × Option LatencyProfile)
  | 0, profile => return (false, profile)
  | attempts + 1, profile => do
      let profile := profile.map (·.bump .waitForPrimaryChangeAttempts)
      match ← probeSlotProfiled cl (cl.primarySession keyHash) .prime keyHash .prime none with
      | (.error _, _) => waitLoopProfiled cl keyHash oldEpoch attempts profile
      | (.ok probe, _) =>
          if !probe.found || probe.slot.guardEpoch != oldEpoch then return (true, profile)
          else waitLoopProfiled cl keyHash oldEpoch attempts profile

/-- `td_wait_for_primary_change`. -/
def waitForPrimaryChangeProfiled (cl : Cluster) (keyHash oldEpoch : UInt64)
    (profile : Option LatencyProfile) : Timed (Bool × Option LatencyProfile) := do
  let start ← profileBegin profile
  let (changed, profile) ← waitLoopProfiled cl keyHash oldEpoch 50 profile
  let profile ← profileEnd profile start .waitForPrimaryChange
  return (changed, profile)

/-- The repair loop of `td_cluster_write_value`. -/
def repairLoopProfiled (cl : Cluster) (keyHash : UInt64) (proposal : Slot) :
    Nat → List Vote → Option LatencyProfile → Timed (Option LatencyProfile)
  | _, [], profile => return profile
  | idx, vote :: votes, profile => do
      if vote.success then repairLoopProfiled cl keyHash proposal (idx + 1) votes profile
      else
        let backup := cl.replicaSession keyHash (idx + 1)
        let profile := profile.map (·.bump .repairAttempts)
        match ← probeSlotProfiled cl backup .backup keyHash .repair profile with
        | (.error _, profile) => repairLoopProfiled cl keyHash proposal (idx + 1) votes profile
        | (.ok probe, profile) =>
            if !probe.candidateValid then
              repairLoopProfiled cl keyHash proposal (idx + 1) votes profile
            else
              let (_, profile) ← commitMeasured ⟨backup, .backup, probe.candidateSlotIndex⟩ proposal
                probe.candidateSlot.guardEpoch .repair profile
              repairLoopProfiled cl keyHash proposal (idx + 1) votes profile

/-- The last part of a write. -/
def commitPrimaryProfiled (cl : Cluster) (key : Key) (proposal : Slot) (slotIndex : Nat)
    (currentEpoch : UInt64) (votes : List Vote) (rule : Nat) (profile : Option LatencyProfile) :
    Timed (Except Err Nat × Option LatencyProfile) := do
  let keyHash := hash64String key
  match ← commitMeasured ⟨cl.primarySession keyHash, .prime, slotIndex⟩ proposal currentEpoch
      .primary profile with
  | (none, profile) => return (.error (.primaryCas key), profile)
  | (some observed, profile) =>
      if observed ≠ currentEpoch then return (.error (.primaryCas key), profile)
      else
        let profile ← repairLoopProfiled cl keyHash proposal 0 votes profile
        let profile ← refreshCacheProfiled cl key proposal profile
        return (.ok rule, profile)

/-- The part of a write from the backup loop on. -/
def writeProposalProfiled (cl : Cluster) (key : Key) (proposal : Slot) (slotIndex : Nat)
    (currentEpoch : UInt64) (profile : Option LatencyProfile) :
    Timed (Except Err Nat × Option LatencyProfile) := do
  let keyHash := hash64String key
  match ← backupLoopProfiled cl keyHash proposal cl.backupCount 0 0 [] profile with
  | (.error e, profile) => return (.error e, profile)
  | (.ok votes, profile) =>
      let start ← profileBegin profile
      let rule := evaluateVotes votes proposal.tieBreaker
      let profile ← profileEnd profile start .ruleEval
      if rule = 0 then
        let (_, profile) ← waitForPrimaryChangeProfiled cl keyHash currentEpoch profile
        return (.error (.consensusLost key), profile)
      else commitPrimaryProfiled cl key proposal slotIndex currentEpoch votes rule profile

/-- `profile->backup_targets = backup_count`. -/
def LatencyProfile.setTargets (P : LatencyProfile) (backupCount : Nat) : LatencyProfile :=
  { P with count := Function.update P.count .backupTargets backupCount }

/-- `td_cluster_write_value`. -/
def writeValueProfiled (cl : Cluster) (key : Key) (value : Value) (updateOnly tombstone : Bool)
    (profile : Option LatencyProfile) : Timed (Except Err Nat × Option LatencyProfile) := do
  let keyHash := hash64String key
  let profile ← hashMeasured cl profile
  let profile := profile.map (·.setTargets cl.backupCount)
  match ← probeSlotProfiled cl (cl.primarySession keyHash) .prime keyHash .prime profile with
  | (.error e, profile) => return (.error e, profile)
  | (.ok probe, profile) =>
      let currentEpoch := probe.candidateSlot.guardEpoch
      if updateOnly && (!probe.found || probe.tombstone || !probe.slot.present keyHash) then
        return (.error (.updateNotFound key), profile)
      else
        match ← encodeMeasured cl key value (proposalFlags tombstone) (currentEpoch + 1) profile with
        | (none, profile) => return (.error .prepare, profile)
        | (some proposal, profile) =>
            writeProposalProfiled cl key proposal probe.candidateSlotIndex currentEpoch profile

/-! ## Whole operations -/

/-- The end of an operation that is measured: `total_ns` is set. -/
def totalMeasured (profile : Option LatencyProfile) (start : UInt64) :
    Timed (Option LatencyProfile) := measureEnd (fun P d => { P with totalNs := d }) profile start

/-- `td_cluster_read_kv_profiled`. -/
def readKvProfiled (cl : Cluster) (key : Key) (profile : Option LatencyProfile) :
    Timed (Except Err (Option Value) × Option LatencyProfile) := do
  let start ← profileBegin profile
  let (result, profile) ← readValueProfiled cl key profile
  let profile ← totalMeasured profile start
  return (result, profile)

/-- `td_cluster_write_kv_profiled`, `td_cluster_update_kv_profiled` and
`td_cluster_delete_kv_profiled`. -/
def Mutation.profiled (cl : Cluster) (m : Mutation) (profile : Option LatencyProfile) :
    Timed (Except Err Nat × Option LatencyProfile) := do
  let start ← profileBegin profile
  let (result, profile) ← writeValueProfiled cl m.key m.value m.updateOnly m.tombstone profile
  let profile ← totalMeasured profile start
  return (result, profile)

end TeeDist
