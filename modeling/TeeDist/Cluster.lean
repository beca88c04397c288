import TeeDist.Crypto
import TeeDist.Store

/-!
# The compute node

`cluster.c` without its latency profile and its console: placement, the probe,
the two-step commit of a slot, the read with its cache validation, the vote rule,
and the write with replication, primary commit, repair and cache refresh.  Every
function that talks to a memory node is a program over `Net`, with the source's
order of calls.

Functions that fail return an `Err`, whose `message` is the text the source
formats.  A transport failure has the message its transport wrote.
-/

namespace TeeDist

open Calls

/-! ## Errors -/

/-- The ways an operation of a compute node fails. -/
inductive Err where
  /-- A session call failed. -/
  | transport
  /-- A probe of a kind with no slots. -/
  | noSlots (kind : RegionKind)
  /-- A probe that found neither the key nor a slot to take. -/
  | full (kind : RegionKind) (keyHash : UInt64)
  /-- A slot that does not authenticate. -/
  | mac (key : Key)
  /-- An update of a key that is not there. -/
  | updateNotFound (key : Key)
  /-- A value that is too long. -/
  | prepare
  /-- A vote that was lost. -/
  | consensusLost (key : Key)
  /-- A primary commit that failed. -/
  | primaryCas (key : Key)
deriving DecidableEq

/-- A key as `%s` prints it. -/
def printKey (key : Key) : String := String.ofList (key.map fun b => Char.ofNat b.toNat)

/-- The text of an error.  `transportText` is what the transport wrote. -/
def Err.message (transportText : String) : Err → String
  | .transport => transportText
  | .noSlots kind => "region kind " ++ toString kind.number ++ " has no slots"
  | .full kind keyHash =>
      "region kind " ++ toString kind.number ++ " is full for key hash " ++ toString keyHash.toNat
  | .mac key => "mac verification failed for key " ++ printKey key
  | .updateNotFound key => "update failed: key " ++ printKey key ++ " not found"
  | .prepare => "cannot prepare encrypted slot"
  | .consensusLost key => "snapshot consensus lost for key " ++ printKey key
  | .primaryCas key => "primary CAS failed for key " ++ printKey key

/-! ## The cluster and its placement -/

/-- `td_cluster_t`, and the primitives its crypto uses. -/
structure Cluster where
  ssl : Openssl
  crypto : CryptoCtx
  /-- `config.cache == TD_CACHE_ON`. -/
  cacheOn : Bool
  /-- `config.replication`, which `td_config_load` makes positive. -/
  replication : Nat
  sessionCount : Nat
  /-- A compute node has at least one session: `td_config_load` asks for an endpoint. -/
  sessionCount_pos : 0 < sessionCount
  /-- The header the session to each memory node received with `HELLO`. -/
  header : Nat → RegionHeader

/-- `td_primary_session`. -/
def Cluster.primarySession (cl : Cluster) (keyHash : UInt64) : Nat :=
  keyHash.toNat % cl.sessionCount

/-- `td_replica_session`. -/
def Cluster.replicaSession (cl : Cluster) (keyHash : UInt64) (ordinal : Nat) : Nat :=
  (keyHash.toNat % cl.sessionCount + ordinal) % cl.sessionCount

/-- `backup_count` of a write. -/
def Cluster.backupCount (cl : Cluster) : Nat := min cl.replication cl.sessionCount - 1

/-! ## Slots and probes -/

/-- `td_slot_is_empty`. -/
def Slot.isEmpty (s : Slot) : Bool :=
  s.guardEpoch == 0 && s.visibleEpoch == 0 && s.keyHash == 0 && s.flags == 0

/-- `td_slot_present`. -/
def Slot.present (s : Slot) (keyHash : UInt64) : Bool :=
  s.guardEpoch == s.visibleEpoch && s.keyHash == keyHash && s.valid && !s.tombstone

/-- `td_slot_probe_t`. -/
structure SlotProbe where
  slot : Slot
  slotIndex : Nat
  found : Bool
  tombstone : Bool
  candidateSlot : Slot
  candidateSlotIndex : Nat
  candidateValid : Bool

/-- A probe record of zero bytes. -/
def SlotProbe.zero : SlotProbe := ⟨.zero, 0, false, false, .zero, 0, false⟩

/-- The candidate becomes `slot`, if there is none yet. -/
def SlotProbe.offer (probe : SlotProbe) (slot : Slot) (slotIndex : Nat) : SlotProbe :=
  if probe.candidateValid then probe
  else { probe with candidateSlot := slot, candidateSlotIndex := slotIndex, candidateValid := true }

/-- The index of the `idx`-th slot a probe examines. -/
def probeIndex (home count idx : Nat) : Nat := (home + idx) % sizeModulus % count

/-- The loop of `td_probe_slot` from `idx` on, `left` slots being left. -/
def probeLoop (mn : Nat) (kind : RegionKind) (keyHash : UInt64) (home count : Nat) :
    Nat → Nat → SlotProbe → Prog Net (Except Err SlotProbe)
  | 0, _, probe => return if probe.candidateValid then .ok probe else .error (.full kind keyHash)
  | left + 1, idx, probe => do
      let slotIndex := probeIndex home count idx
      match ← readRegion ⟨mn, kind, slotIndex⟩ with
      | none => return .error .transport
      | some slot =>
          if slot.guardEpoch ≠ slot.visibleEpoch then
            probeLoop mn kind keyHash home count left (idx + 1) probe
          else if slot.valid && slot.keyHash == keyHash then
            return .ok ⟨slot, slotIndex, true, slot.tombstone, slot, slotIndex, true⟩
          else if slot.valid && slot.tombstone then
            probeLoop mn kind keyHash home count left (idx + 1) (probe.offer slot slotIndex)
          else if slot.isEmpty then
            return .ok (probe.offer slot slotIndex)
          else probeLoop mn kind keyHash home count left (idx + 1) probe

/-- `td_probe_slot`. -/
def probeSlot (cl : Cluster) (mn : Nat) (kind : RegionKind) (keyHash : UInt64) :
    Prog Net (Except Err SlotProbe) :=
  let count := kindSlotCount (cl.header mn) kind
  let home := slotIndex (cl.header mn) kind keyHash
  if count = 0 then return .error (.noSlots kind)
  else probeLoop mn kind keyHash home count count 0 .zero

/-- `td_commit_slot_at`: write the body, then swap the guard epoch.  Returns the
epoch `cas64` observed, `none` if one of the calls failed. -/
def commitSlotAt (a : Addr) (slot : Slot) (compareEpoch : UInt64) : Prog Net (Option UInt64) := do
  match ← writeRegion a slot with
  | none => return none
  | some _ => cas64 a compareEpoch slot.visibleEpoch

/-! ## Reading -/

/-- `td_refresh_cache_best_effort`. -/
def refreshCacheBestEffort (cl : Cluster) (key : Key) (slot : Slot) : Prog Net Unit := do
  let keyHash := hash64String key
  let primary := cl.primarySession keyHash
  if !cl.cacheOn then return ()
  else
    match ← probeSlot cl primary .cache keyHash with
    | .error _ => return ()
    | .ok probe =>
        if !probe.candidateValid then return ()
        else
          let _ ← commitSlotAt ⟨primary, .cache, probe.candidateSlotIndex⟩ slot
            probe.candidateSlot.guardEpoch
          return ()

/-- `cache_consistent` in `td_cluster_read_value`. -/
def cacheConsistent (keyHash : UInt64) (cacheProbe primeProbe : SlotProbe) : Bool :=
  cacheProbe.found && primeProbe.found &&
    cacheProbe.slot.guardEpoch == primeProbe.slot.guardEpoch &&
    cacheProbe.slot.visibleEpoch == primeProbe.slot.visibleEpoch &&
    cacheProbe.slot.present keyHash

/-- The value a read takes from the cache, if it trusts the cache. -/
def readCache (cl : Cluster) (key : Key) (primeProbe : SlotProbe) : Prog Net (Option Value) := do
  let keyHash := hash64String key
  if !cl.cacheOn then return none
  else
    match ← probeSlot cl (cl.primarySession keyHash) .cache keyHash with
    | .error _ => return none
    | .ok cacheProbe =>
        if cacheConsistent keyHash cacheProbe primeProbe then
          return decodeSlot cl.ssl cl.crypto key cacheProbe.slot
        else return none

/-- The rest of a read that did not use the cache. -/
def readPrime (cl : Cluster) (key : Key) (primeProbe : SlotProbe) :
    Prog Net (Except Err (Option Value)) := do
  if !primeProbe.found || !primeProbe.slot.present (hash64String key) then return .ok none
  else
    match decodeSlot cl.ssl cl.crypto key primeProbe.slot with
    | none => return .error (.mac key)
    | some value => do
        refreshCacheBestEffort cl key primeProbe.slot
        return .ok (some value)

/-- `td_cluster_read_value`.  `.ok none` is `found = 0`. -/
def readValue (cl : Cluster) (key : Key) : Prog Net (Except Err (Option Value)) := do
  let keyHash := hash64String key
  match ← probeSlot cl (cl.primarySession keyHash) .prime keyHash with
  | .error e => return .error e
  | .ok primeProbe =>
      match ← readCache cl key primeProbe with
      | some value => return .ok (some value)
      | none => readPrime cl key primeProbe

/-! ## Votes -/

/-- `td_vote_t`. -/
structure Vote where
  success : Bool
  observedEpoch : UInt64
  observedTie : UInt64
deriving DecidableEq

/-- The votes that succeeded. -/
def voteSuccesses (votes : List Vote) : Nat := votes.countP (·.success)

/-- `min_other`: the least tie-breaker other than zero among the failed votes. -/
def minOther (votes : List Vote) : UInt64 :=
  votes.foldl (fun acc v =>
    if v.success then acc
    else if v.observedTie ≠ 0 ∧ v.observedTie < acc then v.observedTie else acc) 0xffffffffffffffff

/-- `td_evaluate_votes`, on the votes of all backups. -/
def evaluateVotes (votes : List Vote) (myTie : UInt64) : Nat :=
  if votes.length = 0 ∨ voteSuccesses votes = votes.length then 1
  else if voteSuccesses votes * 2 > votes.length then 2
  else if myTie < minOther votes then 3
  else 0

/-! ## Writing -/

/-- The backup loop of `td_cluster_write_value` from `idx` on, `left` backups being
left.  `observed` is the variable of that name, and `votes` the votes so far. -/
def backupLoop (cl : Cluster) (keyHash : UInt64) (proposal : Slot) :
    Nat → Nat → UInt64 → List Vote → Prog Net (Except Err (List Vote))
  | 0, _, _, votes => return .ok votes
  | left + 1, idx, observed, votes => do
      let backup := cl.replicaSession keyHash (idx + 1)
      match ← probeSlot cl backup .backup keyHash with
      | .error e => return .error e
      | .ok probe =>
          if !probe.candidateValid then return .error (.full .backup keyHash)
          else
            let priorEpoch := probe.candidateSlot.guardEpoch
            let result ← commitSlotAt ⟨backup, .backup, probe.candidateSlotIndex⟩ proposal priorEpoch
            let observed' := result.getD observed
            let vote : Vote :=
              if result.isSome ∧ observed' = priorEpoch then ⟨true, 0, 0⟩
              else ⟨false, observed', probe.candidateSlot.tieBreaker⟩
            backupLoop cl keyHash proposal left (idx + 1) observed' (votes ++ [vote])

/-- `td_wait_for_primary_change`, `attempts` attempts being left. -/
def waitForPrimaryChange (cl : Cluster) (keyHash oldEpoch : UInt64) : Nat → Prog Net Bool
  | 0 => return false
  | attempts + 1 => do
      match ← probeSlot cl (cl.primarySession keyHash) .prime keyHash with
      | .error _ => waitForPrimaryChange cl keyHash oldEpoch attempts
      | .ok probe =>
          if !probe.found || probe.slot.guardEpoch != oldEpoch then return true
          else waitForPrimaryChange cl keyHash oldEpoch attempts

/-- The repair loop of `td_cluster_write_value` over the votes from `idx` on. -/
def repairLoop (cl : Cluster) (keyHash : UInt64) (proposal : Slot) :
    Nat → List Vote → Prog Net Unit
  | _, [] => return ()
  | idx, vote :: votes => do
      if vote.success then repairLoop cl keyHash proposal (idx + 1) votes
      else
        let backup := cl.replicaSession keyHash (idx + 1)
        match ← probeSlot cl backup .backup keyHash with
        | .error _ => repairLoop cl keyHash proposal (idx + 1) votes
        | .ok probe =>
            if !probe.candidateValid then repairLoop cl keyHash proposal (idx + 1) votes
            else
              let _ ← commitSlotAt ⟨backup, .backup, probe.candidateSlotIndex⟩ proposal
                probe.candidateSlot.guardEpoch
              repairLoop cl keyHash proposal (idx + 1) votes

/-- The last part of a write, from the primary commit on. -/
def commitPrimary (cl : Cluster) (key : Key) (proposal : Slot) (slotIndex : Nat)
    (currentEpoch : UInt64) (votes : List Vote) (rule : Nat) : Prog Net (Except Err Nat) := do
  let keyHash := hash64String key
  match ← commitSlotAt ⟨cl.primarySession keyHash, .prime, slotIndex⟩ proposal currentEpoch with
  | none => return .error (.primaryCas key)
  | some observed =>
      if observed ≠ currentEpoch then return .error (.primaryCas key)
      else do
        repairLoop cl keyHash proposal 0 votes
        refreshCacheBestEffort cl key proposal
        return .ok rule

/-- The part of a write from the backup loop on. -/
def writeProposal (cl : Cluster) (key : Key) (proposal : Slot) (slotIndex : Nat)
    (currentEpoch : UInt64) : Prog Net (Except Err Nat) := do
  let keyHash := hash64String key
  match ← backupLoop cl keyHash proposal cl.backupCount 0 0 [] with
  | .error e => return .error e
  | .ok votes =>
      let rule := evaluateVotes votes proposal.tieBreaker
      if rule = 0 then
        let _ ← waitForPrimaryChange cl keyHash currentEpoch 50
        return .error (.consensusLost key)
      else commitPrimary cl key proposal slotIndex currentEpoch votes rule

/-- The flags of a proposal. -/
def proposalFlags (tombstone : Bool) : UInt32 :=
  if tombstone then slotFlagValid ||| slotFlagTombstone else slotFlagValid

/-- `td_cluster_write_value`.  The number returned is the rule that was met. -/
def writeValue (cl : Cluster) (key : Key) (value : Value) (updateOnly tombstone : Bool) :
    Prog Net (Except Err Nat) := do
  let keyHash := hash64String key
  match ← probeSlot cl (cl.primarySession keyHash) .prime keyHash with
  | .error e => return .error e
  | .ok probe =>
      let currentEpoch := probe.candidateSlot.guardEpoch
      if updateOnly && (!probe.found || probe.tombstone || !probe.slot.present keyHash) then
        return .error (.updateNotFound key)
      else
        match makeSlot cl.ssl cl.crypto key value (proposalFlags tombstone) (currentEpoch + 1) with
        | none => return .error .prepare
        | some proposal => writeProposal cl key proposal probe.candidateSlotIndex currentEpoch

/-- `td_cluster_read_kv`. -/
def readKv (cl : Cluster) (key : Key) : Prog Net (Except Err (Option Value)) := readValue cl key

/-- `td_cluster_write_kv`. -/
def writeKv (cl : Cluster) (key : Key) (value : Value) : Prog Net (Except Err Nat) :=
  writeValue cl key value false false

/-- `td_cluster_update_kv`. -/
def updateKv (cl : Cluster) (key : Key) (value : Value) : Prog Net (Except Err Nat) :=
  writeValue cl key value true false

/-- `td_cluster_delete_kv`. -/
def deleteKv (cl : Cluster) (key : Key) : Prog Net (Except Err Nat) :=
  writeValue cl key [] false true

end TeeDist
