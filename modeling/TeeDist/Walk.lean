import TeeDist.Probe

/-!
# Operations under a protocol

An operation of a compute node is made of probes, of commits to `BACKUP` and to the cache, and, if
it writes, of one commit to `PRIME`.  A protocol bears a client in a state if it allows all reads
there, and the commits of certain slots, and is in the same state after each of them (`Bears`).

The lemmas below walk along the text of the operations, once for all protocols.  Where the client is
borne a read ends in the state it began in (`readValue_obeys`), and a write ends as its commit to
`PRIME` does (`writeValue_obeys`).
-/

namespace TeeDist

open Calls

/-! ## Clients that are borne -/

/-- The kinds of slots a client uses: no cache slots unless it has a cache. -/
def Cluster.Uses (cl : Cluster) (kind : RegionKind) : Prop := kind = .cache → cl.cacheOn = true

/-- In the state `g` the protocol allows a client its reads, and the commits of the slots in `K`, of
slots that exist and are used, and stays in `g`. -/
structure Bears {γ : Type} (P : Protocol Net γ) (cl : Cluster) (K : RegionKind → Slot → Prop)
    (g : γ) : Prop where
  reads (a : Addr) : cl.Uses a.kind → a.idx < cl.slots a.mn a.kind →
    P.allow g (.readRegion a) ∧ ∀ r, P.next g (.readRegion a) r = g
  commits (a : Addr) (p : Slot) (epoch : UInt64) : K a.kind p → cl.Uses a.kind →
    a.idx < cl.slots a.mn a.kind → (commitSlotAt a p epoch).Obeys P (fun g' _ => g' = g) g

section Walk

variable {γ : Type} {P : Protocol Net γ} {cl : Cluster} {K : RegionKind → Slot → Prop} {g : γ}
  {mn : Nat} {kind : RegionKind}

theorem Cluster.uses_prime : cl.Uses .prime := nofun

theorem Cluster.uses_backup : cl.Uses .backup := nofun

/-- A protocol that permits the calls that make up reads and commits, in any order. -/
theorem bears_only {C : Call → Prop}
    (hread : ∀ a, cl.Uses a.kind → a.idx < cl.slots a.mn a.kind → C (.readRegion a))
    (hcommit : ∀ a p epoch, K a.kind p → cl.Uses a.kind → a.idx < cl.slots a.mn a.kind →
      C (.writeRegion a p) ∧ C (.cas64 a epoch p.visibleEpoch)) :
    Bears (.only C) cl K () where
  reads a hkind hi := ⟨hread a hkind hi, fun _ => rfl⟩
  commits a p epoch hp hkind hi := by
    obtain ⟨hwrite, hcas⟩ := hcommit a p epoch hp hkind hi
    refine ⟨hwrite, fun r => ?_⟩
    cases r with
    | none => rfl
    | some _ => exact ⟨hcas, fun _ => rfl⟩

/-! ## Probes -/

theorem SlotProbe.offer_index {probe : SlotProbe} {s : Slot} {i count : Nat}
    (hp : probe.candidateValid = true → probe.candidateSlotIndex < count) (hi : i < count) :
    (probe.offer s i).candidateSlotIndex < count := by
  unfold SlotProbe.offer
  split
  next h => exact hp h
  · exact hi

theorem SlotProbe.offer_valid (probe : SlotProbe) (s : Slot) (i : Nat) :
    (probe.offer s i).candidateValid = true := by
  unfold SlotProbe.offer
  split
  next h => exact h
  · rfl

theorem probeLoop_obeys (hb : Bears P cl K g) (hkind : cl.Uses kind) (h : UInt64) (home : Nat) :
    ∀ (left idx : Nat) {probe : SlotProbe}, 0 < cl.slots mn kind →
      (probe.candidateValid = true → probe.candidateSlotIndex < cl.slots mn kind) →
      (probeLoop mn kind h home (cl.slots mn kind) left idx probe).Obeys P
        (fun g' r => g' = g ∧ ∀ pr, r = .ok pr → pr.candidateValid = true ∧
          pr.candidateSlotIndex < cl.slots mn kind) g
  | 0, _, probe, _, hp => by
      refine ⟨rfl, fun pr hpr => ?_⟩
      split at hpr
      next hv =>
        cases hpr
        exact ⟨hv, hp hv⟩
      · cases hpr
  | left + 1, idx, probe, hpos, hp => by
      rw [probeLoop_succ]
      have hi : probeIndex home (cl.slots mn kind) idx < cl.slots mn kind := Nat.mod_lt _ hpos
      obtain ⟨hallow, hnext⟩ := hb.reads ⟨mn, kind, probeIndex home (cl.slots mn kind) idx⟩ hkind hi
      refine ⟨hallow, fun r => ?_⟩
      rw [hnext r]
      cases r with
      | none => exact ⟨rfl, nofun⟩
      | some slot =>
          simp only [probeStep]
          cases slot.classFor h with
          | hit =>
              refine ⟨rfl, fun pr hpr => ?_⟩
              cases hpr
              exact ⟨rfl, hi⟩
          | reusable =>
              exact probeLoop_obeys hb hkind h home left (idx + 1) hpos fun _ =>
                SlotProbe.offer_index hp hi
          | empty =>
              refine ⟨rfl, fun pr hpr => ?_⟩
              cases hpr
              exact ⟨SlotProbe.offer_valid .., SlotProbe.offer_index hp hi⟩
          | skip => exact probeLoop_obeys hb hkind h home left (idx + 1) hpos hp

/-- A probe reads slots that exist, and chooses one that exists. -/
theorem probeSlot_obeys (hb : Bears P cl K g) (mn : Nat) (hkind : cl.Uses kind) (h : UInt64) :
    (probeSlot cl mn kind h).Obeys P (fun g' r => g' = g ∧ ∀ pr, r = .ok pr →
      pr.candidateValid = true ∧ pr.candidateSlotIndex < cl.slots mn kind) g := by
  unfold probeSlot
  simp only []
  split
  · exact ⟨rfl, nofun⟩
  next hc => exact probeLoop_obeys hb hkind h _ _ 0 (Nat.pos_of_ne_zero hc) nofun

/-- A probe, and then what may follow a slot that was chosen. -/
theorem probe_then_obeys {α : Type} (hb : Bears P cl K g) (hkind : cl.Uses kind) {h : UInt64}
    {f : Except Err SlotProbe → Prog Net α} {post : γ → α → Prop}
    (herr : ∀ e, (f (.error e)).Obeys P post g)
    (hok : ∀ pr, pr.candidateSlotIndex < cl.slots mn kind → (f (.ok pr)).Obeys P post g) :
    ((probeSlot cl mn kind h).bind f).Obeys P post g := by
  refine Prog.Obeys.bind ((probeSlot_obeys hb mn hkind h).mono fun g' r ⟨he, hr⟩ => ?_)
  subst he
  cases r with
  | error e => exact herr e
  | ok pr => exact hok pr (hr pr rfl).2

/-- A commit, and then anything that goes on from the same state. -/
theorem commit_then_obeys {α : Type} (hb : Bears P cl K g) {a : Addr} {p : Slot} {epoch : UInt64}
    (hp : K a.kind p) (hkind : cl.Uses a.kind) (hi : a.idx < cl.slots a.mn a.kind)
    {f : Option UInt64 → Prog Net α} {post : γ → α → Prop}
    (hf : ∀ r, (f r).Obeys P post g) : ((commitSlotAt a p epoch).bind f).Obeys P post g := by
  refine Prog.Obeys.bind ((hb.commits a p epoch hp hkind hi).mono fun g' r he => ?_)
  subst he
  exact hf r

/-! ## Reads -/

theorem refreshCacheBestEffort_obeys (hb : Bears P cl K g) (key : Key) {slot : Slot}
    (hslot : K .cache slot) :
    (refreshCacheBestEffort cl key slot).Obeys P (fun g' _ => g' = g) g := by
  unfold refreshCacheBestEffort
  simp only []
  split
  · rfl
  next hused =>
    have hcache : cl.Uses .cache := fun _ => by simpa using hused
    refine probe_then_obeys hb hcache (fun e => rfl) fun pr hpr => ?_
    simp only []
    split
    · rfl
    · exact commit_then_obeys hb hslot hcache hpr fun r => rfl

theorem readCache_obeys (hb : Bears P cl K g) (key : Key) (primeProbe : SlotProbe) :
    (readCache cl key primeProbe).Obeys P (fun g' _ => g' = g) g := by
  unfold readCache
  simp only []
  split
  · rfl
  next hused =>
    have hcache : cl.Uses .cache := fun _ => by simpa using hused
    refine probe_then_obeys hb hcache (fun e => rfl) fun pr _ => ?_
    simp only []
    split <;> rfl

theorem readPrime_obeys (hb : Bears P cl K g) (hcache : ∀ slot, K .cache slot) (key : Key)
    (primeProbe : SlotProbe) :
    (readPrime cl key primeProbe).Obeys P (fun g' _ => g' = g) g := by
  unfold readPrime
  split
  · rfl
  · split
    · rfl
    · exact Prog.Obeys.bind ((refreshCacheBestEffort_obeys hb key (hcache _)).mono fun _ _ he => he)

/-- A read. -/
theorem readValue_obeys (hb : Bears P cl K g) (hcache : ∀ slot, K .cache slot) (key : Key) :
    (readValue cl key).Obeys P (fun g' _ => g' = g) g := by
  unfold readValue
  refine probe_then_obeys hb Cluster.uses_prime (fun e => rfl) fun primeProbe _ => ?_
  refine Prog.Obeys.bind ((readCache_obeys hb key primeProbe).mono fun g' r he => ?_)
  subst he
  cases r with
  | some value => rfl
  | none => exact readPrime_obeys hb hcache key primeProbe

/-! ## Writes -/

theorem backupLoop_obeys (hb : Bears P cl K g) (h : UInt64) {p : Slot} (hp : K .backup p) :
    ∀ (left idx : Nat) (observed : UInt64) (votes : List Vote),
      (backupLoop cl h p left idx observed votes).Obeys P (fun g' _ => g' = g) g
  | 0, _, _, _ => rfl
  | left + 1, idx, observed, votes => by
      unfold backupLoop
      refine probe_then_obeys hb Cluster.uses_backup (fun e => rfl) fun pr hpr => ?_
      simp only []
      split
      · rfl
      · exact commit_then_obeys hb hp Cluster.uses_backup hpr fun r =>
          backupLoop_obeys hb h hp left (idx + 1) _ _

theorem waitForPrimaryChange_obeys (hb : Bears P cl K g) (h oldEpoch : UInt64) :
    ∀ attempts : Nat, (waitForPrimaryChange cl h oldEpoch attempts).Obeys P (fun g' _ => g' = g) g
  | 0 => rfl
  | attempts + 1 => by
      unfold waitForPrimaryChange
      refine probe_then_obeys hb Cluster.uses_prime
        (fun e => waitForPrimaryChange_obeys hb h oldEpoch attempts) fun pr _ => ?_
      simp only []
      split
      · rfl
      · exact waitForPrimaryChange_obeys hb h oldEpoch attempts

theorem repairLoop_obeys (hb : Bears P cl K g) (h : UInt64) {p : Slot} (hp : K .backup p) :
    ∀ (votes : List Vote) (idx : Nat),
      (repairLoop cl h p idx votes).Obeys P (fun g' _ => g' = g) g
  | [], _ => rfl
  | vote :: votes, idx => by
      unfold repairLoop
      split
      · exact repairLoop_obeys hb h hp votes (idx + 1)
      · refine probe_then_obeys hb Cluster.uses_backup
          (fun e => repairLoop_obeys hb h hp votes (idx + 1)) fun pr hpr => ?_
        simp only []
        split
        · exact repairLoop_obeys hb h hp votes (idx + 1)
        · exact commit_then_obeys hb hp Cluster.uses_backup hpr fun r =>
            repairLoop_obeys hb h hp votes (idx + 1)

variable {post : γ → Except Err Nat → Prop} {key : Key} {p : Slot}

/-- How the commit of a write to `PRIME` may end: if the compare-and-swap found the epoch it expected
the client is borne and the write may succeed, and otherwise the write may fail. -/
def Decides (P : Protocol Net γ) (cl : Cluster) (K : RegionKind → Slot → Prop)
    (post : γ → Except Err Nat → Prop) (epoch : UInt64) (g : γ) (r : Option UInt64) : Prop :=
  if r = some epoch then Bears P cl K g ∧ ∀ rule, post g (.ok rule) else ∀ e, post g (.error e)

theorem commitPrimary_obeys {slotIndex : Nat} {epoch : UInt64} (votes : List Vote) (rule : Nat)
    (hbackup : K .backup p) (hcache : K .cache p)
    (hcommit : (commitSlotAt ⟨cl.primarySession (hash64String key), .prime, slotIndex⟩ p
      epoch).Obeys P (Decides P cl K post epoch) g) :
    (commitPrimary cl key p slotIndex epoch votes rule).Obeys P post g := by
  unfold commitPrimary
  refine Prog.Obeys.bind (hcommit.mono fun g' r hr => ?_)
  unfold Decides at hr
  cases r with
  | none => exact hr _
  | some observed =>
      by_cases hc : observed = epoch
      · subst hc
        rw [if_pos rfl] at hr
        obtain ⟨hb, hpost⟩ := hr
        simp only [ne_eq, not_true_eq_false, if_false, Prog.bind_eq]
        refine Prog.Obeys.bind ((repairLoop_obeys hb _ hbackup votes 0).mono fun _ _ he => ?_)
        subst he
        refine Prog.Obeys.bind ((refreshCacheBestEffort_obeys hb key hcache).mono fun _ _ he => ?_)
        subst he
        exact hpost rule
      · simp only [Option.some.injEq, hc, if_false] at hr
        simp only [ne_eq, hc, not_false_eq_true, if_true]
        exact hr _

theorem writeProposal_obeys (hb : Bears P cl K g) (herr : ∀ e, post g (.error e)) {slotIndex : Nat}
    {epoch : UInt64} (hbackup : K .backup p) (hcache : K .cache p)
    (hcommit : (commitSlotAt ⟨cl.primarySession (hash64String key), .prime, slotIndex⟩ p
      epoch).Obeys P (Decides P cl K post epoch) g) :
    (writeProposal cl key p slotIndex epoch).Obeys P post g := by
  unfold writeProposal
  refine Prog.Obeys.bind ((backupLoop_obeys hb _ hbackup _ 0 0 []).mono fun g' r he => ?_)
  subst he
  cases r with
  | error e => exact herr e
  | ok votes =>
      simp only []
      split
      · refine Prog.Obeys.bind ((waitForPrimaryChange_obeys hb _ _ 50).mono fun _ _ he => ?_)
        subst he
        exact herr _
      · exact commitPrimary_obeys votes _ hbackup hcache hcommit

/-- A write. -/
theorem writeValue_obeys (hb : Bears P cl K g) (herr : ∀ e, post g (.error e)) {value : Value}
    {updateOnly tombstone : Bool}
    (hslot : ∀ epoch, value.length ≤ maxValueSize → ∀ kind ≠ .prime,
      K kind (builtSlot cl.ssl cl.crypto key value (proposalFlags tombstone) epoch))
    (hcommit : ∀ i epoch, i < cl.slots (cl.primarySession (hash64String key)) .prime →
      value.length ≤ maxValueSize →
      (commitSlotAt ⟨cl.primarySession (hash64String key), .prime, i⟩
        (builtSlot cl.ssl cl.crypto key value (proposalFlags tombstone) (epoch + 1)) epoch).Obeys P
          (Decides P cl K post epoch) g) :
    (writeValue cl key value updateOnly tombstone).Obeys P post g := by
  unfold writeValue
  refine probe_then_obeys hb Cluster.uses_prime (fun e => herr e) fun pr hpr => ?_
  simp only []
  split
  · exact herr _
  · by_cases hlen : value.length > maxValueSize
    · simp only [makeSlot, if_pos hlen]
      exact herr _
    · have hfits : value.length ≤ maxValueSize := Nat.not_lt.mp hlen
      simp only [makeSlot, if_neg hlen]
      exact writeProposal_obeys hb herr (hslot _ hfits .backup nofun) (hslot _ hfits .cache nofun)
        (hcommit _ _ hpr hfits)

/-- A write for which the commit to `PRIME` is one like the others. -/
theorem writeValue_borne (hb : Bears P cl K g) {value : Value} {updateOnly tombstone : Bool}
    (hslot : ∀ kind epoch, K kind (builtSlot cl.ssl cl.crypto key value (proposalFlags tombstone)
      epoch)) :
    (writeValue cl key value updateOnly tombstone).Obeys P (fun g' _ => g' = g) g := by
  refine writeValue_obeys hb (fun _ => rfl) (fun epoch _ kind _ => hslot kind epoch)
    fun i epoch hi _ => ?_
  refine (hb.commits _ _ epoch (hslot .prime _) Cluster.uses_prime hi).mono fun g' r he => ?_
  subst he
  unfold Decides
  split
  · exact ⟨hb, fun _ => rfl⟩
  · exact fun _ => rfl

end Walk

end TeeDist
