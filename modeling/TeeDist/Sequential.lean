import TeeDist.Alone

/-!
# Operations one at a time

Histories of a deployment whose clients take turns: reads, writes, updates and
deletes of clients with and without cache, each run to its end, and evictions at
the memory nodes in between.  A history is a list with the newest turn first, and
`Deployment.after` is the store it leaves.

Between turns the deployment is at rest: every `PRIME` and `BACKUP` table is tidy
(`rest_after`).  A mutation of one key hash is a frame around all others
(`Frame`): it leaves their live slots alone, whether it succeeds or fails.
`Written` lists the ways a mutation can end.
-/

namespace TeeDist

open Calls

/-! ## Operations and histories -/

/-- The operations that change a key. -/
inductive Mutation where
  | write (key : Key) (value : Value)
  | update (key : Key) (value : Value)
  | delete (key : Key)
deriving DecidableEq

namespace Mutation

/-- The key an operation changes. -/
def key : Mutation → Key
  | .write key _ | .update key _ | .delete key => key

/-- The plaintext of the slot an operation builds. -/
def value : Mutation → Value
  | .write _ value | .update _ value => value
  | .delete _ => []

/-- The argument `update_only`. -/
def updateOnly : Mutation → Bool
  | .update _ _ => true
  | _ => false

/-- The argument `tombstone`. -/
def tombstone : Mutation → Bool
  | .delete _ => true
  | _ => false

/-- The program of a client. -/
def prog (cl : Cluster) : Mutation → Prog Net (Except Err Nat)
  | .write key value => writeKv cl key value
  | .update key value => updateKv cl key value
  | .delete key => deleteKv cl key

theorem prog_eq (cl : Cluster) (m : Mutation) :
    m.prog cl = writeValue cl m.key m.value m.updateOnly m.tombstone := by
  cases m <;> rfl

@[simp] theorem run_prog (cl : Cluster) (m : Mutation) (st : Store) :
    (m.prog cl).run storeHandler st = st.write cl m.key m.value m.updateOnly m.tombstone := by
  rw [prog_eq, run_writeValue]

end Mutation

@[simp] theorem run_readKv (cl : Cluster) (key : Key) (st : Store) :
    (readKv cl key).run storeHandler st = (st.readResult cl key, st.afterRead cl key) :=
  run_readValue cl key st

/-- The operations of a client. -/
inductive Op where
  | read (key : Key)
  | mutate (m : Mutation)
deriving DecidableEq

/-- The key of an operation. -/
def Op.key : Op → Key
  | .read key => key
  | .mutate m => m.key

/-- The store after an operation run to its end. -/
def Op.apply (cl : Cluster) : Op → Store → Store
  | .read key, st => ((readKv cl key).run storeHandler st).2
  | .mutate m, st => ((m.prog cl).run storeHandler st).2

/-- A client of a deployment, with or without cache. -/
def Deployment.client (d : Deployment) (cacheOn : Bool) : Deployment := { d with cacheOn := cacheOn }

/-- One turn: an operation of a client, or an eviction that ends within `fuel` turns
of its loop. -/
inductive Turn where
  | op (cacheOn : Bool) (o : Op)
  | evict (mn fuel thresholdPct : Nat)
deriving DecidableEq

/-- The store after a turn.  An eviction that does not end is no turn. -/
def Turn.apply (d : Deployment) : Turn → Store → Store
  | .op cacheOn o, st => o.apply (d.client cacheOn).toCluster st
  | .evict mn fuel thresholdPct, st =>
      (Store.evictIfNeeded mn (d.header mn).cacheSlotCount fuel thresholdPct st).getD st

/-- The store after a history that began with fresh memory nodes. -/
def Deployment.after (d : Deployment) : List Turn → Store
  | [] => .fresh
  | t :: ts => t.apply d (d.after ts)

/-- `P` holds of every turn of a history, given the turns before it. -/
def Throughout {τ : Type} (P : List τ → τ → Prop) : List τ → Prop
  | [] => True
  | t :: ts => P ts t ∧ Throughout P ts

instance instDecidableThroughout {τ : Type} (P : List τ → τ → Prop) [∀ ts t, Decidable (P ts t)] :
    (ts : List τ) → Decidable (Throughout P ts)
  | [] => isTrue trivial
  | t :: ts =>
      have := instDecidableThroughout P ts
      inferInstanceAs (Decidable (P ts t ∧ Throughout P ts))

/-- The keys of a history. -/
def turnKeys : List Turn → List Key
  | [] => []
  | .op _ o :: ts => o.key :: turnKeys ts
  | .evict _ _ _ :: ts => turnKeys ts

/-- No two different keys of a list have the same hash. -/
def DistinctHashes (keys : List Key) : Prop :=
  ∀ k ∈ keys, ∀ k' ∈ keys, hash64String k = hash64String k' → k = k'

instance (keys : List Key) : Decidable (DistinctHashes keys) :=
  inferInstanceAs (Decidable (∀ k ∈ keys, ∀ k' ∈ keys, hash64String k = hash64String k' → k = k'))

/-! ## Proposals -/

section Proposal

variable (cl : Cluster) (key : Key) (value : Value) (tombstone : Bool) (pr : SlotProbe)

@[simp] theorem proposal_valid : (cl.proposal key value tombstone pr).valid = true := by
  show (proposalFlags tombstone &&& slotFlagValid != 0) = true
  cases tombstone <;> decide

@[simp] theorem proposal_tombstone :
    (cl.proposal key value tombstone pr).tombstone = tombstone := by
  show (proposalFlags tombstone &&& slotFlagTombstone != 0) = tombstone
  cases tombstone <;> decide

@[simp] theorem proposal_owner :
    (cl.proposal key value tombstone pr).owner = some (hash64String key) :=
  Slot.owner_eq_some.mpr ⟨proposal_valid .., rfl⟩

@[simp] theorem proposal_committed :
    (cl.proposal key value tombstone pr).committed = cl.proposal key value tombstone pr :=
  Slot.committed_eq rfl

theorem proposal_calm (h : UInt64) : (cl.proposal key value tombstone pr).Calm h where
  zero hv := by simp at hv
  epochs _ := rfl

end Proposal

/-! ## How a mutation ends -/

/-- The ways `Store.write` can end. -/
inductive Written (cl : Cluster) (key : Key) (value : Value) (updateOnly tombstone : Bool)
    (st : Store) : Except Err Nat × Store → Prop where
  /-- The primary probe failed. -/
  | probe {e : Err} :
      st.probe cl (cl.primarySession (hash64String key)) .prime (hash64String key) = .error e →
      Written cl key value updateOnly tombstone st (.error e, st)
  /-- An update of a key that is not there. -/
  | refused {pr : SlotProbe} :
      st.probe cl (cl.primarySession (hash64String key)) .prime (hash64String key) = .ok pr →
      updateRefuses updateOnly (hash64String key) pr = true →
      Written cl key value updateOnly tombstone st (.error (.updateNotFound key), st)
  /-- The value is too long. -/
  | long {pr : SlotProbe} :
      st.probe cl (cl.primarySession (hash64String key)) .prime (hash64String key) = .ok pr →
      maxValueSize < value.length →
      Written cl key value updateOnly tombstone st (.error .prepare, st)
  /-- The probe of a backup failed. -/
  | backup {pr : SlotProbe} {e : Err} {st' : Store} :
      st.probe cl (cl.primarySession (hash64String key)) .prime (hash64String key) = .ok pr →
      updateRefuses updateOnly (hash64String key) pr = false →
      value.length ≤ maxValueSize →
      Store.replicate cl (hash64String key) (cl.proposal key value tombstone pr) cl.backupCount 0 st =
        (some e, st') →
      Written cl key value updateOnly tombstone st (.error e, st')
  /-- The mutation was committed. -/
  | done {pr : SlotProbe} {st' : Store} :
      st.probe cl (cl.primarySession (hash64String key)) .prime (hash64String key) = .ok pr →
      updateRefuses updateOnly (hash64String key) pr = false →
      value.length ≤ maxValueSize →
      Store.replicate cl (hash64String key) (cl.proposal key value tombstone pr) cl.backupCount 0 st =
        (none, st') →
      Written cl key value updateOnly tombstone st (.ok 1,
        (st'.setSlot ⟨cl.primarySession (hash64String key), .prime, pr.candidateSlotIndex⟩
          (cl.proposal key value tombstone pr)).refresh cl key (cl.proposal key value tombstone pr))

theorem Store.written (cl : Cluster) (key : Key) (value : Value) (updateOnly tombstone : Bool)
    (st : Store) :
    Written cl key value updateOnly tombstone st (st.write cl key value updateOnly tombstone) := by
  unfold Store.write
  cases hp : st.probe cl (cl.primarySession (hash64String key)) .prime (hash64String key) with
  | error e => exact .probe hp
  | ok pr =>
      by_cases hu : updateRefuses updateOnly (hash64String key) pr = true
      · simp only [if_pos hu]
        exact .refused hp hu
      · simp only [if_neg hu]
        rw [Bool.not_eq_true] at hu
        by_cases hlen : value.length > maxValueSize
        · rw [if_pos hlen]
          exact .long hp hlen
        · rw [if_neg hlen, Store.commitWrite]
          rw [Nat.not_lt] at hlen
          cases hrep : Store.replicate cl (hash64String key) (cl.proposal key value tombstone pr)
              cl.backupCount 0 st with
          | mk e st' =>
              cases e with
              | some e => exact .backup hp hu hlen hrep
              | none =>
                  simp only [proposal_committed]
                  exact .done hp hu hlen hrep

/-! ## What turns leave alone -/

/-- All `PRIME` and `BACKUP` tables are tidy for all key hashes. -/
def Rest (d : Deployment) (st : Store) : Prop :=
  ∀ mn kind, kind ≠ .cache → ∀ {h}, Tidy d st mn kind h

theorem rest_fresh (d : Deployment) : Rest d .fresh := fun mn kind _ h => tidy_fresh d mn kind h

/-- Rest does not depend on the client that looks. -/
theorem Rest.client {d : Deployment} {st : Store} (hr : Rest d st) (cacheOn : Bool) :
    Rest (d.client cacheOn) st :=
  fun mn kind hk _ => ⟨(hr mn kind hk).calm, (hr mn kind hk (h := 0)).placed⟩

theorem Rest.of_client {d : Deployment} {st : Store} {cacheOn : Bool}
    (hr : Rest (d.client cacheOn) st) : Rest d st :=
  fun mn kind hk _ => ⟨(hr mn kind hk).calm, (hr mn kind hk (h := 0)).placed⟩

/-- The two stores agree outside the caches. -/
def Store.SameTables (st st' : Store) : Prop :=
  ∀ mn kind, kind ≠ .cache → st'.table mn kind = st.table mn kind

theorem Rest.congr {d : Deployment} {st st' : Store} (h : st.SameTables st') (hr : Rest d st) :
    Rest d st' := fun mn kind hk _ => (hr mn kind hk).congr (h mn kind hk)

/-- A change that keeps the deployment at rest, and the live slots of all key hashes
but `h`. -/
structure Frame (d : Deployment) (h : UInt64) (st st' : Store) : Prop where
  rest : Rest d st'
  live : ∀ mn kind k s, kind ≠ .cache → k ≠ h →
    (st'.Live d mn kind k s ↔ st.Live d mn kind k s)

theorem Frame.refl {d : Deployment} {st : Store} (h : UInt64) (hr : Rest d st) : Frame d h st st :=
  ⟨hr, fun _ _ _ _ _ _ => Iff.rfl⟩

theorem Frame.trans {d : Deployment} {h : UInt64} {st st' st'' : Store} (h₁ : Frame d h st st')
    (h₂ : Frame d h st' st'') : Frame d h st st'' :=
  ⟨h₂.rest, fun mn kind k s hc hk => (h₂.live mn kind k s hc hk).trans (h₁.live mn kind k s hc hk)⟩

theorem Frame.of_sameTables {d : Deployment} {st st' : Store} (h : UInt64) (hr : Rest d st)
    (hs : st.SameTables st') : Frame d h st st' :=
  ⟨hr.congr hs, fun mn kind _ _ hc _ => Store.live_congr (hs mn kind hc)⟩

theorem Store.setSlot_cache_sameTables (st : Store) {a : Addr} (ha : a.kind = .cache) (s : Slot) :
    st.SameTables (st.setSlot a s) := by
  intro mn kind hk
  refine st.table_setSlot_of_ne s ?_
  rintro ⟨_, h⟩
  exact hk (h.symm.trans ha)

/-- A refresh changes caches alone. -/
theorem Store.refresh_sameTables (st : Store) (cl : Cluster) (key : Key) (s : Slot) :
    st.SameTables (st.refresh cl key s) := by
  unfold Store.refresh
  split
  · split
    · exact fun _ _ _ => rfl
    · exact st.setSlot_cache_sameTables rfl _
  · exact fun _ _ _ => rfl

/-- So does a read. -/
theorem Store.afterRead_sameTables (st : Store) (cl : Cluster) (key : Key) :
    st.SameTables (st.afterRead cl key) := by
  unfold Store.afterRead
  split
  · exact fun _ _ _ => rfl
  · split
    · exact st.refresh_sameTables cl key _
    · exact fun _ _ _ => rfl

/-- A commit at the slot a probe chose is a frame. -/
theorem Frame.commit {d : Deployment} {st : Store} {mn : Nat} {kind : RegionKind} {h : UInt64}
    {pr : SlotProbe} {p : Slot} (hr : Rest d st) (hkind : kind ≠ .cache)
    (hp : st.probe d.toCluster mn kind h = .ok pr) (hs : ∀ k, p.Calm k) (ho : p.owner = some h) :
    Frame d h st (st.setSlot ⟨mn, kind, pr.candidateSlotIndex⟩ p) := by
  constructor
  · intro mn' kind' hk' k
    by_cases ht : mn = mn' ∧ kind = kind'
    · obtain ⟨rfl, rfl⟩ := ht
      exact (hr mn kind hkind).commit hp ho (hr mn kind hkind) (hs k)
    · exact (hr mn' kind' hk').congr (st.table_setSlot_of_ne p ht)
  · intro mn' kind' k s hk' hk
    by_cases ht : mn = mn' ∧ kind = kind'
    · obtain ⟨rfl, rfl⟩ := ht
      rw [(hr mn kind hkind).live_commit hp ho k s, if_neg hk]
    · exact Store.live_congr (st.table_setSlot_of_ne p ht)

/-! ## Replication -/

section Replicate

variable {d : Deployment} {h : UInt64} {p : Slot}

/-- Replication is a frame, whether it reaches the last backup or not. -/
theorem replicate_frame (hs : ∀ k, p.Calm k) (ho : p.owner = some h) :
    ∀ (left idx : Nat) {st : Store}, Rest d st →
      Frame d h st (Store.replicate d.toCluster h p left idx st).2
  | 0, _, _, hr => Frame.refl h hr
  | left + 1, idx, st, hr => by
      unfold Store.replicate
      rw [Slot.committed_eq ((hs h).epochs ho)]
      split
      · exact Frame.refl h hr
      next pr hp =>
        have hf := Frame.commit hr (by decide) hp hs ho
        exact hf.trans (replicate_frame hs ho left (idx + 1) hf.rest)

/-- It leaves the `PRIME` tables alone. -/
theorem replicate_table {cl : Cluster} {left idx : Nat} {st st' : Store} {e : Option Err}
    (hrep : Store.replicate cl h p left idx st = (e, st')) (mn : Nat) :
    st'.table mn .prime = st.table mn .prime := by
  funext i
  have hslot := Store.replicate_slot cl h p (a := ⟨mn, .prime, i⟩) (by simp) left idx st
  rw [hrep] at hslot
  exact hslot

/-- A backup that has the proposal keeps it. -/
theorem replicate_keeps (hs : ∀ k, p.Calm k) (ho : p.owner = some h) {mn : Nat} :
    ∀ (left idx : Nat) {st : Store}, Rest d st → st.Holds d mn .backup h p →
      (Store.replicate d.toCluster h p left idx st).2.Holds d mn .backup h p
  | 0, _, _, _, hh => hh
  | left + 1, idx, st, hr, hh => by
      unfold Store.replicate
      rw [Slot.committed_eq ((hs h).epochs ho)]
      split
      · exact hh
      next pr hp =>
        have hf := Frame.commit hr (by decide) hp hs ho
        refine replicate_keeps hs ho left (idx + 1) hf.rest ?_
        by_cases hmn : d.replicaSession h (idx + 1) = mn
        · subst hmn
          exact ((hr _ _ (by decide)).holds_commit hp ho).mpr rfl
        · exact (Store.holds_congr (st.table_setSlot_of_ne p fun hc => hmn hc.1)).mpr hh

/-- Replication that reaches the last backup leaves the proposal at every backup. -/
theorem replicate_holds (hs : ∀ k, p.Calm k) (ho : p.owner = some h) :
    ∀ (left idx : Nat) {st st' : Store}, Rest d st →
      Store.replicate d.toCluster h p left idx st = (none, st') →
      ∀ j < left, st'.Holds d (d.replicaSession h (idx + j + 1)) .backup h p
  | 0, _, _, _, _, _, j, hj => absurd hj (Nat.not_lt_zero j)
  | left + 1, idx, st, st', hr, hrep, j, hj => by
      unfold Store.replicate at hrep
      rw [Slot.committed_eq ((hs h).epochs ho)] at hrep
      split at hrep
      · cases hrep
      next pr hp =>
        have hf := Frame.commit hr (by decide) hp hs ho
        cases j with
        | zero =>
            have hhere := ((hr _ _ (by decide)).holds_commit hp ho).mpr rfl
            have := replicate_keeps hs ho left (idx + 1) hf.rest hhere
            rwa [hrep] at this
        | succ j =>
            have := replicate_holds hs ho left (idx + 1) hf.rest hrep j (by omega)
            rwa [show idx + (j + 1) + 1 = idx + 1 + j + 1 by omega]

/-- Replication that fails was refused by a backup whose table was, before it began,
full of live slots of other key hashes. -/
theorem replicate_error (hs : ∀ k, p.Calm k) (ho : p.owner = some h) {e : Err} :
    ∀ (left idx : Nat) {st st' : Store}, Rest d st →
      Store.replicate d.toCluster h p left idx st = (some e, st') →
      ∃ j < left, st.probe d.toCluster (d.replicaSession h (idx + j + 1)) .backup h = .error e
  | 0, _, _, _, _, hrep => by cases hrep
  | left + 1, idx, st, st', hr, hrep => by
      unfold Store.replicate at hrep
      rw [Slot.committed_eq ((hs h).epochs ho)] at hrep
      split at hrep
      next e' hp =>
        cases hrep
        exact ⟨0, by omega, hp⟩
      next pr hp =>
        have hf := Frame.commit hr (by decide) hp hs ho
        obtain ⟨j, hj, he⟩ := replicate_error hs ho left (idx + 1) hf.rest hrep
        refine ⟨j + 1, by omega, ?_⟩
        rw [show idx + (j + 1) + 1 = idx + 1 + j + 1 by omega]
        -- The backup that failed is not the one just written: that one has the proposal.
        by_cases hmn : d.replicaSession h (idx + 1) = d.replicaSession h (idx + 1 + j + 1)
        · have hhere := ((hr _ _ (by decide)).holds_commit hp ho).mpr rfl
          obtain ⟨i, hfound, _⟩ := (hf.rest _ .backup (by decide)).probe_of_holds hhere
          rw [← hmn, hfound] at he
          cases he
        · rwa [Store.probe_congr (st.table_setSlot_of_ne p fun hc => hmn hc.1)] at he

end Replicate

/-! ## The invariant -/

/-- A mutation is a frame, however it ends. -/
theorem write_frame {d : Deployment} {st : Store} (hr : Rest d st) (key : Key) (value : Value)
    (updateOnly tombstone : Bool) :
    Frame d (hash64String key) st
      (st.write d.toCluster key value updateOnly tombstone).2 := by
  have hw := st.written d.toCluster key value updateOnly tombstone
  generalize st.write d.toCluster key value updateOnly tombstone = res at hw
  cases hw with
  | probe _ => exact Frame.refl _ hr
  | refused _ _ => exact Frame.refl _ hr
  | long _ _ => exact Frame.refl _ hr
  | @backup pr e st' _ _ _ hrep =>
      have hf := replicate_frame (proposal_calm d.toCluster key value tombstone pr)
        (proposal_owner ..) d.backupCount 0 hr
      rwa [hrep] at hf
  | @done pr st' hp _ _ hrep =>
      have hf := replicate_frame (proposal_calm d.toCluster key value tombstone pr)
        (proposal_owner ..) d.backupCount 0 hr
      rw [hrep] at hf
      have hp' := hp
      rw [← Store.probe_congr (replicate_table hrep _)] at hp'
      have hc := Frame.commit hf.rest (by decide) hp'
        (proposal_calm d.toCluster key value tombstone pr) (proposal_owner ..)
      exact (hf.trans hc).trans
        (Frame.of_sameTables _ hc.rest (Store.refresh_sameTables _ _ _ _))

/-- A mutation that succeeds leaves its proposal in `PRIME` of the primary and in
`BACKUP` of every backup. -/
theorem write_ok {d : Deployment} {st : Store} (hr : Rest d st) {key : Key} {value : Value}
    {updateOnly tombstone : Bool} {rule : Nat}
    (hok : (st.write d.toCluster key value updateOnly tombstone).1 = .ok rule) :
    ∃ pr, st.probe d.toCluster (d.primarySession (hash64String key)) .prime (hash64String key) =
        .ok pr ∧
      updateRefuses updateOnly (hash64String key) pr = false ∧ value.length ≤ maxValueSize ∧
      (st.write d.toCluster key value updateOnly tombstone).2.Holds d
        (d.primarySession (hash64String key)) .prime (hash64String key)
        (d.proposal key value tombstone pr) ∧
      ∀ j < d.backupCount,
        (st.write d.toCluster key value updateOnly tombstone).2.Holds d
          (d.replicaSession (hash64String key) (j + 1)) .backup (hash64String key)
          (d.proposal key value tombstone pr) := by
  have hw := st.written d.toCluster key value updateOnly tombstone
  generalize st.write d.toCluster key value updateOnly tombstone = res at hw hok
  cases hw with
  | probe _ => cases hok
  | refused _ _ => cases hok
  | long _ _ => cases hok
  | backup _ _ _ _ => cases hok
  | @done pr st' hp hu hlen hrep =>
      have hs := proposal_calm d.toCluster key value tombstone pr
      have ho := proposal_owner d.toCluster key value tombstone pr
      have hf := replicate_frame hs ho d.backupCount 0 hr
      have hback := replicate_holds hs ho d.backupCount 0 hr hrep
      rw [hrep] at hf
      refine ⟨pr, hp, hu, hlen, ?_, fun j hj => ?_⟩
      · rw [Store.holds_congr (Store.refresh_sameTables _ _ _ _ _ _ (by decide))]
        rw [← Store.probe_congr (replicate_table hrep _)] at hp
        exact ((hf.rest _ _ (by decide)).holds_commit hp ho).mpr rfl
      · rw [Store.holds_congr (Store.refresh_sameTables _ _ _ _ _ _ (by decide)),
          Store.holds_congr (Store.table_setSlot_of_ne _ _ (by simp))]
        have := hback j hj
        rwa [Nat.zero_add] at this

/-- A mutation that fails leaves every `PRIME` table alone. -/
theorem write_error_prime {cl : Cluster} {st : Store} {key : Key} {value : Value}
    {updateOnly tombstone : Bool} {e : Err}
    (herr : (st.write cl key value updateOnly tombstone).1 = .error e) (mn : Nat) :
    (st.write cl key value updateOnly tombstone).2.table mn .prime = st.table mn .prime := by
  have hw := st.written cl key value updateOnly tombstone
  generalize st.write cl key value updateOnly tombstone = res at hw herr
  cases hw with
  | probe _ => rfl
  | refused _ _ => rfl
  | long _ _ => rfl
  | backup _ _ _ hrep => exact replicate_table hrep mn
  | done _ _ _ _ => cases herr

/-- A mutation that succeeds changes one slot of `PRIME`. -/
theorem write_ok_prime {cl : Cluster} {st : Store} {key : Key} {value : Value}
    {updateOnly tombstone : Bool} {rule : Nat}
    (hok : (st.write cl key value updateOnly tombstone).1 = .ok rule) :
    ∃ pr, st.probe cl (cl.primarySession (hash64String key)) .prime (hash64String key) = .ok pr ∧
      ∀ mn, (st.write cl key value updateOnly tombstone).2.table mn .prime =
        (st.setSlot ⟨cl.primarySession (hash64String key), .prime, pr.candidateSlotIndex⟩
          (cl.proposal key value tombstone pr)).table mn .prime := by
  have hw := st.written cl key value updateOnly tombstone
  generalize st.write cl key value updateOnly tombstone = res at hw hok
  cases hw with
  | probe _ => cases hok
  | refused _ _ => cases hok
  | long _ _ => cases hok
  | backup _ _ _ _ => cases hok
  | @done pr st' hp _ _ hrep =>
      refine ⟨pr, hp, fun mn => ?_⟩
      rw [Store.refresh_sameTables _ _ _ _ mn .prime (by decide)]
      exact Store.table_setSlot_congr (replicate_table hrep mn) _ _

theorem Store.evictTurn_sameTables (st : Store) (mn : Nat) (total : UInt64) (target : Nat) :
    st.SameTables (st.evictTurn mn total target).2 := by
  intro mn' kind hk
  unfold Store.evictTurn
  simp only []
  split
  · exact st.setSlot_cache_sameTables (a := ⟨mn, .cache, _⟩) rfl .zero mn' kind hk
  · rfl

theorem Store.evictTurns_sameTables (mn : Nat) (total : UInt64) :
    ∀ (fuel target : Nat) {st st' : Store}, Store.evictTurns mn total fuel target st = some st' →
      st.SameTables st'
  | _, 0, st, st', h => by
      rw [Store.evictTurns] at h
      cases h
      exact fun _ _ _ => rfl
  | 0, _ + 1, _, _, h => by cases h
  | fuel + 1, target + 1, st, st', h => by
      intro mn' kind hk
      rw [Store.evictTurns_sameTables mn total fuel _ h mn' kind hk]
      exact st.evictTurn_sameTables mn total (target + 1) mn' kind hk

/-- An eviction changes caches alone. -/
theorem Store.evictIfNeeded_sameTables {mn : Nat} {total : UInt64} {fuel thresholdPct : Nat}
    {st st' : Store} (h : Store.evictIfNeeded mn total fuel thresholdPct st = some st') :
    st.SameTables st' := by
  unfold Store.evictIfNeeded at h
  split at h
  · cases h
    exact fun _ _ _ => rfl
  · split at h
    · cases h
      exact fun _ _ _ => rfl
    · obtain ⟨st₁, h₁, rfl⟩ := Option.map_eq_some_iff.mp h
      intro mn' kind hk
      exact Store.evictTurns_sameTables mn total fuel _ h₁ mn' kind hk

/-- A turn keeps the deployment at rest. -/
theorem Turn.rest {d : Deployment} {st : Store} (hr : Rest d st) : ∀ t : Turn, Rest d (t.apply d st)
  | .op cacheOn (.read key) => by
      simp only [Turn.apply, Op.apply, run_readKv]
      exact hr.congr (st.afterRead_sameTables _ key)
  | .op cacheOn (.mutate m) => by
      simp only [Turn.apply, Op.apply, Mutation.run_prog]
      exact (write_frame (hr.client cacheOn) m.key m.value m.updateOnly m.tombstone).rest.of_client
  | .evict mn fuel thresholdPct => by
      simp only [Turn.apply]
      cases h : Store.evictIfNeeded mn (d.header mn).cacheSlotCount fuel thresholdPct st with
      | none => exact hr
      | some st' => exact hr.congr (Store.evictIfNeeded_sameTables h)

/-- The key a turn may change. -/
def Turn.mutated : Turn → Option Key
  | .op _ (.mutate m) => some m.key
  | _ => none

/-- A turn leaves the live slots of a key hash alone, unless it mutates a key of that
hash. -/
theorem Turn.live {d : Deployment} {st : Store} (hr : Rest d st) {h : UInt64} {mn : Nat}
    {kind : RegionKind} (hk : kind ≠ .cache) (s : Slot) :
    ∀ t : Turn, (∀ key ∈ t.mutated, h ≠ hash64String key) →
      ((t.apply d st).Live d mn kind h s ↔ st.Live d mn kind h s)
  | .op cacheOn (.read key), _ => by
      simp only [Turn.apply, Op.apply, run_readKv]
      exact Store.live_congr (st.afterRead_sameTables _ key mn kind hk)
  | .op cacheOn (.mutate m), hne => by
      simp only [Turn.apply, Op.apply, Mutation.run_prog]
      exact (write_frame (hr.client cacheOn) m.key m.value m.updateOnly m.tombstone).live mn kind h s
        hk (hne m.key rfl)
  | .evict mn' fuel thresholdPct, _ => by
      simp only [Turn.apply]
      cases he : Store.evictIfNeeded mn' (d.header mn').cacheSlotCount fuel thresholdPct st with
      | none => rfl
      | some st' => exact Store.live_congr (Store.evictIfNeeded_sameTables he mn kind hk)

/-- Between turns the deployment is at rest. -/
theorem rest_after (d : Deployment) : ∀ ts : List Turn, Rest d (d.after ts)
  | [] => rest_fresh d
  | t :: ts => t.rest (rest_after d ts)

end TeeDist
