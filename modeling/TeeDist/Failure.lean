import TeeDist.Replicas

/-!
# Mutations that fail

A mutation commits at one backup before it probes the next.  When a later backup
has no room for the key, the mutation returns an error and leaves the commits at
the earlier backups behind.  `failed_mutation_atomic_iff` says when this happens:
exactly when the mutation *spills*.
-/

namespace TeeDist

open Calls

/-! ## Replication, backup by backup -/

/-- The probe of the backup of an ordinal. -/
def Store.backupProbe (st : Store) (cl : Cluster) (h : UInt64) (ordinal : Nat) :
    Except Err SlotProbe :=
  st.probe cl (cl.replicaSession h ordinal) .backup h

/-- The slot a backup's probe chose. -/
def Cluster.backupAddr (cl : Cluster) (h : UInt64) (ordinal : Nat) (pr : SlotProbe) : Addr :=
  ⟨cl.replicaSession h ordinal, .backup, pr.candidateSlotIndex⟩

/-- The first `j` backups from the `idx`-th on took the proposal `p`, at the slots their
probes chose before replication began, and nothing else changed. -/
structure Replicated (cl : Cluster) (h : UInt64) (p : Slot) (idx j : Nat) (st st' : Store) :
    Prop where
  room : ∀ i < j, ∃ pr, st.backupProbe cl h (idx + i + 1) = .ok pr
  written : ∀ i < j, ∀ pr, st.backupProbe cl h (idx + i + 1) = .ok pr →
    st'.slot (cl.backupAddr h (idx + i + 1) pr) = p
  kept : ∀ a, (∀ i < j, ∀ pr, st.backupProbe cl h (idx + i + 1) = .ok pr →
    a ≠ cl.backupAddr h (idx + i + 1) pr) → st'.slot a = st.slot a

section Replicate

variable {cl : Cluster} {h : UInt64} {p : Slot}

/-- Another backup's probe does not see a commit. -/
theorem backupProbe_setSlot {st : Store} {ordinal ordinal' : Nat} (pr : SlotProbe)
    (ho : ordinal < cl.sessionCount) (ho' : ordinal' < cl.sessionCount) (hne : ordinal ≠ ordinal') :
    (st.setSlot (cl.backupAddr h ordinal pr) p).backupProbe cl h ordinal' =
      st.backupProbe cl h ordinal' := by
  refine Store.probe_congr (st.table_setSlot_of_ne p ?_) h
  rintro ⟨he, _⟩
  exact hne (cl.replicaSession_inj h ho ho' he)

/-- One more backup before the others. -/
theorem Replicated.cons {st st' : Store} {idx j : Nat} {pr : SlotProbe}
    (hlt : idx + (j + 1) < cl.sessionCount) (hp : st.backupProbe cl h (idx + 1) = .ok pr)
    (hr : Replicated cl h p (idx + 1) j (st.setSlot (cl.backupAddr h (idx + 1) pr) p) st') :
    Replicated cl h p idx (j + 1) st st' := by
  have hprobe : ∀ i < j, (st.setSlot (cl.backupAddr h (idx + 1) pr) p).backupProbe cl h
      (idx + 1 + i + 1) = st.backupProbe cl h (idx + (i + 1) + 1) := by
    intro i hi
    rw [show idx + (i + 1) + 1 = idx + 1 + i + 1 by omega]
    exact backupProbe_setSlot pr (by omega) (by omega) (by omega)
  constructor
  · intro i hi
    cases i with
    | zero => exact ⟨pr, hp⟩
    | succ i =>
        obtain ⟨pr', hpr'⟩ := hr.room i (by omega)
        exact ⟨pr', by rw [← hprobe i (by omega)]; exact hpr'⟩
  · intro i hi pr' hpr'
    cases i with
    | zero =>
        rw [Nat.add_zero, hp] at hpr'
        cases hpr'
        rw [Nat.add_zero, hr.kept _ ?_, Store.setSlot_slot_self]
        rintro i hi pr'' _ he
        have hmn : cl.replicaSession h (idx + 1) = cl.replicaSession h (idx + 1 + i + 1) :=
          congrArg Addr.mn he
        have := cl.replicaSession_inj h (by omega) (by omega) hmn
        omega
    | succ i =>
        rw [← hprobe i (by omega)] at hpr'
        rw [show idx + (i + 1) + 1 = idx + 1 + i + 1 by omega]
        exact hr.written i (by omega) pr' hpr'
  · intro a ha
    rw [hr.kept a ?_, st.setSlot_slot_of_ne p (ha 0 (by omega) pr hp)]
    intro i hi pr' hpr'
    rw [hprobe i hi] at hpr'
    rw [show idx + 1 + i + 1 = idx + (i + 1) + 1 by omega]
    exact ha (i + 1) (by omega) pr' hpr'

/-- Replication reaches every backup, or stops at the first that has no room. -/
theorem replicate_replicated (hp : p.committed = p) :
    ∀ (left idx : Nat) (st : Store), idx + left < cl.sessionCount →
      ((Store.replicate cl h p left idx st).1 = none ∧
        Replicated cl h p idx left st (Store.replicate cl h p left idx st).2) ∨
      ∃ e, ∃ j < left, (Store.replicate cl h p left idx st).1 = some e ∧
        st.backupProbe cl h (idx + j + 1) = .error e ∧
        Replicated cl h p idx j st (Store.replicate cl h p left idx st).2
  | 0, idx, st, _ => Or.inl ⟨rfl, ⟨fun _ hi => absurd hi (Nat.not_lt_zero _),
      fun _ hi => absurd hi (Nat.not_lt_zero _), fun _ _ => rfl⟩⟩
  | left + 1, idx, st, hlt => by
      unfold Store.replicate
      rw [hp]
      cases hprobe : st.probe cl (cl.replicaSession h (idx + 1)) .backup h with
      | error e =>
          exact Or.inr ⟨e, 0, by omega, rfl, hprobe, ⟨fun _ hi => absurd hi (Nat.not_lt_zero _),
            fun _ hi => absurd hi (Nat.not_lt_zero _), fun _ _ => rfl⟩⟩
      | ok pr =>
          rcases replicate_replicated hp left (idx + 1)
            (st.setSlot (cl.backupAddr h (idx + 1) pr) p) (by omega) with
            ⟨hnone, hr⟩ | ⟨e, j, hj, hsome, herr, hr⟩
          · exact Or.inl ⟨hnone, hr.cons (by omega) hprobe⟩
          · refine Or.inr ⟨e, j + 1, by omega, hsome, ?_, hr.cons (by omega) hprobe⟩
            rw [backupProbe_setSlot pr (by omega) (by omega) (by omega)] at herr
            rwa [show idx + (j + 1) + 1 = idx + 1 + j + 1 by omega]

/-- Replication changed nothing exactly if each backup it reached had the proposal. -/
theorem Replicated.sameTables_iff {st st' : Store} {idx j : Nat}
    (hr : Replicated cl h p idx j st st') :
    st.SameTables st' ↔
      ∀ i < j, ∀ pr, st.backupProbe cl h (idx + i + 1) = .ok pr → pr.candidateSlot = p := by
  constructor
  · intro hs i hi pr hpr
    rw [(Store.probe_candidate hpr).2.1, ← hr.written i hi pr hpr]
    exact (congrFun (hs _ .backup (by decide)) pr.candidateSlotIndex).symm
  · intro hsame mn kind hk
    funext i
    by_cases ha : ∀ i' < j, ∀ pr, st.backupProbe cl h (idx + i' + 1) = .ok pr →
        (⟨mn, kind, i⟩ : Addr) ≠ cl.backupAddr h (idx + i' + 1) pr
    · exact hr.kept _ ha
    · push Not at ha
      obtain ⟨i', hi', pr, hpr, ha⟩ := ha
      have h₁ := hr.written i' hi' pr hpr
      have h₂ := hsame i' hi' pr hpr
      rw [(Store.probe_candidate hpr).2.1] at h₂
      rw [← ha] at h₁
      change st.slot (cl.backupAddr h (idx + i' + 1) pr) = p at h₂
      rw [← ha] at h₂
      exact h₁.trans h₂.symm

end Replicate

/-! ## When a failed mutation leaves something behind -/

/-- A mutation spills in a store: it gets as far as the backups, and the first backup
without room for the key comes after one that has room and does not yet hold the slot
the mutation writes. -/
def Spills (cl : Cluster) (st : Store) (m : Mutation) : Prop :=
  ∃ pr, st.probe cl (cl.primarySession (hash64String m.key)) .prime (hash64String m.key) = .ok pr ∧
    updateRefuses m.updateOnly (hash64String m.key) pr = false ∧
    m.value.length ≤ maxValueSize ∧
    ∃ j < cl.backupCount, (∃ e, st.backupProbe cl (hash64String m.key) (j + 1) = .error e) ∧
      (∀ i < j, ∃ pr', st.backupProbe cl (hash64String m.key) (i + 1) = .ok pr') ∧
      ∃ i < j, ∃ pr', st.backupProbe cl (hash64String m.key) (i + 1) = .ok pr' ∧
        pr'.candidateSlot ≠ cl.proposal m.key m.value m.tombstone pr

/-- The failing backup of `Spills` is unique. -/
theorem first_full_unique {cl : Cluster} {st : Store} {h : UInt64} {j j' : Nat} {e e' : Err}
    (hj : st.backupProbe cl h (j + 1) = .error e)
    (hbefore : ∀ i < j, ∃ pr, st.backupProbe cl h (i + 1) = .ok pr)
    (hj' : st.backupProbe cl h (j' + 1) = .error e')
    (hbefore' : ∀ i < j', ∃ pr, st.backupProbe cl h (i + 1) = .ok pr) : j = j' := by
  rcases Nat.lt_trichotomy j j' with hlt | rfl | hlt
  · obtain ⟨pr, hpr⟩ := hbefore' j hlt
    rw [hj] at hpr
    cases hpr
  · rfl
  · obtain ⟨pr, hpr⟩ := hbefore j' hlt
    rw [hj'] at hpr
    cases hpr

/-- A mutation that ended before the backups does not spill. -/
theorem not_spills_of_probe {cl : Cluster} {st : Store} {m : Mutation}
    (h : ∀ pr, st.probe cl (cl.primarySession (hash64String m.key)) .prime (hash64String m.key) =
        .ok pr →
      updateRefuses m.updateOnly (hash64String m.key) pr = true ∨ maxValueSize < m.value.length) :
    ¬ Spills cl st m := by
  rintro ⟨pr, hp, hu, hlen, _⟩
  rcases h pr hp with hu' | hlen'
  · rw [hu] at hu'
    cases hu'
  · omega

/-- In every store, a mutation leaves `PRIME` and `BACKUP` alone when it fails if and
only if it does not spill. -/
theorem write_atomic_iff (cl : Cluster) (st : Store) (m : Mutation) :
    (∀ e, ((m.prog cl).run storeHandler st).1 = .error e →
      st.SameTables ((m.prog cl).run storeHandler st).2) ↔ ¬ Spills cl st m := by
  rw [Mutation.run_prog]
  have hw := st.written cl m.key m.value m.updateOnly m.tombstone
  generalize st.write cl m.key m.value m.updateOnly m.tombstone = res at hw
  cases hw with
  | probe hp =>
      refine iff_of_true (fun _ _ _ _ _ => rfl) (not_spills_of_probe fun pr hp' => ?_)
      rw [hp] at hp'
      cases hp'
  | refused hp hu =>
      refine iff_of_true (fun _ _ _ _ _ => rfl) (not_spills_of_probe fun pr hp' => ?_)
      rw [hp] at hp'
      cases hp'
      exact Or.inl hu
  | long hp hlen =>
      exact iff_of_true (fun _ _ _ _ _ => rfl) (not_spills_of_probe fun _ _ => Or.inr hlen)
  | @done pr st' hp hu hlen hrep =>
      refine iff_of_true (fun _ he => by cases he) ?_
      rintro ⟨_, _, _, _, j, hj, ⟨e, he⟩, _⟩
      rcases @replicate_replicated cl (hash64String m.key) _
        (proposal_committed cl m.key m.value m.tombstone pr) cl.backupCount 0 st
        (by have := cl.backupCount_lt; omega) with ⟨_, hr⟩ | ⟨e', j', _, hsome, _⟩
      · obtain ⟨pr', hpr'⟩ := hr.room j hj
        rw [Nat.zero_add, he] at hpr'
        cases hpr'
      · rw [hrep] at hsome
        cases hsome
  | @backup pr e st' hp hu hlen hrep =>
      rcases @replicate_replicated cl (hash64String m.key) _
        (proposal_committed cl m.key m.value m.tombstone pr) cl.backupCount 0 st
        (by have := cl.backupCount_lt; omega) with ⟨hnone, _⟩ | ⟨e', j, hj, _, herr, hr⟩
      · rw [hrep] at hnone
        cases hnone
      · have hsame := hr.sameTables_iff
        have hroom := hr.room
        rw [hrep] at hsame
        simp only [Nat.zero_add] at hsame herr hroom
        constructor
        · rintro hall ⟨pr₁, hp₁, _, _, j₁, _, ⟨e₁, he₁⟩, hbefore, i, hi, pr', hpr', hne⟩
          rw [hp] at hp₁
          cases hp₁
          have hjj := first_full_unique he₁ hbefore herr hroom
          subst hjj
          exact hne (hsame.mp (hall e rfl) i hi pr' hpr')
        · intro hns _ _
          refine hsame.mpr fun i hi pr' hpr' => ?_
          by_contra hne
          exact hns ⟨pr, hp, hu, hlen, j, hj, ⟨e', herr⟩, hroom, i, hi, pr', hpr', hne⟩

/-- After every history, and for every mutation of every client: a failure of the
mutation leaves the `PRIME` and `BACKUP` arrays of all memory nodes as they were if and
only if the mutation does not spill in the store it finds. -/
theorem failed_mutation_atomic_iff (d : Deployment) (ts : List Turn) (cacheOn : Bool)
    (m : Mutation) :
    (∀ e, ((m.prog (d.client cacheOn).toCluster).run storeHandler (d.after ts)).1 = .error e →
      (d.after ts).SameTables
        ((m.prog (d.client cacheOn).toCluster).run storeHandler (d.after ts)).2) ↔
      ¬ Spills d.toCluster (d.after ts) m :=
  write_atomic_iff (d.client cacheOn).toCluster (d.after ts) m

/-- Three memory nodes with one slot of each kind, and two backups for each key. -/
def Deployment.narrow : Deployment := .uniform .sample .sample 3 2 1 0 1

/-- A failure need not be atomic.  Key `c` takes the only `BACKUP` slot of node 2.  A
write of key `a` is then committed in `BACKUP` of node 1 before it fails at node 2. -/
theorem failed_mutation_not_atomic :
    ¬ ∀ (d : Deployment) (ts : List Turn) (cacheOn : Bool) (m : Mutation) (e : Err),
      ((m.prog (d.client cacheOn).toCluster).run storeHandler (d.after ts)).1 = .error e →
      (d.after ts).SameTables
        ((m.prog (d.client cacheOn).toCluster).run storeHandler (d.after ts)).2 := by
  intro h
  have htables := h .narrow [.op false (.mutate (.write [99] [49]))] false (.write [97] [49])
    (.full .backup (hash64String [97])) (by decide +kernel) 1 .backup (by decide)
  have hflags := congrArg Slot.flags (congrFun htables 0)
  revert hflags
  decide +kernel

end TeeDist
