import TeeDist.Sequential

/-!
# Agreement of the replicas

In histories of turns the backups of a key agree with its primary after each
mutation of the key that succeeds, and until the next one.  The proposal is
committed at the primary and at every backup, on tables of different sizes and
histories, and turns on other keys leave these slots alone (`Turn.live`).
-/

namespace TeeDist

open Calls Probing

/-! ## Placement -/

/-- The sessions of the replicas of a key are pairwise distinct. -/
theorem Cluster.replicaSession_inj (cl : Cluster) (h : UInt64) {j j' : Nat}
    (hj : j < cl.sessionCount) (hj' : j' < cl.sessionCount)
    (he : cl.replicaSession h j = cl.replicaSession h j') : j = j' :=
  add_mod_inj hj hj' he

/-- The replica of ordinal zero is the primary. -/
theorem Cluster.replicaSession_zero (cl : Cluster) (h : UInt64) :
    cl.replicaSession h 0 = cl.primarySession h := by
  rw [Cluster.replicaSession, Nat.add_zero, Nat.mod_mod]
  rfl

theorem Cluster.backupCount_lt (cl : Cluster) : cl.backupCount < cl.sessionCount := by
  have := cl.sessionCount_pos
  unfold Cluster.backupCount
  omega

/-! ## Agreement -/

/-- What a mutation of `key` that succeeded leaves in the tables: one live slot at the
primary and at every backup, or no live slot at any backup. -/
def Agreed (d : Deployment) (st : Store) (m : Mutation) : Prop :=
  if m.tombstone then
    ∀ j < d.backupCount, ∀ s,
      ¬ st.Live d (d.replicaSession (hash64String m.key) (j + 1)) .backup (hash64String m.key) s
  else
    ∃ s, st.Live d (d.primarySession (hash64String m.key)) .prime (hash64String m.key) s ∧
      ∀ j < d.backupCount,
        st.Live d (d.replicaSession (hash64String m.key) (j + 1)) .backup (hash64String m.key) s

/-- Agreement is about live slots outside the caches. -/
theorem Agreed.congr {d : Deployment} {st st' : Store} {m : Mutation}
    (hlive : ∀ mn kind s, kind ≠ .cache →
      (st'.Live d mn kind (hash64String m.key) s ↔ st.Live d mn kind (hash64String m.key) s))
    (h : Agreed d st m) : Agreed d st' m := by
  unfold Agreed at h ⊢
  by_cases htomb : m.tombstone = true
  · rw [if_pos htomb] at h ⊢
    exact fun j hj s hs => h j hj s ((hlive _ _ s (by decide)).mp hs)
  · rw [if_neg htomb] at h ⊢
    obtain ⟨s, hs, hb⟩ := h
    exact ⟨s, (hlive _ _ s (by decide)).mpr hs, fun j hj => (hlive _ _ s (by decide)).mpr (hb j hj)⟩

/-- A mutation that succeeds establishes agreement. -/
theorem agreed_of_ok {d : Deployment} {st : Store} (hr : Rest d st) {m : Mutation} {rule : Nat}
    (hok : ((m.prog d.toCluster).run storeHandler st).1 = .ok rule) :
    Agreed d ((m.prog d.toCluster).run storeHandler st).2 m := by
  rw [Mutation.run_prog] at hok ⊢
  obtain ⟨pr, _, _, _, hprime, hback⟩ := write_ok hr hok
  have hrest := (write_frame hr m.key m.value m.updateOnly m.tombstone).rest
  unfold Agreed
  by_cases htomb : m.tombstone = true
  · rw [if_pos htomb]
    rintro j hj s ⟨hs, hf⟩
    rw [(hrest _ _ (by decide)).holds_unique hs (hback j hj), proposal_tombstone, htomb] at hf
    cases hf
  · rw [if_neg htomb]
    have hlive : (d.proposal m.key m.value m.tombstone pr).tombstone = false := by
      rw [proposal_tombstone]
      simpa using htomb
    exact ⟨_, ⟨hprime, hlive⟩, fun j hj => ⟨hback j hj, hlive⟩⟩

/-- Turns on other keys keep it. -/
theorem agreed_after {d : Deployment} {m : Mutation} {ts : List Turn}
    (h : Agreed d (d.after ts) m) :
    ∀ later : List Turn,
      (∀ t ∈ later, ∀ key ∈ t.mutated, hash64String m.key ≠ hash64String key) →
      Agreed d (d.after (later ++ ts)) m
  | [], _ => h
  | t :: later, hne => by
      have ih := agreed_after h later fun t' ht' => hne t' (List.mem_cons_of_mem _ ht')
      exact ih.congr fun mn kind s hk =>
        t.live (rest_after d _) hk s (hne t List.mem_cons_self)

theorem mem_turnKeys {t : Turn} {key : Key} (hk : t.mutated = some key) :
    ∀ {ts : List Turn}, t ∈ ts → key ∈ turnKeys ts
  | t' :: ts, ht => by
      rcases List.mem_cons.mp ht with rfl | ht
      · cases t with
        | op cacheOn o =>
            cases o with
            | read _ => cases hk
            | mutate m =>
                cases hk
                exact List.mem_cons_self
        | evict _ _ _ => cases hk
      · have := mem_turnKeys hk ht
        cases t' with
        | op _ _ => exact List.mem_cons_of_mem _ this
        | evict _ _ _ => exact this

/-- Replica agreement.  Take a history on keys with distinct hashes in which the last
mutation of a key is `m`, and `m` succeeded.  The backups of the key are distinct
memory nodes other than the primary.  If `m` wrote a value, probing `BACKUP` at each
of them finds the slot that probing `PRIME` finds at the primary.  If `m` deleted the
key, no backup yields a live slot of it. -/
theorem replicas_agree (d : Deployment) (cacheOn : Bool) (m : Mutation) (earlier later : List Turn)
    (rule : Nat)
    (hkeys : DistinctHashes (turnKeys (later ++ .op cacheOn (.mutate m) :: earlier)))
    (hok : ((m.prog (d.client cacheOn).toCluster).run storeHandler (d.after earlier)).1 = .ok rule)
    (hlast : ∀ t ∈ later, t.mutated ≠ some m.key) :
    (∀ j < d.backupCount,
      d.replicaSession (hash64String m.key) (j + 1) ≠ d.primarySession (hash64String m.key) ∧
      ∀ j' < d.backupCount, d.replicaSession (hash64String m.key) (j + 1) =
        d.replicaSession (hash64String m.key) (j' + 1) → j = j') ∧
    (m.tombstone = false →
      ∃ s i, (d.after (later ++ .op cacheOn (.mutate m) :: earlier)).probe d.toCluster
          (d.primarySession (hash64String m.key)) .prime (hash64String m.key) =
          .ok (foundProbe s i) ∧
        s.present (hash64String m.key) = true ∧
        ∀ j < d.backupCount,
          ∃ i', (d.after (later ++ .op cacheOn (.mutate m) :: earlier)).probe d.toCluster
              (d.replicaSession (hash64String m.key) (j + 1)) .backup (hash64String m.key) =
            .ok (foundProbe s i')) ∧
    (m.tombstone = true →
      ∀ j < d.backupCount, ∀ pr,
        (d.after (later ++ .op cacheOn (.mutate m) :: earlier)).probe d.toCluster
            (d.replicaSession (hash64String m.key) (j + 1)) .backup (hash64String m.key) = .ok pr →
        pr.found = true → pr.slot.present (hash64String m.key) = false) := by
  have hcount := d.backupCount_lt
  have hrest : Rest d (d.after (later ++ .op cacheOn (.mutate m) :: earlier)) := rest_after d _
  have hagreed : Agreed d (d.after (later ++ .op cacheOn (.mutate m) :: earlier)) m := by
    refine agreed_after (agreed_of_ok ((rest_after d earlier).client cacheOn) hok) later ?_
    intro t ht key hkey heq
    have hmem : key ∈ turnKeys (later ++ .op cacheOn (.mutate m) :: earlier) :=
      mem_turnKeys hkey (List.mem_append_left _ ht)
    have hmem' : m.key ∈ turnKeys (later ++ .op cacheOn (.mutate m) :: earlier) :=
      mem_turnKeys (t := .op cacheOn (.mutate m)) rfl (by simp)
    exact hlast t ht (by rw [hkeys _ hmem' _ hmem heq]; exact hkey)
  refine ⟨fun j hj => ⟨?_, fun j' hj' he => ?_⟩, fun htomb => ?_, fun htomb j hj pr hp hfound => ?_⟩
  · intro he
    rw [← d.replicaSession_zero] at he
    have := d.replicaSession_inj _ (by omega) d.sessionCount_pos he
    omega
  · have := d.replicaSession_inj _ (by omega) (by omega) he
    omega
  · rw [Agreed, if_neg (by simp [htomb])] at hagreed
    obtain ⟨s, hs, hb⟩ := hagreed
    have ht : Tidy d _ (d.primarySession (hash64String m.key)) .prime (hash64String m.key) :=
      hrest _ _ (by decide)
    obtain ⟨i, hi, _⟩ := ht.probe_of_holds hs.1
    refine ⟨s, i, hi, ht.present hs, fun j hj => ?_⟩
    obtain ⟨i', hi', _⟩ := (hrest _ .backup (by decide)).probe_of_holds (hb j hj).1
    exact ⟨i', hi'⟩
  · rw [Agreed, if_pos htomb] at hagreed
    rcases (hrest _ .backup (by decide)).probe_of_not_live (hagreed j hj) hp with hf | hf
    · rw [hf] at hfound
      cases hfound
    · exact hf

/-- After a write of one key and a delete of another, both backups of the first agree
with its primary. -/
theorem replicas_agree_write :
    ∃ s i, (Deployment.sample.after [.op true (.mutate (.delete [98])),
          .op false (.mutate (.write [97] [49]))]).probe Deployment.sample.toCluster
        (Deployment.sample.primarySession (hash64String [97])) .prime (hash64String [97]) =
        .ok (foundProbe s i) ∧
      s.present (hash64String [97]) = true ∧
      ∀ j < 2, ∃ i', (Deployment.sample.after [.op true (.mutate (.delete [98])),
          .op false (.mutate (.write [97] [49]))]).probe Deployment.sample.toCluster
        (Deployment.sample.replicaSession (hash64String [97]) (j + 1)) .backup (hash64String [97]) =
        .ok (foundProbe s i') :=
  (replicas_agree .sample false (.write [97] [49]) [] [.op true (.mutate (.delete [98]))] 1
    (by decide +kernel) (by decide +kernel) (by decide +kernel)).2.1 rfl

end TeeDist
