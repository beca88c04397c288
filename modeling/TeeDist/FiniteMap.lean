import TeeDist.Sequential

/-!
# The sequential store is a finite map

Without the cache, a deployment whose clients take turns behaves as a finite map
from keys to values.  `mapAfter` is the map: the mutations that succeeded, in
order.  `Represents` ties a store to a map, and every operation keeps it
(`represents_after`).  It holds for keys whose hashes differ, since slots carry
the hash and not the key.
-/

namespace TeeDist

open Calls

/-! ## Reading a tidy table -/

section Read

variable {d : Deployment} {st : Store} {key : Key}

/-- A read without cache of a key that is live. -/
theorem readResult_of_live
    (ht : Tidy d st (d.primarySession (hash64String key)) .prime (hash64String key)) {s : Slot}
    (hl : st.Live d (d.primarySession (hash64String key)) .prime (hash64String key) s) :
    st.readResult (d.client false).toCluster key =
      match decodeSlot d.ssl d.crypto key s with
      | none => .error (.mac key)
      | some value => .ok (some value) := by
  obtain ⟨i, hp, _⟩ := ht.probe_of_holds hl.1
  have hp' : st.probe (d.client false).toCluster
      ((d.client false).primarySession (hash64String key)) .prime (hash64String key) =
      .ok (foundProbe s i) := hp
  have hpres := ht.present hl
  rw [Store.readResult_off st _ key rfl, hp']
  simp only [primeValue, foundProbe, hpres, Bool.not_true, Bool.or_self, Bool.false_eq_true, if_false]
  rfl

/-- A read without cache of a key that is not live finds nothing. -/
theorem readResult_of_not_live
    (ht : Tidy d st (d.primarySession (hash64String key)) .prime (hash64String key))
    (hl : ∀ s, ¬ st.Live d (d.primarySession (hash64String key)) .prime (hash64String key) s)
    {r : Option Value} (hok : st.readResult (d.client false).toCluster key = .ok r) : r = none := by
  rw [Store.readResult_off st _ key rfl] at hok
  cases hp : st.probe (d.client false).toCluster
      ((d.client false).primarySession (hash64String key)) .prime (hash64String key) with
  | error e =>
      rw [hp] at hok
      cases hok
  | ok pr =>
      have habsent : (!pr.found || !pr.slot.present (hash64String key)) = true := by
        have hp' : st.probe d.toCluster (d.primarySession (hash64String key)) .prime
            (hash64String key) = .ok pr := hp
        rcases ht.probe_of_not_live hl hp' with hf | hf <;> simp [hf]
      rw [hp] at hok
      simp only [primeValue, habsent, if_true, Except.ok.injEq] at hok
      exact hok.symm

end Read

/-! ## The map -/

/-- What a mutation that succeeds does to a map. -/
def Mutation.applyTo (m : Mutation) (map : Key → Option Value) : Key → Option Value :=
  Function.update map m.key (if m.tombstone then none else some m.value)

/-- The store after operations of clients without cache, the newest first. -/
def Deployment.served (d : Deployment) (ops : List Op) : Store :=
  d.after (ops.map (Turn.op false))

/-- The answer to a mutation by a client without cache. -/
def Deployment.answer (d : Deployment) (ops : List Op) (m : Mutation) : Except Err Nat :=
  ((m.prog (d.client false).toCluster).run storeHandler (d.served ops)).1

/-- The answer to a read by a client without cache. -/
def Deployment.readAnswer (d : Deployment) (ops : List Op) (key : Key) : Except Err (Option Value) :=
  ((readKv (d.client false).toCluster key).run storeHandler (d.served ops)).1

/-- The map after a history: a mutation counts if it succeeded. -/
def mapAfter (d : Deployment) : List Op → Key → Option Value
  | [] => fun _ => none
  | .read _ :: ops => mapAfter d ops
  | .mutate m :: ops =>
      match d.answer ops m with
      | .ok _ => m.applyTo (mapAfter d ops)
      | .error _ => mapAfter d ops

/-- The store holds what the map says about a key. -/
def Represents (d : Deployment) (st : Store) (map : Key → Option Value) (key : Key) : Prop :=
  match map key with
  | none => ∀ s, ¬ st.Live d (d.primarySession (hash64String key)) .prime (hash64String key) s
  | some value => value.length ≤ maxValueSize ∧
      ∃ epoch, st.Live d (d.primarySession (hash64String key)) .prime (hash64String key)
        (builtSlot d.ssl d.crypto key value slotFlagValid epoch)

/-- Only the live slots of the key matter. -/
theorem Represents.congr {d : Deployment} {st st' : Store} {map map' : Key → Option Value} {key : Key}
    (hmap : map' key = map key)
    (hlive : ∀ s, st'.Live d (d.primarySession (hash64String key)) .prime (hash64String key) s ↔
      st.Live d (d.primarySession (hash64String key)) .prime (hash64String key) s)
    (h : Represents d st map key) : Represents d st' map' key := by
  unfold Represents at h ⊢
  rw [hmap]
  cases hm : map key with
  | none =>
      rw [hm] at h
      exact fun s hs => h s ((hlive s).mp hs)
  | some value =>
      rw [hm] at h
      obtain ⟨hlen, epoch, hs⟩ := h
      exact ⟨hlen, epoch, (hlive _).mpr hs⟩

/-- A mutation keeps the representation of every key whose hash is not that of
another key. -/
theorem represents_mutate {d : Deployment} {ops : List Op} {m : Mutation} {key : Key}
    (hdist : hash64String key = hash64String m.key → key = m.key)
    (h : Represents d (d.served ops) (mapAfter d ops) key) :
    Represents d (d.served (.mutate m :: ops)) (mapAfter d (.mutate m :: ops)) key := by
  have hrest : Rest (d.client false) (d.served ops) := (rest_after d _).client false
  have hst : d.served (.mutate m :: ops) = ((d.served ops).write (d.client false).toCluster m.key
      m.value m.updateOnly m.tombstone).2 := by
    rw [← Mutation.run_prog]
    rfl
  have hans : d.answer ops m = ((d.served ops).write (d.client false).toCluster m.key m.value
      m.updateOnly m.tombstone).1 := by
    rw [← Mutation.run_prog]
    rfl
  rw [hst]
  by_cases hk : key = m.key
  · subst hk
    cases ha : d.answer ops m with
    | error e =>
        rw [hans] at ha
        refine h.congr (by rw [mapAfter, hans, ha]) fun s => ?_
        exact Store.live_congr (write_error_prime ha _)
    | ok rule =>
        rw [hans] at ha
        obtain ⟨pr, _, _, hlen, hh, _⟩ := write_ok hrest ha
        have hmap : mapAfter d (.mutate m :: ops) m.key =
            if m.tombstone then none else some m.value := by
          rw [mapAfter, hans, ha]
          exact Function.update_self ..
        unfold Represents
        rw [hmap]
        by_cases htomb : m.tombstone = true
        · rw [if_pos htomb]
          rintro s ⟨hs, hf⟩
          have hsame := ((write_frame hrest m.key m.value m.updateOnly m.tombstone).rest _ .prime
            (by decide)).holds_unique hs hh
          rw [hsame, proposal_tombstone, htomb] at hf
          cases hf
        · rw [if_neg htomb]
          rw [Bool.not_eq_true] at htomb
          refine ⟨hlen, pr.candidateSlot.guardEpoch + 1, ?_, ?_⟩
          · rw [htomb] at hh ⊢
            exact hh
          · exact proposal_tombstone d.toCluster m.key m.value false pr
  · have hne : hash64String key ≠ hash64String m.key := fun he => hk (hdist he)
    refine h.congr ?_ fun s => ?_
    · rw [mapAfter]
      cases d.answer ops m with
      | error e => rfl
      | ok rule => exact Function.update_of_ne hk ..
    · exact (write_frame hrest m.key m.value m.updateOnly m.tombstone).live _ .prime _ s
        (by decide) hne

/-- After every history the store represents the map. -/
theorem represents_after (d : Deployment) {key : Key} :
    ∀ (ops : List Op), (∀ op ∈ ops, hash64String key = hash64String op.key → key = op.key) →
      Represents d (d.served ops) (mapAfter d ops) key
  | [], _ => fun s hs => not_holds_fresh d _ _ _ s hs.1
  | .read key' :: ops, hdist => by
      have ih := represents_after d ops fun op hop => hdist op (List.mem_cons_of_mem _ hop)
      have hst : d.served (.read key' :: ops) =
          (d.served ops).afterRead (d.client false).toCluster key' := by
        have := run_readKv (d.client false).toCluster key' (d.served ops)
        exact congrArg Prod.snd this
      rw [hst]
      exact ih.congr rfl fun s =>
        Store.live_congr (Store.afterRead_sameTables _ _ _ _ .prime (by decide))
  | .mutate m :: ops, hdist =>
      represents_mutate (hdist (.mutate m) List.mem_cons_self)
        (represents_after d ops fun op hop => hdist op (List.mem_cons_of_mem _ hop))

/-! ## Refinement -/

/-- An array with neither a slot of the key hash, nor a tombstone, nor an empty slot. -/
def Store.Crowded (st : Store) (cl : Cluster) (mn : Nat) (kind : RegionKind) (h : UInt64) : Prop :=
  ∀ i < cl.slots mn kind, ¬ ((st.slot ⟨mn, kind, i⟩).valid = true ∧
      (st.slot ⟨mn, kind, i⟩).keyHash = h) ∧
    ¬ ((st.slot ⟨mn, kind, i⟩).valid = true ∧ (st.slot ⟨mn, kind, i⟩).tombstone = true) ∧
    (st.slot ⟨mn, kind, i⟩).isEmpty = false

theorem crowded_of_probe_error {d : Deployment} {st : Store} {mn : Nat} {kind : RegionKind}
    {h : UInt64} {e : Err} (ht : ∀ {k}, Tidy d st mn kind k)
    (hp : st.probe d.toCluster mn kind h = .error e) : st.Crowded d.toCluster mn kind h := by
  intro i hi
  obtain ⟨hv, hk, hlive⟩ := ht.probe_error hp i hi
  have htomb := hlive ((ht.calm i).epochs (Slot.owner_eq_some.mpr ⟨hv, rfl⟩))
  have hs : st.table mn kind i = st.slot ⟨mn, kind, i⟩ := rfl
  rw [hs] at hv hk htomb
  refine ⟨fun hc => hk hc.2, fun hc => by simp [htomb] at hc, ?_⟩
  have hflags : (st.slot ⟨mn, kind, i⟩).flags ≠ 0 := by
    intro hf
    simp [Slot.valid, hf] at hv
  simp [Slot.isEmpty, hflags]

/-- The ways a mutation of a deployment at rest can fail. -/
theorem write_error_cases {d : Deployment} {st : Store} (hr : Rest d st) {key : Key} {value : Value}
    {updateOnly tombstone : Bool} {e : Err}
    (herr : (st.write d.toCluster key value updateOnly tombstone).1 = .error e) :
    updateOnly = true ∨ maxValueSize < value.length ∨
      st.Crowded d.toCluster (d.primarySession (hash64String key)) .prime (hash64String key) ∨
      ∃ j < d.backupCount, st.Crowded d.toCluster (d.replicaSession (hash64String key) (j + 1))
        .backup (hash64String key) := by
  have hw := st.written d.toCluster key value updateOnly tombstone
  generalize st.write d.toCluster key value updateOnly tombstone = res at hw herr
  cases hw with
  | probe hp => exact Or.inr (Or.inr (Or.inl (crowded_of_probe_error (hr _ _ (by decide)) hp)))
  | refused _ hu =>
      simp only [updateRefuses, Bool.and_eq_true] at hu
      exact Or.inl hu.1
  | long _ hlen => exact Or.inr (Or.inl hlen)
  | @backup pr e' st' _ _ _ hrep =>
      obtain ⟨j, hj, hp⟩ := replicate_error (proposal_calm d.toCluster key value tombstone pr)
        (proposal_owner ..) d.backupCount 0 hr hrep
      rw [Nat.zero_add] at hp
      exact Or.inr (Or.inr (Or.inr ⟨j, hj, crowded_of_probe_error (hr _ _ (by decide)) hp⟩))
  | done _ _ _ _ => cases herr

/-- An update that succeeds met a live slot of its key. -/
theorem live_of_update {d : Deployment} {st : Store} (hr : Rest d st) {key : Key} {value : Value}
    {tombstone : Bool} {rule : Nat}
    (hok : (st.write d.toCluster key value true tombstone).1 = .ok rule) :
    ∃ s, st.Live d (d.primarySession (hash64String key)) .prime (hash64String key) s := by
  obtain ⟨pr, hp, hu, _⟩ := write_ok hr hok
  simp only [updateRefuses, Bool.true_and, Bool.or_eq_false_iff, Bool.not_eq_false'] at hu
  obtain ⟨⟨hfound, htomb⟩, _⟩ := hu
  obtain ⟨i, _, _, hcase⟩ := (hr _ _ (by decide)).probe_cases hp
  rcases hcase with ⟨rfl, hh⟩ | ⟨rfl, _⟩
  · exact ⟨_, hh, htomb⟩
  · cases hfound

/-- The sequential store refines a finite map.  After every history of operations on
keys with distinct hashes, a read that returns reports what the map has, an update
succeeds only on a key of the map, and a write or delete fails only if the value is
too long or some array it needs has no room for the key. -/
theorem sequential_refines_map (d : Deployment) (op : Op) (ops : List Op)
    (hkeys : DistinctHashes (op.key :: ops.map Op.key)) :
    (∀ key r, op = .read key → d.readAnswer ops key = .ok r → r = mapAfter d ops key) ∧
    (∀ key value rule, op = .mutate (.update key value) →
      d.answer ops (.update key value) = .ok rule → (mapAfter d ops key).isSome) ∧
    (∀ m e, op = .mutate m → m.updateOnly = false → d.answer ops m = .error e →
      maxValueSize < m.value.length ∨
      (d.served ops).Crowded d.toCluster (d.primarySession (hash64String m.key)) .prime
        (hash64String m.key) ∨
      ∃ j < d.backupCount, (d.served ops).Crowded d.toCluster
        (d.replicaSession (hash64String m.key) (j + 1)) .backup (hash64String m.key)) := by
  have hrest : Rest d (d.served ops) := rest_after d _
  have hrep : Represents d (d.served ops) (mapAfter d ops) op.key :=
    represents_after d ops fun o ho he =>
      hkeys _ List.mem_cons_self _ (List.mem_cons_of_mem _ (List.mem_map_of_mem ho)) he
  refine ⟨?_, ?_, ?_⟩
  · rintro key r rfl hok
    rw [Deployment.readAnswer, run_readKv] at hok
    unfold Represents at hrep
    rw [Op.key] at hrep
    cases hm : mapAfter d ops key with
    | none =>
        rw [hm] at hrep
        exact readResult_of_not_live (hrest _ _ (by decide)) hrep hok
    | some value =>
        rw [hm] at hrep
        obtain ⟨hlen, epoch, hl⟩ := hrep
        rw [readResult_of_live (hrest _ _ (by decide)) hl, decodeSlot_builtSlot d.ssl d.crypto key slotFlagValid epoch
          key hlen (by rw [builtSlot_valid]; decide)] at hok
        exact (Except.ok.inj hok).symm
  · rintro key value rule rfl hok
    rw [Deployment.answer, Mutation.run_prog] at hok
    obtain ⟨s, hl⟩ := live_of_update (hrest.client false) hok
    unfold Represents at hrep
    rw [Op.key, Mutation.key] at hrep
    cases hm : mapAfter d ops key with
    | none =>
        rw [hm] at hrep
        exact absurd hl (hrep s)
    | some value => rfl
  · rintro m e rfl hu herr
    rw [Deployment.answer, Mutation.run_prog] at herr
    rcases write_error_cases (hrest.client false) herr with h | h | h | ⟨j, hj, h⟩
    · rw [hu] at h
      cases h
    · exact Or.inl h
    · exact Or.inr (Or.inl h)
    · exact Or.inr (Or.inr ⟨j, hj, h⟩)

/-- A value written is read back, and it is the value of the map. -/
theorem sequential_refines_map_read :
    ∃ r, Deployment.sample.readAnswer [.mutate (.write [97] [49])] [97] = .ok r ∧
      r = mapAfter .sample [.mutate (.write [97] [49])] [97] ∧ r = some [49] :=
  ⟨some [49], by decide +kernel,
    (sequential_refines_map .sample (.read [97]) [.mutate (.write [97] [49])]
      (by decide +kernel)).1 [97] _ rfl (by decide +kernel), rfl⟩

end TeeDist
