import TeeDist.CacheReads
import TeeDist.FiniteMap

/-!
# Reading a key that is not there

A read begins with a probe of `PRIME`, and the probe fails if it comes across neither the key, nor
a tombstone, nor an empty slot.  That is an error for a write, which needs a slot, but a read of a
key that is not there returns it as well.  A cache entry can be in the way too, if it is stale: it
has the epoch of the tombstone of its key.

`absent_read_iff` says that a read of an absent key reports that there is no value unless one of
these two is the case, after every history of clients that take turns.
-/

namespace TeeDist

open Calls Probing

/-- The probe fails on an array without a slot to choose. -/
theorem Store.Crowded.probe_error {d : Deployment} {st : Store} {mn : Nat} {kind : RegionKind}
    {h : UInt64} (hcrowded : st.Crowded d.toCluster mn kind h) :
    ∃ e, st.probe d.toCluster mn kind h = .error e := by
  have hfull : st.outcome d.toCluster mn kind h = .full := by
    refine (scan_eq_iff _ _ _).mpr fun j hj => ?_
    have hslot := d.probeAddr_slot (h := h) st hj
    obtain ⟨hown, htomb, hempty⟩ := hcrowded _ (Nat.mod_lt (d.home mn kind h + j)
      (by omega : 0 < d.slots mn kind))
    rw [Store.table] at hslot
    rw [hslot]
    unfold Slot.classFor
    split
    · rfl
    · rw [if_neg (by simpa using hown), if_neg (by simpa using htomb), hempty]
      rfl
  exact ⟨_, congrArg (st.resultOf d.toCluster mn kind h) hfull⟩

/-- The cache of a client that uses it has an entry for a key with the epochs of the slot of the key
in `PRIME`. -/
def Store.Trusted (st : Store) (cl : Cluster) (key : Key) : Prop :=
  cl.cacheOn = true ∧ ∃ primeProbe cacheProbe,
    st.probe cl (cl.primarySession (hash64String key)) .prime (hash64String key) = .ok primeProbe ∧
    st.probe cl (cl.primarySession (hash64String key)) .cache (hash64String key) = .ok cacheProbe ∧
    cacheConsistent (hash64String key) cacheProbe primeProbe = true

/-! ## Committed slots decode -/

/-- What was committed was not too long. -/
theorem Turn.commit_decodes {d : Deployment} {st : Store} (hr : Rest d st) {t : Turn} {c : Commit}
    (hc : t.commit d st = some c) (key : Key) (hvalid : c.slot.valid = true) :
    (decodeSlot d.ssl d.crypto key c.slot).isSome = true := by
  cases t with
  | evict mn fuel thresholdPct => cases hc
  | op cacheOn o =>
      cases o with
      | read key => cases hc
      | mutate m =>
          simp only [Turn.commit, Mutation.run_prog] at hc
          split at hc
          next rule pr hok hp =>
            have hc' := Option.some.inj hc
            obtain ⟨_, _, _, hlen, _⟩ := write_ok (hr.client cacheOn) hok
            rw [← hc'] at hvalid ⊢
            rw [Cluster.proposal] at hvalid ⊢
            rw [decodeSlot_builtSlot d.ssl d.crypto m.key (proposalFlags m.tombstone) _ key hlen
              hvalid]
            rfl
          next => cases hc

theorem commits_decode (d : Deployment) (key : Key) :
    ∀ {ts : List Turn} {c : Commit}, c ∈ d.commits ts → c.slot.valid = true →
      (decodeSlot d.ssl d.crypto key c.slot).isSome = true
  | [], _, hc, _ => absurd hc List.not_mem_nil
  | t :: ts, c, hc, hvalid => by
      rw [Deployment.commits] at hc
      rcases List.mem_append.mp hc with hnew | hold
      · rw [Option.mem_toList] at hnew
        exact Turn.commit_decodes (rest_after d ts) hnew key hvalid
      · exact commits_decode d key hold hvalid

/-- A cache entry that a probe finds decodes. -/
theorem cache_decodes (d : Deployment) (ts : List Turn) (key : Key) {mn : Nat} {h : UInt64}
    {cacheProbe : SlotProbe} (hc : (d.after ts).probe d.toCluster mn .cache h = .ok cacheProbe)
    (hfound : cacheProbe.found = true) :
    (decodeSlot d.ssl d.crypto key cacheProbe.slot).isSome = true := by
  obtain ⟨_, hslot, _, hhit⟩ := Store.probe_candidate hc
  obtain ⟨heq, hvalid, _⟩ := hhit hfound
  have hsame : cacheProbe.slot = cacheProbe.candidateSlot := by
    rw [heq]
    rfl
  rw [hsame]
  rcases cache_logged d mn cacheProbe.candidateSlotIndex ts with hzero | ⟨c, hmem, hc⟩
  · rw [← hslot] at hzero
    rw [hzero] at hvalid
    cases hvalid
  · rw [← hslot] at hc
    rw [← hc] at hvalid ⊢
    exact commits_decode d key hmem hvalid

/-! ## Absent keys -/

/-- Let clients with and without cache take turns, and let a key be absent afterwards.  A read of it
returns that it is not there if and only if `PRIME` at its primary has an empty slot, a tombstone,
or a slot of its hash, and the reader's cache has no entry for it with the epochs of that slot. -/
theorem absent_read_iff (d : Deployment) (ts : List Turn) (cacheOn : Bool) (key : Key)
    (habsent : ∀ s, ¬ (d.after ts).Live d (d.primarySession (hash64String key)) .prime
      (hash64String key) s) :
    ((readKv (d.client cacheOn).toCluster key).run storeHandler (d.after ts)).1 = .ok none ↔
      ¬ (d.after ts).Crowded d.toCluster (d.primarySession (hash64String key)) .prime
          (hash64String key) ∧
        ¬ (d.after ts).Trusted (d.client cacheOn).toCluster key := by
  have ht : Tidy d (d.after ts) (d.primarySession (hash64String key)) .prime (hash64String key) :=
    rest_after d ts _ _ (by decide)
  rw [run_readKv]
  simp only [Store.readResult]
  cases hp : (d.after ts).probe (d.client cacheOn).toCluster
      ((d.client cacheOn).primarySession (hash64String key)) .prime (hash64String key) with
  | error e =>
      have hcrowded := crowded_of_probe_error (rest_after d ts _ _ (by decide)) hp
      constructor
      · intro h
        cases h
      · rintro ⟨h, _⟩
        exact absurd hcrowded h
  | ok primeProbe =>
      have hroom : ¬ (d.after ts).Crowded d.toCluster (d.primarySession (hash64String key)) .prime
          (hash64String key) := by
        intro h
        obtain ⟨e, he⟩ := h.probe_error
        cases hp.symm.trans he
      simp only [hroom, not_false_eq_true, true_and]
      cases hv : (d.after ts).cacheValue (d.client cacheOn).toCluster key primeProbe with
      | some value =>
          obtain ⟨hon, cacheProbe, hc, hcons, _⟩ := Store.cacheValue_eq_some.mp hv
          constructor
          · intro h
            cases h
          · intro h
            exact absurd ⟨hon, primeProbe, cacheProbe, hp, hc, hcons⟩ h
      | none =>
          have hvalue : primeValue (d.client cacheOn).toCluster key primeProbe = .ok none := by
            have hmissing : (!primeProbe.found || !primeProbe.slot.present (hash64String key)) = true := by
              rcases ht.probe_of_not_live habsent hp with hf | hf <;> simp [hf]
            rw [primeValue, if_pos hmissing]
          simp only [hvalue, true_iff]
          rintro ⟨hon, primeProbe', cacheProbe, hp', hc, hcons⟩
          cases hp.symm.trans hp'
          have hfound : cacheProbe.found = true := by
            simp only [cacheConsistent, Bool.and_eq_true] at hcons
            exact hcons.1.1.1.1
          obtain ⟨value, hdec⟩ := Option.isSome_iff_exists.mp (cache_decodes d ts key hc hfound)
          rw [Store.cacheValue_eq_some.mpr ⟨hon, cacheProbe, hc, hcons, hdec⟩] at hv
          cases hv

/-- A key that was deleted, and has its slot still. -/
theorem absent_read_iff_deleted :
    ((readKv (Deployment.pair.client false).toCluster [97]).run storeHandler
      (Deployment.pair.after [.op true (.mutate (.delete [97])),
        .op true (.mutate (.write [97] [49]))])).1 = .ok none := by
  refine (absent_read_iff .pair _ false [97] ?_).mpr ⟨fun hcrowded => ?_, fun h => by cases h.1⟩
  · rintro s ⟨⟨i, hi, rfl, howner⟩, hlive⟩
    have hi' : i < 2 := hi
    obtain rfl | rfl : i = 0 ∨ i = 1 := by omega
    · exact absurd hlive (by decide +kernel)
    · exact absurd howner (by decide +kernel)
  · exact absurd (hcrowded 0 (by decide +kernel)).2.1 (by decide +kernel)

/-- Both slots are taken by other keys, and a read of a key that was never written fails. -/
theorem absent_read_fails :
    ¬ ∀ (d : Deployment) (ts : List Turn) (cacheOn : Bool) (key : Key),
      (∀ t ∈ ts, ∃ m, t = .op cacheOn (.mutate m)) →
      (∀ mn, 1 ≤ d.slots mn .prime) →
      (∀ s, ¬ (d.after ts).Live d (d.primarySession (hash64String key)) .prime
        (hash64String key) s) →
      ((readKv (d.client cacheOn).toCluster key).run storeHandler (d.after ts)).1 = .ok none := by
  intro h
  have hread := h .pair [.op false (.mutate (.write [99] [50])),
    .op false (.mutate (.write [97] [49]))] false [98] ?_ (fun _ => Nat.le_succ 1) ?_
  · exact absurd hread (by decide +kernel)
  · intro t ht
    rw [List.mem_pair] at ht
    rcases ht with rfl | rfl
    · exact ⟨_, rfl⟩
    · exact ⟨_, rfl⟩
  · rintro s ⟨⟨i, hi, rfl, howner⟩, _⟩
    have hi' : i < 2 := hi
    obtain rfl | rfl : i = 0 ∨ i = 1 := by omega
    · exact absurd howner (by decide +kernel)
    · exact absurd howner (by decide +kernel)

end TeeDist
