import TeeDist.Commits
import TeeDist.FiniteMap

/-!
# Reads through the cache

A client with cache trusts a `CACHE` slot whose epochs are those of the `PRIME` slot.
This is right when a key hash and an epoch determine the slot.  Every slot of `CACHE`
is zero or was committed in `PRIME` at some time (`cache_logged`), whatever holes
evictions made, so in histories whose turns keep epochs a read gives the same with and
without cache (`cache_transparent`).  Where the epochs of a key restart it need not
(`cache_stale`).
-/

namespace TeeDist

open Calls

/-! ## What is in the cache -/

theorem Store.refresh_slot (st : Store) (cl : Cluster) (key : Key) (s : Slot) (a : Addr) :
    (st.refresh cl key s).slot a = st.slot a ∨ (st.refresh cl key s).slot a = s.committed := by
  unfold Store.refresh
  split
  · split
    · exact Or.inl rfl
    next pr _ =>
      by_cases ha : a = ⟨cl.primarySession (hash64String key), .cache, pr.candidateSlotIndex⟩
      · exact Or.inr (by rw [ha, Store.setSlot_slot_self])
      · exact Or.inl (Store.setSlot_slot_of_ne _ _ ha)
  · exact Or.inl rfl

/-- A read puts at most a slot of `PRIME` into the cache. -/
theorem Store.afterRead_slot (st : Store) (cl : Cluster) (key : Key) (a : Addr) :
    (st.afterRead cl key).slot a = st.slot a ∨
      ∃ i, (st.afterRead cl key).slot a =
        st.slot ⟨cl.primarySession (hash64String key), .prime, i⟩ := by
  unfold Store.afterRead
  split
  · exact Or.inl rfl
  next pr hp =>
    split
    next v hv =>
      have hfound : pr.found = true := by
        unfold primeValue at hv
        split at hv
        · cases hv
        next hn =>
          simp only [Bool.or_eq_true, Bool.not_eq_true', not_or, Bool.not_eq_false] at hn
          exact hn.1
      obtain ⟨_, hs, he, hf⟩ := Store.probe_candidate hp
      have hslot : pr.slot = pr.candidateSlot := by
        rw [(hf hfound).1]
        rfl
      rcases st.refresh_slot cl key pr.slot a with h | h
      · exact Or.inl h
      · refine Or.inr ⟨pr.candidateSlotIndex, ?_⟩
        rw [h, hslot, Slot.committed_eq he, hs]
    · exact Or.inl rfl

/-- A mutation puts at most the slot it commits into the cache. -/
theorem write_cache (cl : Cluster) (st : Store) (key : Key) (value : Value)
    (updateOnly tombstone : Bool) {a : Addr} (ha : a.kind = .cache) :
    (st.write cl key value updateOnly tombstone).2.slot a = st.slot a ∨
      ∃ rule pr, (st.write cl key value updateOnly tombstone).1 = .ok rule ∧
        st.probe cl (cl.primarySession (hash64String key)) .prime (hash64String key) = .ok pr ∧
        (st.write cl key value updateOnly tombstone).2.slot a =
          cl.proposal key value tombstone pr := by
  have hw := st.written cl key value updateOnly tombstone
  generalize st.write cl key value updateOnly tombstone = res at hw
  cases hw with
  | probe _ => exact Or.inl rfl
  | refused _ _ => exact Or.inl rfl
  | long _ _ => exact Or.inl rfl
  | @backup pr e st' _ _ _ hrep =>
      have h := Store.replicate_slot cl (hash64String key) (cl.proposal key value tombstone pr)
        (a := a) (by simp [ha]) cl.backupCount 0 st
      rw [hrep] at h
      exact Or.inl h
  | @done pr st' hp _ _ hrep =>
      have h := Store.replicate_slot cl (hash64String key) (cl.proposal key value tombstone pr)
        (a := a) (by simp [ha]) cl.backupCount 0 st
      rw [hrep] at h
      rcases (st'.setSlot ⟨cl.primarySession (hash64String key), .prime, pr.candidateSlotIndex⟩
        (cl.proposal key value tombstone pr)).refresh_slot cl key
        (cl.proposal key value tombstone pr) a with h' | h'
      · left
        rw [h', Store.setSlot_slot_of_ne _ _ (by rintro rfl; cases ha), h]
      · exact Or.inr ⟨1, pr, rfl, hp, by rw [h', proposal_committed]⟩

theorem Store.evictTurn_slot (st : Store) (mn : Nat) (total : UInt64) (target : Nat) (a : Addr) :
    (st.evictTurn mn total target).2.slot a = st.slot a ∨
      (st.evictTurn mn total target).2.slot a = .zero := by
  unfold Store.evictTurn
  simp only []
  split
  · by_cases ha : a = ⟨mn, .cache, (st.evictionCursor mn % total).toNat⟩
    · exact Or.inr (by rw [ha, Store.setSlot_slot_self])
    · exact Or.inl (Store.setSlot_slot_of_ne _ _ ha)
  · exact Or.inl rfl

theorem Store.evictTurns_slot (mn : Nat) (total : UInt64) (a : Addr) :
    ∀ (fuel target : Nat) {st st' : Store}, Store.evictTurns mn total fuel target st = some st' →
      st'.slot a = st.slot a ∨ st'.slot a = .zero
  | _, 0, st, st', h => by
      rw [Store.evictTurns] at h
      cases h
      exact Or.inl rfl
  | 0, _ + 1, _, _, h => by cases h
  | fuel + 1, target + 1, st, st', h => by
      rcases Store.evictTurns_slot mn total a fuel _ h with h' | h'
      · rw [h']
        exact st.evictTurn_slot mn total (target + 1) a
      · exact Or.inr h'

/-- An eviction only clears slots. -/
theorem Store.evictIfNeeded_slot {mn : Nat} {total : UInt64} {fuel thresholdPct : Nat}
    {st st' : Store} (h : Store.evictIfNeeded mn total fuel thresholdPct st = some st') (a : Addr) :
    st'.slot a = st.slot a ∨ st'.slot a = .zero := by
  unfold Store.evictIfNeeded at h
  split at h
  · cases h
    exact Or.inl rfl
  · split at h
    · cases h
      exact Or.inl rfl
    · obtain ⟨st₁, h₁, rfl⟩ := Option.map_eq_some_iff.mp h
      have hslot := Store.evictTurns_slot mn total a fuel _ h₁
      exact hslot

/-- Every slot of `CACHE` is zero or was committed. -/
theorem cache_logged (d : Deployment) (mn i : Nat) :
    ∀ ts : List Turn, Logged (d.commits ts) ((d.after ts).slot ⟨mn, .cache, i⟩)
  | [] => Or.inl rfl
  | t :: ts => by
      have ih := (cache_logged d mn i ts).append (t.commit d (d.after ts)).toList
      cases t with
      | evict mn' fuel thresholdPct =>
          simp only [Deployment.after, Turn.apply]
          cases h : Store.evictIfNeeded mn' (d.header mn').cacheSlotCount fuel thresholdPct
              (d.after ts) with
          | none => exact ih
          | some st' =>
              rcases Store.evictIfNeeded_slot h ⟨mn, .cache, i⟩ with h' | h'
              · rw [Option.getD_some, h']
                exact ih
              · exact Or.inl h'
      | op cacheOn o =>
          cases o with
          | read key =>
              simp only [Deployment.after, Turn.apply, Op.apply, run_readKv]
              rcases (d.after ts).afterRead_slot (d.client cacheOn).toCluster key ⟨mn, .cache, i⟩
                with h | ⟨i', h⟩
              · rw [h]
                exact ih
              · rw [h]
                exact (prime_logged d _ i' ts).append _
          | mutate m =>
              simp only [Deployment.after, Turn.apply, Op.apply, Mutation.run_prog]
              rcases write_cache (d.client cacheOn).toCluster (d.after ts) m.key m.value m.updateOnly
                m.tombstone (a := ⟨mn, .cache, i⟩) rfl with h | ⟨rule, pr, hok, hp, h⟩
              · rw [h]
                exact ih
              · rw [h]
                have hp' : (d.after ts).probe d.toCluster (d.primarySession (hash64String m.key))
                    .prime (hash64String m.key) = .ok pr := hp
                have hc : (Turn.op cacheOn (.mutate m)).commit d (d.after ts) =
                    some ⟨m, d.proposal m.key m.value m.tombstone pr⟩ := by
                  simp only [Turn.commit, Mutation.run_prog]
                  rw [hok, hp']
                exact Or.inr ⟨_, List.mem_append_left _ (by rw [hc]; exact List.mem_singleton_self _),
                  rfl⟩

/-! ## Transparency -/

/-- A cache slot that validates against the `PRIME` slot is that slot. -/
theorem cache_eq_prime (d : Deployment) {ts : List Turn}
    (hkeep : Throughout (KeepsEpochs d) ts) (hwrap : Throughout (NoWrap d) ts) {h : UInt64} {mn : Nat}
    {cacheProbe primeProbe : SlotProbe}
    (hc : (d.after ts).probe d.toCluster mn .cache h = .ok cacheProbe)
    (hp : (d.after ts).probe d.toCluster mn .prime h = .ok primeProbe)
    (hcons : cacheConsistent h cacheProbe primeProbe = true) :
    cacheProbe.slot = primeProbe.slot := by
  simp only [cacheConsistent, Bool.and_eq_true, beq_iff_eq] at hcons
  obtain ⟨⟨⟨⟨hcf, hpf⟩, _⟩, he⟩, _⟩ := hcons
  obtain ⟨_, hcs, _, hcfound⟩ := Store.probe_candidate hc
  obtain ⟨_, hps, _, hpfound⟩ := Store.probe_candidate hp
  obtain ⟨hceq, hcv, hck⟩ := hcfound hcf
  obtain ⟨hpeq, hpv, hpk⟩ := hpfound hpf
  have hcslot : cacheProbe.slot = cacheProbe.candidateSlot := by rw [hceq]; rfl
  have hpslot : primeProbe.slot = primeProbe.candidateSlot := by rw [hpeq]; rfl
  rw [hcslot, hpslot] at he ⊢
  have hzero : Slot.zero.valid = false := by decide
  rcases cache_logged d mn cacheProbe.candidateSlotIndex ts with hz | ⟨c, hcm, hce⟩
  · rw [← hcs] at hz
    rw [hz, hzero] at hcv
    cases hcv
  rcases prime_logged d mn primeProbe.candidateSlotIndex ts with hz | ⟨c', hcm', hce'⟩
  · rw [← hps] at hz
    rw [hz, hzero] at hpv
    cases hpv
  rw [← hcs] at hce
  rw [← hps] at hce'
  have heq := commit_unique d hkeep hwrap hcm hcm' (by rw [hce, hce', hck, hpk])
    (by rw [hce, hce', he])
  rw [← hce, ← hce', heq]

/-- Cache transparency.  After every history of clients with and without cache and of
evictions, all of whose turns keep epochs, a read returns the same with and without
cache. -/
theorem cache_transparent (d : Deployment) (ts : List Turn) (key : Key)
    (hkeep : Throughout (KeepsEpochs d) ts) (hwrap : Throughout (NoWrap d) ts) :
    ((readKv (d.client true).toCluster key).run storeHandler (d.after ts)).1 =
      ((readKv (d.client false).toCluster key).run storeHandler (d.after ts)).1 := by
  rw [run_readKv, run_readKv]
  simp only []
  rw [Store.readResult_off (d.after ts) (d.client false).toCluster key rfl]
  unfold Store.readResult
  have hprime : (d.after ts).probe (d.client true).toCluster
      ((d.client true).primarySession (hash64String key)) .prime (hash64String key) =
      (d.after ts).probe (d.client false).toCluster
        ((d.client false).primarySession (hash64String key)) .prime (hash64String key) := rfl
  rw [hprime]
  cases hp : (d.after ts).probe (d.client false).toCluster
      ((d.client false).primarySession (hash64String key)) .prime (hash64String key) with
  | error e => rfl
  | ok primeProbe =>
      cases hv : (d.after ts).cacheValue (d.client true).toCluster key primeProbe with
      | none =>
          simp only [hv]
          rfl
      | some value =>
          -- The cache was trusted: its slot is the slot of `PRIME`, and decodes to the value.
          obtain ⟨_, cacheProbe, hc, hcons, hdec⟩ := Store.cacheValue_eq_some.mp hv
          have heq := cache_eq_prime d hkeep hwrap hc hp hcons
          simp only [cacheConsistent, Bool.and_eq_true] at hcons
          have hfound := hcons.1.1.1.2
          have hpresent := hcons.2
          rw [heq] at hdec hpresent
          have hdec' : decodeSlot (d.client false).ssl (d.client false).crypto key
              primeProbe.slot = some value := hdec
          simp only [hv, primeValue, hfound, hpresent, hdec', Bool.not_true, Bool.or_self,
            Bool.false_eq_true, if_false]

/-- A value is written through the cache, evicted, and read into the cache again. -/
theorem cache_transparent_evict :
    ((readKv (Deployment.sample.client true).toCluster [97]).run storeHandler
        (Deployment.sample.after [.op true (.read [97]), .evict 0 4 50,
          .op true (.mutate (.write [97] [49]))])).1 =
      ((readKv (Deployment.sample.client false).toCluster [97]).run storeHandler
        (Deployment.sample.after [.op true (.read [97]), .evict 0 4 50,
          .op true (.mutate (.write [97] [49]))])).1 :=
  cache_transparent .sample _ [97] (by decide +kernel) (by decide +kernel)

/-- The cache can be stale.  A client with cache writes `a`, so that the value is cached
at epoch 1.  Clients without cache delete `a`, let key `c` take over its tombstone, and
write `a` again, at epoch 1 of an empty slot.  The client with cache reads the old value. -/
theorem cache_stale :
    ¬ ∀ (d : Deployment) (ts : List Turn) (key : Key), DistinctHashes (key :: turnKeys ts) →
      ((readKv (d.client true).toCluster key).run storeHandler (d.after ts)).1 =
        ((readKv (d.client false).toCluster key).run storeHandler (d.after ts)).1 := by
  intro h
  have hsame := h .pair [.op false (.mutate (.write [97] [50])),
    .op false (.mutate (.write [99] [49])), .op false (.mutate (.delete [97])),
    .op true (.mutate (.write [97] [49]))] [97] (by decide +kernel)
  have hold : ((readKv (Deployment.pair.client true).toCluster [97]).run storeHandler
      (Deployment.pair.after [.op false (.mutate (.write [97] [50])),
        .op false (.mutate (.write [99] [49])), .op false (.mutate (.delete [97])),
        .op true (.mutate (.write [97] [49]))])).1 = .ok (some [49]) := by decide +kernel
  have hnew : ((readKv (Deployment.pair.client false).toCluster [97]).run storeHandler
      (Deployment.pair.after [.op false (.mutate (.write [97] [50])),
        .op false (.mutate (.write [99] [49])), .op false (.mutate (.delete [97])),
        .op true (.mutate (.write [97] [49]))])).1 = .ok (some [50]) := by decide +kernel
  rw [hold, hnew] at hsame
  exact absurd hsame (by decide)

end TeeDist
