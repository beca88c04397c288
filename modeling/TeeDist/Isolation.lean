import TeeDist.CacheReads

/-!
# Keys that stay apart

A slot carries the 64-bit hash of its key and not the key, and `td_crypto_decode_slot` does
not look at the key it is given.  So two keys with one hash are the same key to the store:
a value written under one is read under the other (`keys_collide`).

Keys with different hashes do stay apart (`keys_isolated`).  As long as nothing is written
under the hash of a key, every slot of that hash is a tombstone.  Deletes of such a key take
empty slots and tombstones, which no other key misses.
-/

namespace TeeDist

open Bytes Calls

/-- What a read returns after a history. -/
def Deployment.reads (d : Deployment) (ts : List Turn) (cacheOn : Bool) (key : Key) :
    Except Err (Option Value) :=
  ((readKv (d.client cacheOn).toCluster key).run storeHandler (d.after ts)).1

/-- `td_cluster_write_kv`, and not an update or a delete. -/
def Mutation.isWrite : Mutation → Bool
  | .write _ _ => true
  | _ => false

/-- A key as the console takes it: not empty, and without white space. -/
def Key.Plain (key : Key) : Prop :=
  key ≠ [] ∧ ∀ b ∈ key, b ∉ ([0, 9, 10, 11, 12, 13, 32] : List UInt8)

instance (key : Key) : Decidable (Key.Plain key) := inferInstanceAs (Decidable (_ ∧ _))

/-- A value that a history writes under a key. -/
def WrittenUnder (ts : List Turn) (key : Key) (value : Value) : Prop :=
  ∃ cacheOn, Turn.op cacheOn (.mutate (.write key value)) ∈ ts ∨
    Turn.op cacheOn (.mutate (.update key value)) ∈ ts

/-- No value of `k₁` is read under `k₂`, and no update or delete of `k₂` changes what is read
under `k₁`. -/
structure Isolated (d : Deployment) (ts : List Turn) (k₁ k₂ : Key) : Prop where
  foreign : ∀ cacheOn value, WrittenUnder ts k₁ value → d.reads ts cacheOn k₂ ≠ .ok (some value)
  silent : ∀ cacheOn cacheOn' m, m.key = k₂ → m.isWrite = false →
    d.reads (.op cacheOn (.mutate m) :: ts) cacheOn' k₁ = d.reads ts cacheOn' k₁

/-- Nothing is written under a key hash. -/
def Unwritten (h : UInt64) (ts : List Turn) : Prop :=
  ∀ cacheOn m, Turn.op cacheOn (.mutate m) ∈ ts → m.isWrite = true → hash64String m.key ≠ h

/-! ## Only tombstones -/

section Tombstones

variable {d : Deployment} {ts : List Turn} {h : UInt64}

theorem Unwritten.tail {t : Turn} (hu : Unwritten h (t :: ts)) : Unwritten h ts :=
  fun cacheOn m hm => hu cacheOn m (List.mem_cons_of_mem _ hm)

/-- A slot of the key hash that is zero or committed is a tombstone if the commits are. -/
theorem Logged.tombstone {log : List Commit} {s : Slot}
    (hlog : ∀ c ∈ log, c.slot.keyHash = h → c.slot.tombstone = true) (hs : Logged log s)
    (ho : s.owner = some h) : s.tombstone = true := by
  obtain rfl | ⟨c, hc, rfl⟩ := hs
  · cases ho
  · exact hlog c hc (Slot.owner_eq_some.mp ho).2

/-- The commits under a key hash that nothing is written under are deletes. -/
theorem commits_tombstone :
    ∀ {ts : List Turn}, Unwritten h ts →
      ∀ c ∈ d.commits ts, c.slot.keyHash = h → c.slot.tombstone = true
  | [], _, c, hc, _ => by cases hc
  | t :: ts, hu, c, hc, hk => by
      have ih := commits_tombstone hu.tail
      obtain hnew | hold := List.mem_append.mp hc
      · obtain ⟨hnone, _⟩ | ⟨cacheOn, m, pr, rfl, hp, hcommit, _⟩ := t.prime_cases d (d.after ts)
        · rw [hnone] at hnew
          cases hnew
        rw [hcommit, Option.toList_some, List.mem_singleton] at hnew
        subst hnew
        have hkey : hash64String m.key = h := hk
        cases m with
        | write key value => exact absurd hkey (hu cacheOn _ List.mem_cons_self rfl)
        | delete key => exact proposal_tombstone ..
        | update key value =>
            exfalso
            simp only [Turn.commit, Mutation.run_prog] at hcommit
            split at hcommit
            next rule _ hok _ =>
              obtain ⟨s, ⟨i, _, hi, ho⟩, hlive⟩ :=
                live_of_update ((rest_after d ts).client cacheOn) hok
              have hlogged := prime_logged d (d.primarySession (hash64String key)) i ts
              have hs : (d.after ts).slot ⟨d.primarySession (hash64String key), .prime, i⟩ = s := hi
              rw [hs] at hlogged
              have htomb := hlogged.tombstone ih (ho.trans (congrArg some hkey))
              rw [hlive] at htomb
              cases htomb
            · cases hcommit
      · exact ih c hold hk

/-- So every slot of `PRIME` and `CACHE` with that key hash is a tombstone. -/
theorem tombstone_of_owner (hu : Unwritten h ts) {a : Addr} (ha : a.kind ≠ .backup)
    (ho : ((d.after ts).slot a).owner = some h) : ((d.after ts).slot a).tombstone = true := by
  obtain ⟨mn, kind, i⟩ := a
  cases kind with
  | prime => exact (prime_logged d mn i ts).tombstone (commits_tombstone hu) ho
  | cache => exact (cache_logged d mn i ts).tombstone (commits_tombstone hu) ho
  | backup => exact absurd rfl ha

/-- A slot that a probe found is in its table. -/
theorem found_not_present (hu : Unwritten h ts) {mn : Nat} {kind : RegionKind}
    (hkind : kind ≠ .backup) {pr : SlotProbe}
    (hp : (d.after ts).probe d.toCluster mn kind h = .ok pr) (hfound : pr.found = true) :
    pr.slot.present h = false := by
  obtain ⟨_, hslot, _, hf⟩ := Store.probe_candidate hp
  obtain ⟨hpr, hv, hk⟩ := hf hfound
  have heq : pr.slot = pr.candidateSlot := by rw [hpr]; rfl
  have htomb : pr.candidateSlot.tombstone = true := by
    rw [hslot] at hv hk ⊢
    exact tombstone_of_owner hu hkind (Slot.owner_eq_some.mpr ⟨hv, hk⟩)
  rw [heq, Slot.present, htomb]
  simp

/-- A key under whose hash nothing is written is not found. -/
theorem reads_unwritten {key : Key} (hu : Unwritten (hash64String key) ts) (cacheOn : Bool)
    (value : Value) : d.reads ts cacheOn key ≠ .ok (some value) := by
  rw [Deployment.reads, run_readKv]
  simp only [Store.readResult]
  intro hread
  split at hread
  · cases hread
  next primeProbe hp =>
    have hp' : (d.after ts).probe d.toCluster (d.primarySession (hash64String key)) .prime
        (hash64String key) = .ok primeProbe := hp
    split at hread
    next v hv =>
      obtain ⟨_, cacheProbe, hc, hcons, _⟩ := Store.cacheValue_eq_some.mp hv
      have hc' : (d.after ts).probe d.toCluster (d.primarySession (hash64String key)) .cache
          (hash64String key) = .ok cacheProbe := hc
      simp only [cacheConsistent, Bool.and_eq_true] at hcons
      have := found_not_present hu (by decide) hc' hcons.1.1.1.1
      rw [hcons.2] at this
      cases this
    next =>
      unfold primeValue at hread
      split at hread
      · cases hread
      next habsent =>
        simp only [Bool.or_eq_true, Bool.not_eq_true', not_or, Bool.not_eq_false] at habsent
        have := found_not_present hu (by decide) hp' habsent.1
        rw [habsent.2] at this
        cases this

end Tombstones

/-! ## Deletes that nobody notices -/

section Silent

variable {d : Deployment} {st st' : Store} {key : Key}

/-- A read without cache looks at one table. -/
theorem readResult_congr
    (h : st'.table (d.primarySession (hash64String key)) .prime =
      st.table (d.primarySession (hash64String key)) .prime) :
    st'.readResult (d.client false).toCluster key = st.readResult (d.client false).toCluster key := by
  rw [Store.readResult_off _ _ _ rfl, Store.readResult_off _ _ _ rfl]
  have hp : st'.probe (d.client false).toCluster
      ((d.client false).primarySession (hash64String key)) .prime (hash64String key) =
      st.probe (d.client false).toCluster
        ((d.client false).primarySession (hash64String key)) .prime (hash64String key) :=
    Store.probe_congr h _
  rw [hp]

/-- A read without cache of a key that is not live, in a table with room for it. -/
theorem readResult_of_room (hr : Rest d st)
    (hl : ∀ s, ¬ st.Live d (d.primarySession (hash64String key)) .prime (hash64String key) s)
    {i : Nat} (hi : i < d.slots (d.primarySession (hash64String key)) .prime) {s : Slot}
    (hs : st.slot ⟨d.primarySession (hash64String key), .prime, i⟩ = s)
    (hroom : s = .zero ∨ s.valid = true ∧ s.tombstone = true) :
    st.readResult (d.client false).toCluster key = .ok none := by
  cases hp : st.probe d.toCluster (d.primarySession (hash64String key)) .prime
      (hash64String key) with
  | error e =>
      -- a probe fails only in a table full of live slots
      obtain ⟨_, htomb, hempty⟩ := crowded_of_probe_error (hr _ .prime (by decide)) hp i hi
      rw [hs] at htomb hempty
      obtain rfl | htomb' := hroom
      · cases hempty
      · exact absurd htomb' htomb
  | ok pr =>
      have hp' : st.probe (d.client false).toCluster
          ((d.client false).primarySession (hash64String key)) .prime (hash64String key) = .ok pr :=
        hp
      have habsent : (!pr.found || !pr.slot.present (hash64String key)) = true := by
        obtain hf | hf := (hr _ .prime (by decide)).probe_of_not_live hl hp <;> simp [hf]
      rw [Store.readResult_off _ _ _ rfl, hp']
      simp only [primeValue, habsent, if_true]

/-- What an update or delete under an unwritten hash takes is empty or a tombstone, and a tombstone
afterwards. -/
theorem silent_slot {ts : List Turn} {m : Mutation} {cacheOn : Bool} {pr : SlotProbe}
    (hu : Unwritten (hash64String m.key) (.op cacheOn (.mutate m) :: ts))
    (hp : (d.after ts).probe d.toCluster (d.primarySession (hash64String m.key)) .prime
      (hash64String m.key) = .ok pr)
    (htable : ∀ mn, (d.after (.op cacheOn (.mutate m) :: ts)).table mn .prime =
      ((d.after ts).setSlot ⟨d.primarySession (hash64String m.key), .prime, pr.candidateSlotIndex⟩
        (d.proposal m.key m.value m.tombstone pr)).table mn .prime) :
    ∃ i < d.slots (d.primarySession (hash64String m.key)) .prime, ∃ s s' : Slot,
      (d.after ts).slot ⟨d.primarySession (hash64String m.key), .prime, i⟩ = s ∧
      (s = .zero ∨ s.valid = true ∧ s.tombstone = true) ∧
      (d.after (.op cacheOn (.mutate m) :: ts)).slot
        ⟨d.primarySession (hash64String m.key), .prime, i⟩ = s' ∧
      s'.valid = true ∧ s'.tombstone = true := by
  have hrest := rest_after d ts
  obtain ⟨i, hi, _, hcase⟩ := (hrest _ .prime (by decide)).probe_cases hp
  have hidx : pr.candidateSlotIndex = i := by
    obtain ⟨rfl, _⟩ | ⟨rfl, _⟩ := hcase <;> rfl
  have hafter : (d.after (.op cacheOn (.mutate m) :: ts)).slot
      ⟨d.primarySession (hash64String m.key), .prime, i⟩ =
      d.proposal m.key m.value m.tombstone pr := by
    have hslot := congrFun (htable (d.primarySession (hash64String m.key))) i
    rw [Store.table_setSlot_self, hidx, Function.update_self] at hslot
    exact hslot
  have htomb : (d.proposal m.key m.value m.tombstone pr).tombstone = true := by
    rw [← hafter]
    refine tombstone_of_owner hu nofun ?_
    rw [hafter]
    exact proposal_owner ..
  refine ⟨i, hi, _, _, rfl, ?_, hafter, proposal_valid .., htomb⟩
  obtain ⟨_, hh⟩ | ⟨_, _, hz | htomb⟩ := hcase
  · exact .inr ⟨(Slot.owner_eq_some.mp hh.owner).1, tombstone_of_owner hu.tail nofun hh.owner⟩
  · exact .inl hz
  · by_cases hv : ((d.after ts).slot ⟨d.primarySession (hash64String m.key), .prime, i⟩).valid = true
    · exact .inr ⟨hv, htomb⟩
    · exact .inl (((hrest _ .prime (by decide) (h := 0)).calm i).zero
        (Bool.eq_false_of_not_eq_true hv))

/-- An update or delete under a key hash that nothing is written under changes no read without
cache of another key hash. -/
theorem reads_silent {ts : List Turn} {m : Mutation} {cacheOn : Bool}
    (hhash : hash64String key ≠ hash64String m.key)
    (hu : Unwritten (hash64String m.key) (.op cacheOn (.mutate m) :: ts)) :
    d.reads (.op cacheOn (.mutate m) :: ts) false key = d.reads ts false key := by
  rw [Deployment.reads, Deployment.reads, run_readKv, run_readKv]
  simp only []
  have hrest := rest_after d ts
  have hrest' := rest_after d (.op cacheOn (.mutate m) :: ts)
  obtain ⟨_, hsame⟩ | ⟨_, m', pr, heq, hp, hcommit, htable⟩ :=
    (Turn.op cacheOn (.mutate m)).prime_cases d (d.after ts)
  · exact readResult_congr (hsame _)
  cases heq
  have hlive (s : Slot) : (d.after (.op cacheOn (.mutate m) :: ts)).Live d
        (d.primarySession (hash64String key)) .prime (hash64String key) s ↔
      (d.after ts).Live d (d.primarySession (hash64String key)) .prime (hash64String key) s :=
    Turn.live hrest (by decide) s _ fun key' hkey' => by cases hkey'; exact hhash
  by_cases hmn : d.primarySession (hash64String m.key) = d.primarySession (hash64String key)
  · by_cases hex : ∃ s, (d.after ts).Live d (d.primarySession (hash64String key)) .prime
        (hash64String key) s
    · obtain ⟨s, hs⟩ := hex
      rw [readResult_of_live (hrest _ _ (by decide)) hs,
        readResult_of_live (hrest' _ _ (by decide)) ((hlive s).mpr hs)]
    · have hnone (s : Slot) : ¬ (d.after ts).Live d (d.primarySession (hash64String key)) .prime
          (hash64String key) s := fun hs => hex ⟨s, hs⟩
      obtain ⟨i, hi, s, s', hbefore, hroom, hafter, htomb⟩ := silent_slot hu hp htable
      rw [hmn] at hi hbefore hafter
      rw [readResult_of_room hrest hnone hi hbefore hroom,
        readResult_of_room hrest' (fun s hs => hnone s ((hlive s).mp hs)) hi hafter (.inr htomb)]
  · refine readResult_congr ?_
    refine (htable _).trans (Store.table_setSlot_of_ne _ _ ?_)
    rintro ⟨heq, _⟩
    exact hmn heq

end Silent

/-- Keys whose hashes differ stay apart.  As long as nothing is written under the hash of `k₂`, a
read of `k₂` finds nothing, and no update or delete of `k₂` changes what a read of `k₁` returns.
A read through a cache is the same read only where epochs do not restart. -/
theorem keys_isolated (d : Deployment) (ts : List Turn) (k₁ k₂ : Key)
    (hhash : hash64String k₁ ≠ hash64String k₂) (hu : Unwritten (hash64String k₂) ts) :
    (∀ cacheOn value, d.reads ts cacheOn k₂ ≠ .ok (some value)) ∧
      ∀ cacheOn cacheOn' m, m.key = k₂ → m.isWrite = false →
        (cacheOn' = true → Throughout (KeepsEpochs d) (.op cacheOn (.mutate m) :: ts) ∧
          Throughout (NoWrap d) (.op cacheOn (.mutate m) :: ts)) →
        d.reads (.op cacheOn (.mutate m) :: ts) cacheOn' k₁ = d.reads ts cacheOn' k₁ := by
  refine ⟨reads_unwritten hu, fun cacheOn cacheOn' m hkey hwrite hcache => ?_⟩
  subst hkey
  have hu' : Unwritten (hash64String m.key) (.op cacheOn (.mutate m) :: ts) := by
    intro cacheOn'' m' hm' hwrite'
    obtain heq | hm' := List.mem_cons.mp hm'
    · cases heq
      rw [hwrite] at hwrite'
      cases hwrite'
    · exact hu cacheOn'' m' hm' hwrite'
  have hsilent := @reads_silent d k₁ ts m cacheOn hhash hu'
  cases cacheOn' with
  | false => exact hsilent
  | true =>
      obtain ⟨hkeep, hwrap⟩ := hcache rfl
      calc d.reads (.op cacheOn (.mutate m) :: ts) true k₁
          = d.reads (.op cacheOn (.mutate m) :: ts) false k₁ := cache_transparent d _ k₁ hkeep hwrap
        _ = d.reads ts false k₁ := hsilent
        _ = d.reads ts true k₁ := (cache_transparent d _ k₁ hkeep.2 hwrap.2).symm

/-- A key is deleted that was never written, next to another one. -/
theorem keys_isolated_delete :
    Deployment.pair.reads [.op true (.mutate (.write [97] [49]))] true [97] = .ok (some [49]) ∧
      Deployment.pair.reads [.op true (.mutate (.delete [98])),
        .op true (.mutate (.write [97] [49]))] true [97] =
        Deployment.pair.reads [.op true (.mutate (.write [97] [49]))] true [97] := by
  refine ⟨by decide +kernel, (keys_isolated .pair [.op true (.mutate (.write [97] [49]))] [97] [98]
    (by decide +kernel) ?_).2 true true (.delete [98]) rfl rfl
    fun _ => ⟨by decide +kernel, by decide +kernel⟩⟩
  intro cacheOn m hm _
  rw [List.mem_singleton] at hm
  cases hm
  decide +kernel

/-! ## Keys with one hash -/

/-- `5A1I4_cKZEM`. -/
def twinKey₁ : Key := [53, 65, 49, 73, 52, 95, 99, 75, 90, 69, 77]

/-- `ro6zEG6N_QD`. -/
def twinKey₂ : Key := [114, 111, 54, 122, 69, 71, 54, 78, 95, 81, 68]

example : hash64String twinKey₁ = hash64String twinKey₂ := by decide +kernel

/-- OpenSSL on what it is given to build the slot of the value `1` under `twinKey₁` at epoch 1. -/
def Openssl.twins : Openssl where
  sha256 bs := digest 32 <| (List.lookup bs [
    (twinKey₁ ++ ofUInt64 1,
      0x31964baf232c7796a8ba240be515d9b1a32af3181ca544a585a1ee37bd262ed8),
    (twinKey₁ ++ [49] ++ ofUInt64 1,
      0xb411941245a4daffed8442ac0f54b08b562fb2a238c594b9abc8126da7c8f268)]).getD 0
  hmacSha256 _ bs := digest 32 <| (List.lookup bs [
    ((digest 24 0x40939fa9888765d40100000000000000ffdaa445129411b4).toList ++
      (digest 25 0x010000000100000031964baf232c7796a8ba240be515d9b1f1).toList,
      0x34699fb2afbf3fbf63da74333533399d915e99a9ecc7069480f0cc4d66dfa74e)]).getD 0
  aes256CtrStream _ iv i := (List.lookup (iv, i) [
    ((digest 16 0x31964baf232c7796a8ba240be515d9b1, 0), 0xc0)]).getD 0

/-- A value written under one key is read under another one, that nothing was written under. -/
theorem keys_collide :
    ¬ ∀ (d : Deployment) (ts : List Turn) (k₁ k₂ : Key), k₁ ≠ k₂ → Key.Plain k₁ → Key.Plain k₂ →
        (∀ cacheOn m, Turn.op cacheOn (.mutate m) ∈ ts → m.isWrite = true → m.key ≠ k₂) →
        Isolated d ts k₁ k₂ := by
  intro h
  have hisolated := h (.uniform .twins .sample 1 0 2 2 2)
    [.op false (.mutate (.write twinKey₁ [49]))] twinKey₁ twinKey₂ (by decide) (by decide +kernel)
    (by decide +kernel) fun cacheOn m hm _ => by
      rw [List.mem_singleton] at hm
      cases hm
      decide
  exact hisolated.foreign false [49] ⟨false, .inl List.mem_cons_self⟩ (by decide +kernel)

end TeeDist
