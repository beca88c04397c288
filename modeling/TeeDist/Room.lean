import TeeDist.FiniteMap

/-!
# A deployment with room

A dictionary has no slots.  `Turn.on` says what a turn does to a dictionary, and
`Mutation.answerOn` what a mutation answers there.  A deployment has *room* for keys if
the `PRIME` and `BACKUP` tables have as many slots as keys are placed in them
(`Deployment.Room`).  This is just what makes it a dictionary (`room_iff_dictionary`):
with room no probe fails (`Settled.probe`), since all slots but the one of the key would
have to belong to the other keys.  Without it, the writes of all keys one after the other
would need more slots than some table has, and one of them fails (`write_fails_of_not_room`).
-/

namespace TeeDist

open Calls Probing

/-! ## Dictionaries -/

/-- What a mutation answers on a dictionary. -/
def Mutation.answerOn (m : Mutation) (map : Key → Option Value) : Except Err Nat :=
  if m.updateOnly && (map m.key).isNone then .error (.updateNotFound m.key)
  else if maxValueSize < m.value.length then .error .prepare
  else .ok 1

/-- What a mutation does to a dictionary. -/
def Mutation.on (m : Mutation) (map : Key → Option Value) : Key → Option Value :=
  match m.answerOn map with
  | .ok _ => m.applyTo map
  | .error _ => map

/-- What a turn does to a dictionary.  Reads and evictions do nothing. -/
def Turn.on : Turn → (Key → Option Value) → Key → Option Value
  | .op _ (.mutate m), map => m.on map
  | _, map => map

/-- The dictionary after a history. -/
def dictAfter : List Turn → Key → Option Value
  | [] => fun _ => none
  | t :: ts => t.on (dictAfter ts)

/-! ## Room -/

/-- A key hash is placed in a table. -/
def Deployment.Places (d : Deployment) (mn : Nat) (kind : RegionKind) (h : UInt64) : Prop :=
  match kind with
  | .prime => d.primarySession h = mn
  | .backup => ∃ j < d.backupCount, d.replicaSession h (j + 1) = mn
  | .cache => False

instance (d : Deployment) (mn : Nat) (kind : RegionKind) (h : UInt64) :
    Decidable (d.Places mn kind h) := by
  cases kind with
  | prime => exact inferInstanceAs (Decidable (_ = _))
  | cache => exact inferInstanceAs (Decidable False)
  | backup => exact inferInstanceAs (Decidable (∃ j < _, _))

/-- The hashes of the keys that are placed in a table. -/
def Deployment.placedHashes (d : Deployment) (keys : List Key) (mn : Nat) (kind : RegionKind) :
    List UInt64 :=
  (keys.map hash64String).filter fun h => decide (d.Places mn kind h)

/-- No table has fewer slots than keys are placed in it. -/
def Deployment.Room (d : Deployment) (keys : List Key) : Prop :=
  ∀ mn < d.sessionCount, ∀ kind ∈ [RegionKind.prime, .backup],
    (d.placedHashes keys mn kind).length ≤ d.slots mn kind

instance (d : Deployment) (keys : List Key) : Decidable (d.Room keys) :=
  inferInstanceAs (Decidable (∀ mn < d.sessionCount, ∀ kind ∈ [RegionKind.prime, .backup], _ ≤ _))

/-- A key is placed at the memory nodes of the deployment. -/
theorem Deployment.Places.bounds {d : Deployment} {mn : Nat} {kind : RegionKind} {h : UInt64}
    (hp : d.Places mn kind h) : mn < d.sessionCount ∧ kind ∈ [RegionKind.prime, .backup] := by
  have hpos := d.sessionCount_pos
  cases kind with
  | cache => exact hp.elim
  | prime =>
      obtain rfl : d.primarySession h = mn := hp
      exact ⟨Nat.mod_lt _ hpos, by simp⟩
  | backup =>
      obtain ⟨j, -, rfl⟩ : ∃ j < d.backupCount, d.replicaSession h (j + 1) = mn := hp
      exact ⟨Nat.mod_lt _ hpos, by simp⟩

theorem mem_placedHashes {d : Deployment} {keys : List Key} {mn : Nat} {kind : RegionKind}
    {h : UInt64} :
    h ∈ d.placedHashes keys mn kind ↔ h ∈ keys.map hash64String ∧ d.Places mn kind h := by
  simp [Deployment.placedHashes]

/-! ## Slots belong to the keys -/

/-- Outside the caches, slots belong to keys of a list, and to keys that are placed there. -/
def Settled (d : Deployment) (keys : List Key) (st : Store) : Prop :=
  ∀ mn kind, kind ≠ .cache → ∀ h s, st.Holds d mn kind h s → h ∈ d.placedHashes keys mn kind

theorem settled_fresh (d : Deployment) (keys : List Key) : Settled d keys .fresh :=
  fun mn kind _ h s hs => (not_holds_fresh d mn kind h s hs).elim

section Settled

variable {d : Deployment} {keys : List Key} {st st' : Store}

theorem Settled.congr (h : st.SameTables st') (hs : Settled d keys st) : Settled d keys st' :=
  fun mn kind hk k s hh => hs mn kind hk k s ((Store.holds_congr (h mn kind hk)).mp hh)

/-- A commit of a key where it is placed. -/
theorem Settled.setSlot {mn : Nat} {kind : RegionKind} {i : Nat} {h : UInt64} {p : Slot}
    (hs : Settled d keys st) (ho : p.owner = some h) (hh : h ∈ d.placedHashes keys mn kind) :
    Settled d keys (st.setSlot ⟨mn, kind, i⟩ p) := by
  intro mn' kind' hk' k s hks
  by_cases ht : mn = mn' ∧ kind = kind'
  · obtain ⟨rfl, rfl⟩ := ht
    by_cases hk : k = h
    · rwa [hk]
    · exact hs mn kind hk' k s (Store.holds_of_commit ho hk hks)
  · exact hs mn' kind' hk' k s ((Store.holds_congr (st.table_setSlot_of_ne p ht)).mp hks)

/-- Replication puts the key at its backups. -/
theorem Settled.replicate {h : UInt64} {p : Slot} (hcalm : ∀ k, p.Calm k) (ho : p.owner = some h)
    (hmem : h ∈ keys.map hash64String) :
    ∀ (left idx : Nat) {st : Store}, idx + left = d.backupCount → Settled d keys st →
      Settled d keys (Store.replicate d.toCluster h p left idx st).2
  | 0, _, _, _, hs => hs
  | left + 1, idx, st, hidx, hs => by
      unfold Store.replicate
      rw [Slot.committed_eq ((hcalm h).epochs ho)]
      split
      · exact hs
      · apply Settled.replicate hcalm ho hmem left (idx + 1) (by omega)
        exact hs.setSlot ho (mem_placedHashes.mpr ⟨hmem, idx, by omega, rfl⟩)

/-- A mutation of one of the keys. -/
theorem Settled.write (hs : Settled d keys st) {key : Key} (hkey : key ∈ keys) (value : Value)
    (updateOnly tombstone : Bool) :
    Settled d keys (st.write d.toCluster key value updateOnly tombstone).2 := by
  have hmem : hash64String key ∈ keys.map hash64String := List.mem_map_of_mem hkey
  have hw := st.written d.toCluster key value updateOnly tombstone
  generalize st.write d.toCluster key value updateOnly tombstone = res at hw
  have hback : ∀ {pr e st'}, Store.replicate d.toCluster (hash64String key)
      (d.proposal key value tombstone pr) d.backupCount 0 st = (e, st') → Settled d keys st' := by
    intro pr e st' hrep
    have := hs.replicate (proposal_calm d.toCluster key value tombstone pr) (proposal_owner ..) hmem
      d.backupCount 0 (Nat.zero_add _)
    rwa [hrep] at this
  cases hw with
  | probe _ => exact hs
  | refused _ _ => exact hs
  | long _ _ => exact hs
  | backup _ _ _ hrep => exact hback hrep
  | done _ _ _ hrep =>
      refine ((hback hrep).setSlot (proposal_owner ..) ?_).congr (Store.refresh_sameTables _ _ _ _)
      exact mem_placedHashes.mpr ⟨hmem, rfl⟩

/-- With room a probe for one of the keys finds a slot. -/
theorem Settled.probe (hs : Settled d keys st) (hr : Rest d st) (hroom : d.Room keys) {mn : Nat}
    {kind : RegionKind} {key : Key} (hkey : key ∈ keys) (hp : d.Places mn kind (hash64String key)) :
    ∃ pr, st.probe d.toCluster mn kind (hash64String key) = .ok pr := by
  obtain ⟨hmn, hkind⟩ := hp.bounds
  have hcache : kind ≠ .cache := by
    rintro rfl
    simp at hkind
  cases hprobe : st.probe d.toCluster mn kind (hash64String key) with
  | ok pr => exact ⟨pr, rfl⟩
  | error e =>
      have ht : Tidy d st mn kind (hash64String key) := hr mn kind hcache
      have hmem : hash64String key ∈ d.placedHashes keys mn kind :=
        mem_placedHashes.mpr ⟨List.mem_map_of_mem hkey, hp⟩
      -- every slot belongs to one of the other keys, and these are fewer than the slots
      have hle : d.slots mn kind ≤ ((d.placedHashes keys mn kind).erase (hash64String key)).length := by
        refine ht.placed.slots_le fun i hi => ?_
        obtain ⟨hv, hne, -⟩ := ht.probe_error hprobe i hi
        have ho : (st.table mn kind i).owner = some (st.table mn kind i).keyHash :=
          Slot.owner_eq_some.mpr ⟨hv, rfl⟩
        have hin := hs mn kind hcache _ _ ⟨i, hi, rfl, ho⟩
        exact ⟨_, (List.mem_erase_of_ne hne).mpr hin, ho⟩
      have hroom := hroom mn hmn kind hkind
      have hpos := List.length_pos_of_mem hmem
      rw [List.length_erase_of_mem hmem] at hle
      omega

end Settled

/-! ## One key -/

/-- A probe for the key finds a slot wherever the key is placed. -/
def Ready (d : Deployment) (st : Store) (key : Key) : Prop :=
  ∀ mn kind, d.Places mn kind (hash64String key) →
    ∃ pr, st.probe d.toCluster mn kind (hash64String key) = .ok pr

/-- The tables say about a key what a dictionary says. -/
structure Keeps (d : Deployment) (st : Store) (map : Key → Option Value) (key : Key) : Prop where
  represents : Represents d st map key
  stocked : (map key).isSome → ∀ mn kind, d.Places mn kind (hash64String key) →
    ∃ s, st.Live d mn kind (hash64String key) s

section Key

variable {d : Deployment} {st : Store} {map : Key → Option Value} {key : Key}

theorem Deployment.Places.kind_ne {mn : Nat} {kind : RegionKind} {h : UInt64}
    (hp : d.Places mn kind h) : kind ≠ .cache := by
  rintro rfl
  exact hp

/-- Only the live slots of the key matter. -/
theorem Keeps.congr {st' : Store} {map' : Key → Option Value} (hmap : map' key = map key)
    (hlive : ∀ mn kind, kind ≠ .cache → ∀ s,
      st'.Live d mn kind (hash64String key) s ↔ st.Live d mn kind (hash64String key) s)
    (h : Keeps d st map key) : Keeps d st' map' key where
  represents := h.represents.congr hmap fun s => hlive _ .prime (by decide) s
  stocked hsome mn kind hp := by
    rw [hmap] at hsome
    obtain ⟨s, hs⟩ := h.stocked hsome mn kind hp
    exact ⟨s, (hlive mn kind hp.kind_ne s).mpr hs⟩

/-- What a mutation of a key that is ready returns.  One that fails does nothing. -/
theorem Ready.answer {m : Mutation} (hready : Ready d st m.key) (hr : Rest d st)
    (hrep : Represents d st map m.key) :
    (st.write d.toCluster m.key m.value m.updateOnly m.tombstone).1 = m.answerOn map ∧
      ∀ e, m.answerOn map = .error e →
        (st.write d.toCluster m.key m.value m.updateOnly m.tombstone).2 = st := by
  have ht : Tidy d st (d.primarySession (hash64String m.key)) .prime (hash64String m.key) :=
    hr _ _ (by decide)
  obtain ⟨pr, hp⟩ := hready (d.primarySession (hash64String m.key)) .prime rfl
  have hrefuses : updateRefuses m.updateOnly (hash64String m.key) pr =
      (m.updateOnly && (map m.key).isNone) := by
    unfold Represents at hrep
    cases hmap : map m.key with
    | none =>
        rw [hmap] at hrep
        have habsent : (!pr.found || pr.tombstone || !pr.slot.present (hash64String m.key)) = true := by
          rcases ht.probe_of_not_live hrep hp with hf | hf <;> simp [hf]
        rw [updateRefuses, habsent]
        rfl
    | some value =>
        rw [hmap] at hrep
        obtain ⟨-, epoch, hl⟩ := hrep
        obtain ⟨i, hfound, -⟩ := ht.probe_of_holds hl.1
        rw [hp, Except.ok.injEq] at hfound
        subst hfound
        simp [updateRefuses, foundProbe, ht.present hl, hl.2]
  rw [Store.write, hp]
  simp only [hrefuses, Mutation.answerOn]
  by_cases hu : (m.updateOnly && (map m.key).isNone) = true
  · simp [hu]
  · rw [if_neg hu, if_neg hu]
    by_cases hlen : maxValueSize < m.value.length
    · simp [hlen]
    · rw [if_neg hlen, if_neg hlen, Store.commitWrite]
      cases hloop : Store.replicate d.toCluster (hash64String m.key)
          (d.proposal m.key m.value m.tombstone pr) d.backupCount 0 st with
      | mk e st' =>
          cases e with
          | none => exact ⟨rfl, fun e he => by cases he⟩
          | some e =>
              obtain ⟨j, hj, he⟩ := replicate_error (proposal_calm _ _ _ _ _) (proposal_owner ..)
                d.backupCount 0 hr hloop
              obtain ⟨pr', hpr'⟩ := hready (d.replicaSession (hash64String m.key) (j + 1)) .backup
                ⟨j, hj, rfl⟩
              rw [Nat.zero_add, hpr'] at he
              cases he

/-- What a read without cache of a key that is ready returns. -/
theorem Ready.read (hready : Ready d st key) (hr : Rest d st) (hrep : Represents d st map key) :
    st.readResult (d.client false).toCluster key = .ok (map key) := by
  have ht : Tidy d st (d.primarySession (hash64String key)) .prime (hash64String key) :=
    hr _ _ (by decide)
  unfold Represents at hrep
  cases hmap : map key with
  | none =>
      rw [hmap] at hrep
      obtain ⟨pr, hp⟩ := hready (d.primarySession (hash64String key)) .prime rfl
      have habsent : (!pr.found || !pr.slot.present (hash64String key)) = true := by
        rcases ht.probe_of_not_live hrep hp with hf | hf <;> simp [hf]
      have hp' : st.probe (d.client false).toCluster
          ((d.client false).primarySession (hash64String key)) .prime (hash64String key) = .ok pr := hp
      rw [Store.readResult_off st _ key rfl, hp']
      simp only [primeValue, habsent, if_true]
  | some value =>
      rw [hmap] at hrep
      obtain ⟨hlen, epoch, hl⟩ := hrep
      rw [readResult_of_live ht hl, decodeSlot_builtSlot d.ssl d.crypto key slotFlagValid epoch
        key hlen (by rw [builtSlot_valid]; decide)]

/-- A mutation that wrote a value puts its key into every table where it is placed. -/
theorem live_of_ok (hr : Rest d st) {m : Mutation} {rule : Nat}
    (hok : (st.write d.toCluster m.key m.value m.updateOnly m.tombstone).1 = .ok rule)
    (htomb : m.tombstone = false) {mn : Nat} {kind : RegionKind}
    (hp : d.Places mn kind (hash64String m.key)) :
    ∃ s, (st.write d.toCluster m.key m.value m.updateOnly m.tombstone).2.Live d mn kind
      (hash64String m.key) s := by
  obtain ⟨pr, _, _, _, hprime, hback⟩ := write_ok hr hok
  have hlive : (d.proposal m.key m.value m.tombstone pr).tombstone = false := by
    rw [proposal_tombstone, htomb]
  cases kind with
  | cache => exact hp.elim
  | prime =>
      obtain rfl : d.primarySession (hash64String m.key) = mn := hp
      exact ⟨_, hprime, hlive⟩
  | backup =>
      obtain ⟨j, hj, rfl⟩ :
        ∃ j < d.backupCount, d.replicaSession (hash64String m.key) (j + 1) = mn := hp
      exact ⟨_, hback j hj, hlive⟩

/-- A mutation that succeeds leaves what it says. -/
theorem keeps_of_ok (hr : Rest d st) {m : Mutation} {rule : Nat}
    (hok : (st.write d.toCluster m.key m.value m.updateOnly m.tombstone).1 = .ok rule) :
    Keeps d (st.write d.toCluster m.key m.value m.updateOnly m.tombstone).2 (m.applyTo map)
      m.key := by
  obtain ⟨pr, _, _, hlen, hh, _⟩ := write_ok hr hok
  have hrest := (write_frame hr m.key m.value m.updateOnly m.tombstone).rest
  have hmap : m.applyTo map m.key = if m.tombstone then none else some m.value :=
    Function.update_self ..
  constructor
  · generalize (st.write d.toCluster m.key m.value m.updateOnly m.tombstone).2 = st' at hh hrest ⊢
    unfold Represents
    rw [hmap]
    cases htomb : m.tombstone with
    | true =>
        rintro s ⟨hs, hf⟩
        rw [(hrest _ .prime (by decide)).holds_unique hs hh, proposal_tombstone, htomb] at hf
        cases hf
    | false =>
        rw [htomb] at hh
        refine ⟨hlen, pr.candidateSlot.guardEpoch + 1, hh, ?_⟩
        exact proposal_tombstone d.toCluster m.key m.value false pr
  · intro hsome mn kind hp
    refine live_of_ok hr hok ?_ hp
    rw [hmap] at hsome
    by_contra htomb
    rw [if_pos (by simpa using htomb)] at hsome
    cases hsome

/-- A mutation of a key that is ready, on the tables and on the dictionary. -/
theorem Keeps.mutate {m : Mutation} (h : Keeps d st map key) (hr : Rest d st)
    (hkeep : Keeps d st map m.key) (hready : Ready d st m.key)
    (hdist : hash64String key = hash64String m.key → key = m.key) :
    Keeps d (st.write d.toCluster m.key m.value m.updateOnly m.tombstone).2 (m.on map) key := by
  obtain ⟨hans, hsame⟩ := hready.answer hr hkeep.represents
  by_cases hk : key = m.key
  · subst hk
    rw [Mutation.on]
    cases ha : m.answerOn map with
    | error e =>
        rw [hsame e ha]
        exact hkeep
    | ok rule =>
        rw [ha] at hans
        exact keeps_of_ok hr hans
  · refine h.congr ?_ fun mn kind hkind s => ?_
    · rw [Mutation.on]
      cases m.answerOn map with
      | error e => rfl
      | ok rule => exact Function.update_of_ne hk ..
    · exact (write_frame hr m.key m.value m.updateOnly m.tombstone).live mn kind _ s hkind
        fun he => hk (hdist he)

end Key

/-! ## All keys -/

/-- The state between turns of a deployment that is a dictionary: it is at rest, slots
belong to the keys, and the tables say about them what the dictionary says. -/
structure Serves (d : Deployment) (keys : List Key) (st : Store) (map : Key → Option Value) :
    Prop where
  rest : Rest d st
  settled : Settled d keys st
  keeps : ∀ key ∈ keys, Keeps d st map key

theorem serves_fresh (d : Deployment) (keys : List Key) : Serves d keys .fresh fun _ => none where
  rest := rest_fresh d
  settled := settled_fresh d keys
  keeps _ _ := ⟨fun s hs => not_holds_fresh d _ _ _ s hs.1, nofun⟩

section Serves

variable {d : Deployment} {keys : List Key} {st : Store} {map : Key → Option Value}

/-- A change of caches. -/
theorem Serves.congr {st' : Store} (h : st.SameTables st') (hs : Serves d keys st map) :
    Serves d keys st' map where
  rest := hs.rest.congr h
  settled := hs.settled.congr h
  keeps key hkey := (hs.keeps key hkey).congr rfl fun mn kind hk _ =>
    Store.live_congr (h mn kind hk)

/-- With room all keys are ready. -/
theorem Serves.ready (hs : Serves d keys st map) (hroom : d.Room keys) {key : Key}
    (hkey : key ∈ keys) : Ready d st key :=
  fun _ _ hp => hs.settled.probe hs.rest hroom hkey hp

theorem Serves.answer (hs : Serves d keys st map) (hroom : d.Room keys) (m : Mutation)
    (hkey : m.key ∈ keys) :
    (st.write d.toCluster m.key m.value m.updateOnly m.tombstone).1 = m.answerOn map :=
  ((hs.ready hroom hkey).answer hs.rest (hs.keeps _ hkey).represents).1

theorem Serves.read (hs : Serves d keys st map) (hroom : d.Room keys) {key : Key} (hkey : key ∈ keys) :
    st.readResult (d.client false).toCluster key = .ok (map key) :=
  (hs.ready hroom hkey).read hs.rest (hs.keeps _ hkey).represents

/-- A mutation, on the store and on the dictionary. -/
theorem Serves.mutate (hs : Serves d keys st map) (hroom : d.Room keys) (hdist : DistinctHashes keys)
    (m : Mutation) (hkey : m.key ∈ keys) :
    Serves d keys (st.write d.toCluster m.key m.value m.updateOnly m.tombstone).2 (m.on map) where
  rest := (write_frame hs.rest m.key m.value m.updateOnly m.tombstone).rest
  settled := hs.settled.write hkey m.value m.updateOnly m.tombstone
  keeps key hkey' := (hs.keeps key hkey').mutate hs.rest (hs.keeps _ hkey) (hs.ready hroom hkey)
    (hdist _ hkey' _ hkey)

/-- The state does not depend on the client that looks. -/
theorem Serves.client (hs : Serves d keys st map) (cacheOn : Bool) :
    Serves (d.client cacheOn) keys st map :=
  ⟨hs.rest.client cacheOn, hs.settled, fun key hkey =>
    ⟨(hs.keeps key hkey).represents, (hs.keeps key hkey).stocked⟩⟩

theorem Serves.of_client {cacheOn : Bool} (hs : Serves (d.client cacheOn) keys st map) :
    Serves d keys st map :=
  ⟨hs.rest.of_client, hs.settled, fun key hkey =>
    ⟨(hs.keeps key hkey).represents, (hs.keeps key hkey).stocked⟩⟩

/-- A turn, on the store and on the dictionary. -/
theorem Turn.serves (hs : Serves d keys st map) (hroom : d.Room keys) (hdist : DistinctHashes keys) :
    ∀ t : Turn, (∀ key ∈ t.mutated, key ∈ keys) → Serves d keys (t.apply d st) (t.on map)
  | .op cacheOn (.read key), _ => by
      simp only [Turn.apply, Op.apply, run_readKv, Turn.on]
      exact hs.congr (st.afterRead_sameTables _ key)
  | .op cacheOn (.mutate m), hkey => by
      simp only [Turn.apply, Op.apply, Mutation.run_prog, Turn.on]
      exact ((hs.client cacheOn).mutate hroom hdist m (hkey m.key rfl)).of_client
  | .evict mn fuel thresholdPct, _ => by
      simp only [Turn.apply, Turn.on]
      cases h : Store.evictIfNeeded mn (d.header mn).cacheSlotCount fuel thresholdPct st with
      | none => exact hs
      | some st' => exact hs.congr (Store.evictIfNeeded_sameTables h)

end Serves

/-- The keys that a history changes are among `keys`. -/
def Changes (keys : List Key) (ts : List Turn) : Prop := ∀ t ∈ ts, ∀ key ∈ t.mutated, key ∈ keys

instance (keys : List Key) (ts : List Turn) : Decidable (Changes keys ts) :=
  inferInstanceAs (Decidable (∀ t ∈ ts, ∀ key ∈ t.mutated, key ∈ keys))

theorem serves_after (d : Deployment) {keys : List Key} (hroom : d.Room keys)
    (hdist : DistinctHashes keys) :
    ∀ ts : List Turn, Changes keys ts → Serves d keys (d.after ts) (dictAfter ts)
  | [], _ => serves_fresh d keys
  | t :: ts, hts =>
      t.serves (serves_after d hroom hdist ts fun t' ht' => hts t' (List.mem_cons_of_mem _ ht'))
        hroom hdist (hts t List.mem_cons_self)

/-! ## Room is needed -/

/-- Writes of all keys, one after the other. -/
def fill (keys : List Key) : List Turn := keys.map fun key => .op false (.mutate (.write key []))

theorem changes_fill {keys keys' : List Key} (h : ∀ key ∈ keys, key ∈ keys') :
    Changes keys' (fill keys) := by
  intro t ht key hkey
  obtain ⟨key', hkey', rfl⟩ := List.mem_map.mp ht
  cases hkey
  exact h _ hkey'

/-- If all writes succeed, all keys are in the tables where they are placed. -/
theorem live_fill {d : Deployment} {keys : List Key} (hdist : DistinctHashes keys)
    (hok : ∀ ks key, key ∈ keys → (∀ k ∈ ks, k ∈ keys) →
      ((d.after (fill ks)).write (d.client false).toCluster key [] false false).1 = .ok 1) :
    ∀ ks : List Key, (∀ k ∈ ks, k ∈ keys) → ∀ key ∈ ks, ∀ mn kind,
      d.Places mn kind (hash64String key) →
      ∃ s, (d.after (fill ks)).Live d mn kind (hash64String key) s
  | [], _, _, hkey, _, _, _ => absurd hkey (by simp)
  | k :: ks, hks, key, hkey, mn, kind, hp => by
      have hks' : ∀ k ∈ ks, k ∈ keys := fun k hk => hks k (List.mem_cons_of_mem _ hk)
      have hrest := rest_after d (fill ks)
      have hst : d.after (fill (k :: ks)) =
          ((d.after (fill ks)).write (d.client false).toCluster k [] false false).2 :=
        congrArg Prod.snd (Mutation.run_prog (d.client false).toCluster (.write k []) _)
      by_cases hk : key = k
      · subst hk
        rw [hst]
        exact live_of_ok (m := .write key []) (hrest.client false)
          (hok ks key (hks _ List.mem_cons_self) hks') rfl hp
      · have hkeys : key ∈ ks := (List.mem_cons.mp hkey).resolve_left hk
        obtain ⟨s, hs⟩ := live_fill hdist hok ks hks' key hkeys mn kind hp
        refine ⟨s, ?_⟩
        have hcache : kind ≠ .cache := by
          rintro rfl
          exact hp
        rw [hst]
        refine ((write_frame (hrest.client false) k [] false false).live mn kind _ s hcache ?_).mpr hs
        exact fun he => hk (hdist _ (hks _ hkey) _ (hks _ List.mem_cons_self) he)

theorem placedHashes_nodup {d : Deployment} {keys : List Key} (hnodup : keys.Nodup)
    (hdist : DistinctHashes keys) (mn : Nat) (kind : RegionKind) :
    (d.placedHashes keys mn kind).Nodup :=
  List.Nodup.filter _ (List.Nodup.map_on (fun k hk k' hk' he => hdist k hk k' hk' he) hnodup)

/-- If all writes of the keys succeed, no table has fewer slots than keys are placed in it. -/
theorem room_of_fill {d : Deployment} {keys : List Key} (hnodup : keys.Nodup)
    (hdist : DistinctHashes keys)
    (hok : ∀ ks key, key ∈ keys → (∀ k ∈ ks, k ∈ keys) →
      ((d.after (fill ks)).write (d.client false).toCluster key [] false false).1 = .ok 1) :
    d.Room keys := by
  intro mn hmn kind hkind
  have howns : ∀ h ∈ d.placedHashes keys mn kind,
      ∃ s, (d.after (fill keys)).Holds d mn kind h s := by
    intro h hh
    obtain ⟨hmem, hp⟩ := mem_placedHashes.mp hh
    obtain ⟨key, hkey, rfl⟩ := List.mem_map.mp hmem
    obtain ⟨s, hs, -⟩ := live_fill hdist hok keys (fun _ h => h) key hkey mn kind hp
    exact ⟨s, hs⟩
  exact owns_length_le (placedHashes_nodup hnodup hdist mn kind) howns

/-- A write that runs alone fails or returns rule 1. -/
theorem Store.write_result (st : Store) (cl : Cluster) (key : Key) (value : Value)
    (updateOnly tombstone : Bool) :
    (∃ e, (st.write cl key value updateOnly tombstone).1 = .error e) ∨
      (st.write cl key value updateOnly tombstone).1 = .ok 1 := by
  unfold Store.write
  split
  next e _ => exact Or.inl ⟨e, rfl⟩
  · split
    · exact Or.inl ⟨_, rfl⟩
    · split
      · exact Or.inl ⟨_, rfl⟩
      · unfold Store.commitWrite
        split
        next e _ _ => exact Or.inl ⟨e, rfl⟩
        · exact Or.inr rfl

/-- Without room some write fails, after writes of other keys of the list. -/
theorem write_fails_of_not_room {d : Deployment} {keys : List Key} (hnodup : keys.Nodup)
    (hdist : DistinctHashes keys) (hroom : ¬ d.Room keys) :
    ∃ ks, (∀ k ∈ ks, k ∈ keys) ∧ ∃ key ∈ keys, ∃ e,
      ((writeKv (d.client false).toCluster key []).run storeHandler (d.after (fill ks))).1 =
        .error e := by
  by_contra hall
  push Not at hall
  refine hroom (room_of_fill hnodup hdist fun ks key hkey hks => ?_)
  refine ((d.after (fill ks)).write_result ..).resolve_left fun ⟨e, he⟩ => ?_
  refine hall ks hks key hkey e ?_
  have hrun := congrArg Prod.fst (Mutation.run_prog (d.client false).toCluster (.write key [])
    (d.after (fill ks)))
  exact hrun.trans he

/-- A deployment whose clients take turns is a dictionary for keys with distinct hashes if and
only if it has room for them.  Then every mutation of such a key, by a client with or without
cache, after any history of operations and evictions, answers what the dictionary answers, and
every read without cache returns what the dictionary has. -/
theorem room_iff_dictionary (d : Deployment) (keys : List Key) (hnodup : keys.Nodup)
    (hdist : DistinctHashes keys) :
    d.Room keys ↔ ∀ ts, Changes keys ts →
      (∀ (cacheOn : Bool) (m : Mutation), m.key ∈ keys →
        ((m.prog (d.client cacheOn).toCluster).run storeHandler (d.after ts)).1 =
          m.answerOn (dictAfter ts)) ∧
      ∀ key ∈ keys, ((readKv (d.client false).toCluster key).run storeHandler (d.after ts)).1 =
        .ok (dictAfter ts key) := by
  constructor
  · intro hroom ts hts
    have hs := serves_after d hroom hdist ts hts
    constructor
    · intro cacheOn m hkey
      rw [Mutation.run_prog]
      exact (hs.client cacheOn).answer hroom m hkey
    · intro key hkey
      rw [run_readKv]
      exact hs.read hroom hkey
  · intro hall
    refine room_of_fill hnodup hdist fun ks key hkey hks => ?_
    have hans := (hall (fill ks) (changes_fill hks)).1 false (.write key []) hkey
    rw [Mutation.run_prog] at hans
    exact hans

/-- Four slots at each of three memory nodes have room for two keys. -/
theorem room_iff_dictionary_sample :
    ((readKv (Deployment.sample.client false).toCluster [98]).run storeHandler
      (Deployment.sample.after [.op true (.mutate (.delete [97])),
        .op true (.mutate (.write [98] [50])), .op false (.mutate (.write [97] [49]))])).1 =
      .ok (some [50]) :=
  ((room_iff_dictionary .sample [[97], [98]] (by decide) (by decide +kernel)).mp (by decide +kernel) _
    (by decide)).2 [98] (by decide)

end TeeDist
