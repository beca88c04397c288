import Mathlib.Data.List.Pairwise
import TeeDist.Sequential

/-!
# The commits of a history

The slots that successful mutations put into `PRIME`, newest first.  A slot of
`PRIME` or `CACHE` is zero or one of them (`prime_logged`, `cache_logged`).

The epoch of a commit is one more than the epoch of the slot the probe chose.  As
long as a key hash keeps its slot its epochs grow.  It loses the slot when another
key hash takes over its tombstone, and its next commit may then restart at a lower
epoch.  `KeepsEpochs` says of a turn that this does not happen, and `commits_sorted`
that in histories of such turns no key hash commits twice at one epoch.
-/

namespace TeeDist

open Calls

/-! ## Commits -/

/-- A mutation that succeeded, with the slot it built and committed. -/
structure Commit where
  mutation : Mutation
  slot : Slot

/-- The commit a turn makes. -/
def Turn.commit (d : Deployment) (st : Store) : Turn → Option Commit
  | .op cacheOn (.mutate m) =>
      match ((m.prog (d.client cacheOn).toCluster).run storeHandler st).1,
        st.probe d.toCluster (d.primarySession (hash64String m.key)) .prime (hash64String m.key) with
      | .ok _, .ok pr => some ⟨m, d.proposal m.key m.value m.tombstone pr⟩
      | _, _ => none
  | _ => none

/-- The commits of a history. -/
def Deployment.commits (d : Deployment) : List Turn → List Commit
  | [] => []
  | t :: ts => (t.commit d (d.after ts)).toList ++ d.commits ts

/-- What a turn does to `PRIME`: nothing, or one commit at the slot the probe chose. -/
theorem Turn.prime_cases (d : Deployment) (st : Store) (t : Turn) :
    (t.commit d st = none ∧ ∀ mn, (t.apply d st).table mn .prime = st.table mn .prime) ∨
    ∃ cacheOn m pr, t = .op cacheOn (.mutate m) ∧
      st.probe d.toCluster (d.primarySession (hash64String m.key)) .prime (hash64String m.key) =
        .ok pr ∧
      t.commit d st = some ⟨m, d.proposal m.key m.value m.tombstone pr⟩ ∧
      ∀ mn, (t.apply d st).table mn .prime =
        (st.setSlot ⟨d.primarySession (hash64String m.key), .prime, pr.candidateSlotIndex⟩
          (d.proposal m.key m.value m.tombstone pr)).table mn .prime := by
  cases t with
  | evict mn fuel thresholdPct =>
      refine Or.inl ⟨rfl, fun mn' => ?_⟩
      simp only [Turn.apply]
      cases h : Store.evictIfNeeded mn (d.header mn).cacheSlotCount fuel thresholdPct st with
      | none => rfl
      | some st' => exact Store.evictIfNeeded_sameTables h mn' .prime (by decide)
  | op cacheOn o =>
      cases o with
      | read key =>
          refine Or.inl ⟨rfl, fun mn => ?_⟩
          simp only [Turn.apply, Op.apply, run_readKv]
          exact st.afterRead_sameTables _ key mn .prime (by decide)
      | mutate m =>
          simp only [Turn.apply, Op.apply, Turn.commit, Mutation.run_prog]
          cases hres : (st.write (d.client cacheOn).toCluster m.key m.value m.updateOnly
              m.tombstone).1 with
          | error e => exact Or.inl ⟨rfl, fun mn => write_error_prime hres mn⟩
          | ok rule =>
              obtain ⟨pr, hp, htable⟩ := write_ok_prime hres
              have hp' : st.probe d.toCluster (d.primarySession (hash64String m.key)) .prime
                  (hash64String m.key) = .ok pr := hp
              exact Or.inr ⟨cacheOn, m, pr, rfl, hp', by rw [hp'], htable⟩

/-! ## Where committed slots are found -/

/-- The slots a log allows: the zero slot and those committed. -/
def Logged (log : List Commit) (s : Slot) : Prop := s = .zero ∨ ∃ c ∈ log, c.slot = s

theorem Logged.append {log : List Commit} {s : Slot} (h : Logged log s) (new : List Commit) :
    Logged (new ++ log) s := by
  rcases h with h | ⟨c, hc, hs⟩
  · exact Or.inl h
  · exact Or.inr ⟨c, List.mem_append_right _ hc, hs⟩

/-- Every slot of `PRIME` is zero or was committed. -/
theorem prime_logged (d : Deployment) (mn i : Nat) :
    ∀ ts : List Turn, Logged (d.commits ts) ((d.after ts).slot ⟨mn, .prime, i⟩)
  | [] => Or.inl rfl
  | t :: ts => by
      have ih := prime_logged d mn i ts
      rcases t.prime_cases d (d.after ts) with ⟨hc, ht⟩ | ⟨_, m, pr, _, _, hc, ht⟩
      · have hslot : (d.after (t :: ts)).slot ⟨mn, .prime, i⟩ = (d.after ts).slot ⟨mn, .prime, i⟩ :=
          congrFun (ht mn) i
        rw [hslot]
        exact ih.append _
      · have hslot : (d.after (t :: ts)).slot ⟨mn, .prime, i⟩ = _ := congrFun (ht mn) i
        rw [hslot, Store.table]
        by_cases ha : (⟨mn, .prime, i⟩ : Addr) =
            ⟨d.primarySession (hash64String m.key), .prime, pr.candidateSlotIndex⟩
        · rw [ha, Store.setSlot_slot_self]
          exact Or.inr ⟨_, List.mem_append_left _ (by rw [hc]; exact List.mem_singleton_self _), rfl⟩
        · rw [Store.setSlot_slot_of_ne _ _ ha]
          exact ih.append _

/-! ## Epochs that grow -/

/-- The primary probe of a turn's mutation. -/
def Turn.primeProbe (d : Deployment) (st : Store) : Turn → Option SlotProbe
  | .op _ (.mutate m) =>
      (st.probe d.toCluster (d.primarySession (hash64String m.key)) .prime
        (hash64String m.key)).toOption
  | _ => none

/-- A turn does not restart the epochs of a key hash.  Its mutation finds a slot of the
key hash, or the slot it takes instead has an epoch not below those the key hash had. -/
def KeepsEpochs (d : Deployment) (ts : List Turn) (t : Turn) : Prop :=
  ∀ pr ∈ t.primeProbe d (d.after ts), ∀ key ∈ t.mutated,
    pr.found = true ∨ ∀ c ∈ d.commits ts, c.slot.keyHash = hash64String key →
      c.slot.visibleEpoch ≤ pr.candidateSlot.guardEpoch

/-- A turn does not take a slot with the last epoch. -/
def NoWrap (d : Deployment) (ts : List Turn) (t : Turn) : Prop :=
  ∀ pr ∈ t.primeProbe d (d.after ts), pr.candidateSlot.guardEpoch ≠ 0xffffffffffffffff

instance (d : Deployment) (ts : List Turn) (t : Turn) : Decidable (KeepsEpochs d ts t) :=
  inferInstanceAs (Decidable (∀ pr ∈ t.primeProbe d (d.after ts), ∀ key ∈ t.mutated, _ ∨ _))

instance (d : Deployment) (ts : List Turn) (t : Turn) : Decidable (NoWrap d ts t) :=
  inferInstanceAs (Decidable (∀ pr ∈ t.primeProbe d (d.after ts), _ ≠ _))

theorem UInt64.lt_succ {e : UInt64} (h : e ≠ 0xffffffffffffffff) : e < e + 1 := by
  have hne : e.toNat ≠ 2 ^ 64 - 1 := fun he => h (UInt64.toNat_inj.mp he)
  have hlt := e.toNat_lt
  rw [UInt64.lt_iff_toNat_lt, UInt64.toNat_add]
  simp only [UInt64.reduceToNat]
  omega

/-- The epochs of the commits of a key hash, newest first, strictly decrease. -/
def Sorted (log : List Commit) : Prop :=
  log.Pairwise fun c c' => c'.slot.keyHash = c.slot.keyHash →
    c'.slot.visibleEpoch < c.slot.visibleEpoch

/-- The slot of a key hash in `PRIME` has the highest of its epochs. -/
def Topped (d : Deployment) (st : Store) (log : List Commit) : Prop :=
  ∀ h s, st.Holds d (d.primarySession h) .prime h s →
    ∀ c ∈ log, c.slot.keyHash = h → c.slot.visibleEpoch ≤ s.guardEpoch

/-- The epoch of a commit that keeps epochs is above those its key hash had. -/
theorem epoch_above {d : Deployment} {ts : List Turn} {cacheOn : Bool} {m : Mutation} {pr : SlotProbe}
    (htop : Topped d (d.after ts) (d.commits ts))
    (hkeep : KeepsEpochs d ts (.op cacheOn (.mutate m)))
    (hwrap : NoWrap d ts (.op cacheOn (.mutate m)))
    (hp : (d.after ts).probe d.toCluster (d.primarySession (hash64String m.key)) .prime
      (hash64String m.key) = .ok pr) :
    ∀ c ∈ d.commits ts, c.slot.keyHash = hash64String m.key →
      c.slot.visibleEpoch < (d.proposal m.key m.value m.tombstone pr).visibleEpoch := by
  intro c hc hk
  have hpr : pr ∈ Turn.primeProbe d (d.after ts) (.op cacheOn (.mutate m)) := by
    rw [Turn.primeProbe, hp]
    rfl
  have hle : c.slot.visibleEpoch ≤ pr.candidateSlot.guardEpoch := by
    rcases hkeep pr hpr m.key rfl with hfound | hle
    · obtain ⟨i, _, _, ⟨rfl, hh⟩ | ⟨rfl, _⟩⟩ := (rest_after d ts _ .prime (by decide)).probe_cases hp
      · exact htop _ _ hh c hc hk
      · cases hfound
    · exact hle c hc hk
  exact UInt64.lt_of_le_of_lt hle (UInt64.lt_succ (hwrap pr hpr))

/-- If every turn keeps epochs, the commits of a key hash have increasing epochs, the last of
which is in its slot. -/
theorem commits_sorted (d : Deployment) :
    ∀ ts : List Turn, Throughout (KeepsEpochs d) ts → Throughout (NoWrap d) ts →
      Sorted (d.commits ts) ∧ Topped d (d.after ts) (d.commits ts)
  | [], _, _ => ⟨List.Pairwise.nil, fun _ _ _ c hc => by cases hc⟩
  | t :: ts, hkeep, hwrap => by
      obtain ⟨hsort, htop⟩ := commits_sorted d ts hkeep.2 hwrap.2
      rcases t.prime_cases d (d.after ts) with ⟨hc, ht⟩ | ⟨cacheOn, m, pr, rfl, hp, hc, ht⟩
      · rw [Deployment.commits, hc]
        refine ⟨hsort, fun h s hs => htop h s ?_⟩
        exact (Store.holds_congr (ht _)).mp hs
      · have habove := epoch_above htop hkeep.1 hwrap.1 hp
        have hmem : ∀ c, c ∈ (some (Commit.mk m (d.proposal m.key m.value m.tombstone pr))).toList ++
            d.commits ts → c.slot = d.proposal m.key m.value m.tombstone pr ∨ c ∈ d.commits ts := by
          intro c hc'
          rcases List.mem_append.mp hc' with hc' | hc'
          · exact Or.inl (by rw [List.mem_singleton.mp hc'])
          · exact Or.inr hc'
        rw [Deployment.commits, hc]
        refine ⟨List.Pairwise.cons habove hsort, fun h s hs c hcm hk => ?_⟩
        rw [Deployment.after, Store.holds_congr (ht _)] at hs
        by_cases hh : h = hash64String m.key
        · subst hh
          rw [(rest_after d ts _ .prime (by decide)).holds_commit hp
            (proposal_owner ..)] at hs
          subst hs
          rcases hmem c hcm with he | hc'
          · rw [he]
            exact UInt64.le_refl _
          · exact UInt64.le_of_lt (habove c hc' hk)
        · have hold : (d.after ts).Holds d (d.primarySession h) .prime h s := by
            by_cases hmn : d.primarySession h = d.primarySession (hash64String m.key)
            · rw [hmn] at hs ⊢
              exact Store.holds_of_commit (proposal_owner ..) hh hs
            · exact (Store.holds_congr (Store.table_setSlot_of_ne _ _ fun he => hmn he.1.symm)).mp hs
          rcases hmem c hcm with he | hc'
          · rw [he] at hk
            exact absurd hk.symm hh
          · exact htop h s hold c hc' hk

/-- If every turn keeps epochs, a key hash and an epoch determine a commit. -/
theorem commit_unique (d : Deployment) {ts : List Turn}
    (hkeep : Throughout (KeepsEpochs d) ts) (hwrap : Throughout (NoWrap d) ts) {c c' : Commit}
    (hc : c ∈ d.commits ts) (hc' : c' ∈ d.commits ts) (hk : c.slot.keyHash = c'.slot.keyHash)
    (he : c.slot.visibleEpoch = c'.slot.visibleEpoch) : c = c' := by
  by_contra hne
  have hpair : (d.commits ts).Pairwise fun c c' => c.slot.keyHash = c'.slot.keyHash →
      c.slot.visibleEpoch ≠ c'.slot.visibleEpoch :=
    (commits_sorted d ts hkeep hwrap).1.imp fun h hk he => by
      have := h hk.symm
      rw [he] at this
      exact UInt64.lt_irrefl _ this
  have : Std.Symm fun c c' : Commit => c.slot.keyHash = c'.slot.keyHash →
      c.slot.visibleEpoch ≠ c'.slot.visibleEpoch := ⟨fun _ _ h hk he => h hk.symm he.symm⟩
  exact hpair.forall hc hc' hne hk he

end TeeDist
