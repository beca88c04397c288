import TeeDist.CacheReads
import TeeDist.Faults
import TeeDist.Torn

/-!
# Cache slots that are lost

A refresh of the cache probes, writes a body and swaps the guard epoch, and an eviction may clear
the slot at any point between.  A slot cleared before the body is written is torn afterwards, as
the swap expects the epoch of the entry that is gone.  A slot cleared after it has a guard epoch
of zero, and if that is what the swap expects, then the swap puts an epoch in front of zero bytes:
such a slot is not empty, not valid, and no eviction will clear it.

`SwapSafe` is the condition on a swap that excludes both.  In the runs of one client whose swaps
all satisfy it, with evictions at any point, every cache slot is zero or whole and valid whenever
no refresh is in flight (`cache_settled`).
-/

namespace TeeDist

open Calls

/-! ## Refreshes and evictions -/

/-- A slot that an entry can be put into, found in, or evicted from. -/
def Slot.Settled (s : Slot) : Prop :=
  s = .zero ∨ s.guardEpoch = s.visibleEpoch ∧ s.valid = true

/-- A call of `td_refresh_cache_best_effort` with a slot that `td_crypto_make_slot` has built. -/
structure CacheRefresh (cl : Cluster) where
  key : Key
  slot : Slot
  built : ∃ value flags epoch, makeSlot cl.ssl cl.crypto key value flags epoch = some slot ∧
    flags &&& slotFlagValid ≠ 0 ∧ 1 ≤ epoch.toNat

/-- One client refreshes the cache time and again. -/
def refreshes (cl : Cluster) : List (CacheRefresh cl) → Prog Net Unit
  | [] => .ret ()
  | r :: rs => (refreshCacheBestEffort cl r.key r.slot).bind fun _ => refreshes cl rs

/-- The client at its start. -/
def refreshPool (cl : Cluster) (rs : List (CacheRefresh cl)) (st : Store) :
    Pool Unit Net Store Unit :=
  ⟨st, fun _ => refreshes cl rs⟩

/-- What evictions do between two calls of the client: a whole call of
`td_region_evict_if_needed` that returns, or one step of a call. -/
inductive Evicting (d : Deployment) (st : Store) : Store → Prop where
  | call {mn fuel : Nat} {thresholdPct : UInt64} {st' : Store} :
      Store.evictIfNeeded mn (d.header mn).cacheSlotCount fuel thresholdPct.toNat st = some st' →
      Evicting d st st'
  | part {st' : Store} : StoreEvicts d st st' → Evicting d st st'

/-- A compare-and-swap finds the epoch it expects exactly if its slot is valid, which it is unless
it has been cleared since the body was written. -/
def SwapSafe {ι α : Type} (Q : Pool ι Net Store α) (ev : Event ι Net) : Prop :=
  match ev.call with
  | .cas64 a compare _ =>
      (Q.shared.slot a).valid = true ↔ (Q.shared.slot a).guardEpoch = compare
  | _ => True

instance {ι α : Type} (Q : Pool ι Net Store α) (ev : Event ι Net) : Decidable (SwapSafe Q ev) :=
  match ev with
  | ⟨_, .readRegion _, _⟩ => isTrue trivial
  | ⟨_, .writeRegion _ _, _⟩ => isTrue trivial
  | ⟨_, .cas64 _ _ _, _⟩ => inferInstanceAs (Decidable (_ ↔ _))

/-- Evictions only clear slots. -/
theorem Evicting.slot {d : Deployment} {st st' : Store} (h : Evicting d st st') (a : Addr) :
    st'.slot a = st.slot a ∨ st'.slot a = .zero := by
  cases h with
  | call h => exact Store.evictIfNeeded_slot h a
  | part h =>
      cases h with
      | count mn => exact .inl rfl
      | turn mn target => exact st.evictTurn_slot mn _ target a

/-! ## The calls of a client -/

/-- A body that is written is valid. -/
def Call.PutsValid : Call → Prop
  | .writeRegion _ p => p.valid = true
  | _ => True

section Client

variable {cl : Cluster}

theorem CacheRefresh.valid (r : CacheRefresh cl) : r.slot.valid = true := by
  obtain ⟨value, flags, epoch, hmake, hflags, _⟩ := r.built
  unfold makeSlot at hmake
  split at hmake
  · cases hmake
  · rw [← Option.some.inj hmake, Slot.valid, builtSlot_flags]
    simpa using hflags

/-- The protocol bears a client that puts valid slots. -/
theorem bears_refreshes (cl : Cluster) :
    Bears (commitProtocol.within Call.PutsValid) cl (fun _ p => p.valid = true) none where
  reads _ _ _ := ⟨⟨trivial, trivial⟩, fun _ => rfl⟩
  commits _ _ _ hp _ _ := by
    refine ⟨⟨trivial, hp⟩, fun r => ?_⟩
    cases r with
    | none => rfl
    | some _ => exact ⟨⟨rfl, trivial⟩, fun _ => rfl⟩

theorem refreshes_obeys : ∀ rs : List (CacheRefresh cl),
    (refreshes cl rs).Obeys (commitProtocol.within Call.PutsValid) (fun g _ => g = none) none
  | [] => rfl
  | r :: rs => by
      refine Prog.Obeys.bind ((refreshCacheBestEffort_obeys (bears_refreshes cl) r.key r.valid).mono
        fun _ _ hg => ?_)
      subst hg
      exact refreshes_obeys rs

theorem refreshPool_obeys (rs : List (CacheRefresh cl)) (st : Store) (i : Unit) :
    ((refreshPool cl rs st).prog i).Obeys (commitProtocol.within Call.PutsValid)
      (fun g _ => g = none) none := refreshes_obeys rs

/-- Between two refreshes no swap is due. -/
theorem refreshes_rest {rs : List (CacheRefresh cl)} {g : Option (Addr × UInt64)}
    (h : (refreshes cl rs).Obeys (commitProtocol.within Call.PutsValid) (fun g _ => g = none) g) :
    g = none := by
  cases g with
  | none => rfl
  | some due =>
      obtain ⟨compare, hswap⟩ := nextSwap_of_some h.of_within
      rw [nextSwap_of_none (refreshes_obeys rs).of_within] at hswap
      cases hswap

end Client

/-! ## The invariant -/

/-- The cache slots are settled, but for one whose body was just written: that one is valid and has
the epoch the swap is to put in front of it, or was cleared. -/
structure Settling (g : Option (Addr × UInt64)) (st : Store) : Prop where
  rest : ∀ a : Addr, a.kind = .cache → (∀ epoch, g ≠ some (a, epoch)) → (st.slot a).Settled
  due : ∀ a epoch, g = some (a, epoch) →
    st.slot a = .zero ∨ (st.slot a).valid = true ∧ (st.slot a).visibleEpoch = epoch

section Step

variable {g : Option (Addr × UInt64)} {st st' : Store}

/-- An eviction keeps the invariant. -/
theorem Settling.evict {d : Deployment} (h : Settling g st) (he : Evicting d st st') :
    Settling g st' where
  rest a ha hg := by
    rcases he.slot a with hslot | hslot
    · rw [hslot]
      exact h.rest a ha hg
    · exact .inl hslot
  due a epoch hg := by
    rcases he.slot a with hslot | hslot
    · rw [hslot]
      exact h.due a epoch hg
    · exact .inl hslot

/-- A body is written. -/
theorem Settling.write (h : Settling none st) (a : Addr) {p : Slot} (hp : p.valid = true) :
    Settling (some (a, p.visibleEpoch)) (st.setSlot a ((st.slot a).withBody p)) where
  rest b hb hne := by
    have hba : b ≠ a := by
      rintro rfl
      exact hne p.visibleEpoch rfl
    rw [Store.setSlot_slot_of_ne _ _ hba]
    exact h.rest b hb fun epoch he => by cases he
  due b epoch he := by
    cases he
    rw [Store.setSlot_slot_self]
    exact .inr ⟨hp, rfl⟩

/-- A swap is made. -/
theorem Settling.swap {a : Addr} {compare epoch : UInt64} (h : Settling (some (a, epoch)) st)
    (hsafe : (st.slot a).valid = true ↔ (st.slot a).guardEpoch = compare) :
    Settling none (storeHandler (.cas64 a compare epoch) st).2 where
  rest b hb _ := by
    simp only [storeHandler]
    by_cases hba : b = a
    · subst hba
      rcases h.due b epoch rfl with hzero | ⟨hvalid, hvisible⟩
      · -- The slot was cleared, so the swap does not find what it expects.
        have hne : ¬ (st.slot b).guardEpoch = compare := by
          rw [← hsafe, hzero]
          decide
        rw [if_neg hne]
        exact .inl hzero
      · rw [if_pos (hsafe.mp hvalid), Store.setSlot_slot_self]
        exact .inr ⟨hvisible.symm, hvalid⟩
    · have hkept : (st.slot b).Settled := h.rest b hb fun epoch' he => hba (by cases he; rfl)
      split
      · rw [Store.setSlot_slot_of_ne _ _ hba]
        exact hkept
      · exact hkept
  due _ _ he := by cases he

/-- A call of the client. -/
theorem Settling.call {c : Call} (h : Settling g st)
    (hallow : (commitProtocol.within Call.PutsValid).allow g c)
    (hsafe : ∀ a compare swap, c = .cas64 a compare swap →
      ((st.slot a).valid = true ↔ (st.slot a).guardEpoch = compare)) :
    Settling (commitProtocol.next g c (storeHandler c st).1) (storeHandler c st).2 := by
  obtain ⟨hcommit, hput⟩ := hallow
  cases g with
  | none =>
      cases c with
      | readRegion a => exact h
      | writeRegion a p => exact h.write a hput
      | cas64 a compare swap => exact hcommit.elim
  | some due =>
      cases c with
      | readRegion a => exact hcommit.elim
      | writeRegion a p => exact hcommit.elim
      | cas64 a compare swap =>
          cases hcommit
          exact h.swap (hsafe a compare swap rfl)

end Step

/-- The invariant holds in every state of a run whose swaps are safe. -/
theorem settling_of_run {d : Deployment} {rs : List (CacheRefresh d.toCluster)} {st : Store}
    (hzero : ∀ mn i, st.slot ⟨mn, .cache, i⟩ = .zero) {tr : List (Option (Event Unit Net))}
    {Q : Pool Unit Net Store Unit}
    (hrun : Run storeHandler (Evicting d) SwapSafe (refreshPool d.toCluster rs st) tr Q) :
    Settling (protocolState (fun _ : Unit => commitProtocol.within Call.PutsValid) (fun _ => none)
      tr ()) Q.shared := by
  induction hrun with
  | nil =>
      refine ⟨fun a ha _ => ?_, fun _ _ he => by cases he⟩
      obtain ⟨mn, kind, i⟩ := a
      cases ha
      exact .inl (hzero mn i)
  | step hr hstep hok ih =>
      cases hstep with
      | env he => exact ih.evict he
      | @call i c k hc =>
          have hsafe := hok _ rfl
          have hallow := hr.allows (refreshPool_obeys rs st) hc
          rw [protocolState, Function.update_self]
          refine ih.call hallow fun a compare swap he => ?_
          subst he
          exact hsafe

/-- Let one client refresh the cache time and again, and let evictions come at any point between
its calls.  If every compare-and-swap of the client is safe, then every cache slot is zero, or
valid with two equal epochs, in every state in which no refresh is in flight. -/
theorem cache_settled (d : Deployment) (rs : List (CacheRefresh d.toCluster)) (st : Store)
    (hzero : ∀ mn i, st.slot ⟨mn, .cache, i⟩ = .zero) {tr : List (Option (Event Unit Net))}
    {Q : Pool Unit Net Store Unit}
    (hrun : Run storeHandler (Evicting d) SwapSafe (refreshPool d.toCluster rs st) tr Q)
    (n : Nat) (hrest : Q.prog () = refreshes d.toCluster (rs.drop n)) (mn i : Nat) :
    (Q.shared.slot ⟨mn, .cache, i⟩).Settled := by
  have hobeys := hrun.obeys (refreshPool_obeys rs st) ()
  rw [hrest] at hobeys
  have hnone := refreshes_rest hobeys
  have hinv := settling_of_run hzero hrun
  rw [hnone] at hinv
  exact hinv.rest ⟨mn, .cache, i⟩ rfl fun epoch he => by cases he

/-- One memory node with one slot of each kind, for a client that uses the cache. -/
def Deployment.single : Deployment := (Deployment.uniform .sample .sample 1 0 1 1 1).client true

/-- A refresh of key `a` with an empty value. -/
def refreshA (epoch : UInt64) (h : 1 ≤ epoch.toNat) : CacheRefresh Deployment.single.toCluster where
  key := [97]
  slot := builtSlot _ _ [97] [] slotFlagValid epoch
  built := ⟨[], slotFlagValid, epoch, rfl, by decide, h⟩

/-- A client that refreshes the key twice. -/
def refreshTwice : List (CacheRefresh Deployment.single.toCluster) :=
  [refreshA 1 (by decide), refreshA 2 (by decide)]

/-- The client after some calls, and an eviction at the default threshold. -/
def evictedAfter (calls : List Unit) : Pool Unit Net Store Unit :=
  let P := ((refreshPool _ refreshTwice .fresh).schedule storeHandler calls).2
  ⟨(Store.evictIfNeeded 0 (Deployment.single.header 0).cacheSlotCount 1 (80 : UInt64).toNat
    P.shared).getD .fresh, P.prog⟩

theorem run_evictedAfter (ok : Pool Unit Net Store Unit → Event Unit Net → Prop)
    (calls calls' : List Unit) (h : (refreshPool _ refreshTwice .fresh).Respects storeHandler ok calls)
    (hevict : (Store.evictIfNeeded 0 (Deployment.single.header 0).cacheSlotCount 1
      (80 : UInt64).toNat
      ((refreshPool _ refreshTwice .fresh).schedule storeHandler calls).2.shared).isSome = true)
    (h' : (evictedAfter calls).Respects storeHandler ok calls') :
    ∃ tr, Run storeHandler (Evicting .single) ok (refreshPool _ refreshTwice .fresh) tr
      ((evictedAfter calls).schedule storeHandler calls').2 := by
  have hfirst := Pool.run_schedule storeHandler (Evicting .single) ok
    (refreshPool _ refreshTwice .fresh) calls h
  have hlast := Pool.run_schedule storeHandler (Evicting .single) ok (evictedAfter calls) calls' h'
  have hclear : Evicting .single
      ((refreshPool _ refreshTwice .fresh).schedule storeHandler calls).2.shared
      (evictedAfter calls).shared := by
    obtain ⟨st', hst'⟩ := Option.isSome_iff_exists.mp hevict
    refine .call (hst'.trans (congrArg some ?_))
    rw [evictedAfter, hst', Option.getD_some]
  exact ⟨_, (hfirst.step (.env hclear) (fun _ he => by cases he)).trans hlast⟩

/-- The key is refreshed, evicted, and refreshed again. -/
theorem cache_settled_again :
    ∃ tr Q, Run storeHandler (Evicting .single) SwapSafe
        (refreshPool Deployment.single.toCluster refreshTwice .fresh) tr Q ∧
      (Q.shared.slot ⟨0, .cache, 0⟩).guardEpoch = 2 ∧ (Q.shared.slot ⟨0, .cache, 0⟩).Settled := by
  obtain ⟨tr, hrun⟩ := run_evictedAfter SwapSafe [(), (), ()] [(), (), ()] (by decide +kernel)
    (by decide +kernel) (by decide +kernel)
  exact ⟨tr, _, hrun, by decide +kernel,
    cache_settled .single refreshTwice .fresh (fun _ _ => rfl) hrun 2 rfl 0 0⟩

/-- The eviction comes after the second refresh has found the key.  Its body is then written behind
a guard epoch of zero, and its swap expects the old one. -/
theorem cache_slot_lost :
    ¬ ∀ (d : Deployment) (rs : List (CacheRefresh d.toCluster)) (st : Store),
      (∀ mn i, st.slot ⟨mn, .cache, i⟩ = .zero) →
      ∀ (tr : List (Option (Event Unit Net))) (Q : Pool Unit Net Store Unit),
        Run storeHandler (Evicting d) (fun _ _ => True) (refreshPool d.toCluster rs st) tr Q →
        ∀ n, Q.prog () = refreshes d.toCluster (rs.drop n) →
        ∀ mn i, (Q.shared.slot ⟨mn, .cache, i⟩).Settled := by
  intro h
  obtain ⟨tr, hrun⟩ := run_evictedAfter (fun _ _ => True) [(), (), (), ()] [(), ()]
    (Pool.respects_true ..) (by decide +kernel) (Pool.respects_true ..)
  rcases h .single refreshTwice .fresh (fun _ _ => rfl) tr _ hrun 2 rfl 0 0 with hzero | ⟨hepochs, _⟩
  · exact absurd (congrArg Slot.visibleEpoch hzero) (by decide +kernel)
  · exact absurd hepochs (by decide +kernel)

end TeeDist
