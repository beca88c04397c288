import TeeDist.FiniteMap
import TeeDist.Phases

/-!
# Reading next to a paused writer

A client stops somewhere in a write, update or delete of a key that is live, and
another client reads the key.  The reader gets the old or the new value at every
point where the writer can stop, except for one: after the writer has written the
body of the `PRIME` slot, and before it has swapped the guard epoch, the only slot of
the key has two different epochs and the probe of the reader walks past it
(`paused_read_none`).  `read_atomic_iff` says that this is the only point.

The cache adds the condition that it does not hold a third value under the epochs of
the `PRIME` slot.
-/

namespace TeeDist

open Calls Probing

/-! ## Calls and `PRIME` -/

/-- A quiet call leaves the `PRIME` tables alone. -/
theorem Call.Quiet.table_prime {c : Call} (hc : c.Quiet) (st : Store) (mn : Nat) :
    (storeHandler c st).2.table mn .prime = st.table mn .prime := by
  cases c with
  | readRegion a => rfl
  | writeRegion a p => exact st.table_setSlot_of_ne _ fun h => hc h.2
  | cas64 a compare swap =>
      simp only [storeHandler]
      split
      · exact st.table_setSlot_of_ne _ fun h => hc h.2
      · rfl

/-- The next call of a program is a compare-and-swap on `PRIME`. -/
def AtPrimeSwap {α : Type} : Prog Net α → Prop
  | .call (.cas64 a _ _) _ => a.kind = .prime
  | _ => False

instance {α : Type} : (p : Prog Net α) → Decidable (AtPrimeSwap p)
  | .ret _ => isFalse id
  | .call (.readRegion _) _ => isFalse id
  | .call (.writeRegion _ _) _ => isFalse id
  | .call (.cas64 a _ _) _ => inferInstanceAs (Decidable (a.kind = .prime))

section Obeys

variable {α β : Type} {cl : Cluster} {offer : Addr → Slot → Prop} {post : Phase → α → Prop}

theorem atPrimeSwap_bind {c : Call} {k : c.Reply → Prog Net α} {f : α → Prog Net β} :
    AtPrimeSwap ((Prog.call c k : Prog Net α).bind f) ↔ AtPrimeSwap (Prog.call c k : Prog Net α) := by
  cases c <;> exact Iff.rfl

/-- A program in a free phase is not about to swap. -/
theorem not_atPrimeSwap {g : Phase} (hg : g.Free) {p : Prog Net α}
    (hp : p.Obeys (primeProtocol cl offer) post g) : ¬ AtPrimeSwap p := by
  cases p with
  | ret a => exact id
  | call c k =>
      cases c with
      | readRegion a => exact id
      | writeRegion a p => exact id
      | cas64 a compare swap =>
          have hallow := hp.1.2
          cases g with
          | idle => exact hallow
          | wrote _ _ => exact hg.elim
          | won _ _ => exact hallow
          | lost => exact hallow

/-- A program in the window of its commit is about to swap. -/
theorem atPrimeSwap_of_wrote {a : Addr} {p : Slot} (ha : a.kind = .prime)
    {q : Prog Net (Except Err Nat)}
    (hq : q.Obeys (primeProtocol cl offer) (Ended offer) (.wrote a p)) : AtPrimeSwap q := by
  cases q with
  | ret r =>
      cases r with
      | error e => rcases hq with h | h <;> cases h
      | ok rule =>
          obtain ⟨_, _, _, h⟩ := hq
          cases h
  | call c k =>
      cases c with
      | readRegion _ => exact hq.1.2.elim
      | writeRegion _ _ => exact hq.1.2.elim
      | cas64 a' compare swap =>
          obtain ⟨rfl, _⟩ := hq.1.2
          exact ha

/-- A program that has nothing to offer to `PRIME` leaves it alone, wherever it stops. -/
theorem advance_quiet (cl : Cluster) {p : Prog Net α}
    (hp : p.Obeys (primeProtocol cl fun _ _ => False) post .idle) (st : Store) (n : Nat) :
    ¬ AtPrimeSwap (Prog.advance storeHandler n p st).1 ∧
      ∀ mn, (Prog.advance storeHandler n p st).2.table mn .prime = st.table mn .prime := by
  obtain ⟨g, hobeys, rfl, htable⟩ := Prog.Obeys.advance_inv
    (J := fun g (st' : Store) => g = Phase.idle ∧ ∀ mn, st'.table mn .prime = st.table mn .prime)
    (h := storeHandler) (fun g c st' hallow ⟨hg, ht⟩ => by
      subst hg
      have hquiet : c.Quiet := by
        cases c with
        | readRegion a => trivial
        | writeRegion a p => exact hallow.2
        | cas64 a compare swap => exact hallow.2
      exact ⟨(hquiet.allowed cl _ hallow.1 Phase.free_idle).2 _,
        fun mn => (hquiet.table_prime st' mn).trans (ht mn)⟩)
    (n := n) hp ⟨rfl, fun mn => rfl⟩
  exact ⟨not_atPrimeSwap Phase.free_idle hobeys, htable⟩

/-! ## One writer at one slot -/

/-- How far a commit of `p` at `a` has come, in the `PRIME` tables of a store that began
as `st`. -/
def CommitAt (st : Store) (a : Addr) (p : Slot) : Phase → Store → Prop
  | .idle, st' => ∀ mn, st'.table mn .prime = st.table mn .prime
  | .wrote a' p', st' => a' = a ∧ p' = p ∧
      ∀ mn, st'.table mn .prime = (st.setSlot a ((st.slot a).withBody p)).table mn .prime
  | .won _ _, st' => ∀ mn, st'.table mn .prime = (st.setSlot a p).table mn .prime
  | .lost, _ => False

theorem Store.slot_of_table {st st' : Store} {a : Addr} (ha : a.kind = .prime)
    (h : ∀ mn, st'.table mn .prime = st.table mn .prime) : st'.slot a = st.slot a := by
  obtain ⟨mn, kind, i⟩ := a
  cases ha
  exact congrFun (h mn) i

/-- The calls of a writer whose epoch is the next one move the commit along. -/
theorem CommitAt.step (cl : Cluster) (st : Store) {a : Addr} {p : Slot} (ha : a.kind = .prime)
    (hv : p.visibleEpoch = (st.slot a).guardEpoch + 1) (hp : p.guardEpoch = p.visibleEpoch)
    (g : Phase) (c : Call) (st' : Store)
    (hallow : (primeProtocol cl fun a' p' => a' = a ∧ p' = p).allow g c)
    (hg : CommitAt st a p g st') :
    CommitAt st a p
      ((primeProtocol cl fun a' p' => a' = a ∧ p' = p).next g c (storeHandler c st').1)
      (storeHandler c st').2 := by
  by_cases hquiet : g.Free ∧ c.Quiet
  · rw [(hquiet.2.allowed cl _ hallow.1 hquiet.1).2]
    have htable := hquiet.2.table_prime st'
    cases g with
    | idle => exact fun mn => (htable mn).trans (hg mn)
    | wrote _ _ => exact hquiet.1.elim
    | won _ _ => exact fun mn => (htable mn).trans (hg mn)
    | lost => exact hg
  · cases g with
    | idle =>
        cases c with
        | readRegion _ => exact absurd ⟨trivial, trivial⟩ hquiet
        | cas64 _ _ _ => exact absurd ⟨trivial, hallow.2⟩ hquiet
        | writeRegion a' p' =>
            have hprime : a'.kind = .prime := by
              by_contra hne
              exact hquiet ⟨trivial, hne⟩
            obtain ⟨rfl, rfl⟩ := hallow.2 hprime
            have hnext : (primeProtocol cl fun a'' p'' => a'' = a' ∧ p'' = p').next .idle
                (.writeRegion a' p') (some ()) = .wrote a' p' := by
              simp [primeProtocol, ha]
            simp only [storeHandler]
            rw [hnext]
            refine ⟨rfl, rfl, fun mn => ?_⟩
            rw [Store.slot_of_table ha hg]
            exact Store.table_setSlot_congr (hg mn) _ _
    | wrote a₁ p₁ =>
        obtain ⟨rfl, rfl, ht⟩ := hg
        cases c with
        | readRegion _ => exact hallow.2.elim
        | writeRegion _ _ => exact hallow.2.elim
        | cas64 a' compare swap =>
            obtain ⟨rfl, rfl, hcmp⟩ := hallow.2
            have hslot : st'.slot a' = (st.slot a').withBody p₁ := by
              rw [Store.slot_of_table ha ht, Store.setSlot_slot_self]
            have hguard : (st'.slot a').guardEpoch = compare := by
              rw [hslot]
              refine (UInt64.add_left_inj 1).mp ?_
              rw [hcmp, hv]
              rfl
            have hnext : (primeProtocol cl fun a'' p'' => a'' = a' ∧ p'' = p₁).next (.wrote a' p₁)
                (.cas64 a' compare p₁.visibleEpoch) (some compare) = .won a' p₁ := by
              simp [primeProtocol]
            simp only [storeHandler, hguard, if_true]
            rw [hnext]
            intro mn
            have hp₁ : (st'.slot a').withGuard p₁.visibleEpoch = p₁ := by
              rw [hslot]
              exact Slot.committed_eq hp
            rw [hp₁, Store.table_setSlot_congr (ht mn), Store.setSlot_setSlot]
    | won _ _ => exact absurd ⟨trivial, hallow.2⟩ hquiet
    | lost => exact hg.elim

end Obeys

/-! ## What a reader may return -/

/-- A value a reader next to an operation may return. -/
def Mutation.Offers (m : Mutation) (vOld v : Value) : Prop :=
  v = vOld ∨ m.tombstone = false ∧ v = m.value

/-- The `PRIME` slot of a key hash is a tombstone whose epochs agree. -/
def Store.Buried (st : Store) (d : Deployment) (h : UInt64) : Prop :=
  ∃ s, st.Holds d (d.primarySession h) .prime h s ∧ s.guardEpoch = s.visibleEpoch ∧
    s.tombstone = true

/-- A result a reader next to an operation may return: the old value or the new one, and
for a delete also nothing, once the tombstone is committed. -/
inductive Mutation.Accepts (m : Mutation) (d : Deployment) (vOld : Value) (st : Store) :
    Except Err (Option Value) → Prop where
  | value {v : Value} : m.Offers vOld v → m.Accepts d vOld st (.ok (some v))
  | gone : m.tombstone = true → st.Buried d (hash64String m.key) → m.Accepts d vOld st (.ok none)

/-- The cache of a client that uses it holds, under the epochs of the `PRIME` slot of a key,
a slot whose value is not one of those that `ok` admits. -/
def Store.StaleCache (st : Store) (cl : Cluster) (key : Key) (ok : Value → Prop) : Prop :=
  cl.cacheOn = true ∧ ∃ cacheProbe primeProbe value,
    st.probe cl (cl.primarySession (hash64String key)) .cache (hash64String key) = .ok cacheProbe ∧
    st.probe cl (cl.primarySession (hash64String key)) .prime (hash64String key) = .ok primeProbe ∧
    cacheConsistent (hash64String key) cacheProbe primeProbe = true ∧
    decodeSlot cl.ssl cl.crypto key cacheProbe.slot = some value ∧ ¬ ok value

section Read

variable {d : Deployment} {st : Store} {m : Mutation} {vOld : Value} {s : Slot}

/-- A reader that finds a slot of its key returns what is acceptable of that slot, unless its
cache is stale. -/
theorem accepts_iff_not_stale (cacheOn : Bool)
    (ht : Tidy d st (d.primarySession (hash64String m.key)) .prime (hash64String m.key))
    (hh : st.Holds d (d.primarySession (hash64String m.key)) .prime (hash64String m.key) s)
    (hs : ∀ i, m.Accepts d vOld st (primeValue (d.client cacheOn).toCluster m.key (foundProbe s i))) :
    m.Accepts d vOld st (st.readResult (d.client cacheOn).toCluster m.key) ↔
      ¬ st.StaleCache (d.client cacheOn).toCluster m.key (m.Offers vOld) := by
  obtain ⟨i, hfound, _⟩ := ht.probe_of_holds hh
  have hp : st.probe (d.client cacheOn).toCluster
      ((d.client cacheOn).primarySession (hash64String m.key)) .prime (hash64String m.key) =
      .ok (foundProbe s i) := hfound
  -- The reader's cache is stale exactly if the value it takes from there is not one offered.
  have hstale : st.StaleCache (d.client cacheOn).toCluster m.key (m.Offers vOld) ↔
      ∃ v, st.cacheValue (d.client cacheOn).toCluster m.key (foundProbe s i) = some v ∧
        ¬ m.Offers vOld v := by
    simp only [Store.cacheValue_eq_some]
    constructor
    · rintro ⟨hon, cp, pp, v, hc, hpp, hcons, hdec, hv⟩
      rw [hp] at hpp
      cases hpp
      exact ⟨v, ⟨hon, cp, hc, hcons, hdec⟩, hv⟩
    · rintro ⟨v, ⟨hon, cp, hc, hcons, hdec⟩, hv⟩
      exact ⟨hon, cp, _, v, hc, hp, hcons, hdec, hv⟩
  rw [hstale, Store.readResult, hp]
  simp only []
  cases hv : st.cacheValue (d.client cacheOn).toCluster m.key (foundProbe s i) with
  | none => exact iff_of_true (hs i) (by simp)
  | some v =>
      constructor
      · rintro ⟨hoffer⟩ ⟨v', hv', hnot⟩
        cases hv'
        exact hnot hoffer
      · intro hnot
        exact .value (by simpa using hnot)

/-- The old slot is acceptable. -/
theorem accepts_old (cacheOn : Bool)
    (ht : Tidy d st (d.primarySession (hash64String m.key)) .prime (hash64String m.key))
    (hl : st.Live d (d.primarySession (hash64String m.key)) .prime (hash64String m.key) s)
    (hdec : decodeSlot d.ssl d.crypto m.key s = some vOld) (st' : Store) (i : Nat) :
    m.Accepts d vOld st' (primeValue (d.client cacheOn).toCluster m.key (foundProbe s i)) := by
  have hdec' : decodeSlot (d.client cacheOn).ssl (d.client cacheOn).crypto m.key s = some vOld := hdec
  simp only [primeValue, foundProbe, ht.present hl, Bool.not_true, Bool.or_self, Bool.false_eq_true,
    if_false, hdec']
  exact .value (Or.inl rfl)

/-- The proposal is acceptable once it is committed. -/
theorem accepts_new (cacheOn : Bool) {pr : SlotProbe} (hlen : m.value.length ≤ maxValueSize)
    (hh : st.Holds d (d.primarySession (hash64String m.key)) .prime (hash64String m.key)
      (d.proposal m.key m.value m.tombstone pr)) (i : Nat) :
    m.Accepts d vOld st (primeValue (d.client cacheOn).toCluster m.key
      (foundProbe (d.proposal m.key m.value m.tombstone pr) i)) := by
  have hpresent : (d.proposal m.key m.value m.tombstone pr).present (hash64String m.key) =
      !m.tombstone := by
    rw [Slot.present, proposal_valid, proposal_tombstone]
    simp [Cluster.proposal]
  cases htomb : m.tombstone with
  | true =>
      rw [htomb] at hpresent hh
      simp only [primeValue, foundProbe, hpresent, Bool.not_true, Bool.not_false, Bool.or_true, if_true]
      exact .gone htomb ⟨_, hh, rfl, proposal_tombstone ..⟩
  | false =>
      rw [htomb] at hpresent
      have hdec : decodeSlot (d.client cacheOn).ssl (d.client cacheOn).crypto m.key
          (d.proposal m.key m.value false pr) = some m.value :=
        decodeSlot_builtSlot d.ssl d.crypto m.key _ _ m.key hlen
          (by rw [builtSlot_valid]; decide)
      simp only [primeValue, foundProbe, hpresent, Bool.not_false, Bool.not_true, Bool.or_self,
        Bool.false_eq_true, if_false, hdec]
      exact .value (Or.inr ⟨htomb, rfl⟩)

/-- A probe chooses a slot that exists. -/
theorem Store.probe_index_lt {cl : Cluster} {mn : Nat} {kind : RegionKind} {h : UInt64}
    {pr : SlotProbe} (hp : st.probe cl mn kind h = .ok pr) :
    pr.candidateSlotIndex < cl.slots mn kind := by
  have hlt : ∀ j, j < cl.slots mn kind →
      (cl.probeAddr mn kind h j).idx < cl.slots mn kind :=
    fun j hj => Nat.mod_lt _ (by omega)
  rw [Store.probe] at hp
  cases ho : st.outcome cl mn kind h with
  | found j =>
      rw [ho] at hp
      cases hp
      exact hlt j ((scan_eq_iff _ _ _).mp ho).1
  | free j =>
      rw [ho] at hp
      cases hp
      exact hlt j ((scan_eq_iff _ _ _).mp ho).1
  | full =>
      rw [ho] at hp
      cases hp

/-- If no slot of a key hash has agreeing epochs, no read of the key is acceptable. -/
theorem not_accepts_of_torn (cacheOn : Bool)
    (htorn : ∀ s, st.Holds d (d.primarySession (hash64String m.key)) .prime (hash64String m.key) s →
      s.guardEpoch ≠ s.visibleEpoch) :
    ¬ m.Accepts d vOld st (st.readResult (d.client cacheOn).toCluster m.key) := by
  unfold Store.readResult
  cases hp : st.probe (d.client cacheOn).toCluster
      ((d.client cacheOn).primarySession (hash64String m.key)) .prime (hash64String m.key) with
  | error e => rintro ⟨⟩
  | ok pr =>
      have hlost : pr.found = false := by
        by_contra hf
        obtain ⟨_, hs, he, hown⟩ := Store.probe_candidate hp
        obtain ⟨_, hv, hk⟩ := hown (by simpa using hf)
        refine htorn pr.candidateSlot ⟨pr.candidateSlotIndex, Store.probe_index_lt hp, ?_, ?_⟩ he
        · exact hs.symm
        · exact Slot.owner_eq_some.mpr ⟨hv, hk⟩
      have hcache : st.cacheValue (d.client cacheOn).toCluster m.key pr = none := by
        by_contra hne
        obtain ⟨v, hv⟩ := Option.ne_none_iff_exists'.mp hne
        obtain ⟨_, cp, _, hcons, _⟩ := Store.cacheValue_eq_some.mp hv
        simp [cacheConsistent, hlost] at hcons
      simp only [hcache, primeValue, hlost, Bool.not_false, Bool.true_or, if_true]
      rintro ⟨⟩
      next hburied =>
        obtain ⟨s, hs, he, _⟩ := hburied
        exact htorn s hs he

end Read

/-! ## Where a writer can stop -/

/-- A writer that has stopped has not touched `PRIME`, or is between the two steps of its
commit there, or has committed. -/
theorem advance_cases (cl : Cluster) (m : Mutation) (st : Store) (n : Nat) :
    (¬ AtPrimeSwap (Prog.advance storeHandler n (m.prog cl) st).1 ∧
      ∀ mn, (Prog.advance storeHandler n (m.prog cl) st).2.table mn .prime = st.table mn .prime) ∨
    ∃ pr, st.probe cl (cl.primarySession (hash64String m.key)) .prime (hash64String m.key) = .ok pr ∧
      m.value.length ≤ maxValueSize ∧
      ((AtPrimeSwap (Prog.advance storeHandler n (m.prog cl) st).1 ∧
        ∀ mn, (Prog.advance storeHandler n (m.prog cl) st).2.table mn .prime =
          (st.setSlot ⟨cl.primarySession (hash64String m.key), .prime, pr.candidateSlotIndex⟩
            (pr.candidateSlot.withBody (cl.proposal m.key m.value m.tombstone pr))).table mn .prime) ∨
      (¬ AtPrimeSwap (Prog.advance storeHandler n (m.prog cl) st).1 ∧
        ∀ mn, (Prog.advance storeHandler n (m.prog cl) st).2.table mn .prime =
          (st.setSlot ⟨cl.primarySession (hash64String m.key), .prime, pr.candidateSlotIndex⟩
            (cl.proposal m.key m.value m.tombstone pr)).table mn .prime)) := by
  rw [Mutation.prog_eq]
  unfold writeValue
  simp only [Prog.bind_eq]
  rcases Prog.advance_bind storeHandler _ n
    (probeSlot cl (cl.primarySession (hash64String m.key)) .prime (hash64String m.key)) st with
    ⟨c, k, st', hprobe, hrest⟩ | ⟨n', hrest⟩
  · left
    obtain ⟨hswap, htable⟩ := advance_quiet cl
      (probeSlot_obeys (bears_prime Phase.free_idle) _ Cluster.uses_prime (hash64String m.key)) st n
    rw [hprobe] at hswap htable
    rw [hrest]
    exact ⟨fun h => hswap (atPrimeSwap_bind.mp h), htable⟩
  · rw [hrest, run_probeSlot]
    cases hp : st.probe cl (cl.primarySession (hash64String m.key)) .prime (hash64String m.key) with
    | error e => exact Or.inl (by simp [AtPrimeSwap])
    | ok pr =>
        simp only []
        split
        · exact Or.inl (by simp [AtPrimeSwap])
        · by_cases hlen : m.value.length > maxValueSize
          · exact Or.inl (by simp [makeSlot, hlen, AtPrimeSwap])
          · obtain ⟨_, hcand, _⟩ := Store.probe_candidate hp
            simp only [makeSlot, if_neg hlen]
            obtain ⟨g, hobeys, hat⟩ := Prog.Obeys.advance_inv (n := n')
              (CommitAt.step cl st
                (a := ⟨cl.primarySession (hash64String m.key), .prime, pr.candidateSlotIndex⟩)
                (p := cl.proposal m.key m.value m.tombstone pr) rfl (by rw [← hcand]; rfl) rfl)
              (writeProposal_phases m.key ⟨rfl, rfl⟩ (Store.probe_index_lt hp) rfl)
              (show CommitAt st _ _ .idle st from fun _ => rfl)
            rw [Nat.not_lt] at hlen
            cases g with
            | idle => exact Or.inl ⟨not_atPrimeSwap Phase.free_idle hobeys, hat⟩
            | wrote a p =>
                obtain ⟨rfl, rfl, htable⟩ := hat
                rw [← hcand] at htable
                exact Or.inr ⟨pr, rfl, hlen, Or.inl ⟨atPrimeSwap_of_wrote rfl hobeys, htable⟩⟩
            | won a p =>
                exact Or.inr ⟨pr, rfl, hlen, Or.inr
                  ⟨not_atPrimeSwap (Phase.free_won a p) hobeys, hat⟩⟩
            | lost => exact hat.elim

/-! ## Atomicity -/

/-- A read without cache that returns a value found it in a live slot. -/
theorem live_of_read {d : Deployment} {st : Store} {key : Key} {v : Value}
    (ht : Tidy d st (d.primarySession (hash64String key)) .prime (hash64String key))
    (hread : st.readResult (d.client false).toCluster key = .ok (some v)) :
    ∃ s, st.Live d (d.primarySession (hash64String key)) .prime (hash64String key) s ∧
      decodeSlot d.ssl d.crypto key s = some v := by
  by_cases hl : ∃ s, st.Live d (d.primarySession (hash64String key)) .prime (hash64String key) s
  · obtain ⟨s, hl⟩ := hl
    refine ⟨s, hl, ?_⟩
    rw [readResult_of_live ht hl] at hread
    cases hdec : decodeSlot d.ssl d.crypto key s with
    | none =>
        rw [hdec] at hread
        cases hread
    | some v' =>
        rw [hdec] at hread
        cases hread
        rfl
  · have := readResult_of_not_live ht (fun s hs => hl ⟨s, hs⟩) hread
    cases this

/-- A client that has stopped after the first `n` calls of an operation: what it has left to
do, and the store. -/
def Deployment.paused (d : Deployment) (ts : List Turn) (cacheOn : Bool) (m : Mutation) (n : Nat) :
    Prog Net (Except Err Nat) × Store :=
  Prog.advance storeHandler n (m.prog (d.client cacheOn).toCluster) (d.after ts)

/-- What a read returns then. -/
def Deployment.readPaused (d : Deployment) (ts : List Turn) (writerCache readerCache : Bool)
    (m : Mutation) (n : Nat) : Except Err (Option Value) :=
  ((readKv (d.client readerCache).toCluster m.key).run storeHandler
    (d.paused ts writerCache m n).2).1

/-- Reads are atomic next to one writer, except in the window of its commit.  Let a key be
live in a state reached by completed operations, and let a client stop after any number of
calls of a write, update or delete of the key.  A read by another client then returns the
old or the new value (or nothing, if a tombstone is committed) if and only if the writer
did not stop between its write of the `PRIME` body and its compare-and-swap, and the cache
the reader uses is not stale. -/
theorem read_atomic_iff (d : Deployment) (ts : List Turn) (m : Mutation) (vOld : Value)
    (writerCache readerCache : Bool) (n : Nat)
    (hlive : ((readKv (d.client false).toCluster m.key).run storeHandler (d.after ts)).1 =
      .ok (some vOld)) :
    m.Accepts d vOld (d.paused ts writerCache m n).2
        (d.readPaused ts writerCache readerCache m n) ↔
      ¬ AtPrimeSwap (d.paused ts writerCache m n).1 ∧
        ¬ (d.paused ts writerCache m n).2.StaleCache (d.client readerCache).toCluster m.key
          (m.Offers vOld) := by
  have ht : Tidy d (d.after ts) (d.primarySession (hash64String m.key)) .prime (hash64String m.key) :=
    rest_after d ts _ _ (by decide)
  rw [run_readKv] at hlive
  rw [Deployment.readPaused, run_readKv]
  obtain ⟨s, hl, hdec⟩ := live_of_read ht hlive
  have hcases := advance_cases (d.client writerCache).toCluster m (d.after ts) n
  rw [← Deployment.paused] at hcases
  generalize d.paused ts writerCache m n = res at hcases ⊢
  obtain ⟨rest, st'⟩ := res
  rcases hcases with ⟨hswap, htable⟩ | ⟨pr, hp, hlen, hcases⟩
  · have ht' := ht.congr (htable _)
    have hl' := (Store.live_congr (d := d) (htable _)).mpr hl
    rw [accepts_iff_not_stale readerCache ht' hl'.1 (accepts_old readerCache ht' hl' hdec st')]
    exact ⟨fun h => ⟨hswap, h⟩, fun h => h.2⟩
  · have hp' : (d.after ts).probe d.toCluster (d.primarySession (hash64String m.key)) .prime
        (hash64String m.key) = .ok pr := hp
    rcases hcases with ⟨hswap, htable⟩ | ⟨hswap, htable⟩
    · refine iff_of_false (not_accepts_of_torn readerCache fun s' hs' => ?_) fun h => h.1 hswap
      rw [Store.holds_congr (htable _)] at hs'
      have howner : (pr.candidateSlot.withBody
          (d.proposal m.key m.value m.tombstone pr)).owner = some (hash64String m.key) :=
        proposal_owner d.toCluster m.key m.value m.tombstone pr
      rw [(ht.holds_commit hp' howner).mp hs']
      have hne : pr.candidateSlot.guardEpoch ≠ pr.candidateSlot.guardEpoch + 1 := by simp
      exact hne
    · have hown := proposal_owner d.toCluster m.key m.value m.tombstone pr
      have ht' := (ht.commit hp' hown ht (proposal_calm ..)).congr (htable _)
      have hh' := (Store.holds_congr (htable _)).mpr ((ht.holds_commit hp' hown).mpr rfl)
      rw [accepts_iff_not_stale readerCache ht' hh' (accepts_new readerCache hlen hh')]
      exact ⟨fun h => ⟨hswap, h⟩, fun h => h.2⟩

/-- A writer that stopped after its compare-and-swap, three calls into a write to one memory
node, is no trouble to a reader. -/
theorem read_atomic_after_swap :
    ¬ AtPrimeSwap (Deployment.pair.paused [.op false (.mutate (.write [97] [49]))] false
        (.write [97] [50]) 3).1 ∧
      Mutation.Accepts (.write [97] [50]) .pair [49]
        (Deployment.pair.paused [.op false (.mutate (.write [97] [49]))] false
          (.write [97] [50]) 3).2
        (Deployment.pair.readPaused [.op false (.mutate (.write [97] [49]))] false false
          (.write [97] [50]) 3) :=
  have hswap : ¬ AtPrimeSwap (Deployment.pair.paused [.op false (.mutate (.write [97] [49]))] false
      (.write [97] [50]) 3).1 := by decide +kernel
  ⟨hswap, (read_atomic_iff .pair [.op false (.mutate (.write [97] [49]))] (.write [97] [50]) [49]
    false false 3 (by decide +kernel)).mpr ⟨hswap, fun h => Bool.false_ne_true h.1⟩⟩

/-- Reads are not atomic in general.  Key `a` has a value, and a client that overwrites it stops
one call earlier, after it has written the body of the slot: a reader finds nothing. -/
theorem paused_read_none :
    ¬ ∀ (d : Deployment) (ts : List Turn) (m : Mutation) (vOld : Value)
        (writerCache readerCache : Bool) (n : Nat),
      ((readKv (d.client false).toCluster m.key).run storeHandler (d.after ts)).1 =
        .ok (some vOld) →
      m.Accepts d vOld (d.paused ts writerCache m n).2
        (d.readPaused ts writerCache readerCache m n) := by
  intro h
  have haccepts := h .pair [.op false (.mutate (.write [97] [49]))] (.write [97] [50]) [49]
    false false 2 (by decide +kernel)
  have hnone : Deployment.pair.readPaused [.op false (.mutate (.write [97] [49]))] false false
      (.write [97] [50]) 2 = .ok none := by decide +kernel
  rw [hnone] at haccepts
  cases haccepts with
  | gone htomb _ => exact Bool.false_ne_true htomb

end TeeDist
