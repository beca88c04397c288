import Mathlib.Data.List.Pairwise
import TeeDist.Phases
import TeeDist.Refinement
import TeeDist.Sequential
import TeeDist.Lib.Pool

/-!
# Epochs of `PRIME`

Operations of any number of clients side by side, call by call, and eviction threads
in between.  Whatever the order, the guard epoch of a `PRIME` slot counts the
successful compare-and-swaps on it (`Numbered`), so it never goes back and every
epoch of a slot is committed by one operation (`prime_epochs_count`).

The runs are over the bytes of the memory nodes.  They are matched by runs over
slots, where the argument is made.
-/

namespace TeeDist

open Calls

/-! ## Operations side by side -/

/-- What an operation that succeeds returns. -/
inductive Answer where
  /-- The value a read found, if any. -/
  | value (v : Option Value)
  /-- The rule a mutation met. -/
  | rule (n : Nat)
deriving DecidableEq

/-- The program of an operation. -/
def Op.prog (cl : Cluster) : Op → Prog Net (Except Err Answer)
  | .read key => (readKv cl key).bind fun r => .ret (r.map .value)
  | .mutate m => (m.prog cl).bind fun r => .ret (r.map .rule)

/-- An operation of a client with or without cache. -/
structure Job where
  cacheOn : Bool
  op : Op

/-- Operations at the beginning of a run. -/
def Deployment.pool {ι σ : Type} (d : Deployment) (jobs : ι → Job) (s : σ) :
    Pool ι Net σ (Except Err Answer) :=
  ⟨s, fun i => (jobs i).op.prog (d.client (jobs i).cacheOn).toCluster⟩

variable {ι : Type}

/-- A successful compare-and-swap on `PRIME`. -/
structure PrimeCommit (ι : Type) where
  who : ι
  addr : Addr
  /-- The epoch that was swapped in. -/
  epoch : UInt64

/-- The commit an event of a run is, if it is one. -/
def primeCommit : Option (Event ι Net) → Option (PrimeCommit ι)
  | some ⟨i, .cas64 a compare swap, r⟩ =>
      if a.kind = .prime ∧ r = some compare then some ⟨i, a, swap⟩ else none
  | _ => none

/-- The commits of a run, newest first. -/
def primeCommits (tr : List (Option (Event ι Net))) : List (PrimeCommit ι) :=
  tr.filterMap primeCommit

/-- The number of commits at one slot. -/
def commitsAt (a : Addr) (tr : List (Option (Event ι Net))) : Nat :=
  (primeCommits tr).countP fun c => c.addr = a

theorem primeCommits_append (tr tr' : List (Option (Event ι Net))) :
    primeCommits (tr' ++ tr) = primeCommits tr' ++ primeCommits tr := List.filterMap_append

theorem commitsAt_append (a : Addr) (tr tr' : List (Option (Event ι Net))) :
    commitsAt a (tr' ++ tr) = commitsAt a tr' + commitsAt a tr := by
  rw [commitsAt, primeCommits_append, List.countP_append]
  rfl

theorem commitsAt_le (a : Addr) (tr : List (Option (Event ι Net))) :
    commitsAt a tr ≤ (primeCommits tr).length := List.countP_le_length

/-! ## What a call does to guard epochs -/

section Step

variable {cl : Cluster} {offer : Addr → Slot → Prop}

/-- A permitted call is a commit and moves one guard epoch of `PRIME` on by one, or moves
none. -/
theorem guard_step {g : Phase} {c : Call} (hallow : (primeProtocol cl offer).allow g c) (i : ι)
    (st : Store) :
    (primeCommit (some ⟨i, c, (storeHandler c st).1⟩) = none ∧
      ∀ a, a.kind = .prime →
        ((storeHandler c st).2.slot a).guardEpoch = (st.slot a).guardEpoch) ∨
    ∃ a, a.kind = .prime ∧
      primeCommit (some ⟨i, c, (storeHandler c st).1⟩) = some ⟨i, a, (st.slot a).guardEpoch + 1⟩ ∧
      ((storeHandler c st).2.slot a).guardEpoch = (st.slot a).guardEpoch + 1 ∧
      ∀ b ≠ a, ((storeHandler c st).2.slot b).guardEpoch = (st.slot b).guardEpoch := by
  cases c with
  | readRegion a => exact Or.inl ⟨rfl, fun _ _ => rfl⟩
  | writeRegion a p =>
      refine Or.inl ⟨rfl, fun b _ => ?_⟩
      simp only [storeHandler]
      by_cases hb : b = a
      · subst hb
        rw [Store.setSlot_slot_self]
        rfl
      · rw [Store.setSlot_slot_of_ne _ _ hb]
  | cas64 a compare swap =>
      by_cases hprime : a.kind = .prime
      · have hswap : swap = compare + 1 := by
          cases g with
          | wrote a' p => exact hallow.2.2.1.trans hallow.2.2.2.symm
          | idle => exact absurd hprime hallow.2
          | won _ _ => exact absurd hprime hallow.2
          | lost => exact absurd hprime hallow.2
        by_cases hcmp : (st.slot a).guardEpoch = compare
        · refine Or.inr ⟨a, hprime, ?_, ?_, fun b hb => ?_⟩
          · simp [primeCommit, storeHandler, hprime, hcmp, hswap]
          · simp [storeHandler, hcmp, hswap, Slot.withGuard]
          · simp only [storeHandler, if_pos hcmp]
            rw [Store.setSlot_slot_of_ne _ _ hb]
        · refine Or.inl ⟨?_, fun b _ => ?_⟩
          · simp [primeCommit, storeHandler, hcmp]
          · simp only [storeHandler, if_neg hcmp]
      · refine Or.inl ⟨by simp [primeCommit, hprime], fun b hb => ?_⟩
        simp only [storeHandler]
        split
        · rw [Store.setSlot_slot_of_ne]
          rintro rfl
          exact hprime hb
        · rfl

end Step

/-! ## Counting commits -/

/-- The guard epoch of every `PRIME` slot is the number of commits there.  Unless the count
overflows, the epochs of the commits at a slot are those up to the guard epoch, and different
commits are at different slots or epochs. -/
structure Numbered (tr : List (Option (Event ι Net))) (st : Store) : Prop where
  guard : ∀ a, a.kind = .prime → (st.slot a).guardEpoch = UInt64.ofNat (commitsAt a tr)
  epochs : (primeCommits tr).length < 2 ^ 64 → ∀ c ∈ primeCommits tr,
    c.epoch.toNat ≤ commitsAt c.addr tr
  distinct : (primeCommits tr).length < 2 ^ 64 →
    (primeCommits tr).Pairwise fun c c' => ¬ (c.addr = c'.addr ∧ c.epoch = c'.epoch)

/-- An event that is no commit. -/
theorem Numbered.of_none {tr : List (Option (Event ι Net))} {st st' : Store}
    {e : Option (Event ι Net)} (hn : Numbered tr st) (he : primeCommit e = none)
    (hst : ∀ a, a.kind = .prime → (st'.slot a).guardEpoch = (st.slot a).guardEpoch) :
    Numbered (e :: tr) st' := by
  have hlog : primeCommits (e :: tr) = primeCommits tr := List.filterMap_cons_none he
  have hat : ∀ a, commitsAt a (e :: tr) = commitsAt a tr := fun a => by
    rw [commitsAt, hlog]
    rfl
  refine ⟨fun a ha => ?_, ?_, ?_⟩
  · rw [hst a ha, hat, hn.guard a ha]
  · rw [hlog]
    intro hlen c hc
    rw [hat]
    exact hn.epochs hlen c hc
  · rw [hlog]
    exact hn.distinct

/-- An event that is a commit. -/
theorem Numbered.of_some {tr : List (Option (Event ι Net))} {st st' : Store}
    {e : Option (Event ι Net)} {i : ι} {a : Addr} (hn : Numbered tr st) (ha : a.kind = .prime)
    (he : primeCommit e = some ⟨i, a, (st.slot a).guardEpoch + 1⟩)
    (hself : (st'.slot a).guardEpoch = (st.slot a).guardEpoch + 1)
    (hother : ∀ b ≠ a, (st'.slot b).guardEpoch = (st.slot b).guardEpoch) :
    Numbered (e :: tr) st' := by
  have hlog : primeCommits (e :: tr) = ⟨i, a, (st.slot a).guardEpoch + 1⟩ :: primeCommits tr :=
    List.filterMap_cons_some he
  have hat : ∀ b, commitsAt b (e :: tr) = commitsAt b tr + if a = b then 1 else 0 := fun b => by
    rw [commitsAt, hlog, List.countP_cons]
    simp [commitsAt]
  have hepoch : (st.slot a).guardEpoch + 1 = UInt64.ofNat (commitsAt a tr + 1) := by
    rw [hn.guard a ha, UInt64.ofNat_add]
    rfl
  have hlen' : (primeCommits (e :: tr)).length < 2 ^ 64 → (primeCommits tr).length < 2 ^ 64 := by
    rw [hlog, List.length_cons]
    omega
  -- The new epoch is above all epochs committed at the slot before.
  have hnew : (primeCommits (e :: tr)).length < 2 ^ 64 →
      ((st.slot a).guardEpoch + 1).toNat = commitsAt a tr + 1 := by
    intro hlen
    have hle := commitsAt_le a tr
    rw [hlog, List.length_cons] at hlen
    rw [hepoch, UInt64.toNat_ofNat', Nat.mod_eq_of_lt (by omega)]
  refine ⟨fun b hb => ?_, fun hlen c hc => ?_, fun hlen => ?_⟩
  · by_cases hba : b = a
    · subst hba
      rw [hself, hepoch, hat, if_pos rfl]
    · rw [hother b hba, hn.guard b hb, hat, if_neg (Ne.symm hba), Nat.add_zero]
  · rw [hlog] at hc
    rcases List.mem_cons.mp hc with rfl | hc
    · rw [hnew hlen, hat, if_pos rfl]
    · have := hn.epochs (hlen' hlen) c hc
      rw [hat]
      omega
  · have hnew' := hnew hlen
    rw [hlog]
    refine List.Pairwise.cons (fun c hc => ?_) (hn.distinct (hlen' hlen))
    rintro ⟨haddr, hep⟩
    simp only at haddr hep
    have := hn.epochs (hlen' hlen) c hc
    rw [← haddr, ← hep, hnew'] at this
    omega

/-- An eviction changes caches alone. -/
theorem StoreEvicts.sameTables {d : Deployment} {st st' : Store} (h : StoreEvicts d st st') :
    st.SameTables st' := by
  cases h with
  | count mn => exact fun _ _ _ => rfl
  | turn mn target => exact st.evictTurn_sameTables mn _ target

variable [DecidableEq ι]

/-- A run that begins with fresh memory nodes counts its commits. -/
theorem numbered_of_run {α : Type} {d : Deployment} {offer : ι → Addr → Slot → Prop}
    {post : ι → Phase → α → Prop} {P Q : Pool ι Net Store α} {tr : List (Option (Event ι Net))}
    (hP : ∀ i, (P.prog i).Obeys (primeProtocol d.toCluster (offer i)) (post i) .idle)
    (hfresh : P.shared = .fresh)
    (hr : Run storeHandler (StoreEvicts d) (fun _ _ => True) P tr Q) : Numbered tr Q.shared := by
  refine Run.invariant (I := fun tr Q => Numbered tr Q.shared) ?_ ?_ ?_ hr
  · rw [hfresh]
    refine ⟨fun _ _ => rfl, fun _ c hc => ?_, fun _ => List.Pairwise.nil⟩
    cases hc
  · intro tr Q i c k hr ih hc _
    rcases guard_step (hr.allows hP hc) i Q.shared with ⟨he, hst⟩ | ⟨a, ha, he, hself, hother⟩
    · exact ih.of_none he hst
    · exact ih.of_some ha he hself hother
  · intro tr Q st hr ih he
    refine ih.of_none rfl fun a ha => ?_
    have hslot : st.slot a = Q.shared.slot a := by
      obtain ⟨mn, kind, idx⟩ := a
      exact congrFun (he.sameTables mn kind (by rintro rfl; cases ha)) idx
    rw [hslot]

/-! ## Operations that succeed -/

omit [DecidableEq ι] in
theorem mem_primeCommits_cons {tr : List (Option (Event ι Net))} {c : PrimeCommit ι}
    (e : Option (Event ι Net)) (h : c ∈ primeCommits tr) : c ∈ primeCommits (e :: tr) := by
  have happend := primeCommits_append tr [e]
  rw [List.singleton_append] at happend
  rw [happend]
  exact List.mem_append_right _ h

/-- What the events of a run say about the phase of an operation. -/
def PhaseLogged (tr : List (Option (Event ι Net))) (i : ι) : Phase → Prop
  | .wrote a _ => a.kind = .prime
  | .won a p => ⟨i, a, p.visibleEpoch⟩ ∈ primeCommits tr
  | _ => True

omit [DecidableEq ι] in
theorem PhaseLogged.cons {tr : List (Option (Event ι Net))} {i : ι} {g : Phase}
    (e : Option (Event ι Net)) (h : PhaseLogged tr i g) : PhaseLogged (e :: tr) i g := by
  cases g with
  | wrote a p => exact h
  | won a p => exact mem_primeCommits_cons e h
  | idle => trivial
  | lost => trivial

omit [DecidableEq ι] in
/-- A permitted call of the operation itself. -/
theorem PhaseLogged.call {cl : Cluster} {offer : Addr → Slot → Prop}
    {tr : List (Option (Event ι Net))} {i : ι} {g : Phase} {c : Call}
    (hallow : (primeProtocol cl offer).allow g c) (h : PhaseLogged tr i g) (r : c.Reply) :
    PhaseLogged (some ⟨i, c, r⟩ :: tr) i ((primeProtocol cl offer).next g c r) := by
  cases g with
  | idle =>
      cases c with
      | readRegion a => trivial
      | cas64 a compare swap => trivial
      | writeRegion a p =>
          simp only [primeProtocol]
          split
          next hprime =>
            split
            · exact hprime
            · trivial
          · trivial
  | wrote a p =>
      cases c with
      | readRegion _ => exact hallow.2.elim
      | writeRegion _ _ => exact hallow.2.elim
      | cas64 a' compare swap =>
          obtain ⟨rfl, rfl, _⟩ := hallow.2
          simp only [primeProtocol]
          split
          next hr =>
            have hcommit : primeCommit (some ⟨i, .cas64 a' compare p.visibleEpoch, r⟩) =
                some ⟨i, a', p.visibleEpoch⟩ := if_pos ⟨h, hr⟩
            show _ ∈ List.filterMap _ _
            rw [List.filterMap_cons_some hcommit]
            exact List.mem_cons_self
          · trivial
  | won a p => exact h.cons _
  | lost => cases c <;> trivial

/-- The phase of every operation of a run is the one its events say. -/
theorem phaseLogged_of_run {α σ : Type} {cl : Cluster} {offer : ι → Addr → Slot → Prop}
    {h : Handler Net σ} {env : σ → σ → Prop}
    {ok : Pool ι Net σ α → Event ι Net → Prop} {post : ι → Phase → α → Prop} {P Q : Pool ι Net σ α}
    {tr : List (Option (Event ι Net))}
    (hP : ∀ i, (P.prog i).Obeys (primeProtocol cl (offer i)) (post i) .idle)
    (hr : Run h env ok P tr Q) (i : ι) :
    PhaseLogged tr i (protocolState (fun i => primeProtocol cl (offer i)) (fun _ => .idle) tr i) := by
  refine Run.invariant (I := fun tr _ => ∀ i, PhaseLogged tr i
    (protocolState (fun i => primeProtocol cl (offer i)) (fun _ => .idle) tr i)) ?_ ?_ ?_ hr i
  · exact fun _ => trivial
  · intro tr Q j c k hr ih hc _ i
    rw [protocolState]
    by_cases hi : i = j
    · subst hi
      rw [Function.update_self]
      exact PhaseLogged.call (hr.allows hP hc) (ih i) _
    · rw [Function.update_of_ne hi]
      exact (ih i).cons _
  · intro tr Q s _ ih _ i
    exact (ih i).cons _

/-- What an operation has to offer to `PRIME`: the slot a mutation builds, at some epoch, at the
primary of its key. -/
def Job.Offers (d : Deployment) (job : Job) (a : Addr) (p : Slot) : Prop :=
  ∃ m epoch, job.op = .mutate m ∧ m.value.length ≤ maxValueSize ∧
    a.mn = d.primarySession (hash64String m.key) ∧
    p = builtSlot d.ssl d.crypto m.key m.value (proposalFlags m.tombstone) epoch

/-- How a mutation ends: if it succeeds it has won, and otherwise it has not. -/
def Job.Ended (job : Job) (g : Phase) (r : Except Err Answer) : Prop :=
  ∀ m, job.op = .mutate m → match r with
    | .ok _ => ∃ a p, g = .won a p
    | .error _ => g = .idle ∨ g = .lost

theorem job_obeys (d : Deployment) (job : Job) :
    (job.op.prog (d.client job.cacheOn).toCluster).Obeys
      (primeProtocol d.toCluster (job.Offers d)) job.Ended .idle := by
  cases hop : job.op with
  | read key =>
      refine Prog.Obeys.bind ((@readValue_phases (d.client job.cacheOn).toCluster _ _
        Phase.free_idle key).mono fun g r _ => ?_)
      intro m hm
      rw [hop] at hm
      cases hm
  | mutate m =>
      rw [Op.prog, Mutation.prog_eq]
      refine Prog.Obeys.bind ((@writeValue_phases (d.client job.cacheOn).toCluster _
        m.key m.value m.updateOnly m.tombstone
        fun i epoch _ hlen => ⟨m, epoch + 1, hop, hlen, rfl, rfl⟩).mono fun g r hr => ?_)
      intro _ _
      cases r with
      | error e => exact hr
      | ok rule =>
          obtain ⟨a, p, _, hg⟩ := hr
          exact ⟨a, p, hg⟩

/-! ## The theorem -/

/-- The epochs of `PRIME` never go back, and each has one winner.  Let operations of any number
of clients run side by side, with evictions, over freshly opened regions that are large enough
for their headers, and let there be less than `2 ^ 64` commits.  From any state of the run to a
later one, the guard epoch of a `PRIME` slot grows by the number of successful
compare-and-swaps on it.  Every mutation that returns success made one of them, and no two
operations made one at the same slot and epoch. -/
theorem prime_epochs_count (d : Deployment) (cfg : Nat → RegionConfig) (hcfg : d.Opened cfg)
    (jobs : ι → Job) {tr tr' : List (Option (Event ι Net))}
    {M Q : Pool ι Net (Nat → Region) (Except Err Answer)}
    (hrun : Run (regionHandler d.header) Evicts (fun _ _ => True)
      (d.pool jobs fun mn => Region.create (cfg mn)) tr M)
    (hrun' : Run (regionHandler d.header) Evicts (fun _ _ => True) M tr' Q)
    (hlen : (primeCommits (tr' ++ tr)).length < 2 ^ 64) :
    (∀ mn i, i < d.slots mn .prime →
      ((Q.shared mn).slot .prime i).guardEpoch.toNat =
        ((M.shared mn).slot .prime i).guardEpoch.toNat + commitsAt ⟨mn, .prime, i⟩ tr') ∧
    (∀ i m answer, (jobs i).op = .mutate m → Q.prog i = .ret (.ok answer) →
      ∃ a epoch, ⟨i, a, epoch⟩ ∈ primeCommits (tr' ++ tr)) ∧
    ∀ c ∈ primeCommits (tr' ++ tr), ∀ c' ∈ primeCommits (tr' ++ tr), c.who ≠ c'.who →
      ¬ (c.addr = c'.addr ∧ c.epoch = c'.epoch) := by
  have hP : ∀ i, ((d.pool jobs fun mn => Region.create (cfg mn)).prog i).Obeys
      (primeProtocol d.toCluster ((jobs i).Offers d)) (jobs i).Ended .idle :=
    fun i => job_obeys d (jobs i)
  have hstore : ∀ {tr : List (Option (Event ι Net))} {R : Pool ι Net (Nat → Region) _},
      Run (regionHandler d.header) Evicts (fun _ _ => True)
        (d.pool jobs fun mn => Region.create (cfg mn)) tr R →
      ∃ st, Numbered tr st ∧ Models d R.shared st := by
    intro tr R hr
    obtain ⟨st, hr', hm⟩ := hr.simulate storeHandler (StoreEvicts d) (Models d) hP
      (fun i g c rs st hallow hm => hm.call c hallow.1)
      (fun rs rs' st he hm => hm.evicts he) (models_fresh hcfg)
    exact ⟨st, numbered_of_run hP rfl hr', hm⟩
  have hwhole := hrun.trans hrun'
  obtain ⟨st, hn, hm⟩ := hstore hrun
  obtain ⟨st', hn', hm'⟩ := hstore hwhole
  refine ⟨fun mn i hi => ?_, fun i m answer hop hret => ?_, fun c hc c' hc' hne => ?_⟩
  · have hle := commitsAt_le ⟨mn, .prime, i⟩ (tr' ++ tr)
    have happend := commitsAt_append ⟨mn, .prime, i⟩ tr tr'
    rw [(hm mn).slot .prime i hi, (hm' mn).slot .prime i hi, hn.guard _ rfl, hn'.guard _ rfl,
      UInt64.toNat_ofNat', UInt64.toNat_ofNat', Nat.mod_eq_of_lt (by omega),
      Nat.mod_eq_of_lt (by omega)]
    omega
  · obtain ⟨a, p, hg⟩ := hwhole.returns hP hret m hop
    have hlogged := phaseLogged_of_run hP hwhole i
    rw [hg] at hlogged
    exact ⟨a, p.visibleEpoch, hlogged⟩
  · have hpair := hn'.distinct hlen
    have : Std.Symm fun c c' : PrimeCommit ι => ¬ (c.addr = c'.addr ∧ c.epoch = c'.epoch) :=
      ⟨fun _ _ h he => h ⟨he.1.symm, he.2.symm⟩⟩
    exact hpair.forall hc hc' fun he => hne (congrArg PrimeCommit.who he)

/-- A memory node with two slots of each kind. -/
def RegionConfig.pair : RegionConfig where
  mnMemorySize := 1048576
  nodeId := 0
  primeSlots := 2
  cacheSlots := 2
  backupSlots := 2
  maxValueSize := 256
  cacheMode := 0

/-- Two clients that write key `a`. -/
def rivals (b : Bool) : Job := ⟨false, .mutate (.write [97] [if b then 49 else 50])⟩

/-- Two writers of one key probe, one of them commits, and the other one's compare-and-swap
fails: there is one commit, and the guard epoch counts it. -/
theorem prime_epochs_count_race :
    ∃ tr Q, Run (regionHandler Deployment.pair.header) Evicts (fun _ _ => True)
        (Deployment.pair.pool rivals fun _ => Region.create .pair) tr Q ∧
      (primeCommits tr).length = 1 ∧
      ((Q.shared 0).slot .prime 0).guardEpoch.toNat = commitsAt ⟨0, .prime, 0⟩ tr := by
  have hrun := Pool.run_schedule (regionHandler Deployment.pair.header) Evicts (fun _ _ => True)
    (Deployment.pair.pool rivals fun _ => Region.create .pair)
    [false, false, true, true, false, true] (Pool.respects_true ..)
  have hone : (primeCommits ((Deployment.pair.pool rivals fun _ => Region.create .pair).schedule
      (regionHandler Deployment.pair.header) [false, false, true, true, false, true]).1).length = 1 := by
    decide +kernel
  have hzero : ((Region.create .pair).slot .prime 0).guardEpoch.toNat = 0 := by decide +kernel
  generalize (Deployment.pair.pool rivals fun _ => Region.create .pair).schedule
    (regionHandler Deployment.pair.header) [false, false, true, true, false, true] = res at hrun hone
  have hguard := (prime_epochs_count .pair (fun _ => .pair) (fun mn => ⟨fun kind => rfl, rfl⟩)
    rivals .nil hrun (by rw [List.append_nil, hone]; decide)).1 0 0 (by decide)
  refine ⟨res.1, res.2, hrun, hone, ?_⟩
  rwa [Deployment.pool, hzero, Nat.zero_add] at hguard

end TeeDist
