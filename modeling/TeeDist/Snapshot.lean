import TeeDist.Failure
import TeeDist.Lib.Pool
import TeeDist.Lib.Voting

/-!
# The vote of a write

Several clients write one key.  Each of them probes every backup, writes its body there
and tries to swap the guard epoch, and a rule evaluates its votes.

If all probes find the backups as they were before the race, the first
compare-and-swap at each backup succeeds and no other one does (`SwappedOnce`), so the
votes of a client follow from who was first where (`votes_of_race`).  The rule is then
an election among the clients (`passes_iff_leads`): a backup votes for the client that
is first there, and stands against the clients whose tie-breakers are not below the one
it holds.
-/

namespace TeeDist

open Calls Probing Voting

/-! ## What the probes of a race see -/

/-- A call that reads a table. -/
def Call.Reads (mn : Nat) (kind : RegionKind) : Call → Prop
  | .readRegion a => a.mn = mn ∧ a.kind = kind
  | _ => False

theorem probeLoop_within (mn : Nat) (kind : RegionKind) (h : UInt64) (home count : Nat) :
    ∀ (left idx : Nat) (probe : SlotProbe),
      (probeLoop mn kind h home count left idx probe).Within (Call.Reads mn kind)
  | 0, _, _ => trivial
  | left + 1, idx, probe => by
      rw [probeLoop_succ]
      refine ⟨⟨rfl, rfl⟩, fun r => ?_⟩
      cases r with
      | none => trivial
      | some slot =>
          simp only [probeStep]
          cases slot.classFor h with
          | hit => trivial
          | reusable => exact probeLoop_within mn kind h home count left (idx + 1) _
          | empty => trivial
          | skip => exact probeLoop_within mn kind h home count left (idx + 1) probe

theorem probeSlot_within (cl : Cluster) (mn : Nat) (kind : RegionKind) (h : UInt64) :
    (probeSlot cl mn kind h).Within (Call.Reads mn kind) := by
  unfold probeSlot
  simp only []
  split
  · trivial
  · exact probeLoop_within mn kind h _ _ _ 0 .zero

/-- The reads of a transcript are answered from a store, and no transport fails. -/
structure Faithful (st : Store) (tr : List (Σ c : Call, c.Reply)) : Prop where
  read : ∀ a r, ⟨.readRegion a, r⟩ ∈ tr → r = some (st.slot a)
  write : ∀ a p r, ⟨.writeRegion a p, r⟩ ∈ tr → r = some ()
  cas : ∀ a compare swap r, ⟨.cas64 a compare swap, r⟩ ∈ tr → r ≠ none

theorem Faithful.mono {st : Store} {tr tr' : List (Σ c : Call, c.Reply)} (h : Faithful st tr)
    (hsub : ∀ x ∈ tr', x ∈ tr) : Faithful st tr' :=
  ⟨fun a r hx => h.read a r (hsub _ hx), fun a p r hx => h.write a p r (hsub _ hx),
    fun a c s r hx => h.cas a c s r (hsub _ hx)⟩

/-- A probe answered from a store returns what it returns alone. -/
theorem probe_answers {st : Store} {cl : Cluster} {mn : Nat} {kind : RegionKind} {h : UInt64}
    {tr : List (Σ c : Call, c.Reply)} {r : Except Err SlotProbe} (hf : Faithful st tr)
    (hp : (probeSlot cl mn kind h).Answers tr r) : r = st.probe cl mn kind h := by
  have hreads := hp.within (probeSlot_within cl mn kind h)
  have hrun := hp.eq_run (h := storeHandler) (s := st) fun x hx => by
    obtain ⟨c, r⟩ := x
    cases c with
    | readRegion a =>
        rw [hf.read a r hx]
        rfl
    | writeRegion a p => exact (hreads _ hx).elim
    | cas64 a compare swap => exact (hreads _ hx).elim
  rw [run_probeSlot] at hrun
  exact (congrArg Prod.fst hrun).symm

/-! ## The votes of one client -/

/-- The record a probe leaves: zeros if it fails. -/
def SlotProbe.ofResult : Except Err SlotProbe → SlotProbe
  | .ok pr => pr
  | .error _ => .zero

theorem SlotProbe.eq_ofResult {r : Except Err SlotProbe} (h : r.isOk = true) :
    r = .ok (.ofResult r) := by
  cases r with
  | ok pr => rfl
  | error e => cases h

/-- The probe of the `b`-th backup of a key hash. -/
def Store.votingProbe (st : Store) (cl : Cluster) (h : UInt64) (b : Nat) : SlotProbe :=
  .ofResult (st.backupProbe cl h (b + 1))

/-- The slot that probe chooses. -/
def Store.votingAddr (st : Store) (cl : Cluster) (h : UInt64) (b : Nat) : Addr :=
  cl.backupAddr h (b + 1) (st.votingProbe cl h b)

/-- What is in it. -/
def Store.votingSlot (st : Store) (cl : Cluster) (h : UInt64) (b : Nat) : Slot :=
  (st.votingProbe cl h b).candidateSlot

/-- A backup has room for a key hash, and is not at the given epoch already. -/
def Store.Ready (st : Store) (cl : Cluster) (h epoch : UInt64) (b : Nat) : Prop :=
  (st.backupProbe cl h (b + 1)).isOk = true ∧ (st.votingSlot cl h b).guardEpoch ≠ epoch

instance (st : Store) (cl : Cluster) (h epoch : UInt64) (b : Nat) :
    Decidable (st.Ready cl h epoch b) := inferInstanceAs (Decidable (_ ∧ _))

theorem Store.Ready.probe {st : Store} {cl : Cluster} {h epoch : UInt64} {b : Nat}
    (hr : st.Ready cl h epoch b) : st.backupProbe cl h (b + 1) = .ok (st.votingProbe cl h b) :=
  SlotProbe.eq_ofResult hr.1

/-- The vote of a backup whose slot was `old`, given the epoch the compare-and-swap observed. -/
def voteFor (old : Slot) (observed : UInt64) : Vote :=
  if observed = old.guardEpoch then ⟨true, 0, 0⟩ else ⟨false, observed, old.tieBreaker⟩

/-- What the backup loop does, its probes being answered from a store.  It makes one
compare-and-swap at each backup, and `o` collects the epochs they observe. -/
structure Voted (st : Store) (cl : Cluster) (h : UInt64) (p : Slot) (first last : Nat)
    (tr : List (Σ c : Call, c.Reply)) (o : Nat → UInt64) : Prop where
  made : ∀ b, first ≤ b → b < last →
    ⟨.cas64 (st.votingAddr cl h b) (st.votingSlot cl h b).guardEpoch p.visibleEpoch, some (o b)⟩ ∈ tr
  only : ∀ a compare swap r, ⟨.cas64 a compare swap, r⟩ ∈ tr → ∃ b, first ≤ b ∧ b < last ∧
    a = st.votingAddr cl h b ∧ compare = (st.votingSlot cl h b).guardEpoch ∧
    swap = p.visibleEpoch ∧ r = some (o b)

theorem backupLoop_answers {st : Store} {cl : Cluster} {h : UInt64} {p : Slot} :
    ∀ (left idx : Nat) (observed : UInt64) (votes : List Vote) {tr : List (Σ c : Call, c.Reply)}
      {r : Except Err (List Vote)}, (backupLoop cl h p left idx observed votes).Answers tr r →
      Faithful st tr → (∀ b, idx ≤ b → b < idx + left → st.Ready cl h p.visibleEpoch b) →
      ∃ o, r = .ok (votes ++ (List.range' idx left).map fun b => voteFor (st.votingSlot cl h b) (o b)) ∧
        Voted st cl h p idx (idx + left) tr o
  | 0, idx, _, votes, tr, r, hans, _, _ => by
      obtain ⟨rfl, rfl⟩ := hans.ret_inv
      refine ⟨fun _ => 0, by simp, fun b h₁ h₂ => by omega, fun _ _ _ _ hx => by cases hx⟩
  | left + 1, idx, observed, votes, tr, r, hans, hf, hready => by
      obtain ⟨pr, tr₁, tr₂, rfl, hprobe, hrest⟩ := hans.bind_inv
      have hpr := probe_answers (hf.mono fun x hx => List.mem_append_left _ hx) hprobe
      have hok := (hready idx (Nat.le_refl _) (by omega)).probe
      rw [Store.backupProbe] at hok
      rw [hok] at hpr
      subst hpr
      obtain ⟨hvalid, _⟩ := Store.probe_candidate hok
      simp only [hvalid, Bool.not_true, Bool.false_eq_true, if_false] at hrest
      obtain ⟨res, tr₃, tr₄, rfl, hcommit, hloop⟩ := hrest.bind_inv
      obtain ⟨wrote, tr₅, rfl, hswap⟩ := hcommit.call_inv
      have hwrote := hf.write _ _ wrote (List.mem_append_right _ (List.mem_append_left _
        List.mem_cons_self))
      subst hwrote
      obtain ⟨rc, tr₆, rfl, hret⟩ := hswap.call_inv
      obtain ⟨rfl, rfl⟩ := hret.ret_inv
      have hrc := hf.cas _ _ _ _ (List.mem_append_right _ (List.mem_append_left _
        (List.mem_cons_of_mem _ List.mem_cons_self)))
      obtain ⟨seen, rfl⟩ := Option.ne_none_iff_exists'.mp hrc
      obtain ⟨o, rfl, hvoted⟩ := backupLoop_answers left (idx + 1) _ _ hloop
        (hf.mono fun x hx => List.mem_append_right _ (List.mem_append_right _ hx))
        fun b h₁ h₂ => hready b (by omega) (by omega)
      have hkeep : ∀ b, idx + 1 ≤ b → Function.update o idx seen b = o b :=
        fun b hb => Function.update_of_ne (by omega) ..
      refine ⟨Function.update o idx seen, ?_, fun b h₁ h₂ => ?_, fun a compare swap r hx => ?_⟩
      · have htail : (List.range' (idx + 1) left).map (fun b => voteFor (st.votingSlot cl h b)
            (Function.update o idx seen b)) =
            (List.range' (idx + 1) left).map fun b => voteFor (st.votingSlot cl h b) (o b) :=
          List.map_congr_left fun b hb => by rw [hkeep b (List.mem_range'_1.mp hb).1]
        rw [List.range'_succ, List.map_cons, htail, Function.update_self]
        by_cases hseen : seen = (st.votingSlot cl h idx).guardEpoch
        · simp [voteFor, Store.votingSlot, hseen]
        · simp only [Store.votingSlot] at hseen
          simp [voteFor, Store.votingSlot, hseen]
      · by_cases hb : b = idx
        · subst hb
          rw [Function.update_self]
          exact List.mem_append_right _ (List.mem_append_left _
            (List.mem_cons_of_mem _ List.mem_cons_self))
        · rw [hkeep b (by omega)]
          exact List.mem_append_right _ (List.mem_append_right _
            (hvoted.made b (by omega) (by omega)))
      · rcases List.mem_append.mp hx with hx | hx
        · exact (hprobe.within (probeSlot_within ..) _ hx).elim
        · rcases List.mem_append.mp hx with hx | hx
          · refine ⟨idx, Nat.le_refl _, by omega, ?_⟩
            rw [Function.update_self]
            simp only [List.mem_cons, List.not_mem_nil, or_false] at hx
            rcases hx with hx | hx
            · cases hx
            · cases hx
              exact ⟨rfl, rfl, rfl, rfl⟩
          · obtain ⟨b, h₁, h₂, ha, hc, hs, hr⟩ := hvoted.only a compare swap r hx
            exact ⟨b, by omega, by omega, ha, hc, hs, by rw [hkeep b h₁]; exact hr⟩

/-! ## The first at each backup -/

section First

variable {ι : Type}

/-- The program whose compare-and-swap at a slot is the first one of a run. -/
def firstSwap (a : Addr) : List (Option (Event ι Net)) → Option ι
  | [] => none
  | some ⟨i, .cas64 b _ _, _⟩ :: tr => (firstSwap a tr).or (if b = a then some i else none)
  | _ :: tr => firstSwap a tr

theorem firstSwap_isSome {a : Addr} {i : ι} {compare swap : UInt64} {r : Option UInt64}
    {tr : List (Option (Event ι Net))} (h : some ⟨i, .cas64 a compare swap, r⟩ ∈ tr) :
    (firstSwap a tr).isSome := by
  induction tr with
  | nil => cases h
  | cons e tr ih =>
      rcases List.mem_cons.mp h with rfl | h
      · simp [firstSwap]
      · have hlater := ih h
        cases e with
        | none => exact hlater
        | some ev =>
            obtain ⟨j, c, r'⟩ := ev
            cases c with
            | readRegion b => exact hlater
            | writeRegion b p => exact hlater
            | cas64 b compare' swap' => simp [firstSwap, hlater]

/-- A slot whose guard epoch `g` all programs try to swap for `e`.  The first one succeeds, and
no other. -/
structure SwappedOnce (a : Addr) (g e : UInt64) (tr : List (Option (Event ι Net))) (st : Store) :
    Prop where
  guard : (st.slot a).guardEpoch = if (firstSwap a tr).isSome then e else g
  first : ∀ i, firstSwap a tr = some i ↔ some ⟨i, .cas64 a g e, some g⟩ ∈ tr

variable [DecidableEq ι] {α : Type} {env : Store → Store → Prop}
  {ok : Pool ι Net Store α → Event ι Net → Prop}

/-- A call other than a compare-and-swap at a slot leaves its guard epoch. -/
theorem guardEpoch_eq_of_call {a : Addr} {c : Call} (hc : ∀ compare swap, c ≠ .cas64 a compare swap)
    (st : Store) : ((storeHandler c st).2.slot a).guardEpoch = (st.slot a).guardEpoch := by
  cases c with
  | readRegion b => rfl
  | writeRegion b p =>
      simp only [storeHandler]
      by_cases hb : a = b
      · subst hb
        rw [Store.setSlot_slot_self]
        rfl
      · rw [Store.setSlot_slot_of_ne _ _ hb]
  | cas64 b compare swap =>
      have hb : a ≠ b := by
        rintro rfl
        exact hc compare swap rfl
      simp only [storeHandler]
      split
      · rw [Store.setSlot_slot_of_ne _ _ hb]
      · rfl

variable {a : Addr} {g e : UInt64} {tr : List (Option (Event ι Net))} {st : Store}

omit [DecidableEq ι] in
theorem SwappedOnce.other (hs : SwappedOnce a g e tr st) {i : ι} {c : Call}
    (hc : ∀ compare swap, c ≠ .cas64 a compare swap) :
    SwappedOnce a g e (some ⟨i, c, (storeHandler c st).1⟩ :: tr) (storeHandler c st).2 := by
  have hfirst : firstSwap a (some ⟨i, c, (storeHandler c st).1⟩ :: tr) = firstSwap a tr := by
    cases c with
    | readRegion b => rfl
    | writeRegion b p => rfl
    | cas64 b compare swap =>
        have hb : b ≠ a := by
          rintro rfl
          exact hc compare swap rfl
        rw [firstSwap, if_neg hb, Option.or_none]
  refine ⟨?_, fun j => ?_⟩
  · rw [guardEpoch_eq_of_call hc, hfirst, hs.guard]
  · rw [hfirst, hs.first, List.mem_cons]
    refine ⟨Or.inr, fun h => h.resolve_left fun he => ?_⟩
    cases he
    exact hc _ _ rfl

omit [DecidableEq ι] in
theorem SwappedOnce.swap (hs : SwappedOnce a g e tr st) (hne : g ≠ e) (i : ι) :
    SwappedOnce a g e (some ⟨i, .cas64 a g e, (storeHandler (.cas64 a g e) st).1⟩ :: tr)
      (storeHandler (.cas64 a g e) st).2 := by
  have hguard := hs.guard
  cases hf : firstSwap a tr with
  | none =>
      simp only [hf, Option.isSome_none, Bool.false_eq_true, if_false] at hguard
      have hnow : firstSwap a (some ⟨i, .cas64 a g e, (storeHandler (.cas64 a g e) st).1⟩ :: tr) =
          some i := by
        rw [firstSwap, hf, if_pos rfl, Option.none_or]
      refine ⟨?_, fun j => ?_⟩
      · rw [hnow]
        simp [storeHandler, hguard, Slot.withGuard]
      · have hno : some ⟨j, .cas64 a g e, some g⟩ ∉ tr := fun h => by
          have := (hs.first j).mpr h
          rw [hf] at this
          cases this
        rw [hnow, List.mem_cons, or_iff_left hno]
        simp [storeHandler, hguard, eq_comm]
  | some k =>
      simp only [hf, Option.isSome_some, if_true] at hguard
      have hnow : firstSwap a (some ⟨i, .cas64 a g e, (storeHandler (.cas64 a g e) st).1⟩ :: tr) =
          some k := by
        rw [firstSwap, hf, Option.some_or]
      refine ⟨?_, fun j => ?_⟩
      · rw [hnow]
        simp [storeHandler, hguard, Ne.symm hne]
      · have hother : some (⟨j, .cas64 a g e, some g⟩ : Event ι Net) ≠
            some ⟨i, .cas64 a g e, (storeHandler (.cas64 a g e) st).1⟩ := by
          simp [storeHandler, hguard, hne]
        rw [hnow, ← hf, hs.first, List.mem_cons, or_iff_right hother]

/-- What all programs of a run try to swap once, is swapped once. -/
theorem swappedOnce_of_run {P Q : Pool ι Net Store α} (hne : g ≠ e)
    (hstart : (P.shared.slot a).guardEpoch = g)
    (hr : Run storeHandler (fun _ _ => False) ok P tr Q)
    (hall : ∀ i compare swap r, some ⟨i, .cas64 a compare swap, r⟩ ∈ tr → compare = g ∧ swap = e) :
    SwappedOnce a g e tr Q.shared := by
  refine Run.invariant (I := fun tr Q => (∀ i compare swap r,
    some ⟨i, .cas64 a compare swap, r⟩ ∈ tr → compare = g ∧ swap = e) →
    SwappedOnce a g e tr Q.shared) ?_ ?_ ?_ hr hall
  · exact fun _ => ⟨hstart, fun i => by simp [firstSwap]⟩
  · intro tr Q i c k _ ih _ _ hall
    have hs := ih fun j compare swap r h => hall j compare swap r (List.mem_cons_of_mem _ h)
    by_cases hc : ∃ compare swap, c = .cas64 a compare swap
    · obtain ⟨compare, swap, rfl⟩ := hc
      obtain ⟨rfl, rfl⟩ := hall i compare swap _ List.mem_cons_self
      exact hs.swap hne i
    · exact hs.other fun compare swap he => hc ⟨compare, swap, he⟩
  · exact fun _ _ _ _ _ h => h.elim

end First

/-! ## The rule -/

theorem lt_minOther_foldl (tie : UInt64) :
    ∀ (votes : List Vote) (acc : UInt64),
      tie < votes.foldl (fun acc v => if v.success then acc
        else if v.observedTie ≠ 0 ∧ v.observedTie < acc then v.observedTie else acc) acc ↔
      tie < acc ∧ ∀ v ∈ votes, v.success = false → v.observedTie ≠ 0 → tie < v.observedTie
  | [], acc => by simp
  | v :: votes, acc => by
      rw [List.foldl_cons, lt_minOther_foldl tie votes]
      cases hv : v.success with
      | true => simp [hv]
      | false =>
          by_cases hz : v.observedTie = 0
          · simp [hv, hz]
          · by_cases hlt : v.observedTie < acc
            · have htrans : tie < v.observedTie → tie < acc := fun h => UInt64.lt_trans h hlt
              simp only [hz, hlt, ne_eq, not_false_eq_true, and_self, if_true, Bool.false_eq_true,
                if_false, List.forall_mem_cons, hv, forall_const]
              exact ⟨fun h => ⟨htrans h.1, h.1, h.2⟩, fun h => h.2⟩
            · have htrans : tie < acc → tie < v.observedTie := fun h =>
                UInt64.lt_of_lt_of_le h (UInt64.not_lt.mp hlt)
              simp only [hlt, and_false, if_false, Bool.false_eq_true, List.forall_mem_cons, hv, hz,
                ne_eq, not_false_eq_true, forall_const]
              exact ⟨fun h => ⟨h.1, htrans h.1, h.2⟩, fun h => ⟨h.1, h.2.2⟩⟩

theorem lt_minOther_iff (tie : UInt64) (votes : List Vote) :
    tie < minOther votes ↔ tie < 0xffffffffffffffff ∧
      ∀ v ∈ votes, v.success = false → v.observedTie ≠ 0 → tie < v.observedTie :=
  lt_minOther_foldl tie votes _

/-- The rule lets a client through that has a majority of the votes, or a tie-breaker below
those of all votes it lost. -/
theorem evaluateVotes_ne_zero_iff {votes : List Vote} (hpos : 0 < votes.length) (tie : UInt64) :
    evaluateVotes votes tie ≠ 0 ↔
      votes.length < 2 * voteSuccesses votes ∨ tie < minOther votes := by
  unfold evaluateVotes
  split
  · rename_i h
    have : votes.length < 2 * voteSuccesses votes := by omega
    simp [this]
  · split
    · rename_i h
      have : votes.length < 2 * voteSuccesses votes := by omega
      simp [this]
    · rename_i h
      have : ¬ votes.length < 2 * voteSuccesses votes := by omega
      simp [this]

/-- The rule on the votes of `n` backups whose slots were `old` and whose compare-and-swaps
observed `o`. -/
theorem evaluateVotes_map_iff {n : Nat} (hpos : 0 < n) (old : Nat → Slot) (o : Nat → UInt64)
    (tie : UInt64) :
    evaluateVotes ((List.range n).map fun b => voteFor (old b) (o b)) tie ≠ 0 ↔
      n < 2 * Nat.count (fun b => o b = (old b).guardEpoch) n ∨
      (tie < 0xffffffffffffffff ∧ ∀ b < n, o b ≠ (old b).guardEpoch → (old b).tieBreaker ≠ 0 →
        tie < (old b).tieBreaker) := by
  have hsucc : voteSuccesses ((List.range n).map fun b => voteFor (old b) (o b)) =
      Nat.count (fun b => o b = (old b).guardEpoch) n := by
    rw [voteSuccesses, List.countP_map, Nat.count]
    refine List.countP_congr fun b _ => ?_
    by_cases hb : o b = (old b).guardEpoch <;> simp [voteFor, hb]
  rw [evaluateVotes_ne_zero_iff (by simpa using hpos), hsucc, List.length_map, List.length_range,
    lt_minOther_iff]
  refine or_congr_right (and_congr_right fun _ => ?_)
  simp only [List.mem_map, List.mem_range, forall_exists_index, and_imp, forall_apply_eq_imp_iff₂]
  refine forall_congr' fun b => imp_congr_right fun _ => ?_
  by_cases hb : o b = (old b).guardEpoch <;> simp [voteFor, hb]

/-! ## Races -/

/-- The slot of a backup stands against a tie-breaker: it holds a smaller one, or the same.  A
zero there counts as the largest one. -/
def Store.Blocks (st : Store) (cl : Cluster) (h tie : UInt64) (b : Nat) : Prop :=
  if (st.votingSlot cl h b).tieBreaker = 0 then tie = 0xffffffffffffffff
  else (st.votingSlot cl h b).tieBreaker ≤ tie

instance (st : Store) (cl : Cluster) (h tie : UInt64) : DecidablePred (st.Blocks cl h tie) :=
  fun _ => inferInstanceAs (Decidable (ite _ _ _))

/-- The slot a mutation proposes after its probe of `PRIME` returned `pr`. -/
def Mutation.proposal (m : Mutation) (cl : Cluster) (pr : SlotProbe) : Slot :=
  cl.proposal m.key m.value m.tombstone pr

/-- Clients whose probes of `PRIME` all returned `pr`, before they go to the backups. -/
def Deployment.race {ι : Type} (d : Deployment) (ms : ι → Mutation) (pr : SlotProbe) (st : Store) :
    Pool ι Net Store (Except Err (List Vote)) :=
  ⟨st, fun i => backupLoop d.toCluster (hash64String (ms i).key) ((ms i).proposal d.toCluster pr)
    d.backupCount 0 0 []⟩

/-- A client that is done with the backups meets a rule. -/
def Passes (p : Prog Net (Except Err (List Vote))) (tie : UInt64) : Prop :=
  ∃ votes, p = .ret (.ok votes) ∧ evaluateVotes votes tie ≠ 0

instance (p : Prog Net (Except Err (List Vote))) (tie : UInt64) : Decidable (Passes p tie) :=
  match p with
  | .ret (.ok votes) => decidable_of_iff (evaluateVotes votes tie ≠ 0)
      ⟨fun h => ⟨votes, rfl, h⟩, fun ⟨_, he, h⟩ => by cases he; exact h⟩
  | .ret (.error _) => isFalse fun ⟨_, he, _⟩ => by cases he
  | .call _ _ => isFalse fun ⟨_, he, _⟩ => by cases he

/-- A read that finds a slot as it was in a store. -/
def FindsAsIn {ι α : Type} (st : Store) (Q : Pool ι Net Store α) (ev : Event ι Net) : Prop :=
  ∀ a, ev.call = .readRegion a → Q.shared.slot a = st.slot a

/-- The tie-breakers at the backups of the votes lost are all above one's own exactly if the
backups that stand against it gave their votes. -/
theorem lt_ties_iff_blocks {st : Store} {cl : Cluster} {h tie : UInt64} {n : Nat} {o : Nat → UInt64}
    (hlost : ∃ b < n, o b ≠ (st.votingSlot cl h b).guardEpoch) :
    (tie < 0xffffffffffffffff ∧ ∀ b < n, o b ≠ (st.votingSlot cl h b).guardEpoch →
      (st.votingSlot cl h b).tieBreaker ≠ 0 → tie < (st.votingSlot cl h b).tieBreaker) ↔
    ∀ b < n, st.Blocks cl h tie b → o b = (st.votingSlot cl h b).guardEpoch := by
  constructor
  · rintro ⟨hmax, hall⟩ b hb hblock
    by_contra hne
    unfold Store.Blocks at hblock
    split at hblock
    · rw [hblock] at hmax
      exact UInt64.lt_irrefl _ hmax
    · rename_i hz
      exact UInt64.not_lt.mpr hblock (hall b hb hne hz)
  · intro hall
    have hfree : ∀ b < n, o b ≠ (st.votingSlot cl h b).guardEpoch → ¬ st.Blocks cl h tie b :=
      fun b hb hne hblock => hne (hall b hb hblock)
    refine ⟨?_, fun b hb hne hz => ?_⟩
    · obtain ⟨b, hb, hne⟩ := hlost
      have hnot := hfree b hb hne
      unfold Store.Blocks at hnot
      have hle : ∀ x : UInt64, x ≤ 0xffffffffffffffff := fun x => by
        have := x.toNat_lt
        rw [UInt64.le_iff_toNat_le]
        exact Nat.le_of_lt_succ this
      by_contra hmax
      have htie : tie = 0xffffffffffffffff := UInt64.le_antisymm (hle tie) (UInt64.not_lt.mp hmax)
      refine hnot ?_
      split
      · exact htie
      · rw [htie]
        exact hle _
    · have hnot := hfree b hb hne
      unfold Store.Blocks at hnot
      rw [if_neg hz] at hnot
      exact UInt64.not_le.mp hnot

section Race

variable {ι : Type} [DecidableEq ι] {d : Deployment} {st : Store} {ms : ι → Mutation} {key : Key}
  {pr : SlotProbe} {tr : List (Option (Event ι Net))} {Q : Pool ι Net Store (Except Err (List Vote))}

theorem Deployment.votingAddr_inj (d : Deployment) (st : Store) (h : UInt64) {b b' : Nat}
    (hb : b < d.backupCount) (hb' : b' < d.backupCount)
    (he : st.votingAddr d.toCluster h b = st.votingAddr d.toCluster h b') : b = b' := by
  have hlt := d.backupCount_lt
  have hmn : d.replicaSession h (b + 1) = d.replicaSession h (b' + 1) := congrArg Addr.mn he
  have := d.replicaSession_inj h (by omega) (by omega) hmn
  omega

/-- In a run whose reads find the slots as in a store, the transcripts are answered from it. -/
theorem faithful_of_run {P : Pool ι Net Store (Except Err (List Vote))}
    (hrun : Run storeHandler (fun _ _ => False) (FindsAsIn st) P tr Q) (i : ι) :
    Faithful st (transcriptOf i tr) := by
  have hreply : ∀ c r, some (⟨i, c, r⟩ : Event ι Net) ∈ tr → ∃ s : Store, r = (storeHandler c s).1 ∧
      ∀ a, c = .readRegion a → s.slot a = st.slot a := by
    refine Run.invariant (I := fun tr _ => ∀ c r, some (⟨i, c, r⟩ : Event ι Net) ∈ tr →
      ∃ s : Store, r = (storeHandler c s).1 ∧ ∀ a, c = .readRegion a → s.slot a = st.slot a)
      ?_ ?_ ?_ hrun
    · intro c r h
      cases h
    · intro tr Q j c k _ ih _ hok c' r h
      rcases List.mem_cons.mp h with h | h
      · cases h
        exact ⟨Q.shared, rfl, hok⟩
      · exact ih c' r h
    · exact fun _ _ _ _ _ h => h.elim
  refine ⟨fun a r h => ?_, fun a p r h => ?_, fun a compare swap r h => ?_⟩
  · obtain ⟨s, rfl, hs⟩ := hreply _ _ ((mem_transcriptOf i _ _ tr).mp h)
    exact congrArg some (hs a rfl)
  · obtain ⟨s, rfl, _⟩ := hreply _ _ ((mem_transcriptOf i _ _ tr).mp h)
    rfl
  · obtain ⟨s, rfl, _⟩ := hreply _ _ ((mem_transcriptOf i _ _ tr).mp h)
    exact Option.some_ne_none _

variable (hkey : ∀ i, (ms i).key = key)
  (hready : ∀ b < d.backupCount,
    st.Ready d.toCluster (hash64String key) (pr.candidateSlot.guardEpoch + 1) b)
  (hrun : Run storeHandler (fun _ _ => False) (FindsAsIn st) (d.race ms pr st) tr Q)
  (hdone : ∀ i, ∃ r, Q.prog i = .ret r)

include hkey hready hrun hdone

/-- The transcript of a client has one compare-and-swap at each backup, and its votes follow
from the epochs these observe. -/
theorem voted_of_race (i : ι) :
    ∃ o : Nat → UInt64, Q.prog i = .ret (.ok ((List.range d.backupCount).map fun b =>
        voteFor (st.votingSlot d.toCluster (hash64String key) b) (o b))) ∧
      Voted st d.toCluster (hash64String key) ((ms i).proposal d.toCluster pr) 0 d.backupCount
        (transcriptOf i tr) o := by
  obtain ⟨r, hr⟩ := hdone i
  have hans := hrun.answers hr
  simp only [Deployment.race, hkey] at hans
  obtain ⟨o, rfl, ho⟩ := backupLoop_answers _ _ _ _ hans (faithful_of_run hrun i)
    fun b _ hb => hready b (by omega)
  rw [Nat.zero_add] at ho
  refine ⟨o, ?_, ho⟩
  rw [hr, List.nil_append, ← List.range_eq_range']

/-- At each backup one compare-and-swap succeeds, the first one. -/
theorem swappedOnce_of_race {b : Nat} (hb : b < d.backupCount) :
    SwappedOnce (st.votingAddr d.toCluster (hash64String key) b)
      (st.votingSlot d.toCluster (hash64String key) b).guardEpoch
      (pr.candidateSlot.guardEpoch + 1) tr Q.shared := by
  obtain ⟨_, hcand, _⟩ := Store.probe_candidate (hready b hb).probe
  refine swappedOnce_of_run (hready b hb).2 (congrArg Slot.guardEpoch hcand.symm) hrun
    fun j compare swap r h => ?_
  obtain ⟨_, _, hj⟩ := voted_of_race hkey hready hrun hdone j
  obtain ⟨b', _, hb', ha, rfl, rfl, _⟩ := hj.only _ _ _ _ ((mem_transcriptOf j _ r tr).mpr h)
  obtain rfl := d.votingAddr_inj st _ hb hb' ha
  exact ⟨rfl, rfl⟩

/-- Who was first where fixes the votes: if the probes find the backups as before the race, a
client gets the votes of the backups at which its compare-and-swap was the first one. -/
theorem votes_of_race (i : ι) :
    ∃ o : Nat → UInt64, Q.prog i = .ret (.ok ((List.range d.backupCount).map fun b =>
        voteFor (st.votingSlot d.toCluster (hash64String key) b) (o b))) ∧
      ∀ b < d.backupCount,
        (firstSwap (st.votingAddr d.toCluster (hash64String key) b) tr).isSome ∧
        (o b = (st.votingSlot d.toCluster (hash64String key) b).guardEpoch ↔
          firstSwap (st.votingAddr d.toCluster (hash64String key) b) tr = some i) := by
  obtain ⟨o, hret, ho⟩ := voted_of_race hkey hready hrun hdone i
  refine ⟨o, hret, fun b hb => ?_⟩
  have honce := swappedOnce_of_race hkey hready hrun hdone hb
  have hmade := (mem_transcriptOf i _ _ tr).mp (ho.made b (Nat.zero_le b) hb)
  refine ⟨firstSwap_isSome hmade, fun he => ?_, fun hfirst => ?_⟩
  · rw [he] at hmade
    exact (honce.first i).mpr hmade
  · have hown := (mem_transcriptOf i _ _ tr).mpr ((honce.first i).mp hfirst)
    obtain ⟨b', _, hb', ha, _, _, hobs⟩ := ho.only _ _ _ _ hown
    obtain rfl := d.votingAddr_inj st _ hb hb' ha
    exact (Option.some_inj.mp hobs).symm

/-- In such a race a client meets a rule exactly if it leads. -/
theorem passes_iff_leads (hpos : 0 < d.backupCount) {first : Nat → ι}
    (hfirst : ∀ b < d.backupCount,
      firstSwap (st.votingAddr d.toCluster (hash64String key) b) tr = some (first b)) (i : ι) :
    Passes (Q.prog i) ((ms i).proposal d.toCluster pr).tieBreaker ↔
      Leads d.backupCount first (fun j => st.Blocks d.toCluster (hash64String key)
        ((ms j).proposal d.toCluster pr).tieBreaker) i := by
  obtain ⟨o, hret, ho⟩ := votes_of_race hkey hready hrun hdone i
  have hpass : Passes (Q.prog i) ((ms i).proposal d.toCluster pr).tieBreaker ↔
      evaluateVotes ((List.range d.backupCount).map fun b =>
        voteFor (st.votingSlot d.toCluster (hash64String key) b) (o b))
        ((ms i).proposal d.toCluster pr).tieBreaker ≠ 0 := by
    simp [Passes, hret]
  have hwon : ∀ b < d.backupCount,
      (o b = (st.votingSlot d.toCluster (hash64String key) b).guardEpoch ↔ first b = i) := by
    intro b hb
    rw [(ho b hb).2, hfirst b hb, Option.some_inj]
  rw [hpass, evaluateVotes_map_iff hpos, Leads, ← count_congr hwon]
  by_cases hmaj : d.backupCount < 2 * Nat.count (fun b =>
      o b = (st.votingSlot d.toCluster (hash64String key) b).guardEpoch) d.backupCount
  · simp [hmaj]
  · -- Without a majority there is a vote that was lost.
    have hlost : ∃ b < d.backupCount,
        o b ≠ (st.votingSlot d.toCluster (hash64String key) b).guardEpoch := by
      by_contra hnone
      push Not at hnone
      refine hmaj ?_
      rw [Nat.count_iff_forall.mpr hnone]
      omega
    simp only [hmaj, false_or]
    rw [lt_ties_iff_blocks hlost]
    exact forall_congr' fun b => imp_congr_right fun hb => imp_congr_right fun _ => hwon b hb

end Race

end TeeDist
