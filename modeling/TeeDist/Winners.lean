import TeeDist.Snapshot

/-!
# Winners of a race

Any client can be first at any backup: a race can go round by round, everybody probing
a backup before anybody commits there (`race_round`).  So exactly one client passes in
every race whose probes find the backups as before only where the tie-breakers left at
the backups decide it (`snapshot_winner_iff`).

Outside such races there can be two winners (`two_snapshot_winners`).
-/

namespace TeeDist

open Calls Voting

/-! ## Rounds -/

/-- A turn of the backup loop is a probe, a commit and the next turn. -/
theorem backupLoop_split (cl : Cluster) (h : UInt64) (p : Slot) (left idx : Nat) (observed : UInt64)
    (votes : List Vote) :
    ∃ k, backupLoop cl h p (left + 1) idx observed votes =
        (probeSlot cl (cl.replicaSession h (idx + 1)) .backup h).bind k ∧
      ∀ pr : SlotProbe, pr.candidateValid = true →
        ∃ k', k (.ok pr) = (commitSlotAt (cl.backupAddr h (idx + 1) pr) p
            pr.candidateSlot.guardEpoch).bind k' ∧
          ∀ r, ∃ observed' votes', k' r = backupLoop cl h p left (idx + 1) observed' votes' := by
  refine ⟨_, rfl, fun pr hvalid => ?_⟩
  simp only [hvalid, Bool.not_true, Bool.false_eq_true, if_false]
  exact ⟨_, rfl, fun r => ⟨_, _, rfl⟩⟩

/-- A call that writes or swaps at a slot. -/
def Call.Mutates (a : Addr) : Call → Prop
  | .readRegion _ => False
  | .writeRegion b _ => b = a
  | .cas64 b _ _ => b = a

theorem commitSlotAt_within (a : Addr) (p : Slot) (epoch : UInt64) :
    (commitSlotAt a p epoch).Within (Call.Mutates a) := by
  refine ⟨rfl, fun r => ?_⟩
  cases r with
  | none => trivial
  | some _ => exact ⟨rfl, fun _ => trivial⟩

theorem transcript_commitSlotAt (a : Addr) (p : Slot) (epoch : UInt64) (st : Store) :
    (commitSlotAt a p epoch).transcript storeHandler st =
      [⟨.writeRegion a p, some ()⟩, ⟨.cas64 a epoch p.visibleEpoch, some (st.slot a).guardEpoch⟩] := by
  simp [commitSlotAt, writeRegion, cas64, Prog.transcript, storeHandler, Slot.withBody]

/-- Such a call leaves the tables of the other memory nodes. -/
theorem Call.Mutates.table {a : Addr} {c : Call} (hc : c.Mutates a) (st : Store) {mn : Nat}
    (hmn : a.mn ≠ mn) (kind : RegionKind) :
    (storeHandler c st).2.table mn kind = st.table mn kind := by
  cases c with
  | readRegion b => rfl
  | writeRegion b p =>
      obtain rfl : b = a := hc
      exact st.table_setSlot_of_ne _ fun h => hmn h.1
  | cas64 b compare swap =>
      obtain rfl : b = a := hc
      simp only [storeHandler]
      split
      · exact st.table_setSlot_of_ne _ fun h => hmn h.1
      · rfl

section Rounds

variable {ι : Type} [DecidableEq ι] {cl : Cluster} {st : Store} {h : UInt64} {p : ι → Slot}

/-- The clients are about to go to the `idx`-th backup, and nothing has happened to it and to the
later ones. -/
structure AtRound (cl : Cluster) (st : Store) (h : UInt64) (p : ι → Slot) (idx left : Nat)
    (Q : Pool ι Net Store (Except Err (List Vote))) : Prop where
  prog : ∀ i, ∃ observed votes, Q.prog i = backupLoop cl h (p i) left idx observed votes
  kept : ∀ b, idx ≤ b → b < idx + left →
    Q.shared.table (cl.replicaSession h (b + 1)) .backup =
      st.table (cl.replicaSession h (b + 1)) .backup

variable {idx left : Nat} {Q : Pool ι Net Store (Except Err (List Vote))}

/-- Everybody probes the backup. -/
theorem AtRound.probe [Fintype ι] (hQ : AtRound cl st h p idx (left + 1) Q)
    (hok : st.backupProbe cl h (idx + 1) = .ok (st.votingProbe cl h idx)) :
    ∃ tr R, Run storeHandler (fun _ _ => False) (FindsAsIn st) Q tr R ∧ R.shared = Q.shared ∧
      ∀ i, ∃ k', R.prog i = (commitSlotAt (st.votingAddr cl h idx) (p i)
          (st.votingSlot cl h idx).guardEpoch).bind k' ∧
        ∀ r, ∃ observed votes, k' r = backupLoop cl h (p i) left (idx + 1) observed votes := by
  choose observed votes hprog using hQ.prog
  choose k hk hcommit using fun i => backupLoop_split cl h (p i) left idx (observed i) (votes i)
  have htable := hQ.kept idx (Nat.le_refl _) (by omega)
  have hstay : ∀ c s, Call.Reads (cl.replicaSession h (idx + 1)) .backup c → s = Q.shared →
      (storeHandler c s).2 = Q.shared := by
    rintro c s hc rfl
    cases c with
    | readRegion a => rfl
    | writeRegion a body => exact hc.elim
    | cas64 a compare swap => exact hc.elim
  have hfinds : ∀ (R : Pool ι Net Store (Except Err (List Vote))) i c,
      Call.Reads (cl.replicaSession h (idx + 1)) .backup c → R.shared = Q.shared →
      FindsAsIn st R ⟨i, c, (storeHandler c R.shared).1⟩ := by
    rintro R i c hc hR ⟨mn, kind, j⟩ rfl
    obtain ⟨rfl, rfl⟩ : mn = _ ∧ kind = _ := hc
    rw [hR]
    exact congrFun htable j
  obtain ⟨tr, R, hrun, hshared, hdone, _⟩ := Run.each (fun _ _ => False)
    (I := fun s => s = Q.shared) hstay hfinds
    (fun _ => probeSlot_within cl (cl.replicaSession h (idx + 1)) .backup h)
    Finset.univ.nodup_toList (fun i _ => (hprog i).trans (hk i)) rfl
  refine ⟨tr, R, hrun, hshared, fun i => ?_⟩
  obtain ⟨s, rfl, hi⟩ := hdone i (by simp)
  obtain ⟨k', hk', hback⟩ := hcommit i _ (Store.probe_candidate hok).1
  refine ⟨k', ?_, hback⟩
  have hprobe : Q.shared.probe cl (cl.replicaSession h (idx + 1)) .backup h =
      .ok (st.votingProbe cl h idx) := (Store.probe_congr htable h).trans hok
  rw [hi, run_probeSlot, hprobe, hk']
  rfl

/-- One of the clients commits, and the others after it. -/
theorem commit_all [Fintype ι] {a : Addr} {g : UInt64} {K : ι → Option UInt64 → Prog Net _}
    (hprog : ∀ i, Q.prog i = (commitSlotAt a (p i) g).bind (K i))
    (hguard : (Q.shared.slot a).guardEpoch = g) (i₀ : ι) :
    ∃ tr R, Run storeHandler (fun _ _ => False) (FindsAsIn st) Q tr R ∧
      (∀ mn, a.mn ≠ mn → ∀ kind, R.shared.table mn kind = Q.shared.table mn kind) ∧
      (∀ i, ∃ r, R.prog i = K i r) ∧
      some ⟨i₀, .cas64 a g (p i₀).visibleEpoch, some g⟩ ∈ tr := by
  let I : Store → Prop := fun s => ∀ mn, a.mn ≠ mn → ∀ kind, s.table mn kind = Q.shared.table mn kind
  have hstay : ∀ c s, c.Mutates a → I s → I (storeHandler c s).2 :=
    fun c s hc hs mn hmn kind => (hc.table s hmn kind).trans (hs mn hmn kind)
  have hfinds : ∀ (R : Pool ι Net Store (Except Err (List Vote))) i (c : Call), c.Mutates a →
      I R.shared → FindsAsIn st R ⟨i, c, (storeHandler c R.shared).1⟩ := by
    rintro R i c hc _ b rfl
    exact hc.elim
  let M : Pool ι Net Store (Except Err (List Vote)) :=
    ⟨((commitSlotAt a (p i₀) g).run storeHandler Q.shared).2,
      Function.update Q.prog i₀ (K i₀ ((commitSlotAt a (p i₀) g).run storeHandler Q.shared).1)⟩
  obtain ⟨tr, hfirst, hmem⟩ := Run.alone (fun _ _ => False) hstay hfinds (hprog i₀)
    (commitSlotAt_within a (p i₀) g) fun _ _ _ => rfl
  have hI : I M.shared :=
    (commitSlotAt_within a (p i₀) g).run_inv hstay fun _ _ _ => rfl
  obtain ⟨tr', R, hrest, hR, hdone, hkept⟩ := Run.each (fun _ _ => False) hstay hfinds
    (fun i => commitSlotAt_within a (p i) g) (Finset.univ.erase i₀).nodup_toList (Q := M)
    (fun i hi => (Function.update_of_ne (by simpa using hi) ..).trans (hprog i)) hI
  refine ⟨tr' ++ tr, R, hfirst.trans hrest, hR, fun i => ?_, ?_⟩
  · by_cases hi : i = i₀
    · subst hi
      refine ⟨_, (hkept i (by simp)).trans (Function.update_self ..)⟩
    · obtain ⟨s, _, hs⟩ := hdone i (by simpa using hi)
      exact ⟨_, hs⟩
  · refine List.mem_append_right _ (hmem ⟨.cas64 a g (p i₀).visibleEpoch, some g⟩ ?_)
    rw [transcript_commitSlotAt, hguard]
    exact List.mem_cons_of_mem _ List.mem_cons_self

/-- One round, in which `i₀` is the first to commit. -/
theorem race_round [Fintype ι] (hQ : AtRound cl st h p idx (left + 1) Q)
    (hlt : idx + left + 1 < cl.sessionCount)
    (hok : st.backupProbe cl h (idx + 1) = .ok (st.votingProbe cl h idx)) (i₀ : ι) :
    ∃ tr R, Run storeHandler (fun _ _ => False) (FindsAsIn st) Q tr R ∧
      AtRound cl st h p (idx + 1) left R ∧
      some ⟨i₀, .cas64 (st.votingAddr cl h idx) (st.votingSlot cl h idx).guardEpoch
        (p i₀).visibleEpoch, some (st.votingSlot cl h idx).guardEpoch⟩ ∈ tr := by
  obtain ⟨tr, R, hprobes, hshared, hcommit⟩ := hQ.probe hok
  choose K hprog hback using hcommit
  have hguard : (R.shared.slot (st.votingAddr cl h idx)).guardEpoch =
      (st.votingSlot cl h idx).guardEpoch := by
    obtain ⟨_, hcand, _⟩ := Store.probe_candidate hok
    have hslot := congrFun (hQ.kept idx (Nat.le_refl _) (by omega))
      (st.votingProbe cl h idx).candidateSlotIndex
    rw [hshared]
    exact congrArg Slot.guardEpoch (hslot.trans hcand.symm)
  obtain ⟨tr', R', hcommits, htables, hdone, hmem⟩ := commit_all hprog hguard i₀
  refine ⟨tr' ++ tr, R', hprobes.trans hcommits, ⟨fun i => ?_, fun b h₁ h₂ => ?_⟩,
    List.mem_append_left _ hmem⟩
  · obtain ⟨r, hr⟩ := hdone i
    obtain ⟨observed, votes, hloop⟩ := hback i r
    exact ⟨observed, votes, hr.trans hloop⟩
  · have hmn : cl.replicaSession h (idx + 1) ≠ cl.replicaSession h (b + 1) := fun he => by
      have := cl.replicaSession_inj h (by omega) (by omega) he
      omega
    rw [htables _ hmn, hshared]
    exact hQ.kept b (by omega) (by omega)

/-- All rounds, with a first client for each of them. -/
theorem race_rounds [Fintype ι] (first : Nat → ι) :
    ∀ {left idx : Nat} {Q : Pool ι Net Store (Except Err (List Vote))},
      AtRound cl st h p idx left Q → idx + left < cl.sessionCount →
      (∀ b, idx ≤ b → b < idx + left → st.backupProbe cl h (b + 1) = .ok (st.votingProbe cl h b)) →
      ∃ tr R, Run storeHandler (fun _ _ => False) (FindsAsIn st) Q tr R ∧
        (∀ i, ∃ r, R.prog i = .ret r) ∧
        ∀ b, idx ≤ b → b < idx + left →
          some ⟨first b, .cas64 (st.votingAddr cl h b) (st.votingSlot cl h b).guardEpoch
            (p (first b)).visibleEpoch, some (st.votingSlot cl h b).guardEpoch⟩ ∈ tr
  | 0, idx, Q, hQ, _, _ => by
      refine ⟨[], Q, .nil, fun i => ?_, fun b h₁ h₂ => by omega⟩
      obtain ⟨observed, votes, hprog⟩ := hQ.prog i
      exact ⟨_, hprog⟩
  | left + 1, idx, Q, hQ, hlt, hok => by
      obtain ⟨tr, R, hrun, hR, hmem⟩ := race_round hQ (by omega) (hok idx (Nat.le_refl _) (by omega))
        (first idx)
      obtain ⟨tr', R', hrun', hdone, hmem'⟩ := race_rounds first hR (by omega)
        fun b h₁ h₂ => hok b (by omega) (by omega)
      refine ⟨tr' ++ tr, R', hrun.trans hrun', hdone, fun b h₁ h₂ => ?_⟩
      by_cases hb : b = idx
      · subst hb
        exact List.mem_append_right _ hmem
      · exact List.mem_append_left _ (hmem' b (by omega) (by omega))

end Rounds

/-! ## The theorem -/

section Race

variable {ι : Type} [DecidableEq ι] {d : Deployment} {st : Store} {ms : ι → Mutation} {key : Key}
  {pr : SlotProbe}

/-- Any client can be first at any backup. -/
theorem exists_race [Fintype ι] (hkey : ∀ i, (ms i).key = key)
    (hready : ∀ b < d.backupCount,
      st.Ready d.toCluster (hash64String key) (pr.candidateSlot.guardEpoch + 1) b)
    (first : Nat → ι) :
    ∃ tr Q, Run storeHandler (fun _ _ => False) (FindsAsIn st) (d.race ms pr st) tr Q ∧
      (∀ i, ∃ r, Q.prog i = .ret r) ∧
      ∀ b < d.backupCount,
        firstSwap (st.votingAddr d.toCluster (hash64String key) b) tr = some (first b) := by
  have hstart : AtRound d.toCluster st (hash64String key)
      (fun i => (ms i).proposal d.toCluster pr) 0 d.backupCount (d.race ms pr st) :=
    ⟨fun i => ⟨0, [], by simp only [Deployment.race, hkey]⟩, fun _ _ _ => rfl⟩
  have hlt := d.backupCount_lt
  obtain ⟨tr, Q, hrun, hdone, hmem⟩ := race_rounds first hstart (by omega)
    fun b _ hb => (hready b (by omega)).probe
  exact ⟨tr, Q, hrun, hdone, fun b hb => ((swappedOnce_of_race hkey hready hrun hdone hb).first _).mpr
    (hmem b (Nat.zero_le b) (by omega))⟩

/-- When the snapshot rule lets one client through.  Let two or more clients that have found the
same slot and epoch at the primary go to the backups, each of which has room for the key and is
not at the new epoch.  Exactly one of them meets a rule in every interleaving in which their
probes find the backups as before the race, if and only if the tie-breakers left at the backups
decide the race. -/
theorem snapshot_winner_iff [Fintype ι] (htwo : 2 ≤ Fintype.card ι) (hkey : ∀ i, (ms i).key = key)
    (hpos : 0 < d.backupCount)
    (hready : ∀ b < d.backupCount,
      st.Ready d.toCluster (hash64String key) (pr.candidateSlot.guardEpoch + 1) b) :
    (∀ tr Q, Run storeHandler (fun _ _ => False) (FindsAsIn st) (d.race ms pr st) tr Q →
      (∀ i, ∃ r, Q.prog i = .ret r) →
      ∃! i, Passes (Q.prog i) ((ms i).proposal d.toCluster pr).tieBreaker) ↔
    Decided d.backupCount fun i => st.Blocks d.toCluster (hash64String key)
      ((ms i).proposal d.toCluster pr).tieBreaker := by
  rw [← decided_iff htwo hpos]
  constructor
  · intro hall first
    obtain ⟨tr, Q, hrun, hdone, hfirst⟩ := exists_race hkey hready first
    have hone := hall tr Q hrun hdone
    simpa only [passes_iff_leads hkey hready hrun hdone hpos hfirst] using hone
  · intro hall tr Q hrun hdone
    obtain ⟨i₀⟩ : Nonempty ι := Fintype.card_pos_iff.mp (by omega)
    have hfirst : ∀ b < d.backupCount,
        firstSwap (st.votingAddr d.toCluster (hash64String key) b) tr =
          some ((firstSwap (st.votingAddr d.toCluster (hash64String key) b) tr).getD i₀) := by
      intro b hb
      obtain ⟨_, _, hvotes⟩ := votes_of_race hkey hready hrun hdone i₀
      obtain ⟨i, hi⟩ := Option.isSome_iff_exists.mp (hvotes b hb).1
      rw [hi, Option.getD_some]
    simp only [passes_iff_leads hkey hready hrun hdone hpos hfirst]
    exact hall _

end Race

/-- Two memory nodes, each of which keeps the backups of the other. -/
def Deployment.mirrored : Deployment := .uniform .sample .sample 2 1 2 2 2

/-- Two clients that write key `a`. -/
def contenders (value value' : UInt8) (i : Bool) : Mutation :=
  .write [97] [if i then value else value']

/-- What their probes of `PRIME` return. -/
def Store.contended (st : Store) : SlotProbe :=
  .ofResult (st.probe Deployment.mirrored.toCluster
    (Deployment.mirrored.primarySession (hash64String [97])) .prime (hash64String [97]))

/-- The store after key `a` was written once. -/
def Store.mirrored : Store := Deployment.mirrored.after [.op false (.mutate (.write [97] [49]))]

/-- The tie-breaker that the first write left at the backup is below those of two later writers,
so only one of them meets a rule: the one that is first there. -/
theorem snapshot_winner_mirrored :
    (∃ tr Q, Run storeHandler (fun _ _ => False) (FindsAsIn .mirrored)
        (Deployment.mirrored.race (contenders 48 52) Store.mirrored.contended .mirrored) tr Q ∧
      ∀ i, ∃ r, Q.prog i = .ret r) ∧
    ∀ tr Q, Run storeHandler (fun _ _ => False) (FindsAsIn .mirrored)
        (Deployment.mirrored.race (contenders 48 52) Store.mirrored.contended .mirrored) tr Q →
      (∀ i, ∃ r, Q.prog i = .ret r) →
      ∃! i, Passes (Q.prog i) ((contenders 48 52 i).proposal Deployment.mirrored.toCluster
        Store.mirrored.contended).tieBreaker := by
  have hready : ∀ b < Deployment.mirrored.backupCount,
      Store.mirrored.Ready Deployment.mirrored.toCluster (hash64String [97])
        (Store.mirrored.contended.candidateSlot.guardEpoch + 1) b := by decide +kernel
  have hkey : ∀ i, (contenders 48 52 i).key = [97] := fun _ => rfl
  obtain ⟨tr, Q, hrun, hdone, _⟩ := exists_race hkey hready fun _ => true
  exact ⟨⟨tr, Q, hrun, hdone⟩, (snapshot_winner_iff (by decide) hkey (by decide) hready).mpr
    (Or.inl ⟨by decide, 0, by decide, by decide +kernel⟩)⟩

/-- Two clients write a fresh key.  The second one probes the backup when the first one has
committed there, swaps the new epoch for itself and gets the vote as well. -/
theorem two_snapshot_winners :
    ∃ tr Q, Function.Injective (fun i => ((contenders 49 50 i).proposal
        Deployment.mirrored.toCluster Store.fresh.contended).tieBreaker) ∧
      Store.fresh.probe Deployment.mirrored.toCluster
        (Deployment.mirrored.primarySession (hash64String [97])) .prime (hash64String [97]) =
        .ok Store.fresh.contended ∧
      Deployment.mirrored.backupCount = 1 ∧
      Run storeHandler (fun _ _ => False) (fun _ _ => True)
        (Deployment.mirrored.race (contenders 49 50) Store.fresh.contended .fresh) tr Q ∧
      (∀ i, ∃ r, Q.prog i = .ret r) ∧
      ¬ ∃! i, Passes (Q.prog i) ((contenders 49 50 i).proposal Deployment.mirrored.toCluster
        Store.fresh.contended).tieBreaker := by
  let P := Deployment.mirrored.race (contenders 49 50) Store.fresh.contended .fresh
  have hrun := P.run_schedule storeHandler (fun _ _ => False) (fun _ _ => True)
    [false, false, false, true, true, true] (P.respects_true _ _)
  have hpass : ∀ i, Passes ((P.schedule storeHandler [false, false, false, true, true, true]).2.prog i)
      ((contenders 49 50 i).proposal Deployment.mirrored.toCluster
        Store.fresh.contended).tieBreaker := by decide +kernel
  refine ⟨_, _, ?_, SlotProbe.eq_ofResult (by decide +kernel), by decide, hrun, fun i => ?_, ?_⟩
  · intro i j
    revert i j
    decide +kernel
  · obtain ⟨votes, hret, _⟩ := hpass i
    exact ⟨_, hret⟩
  · rintro ⟨i, _, hone⟩
    exact Bool.false_ne_true ((hone false (hpass false)).trans (hone true (hpass true)).symm)

end TeeDist
