import TeeDist.Faults

/-!
# A write while calls fail

A write that runs alone against memory nodes that fail, the primary being healthy.  The vote
loop ends with an error at the first backup whose probe fails, and this ends the write
(`faulty_write_unheard`).  If it gets past all backups, a call that fails in a commit makes a
lost vote, and the write goes on to the rule (`faulty_write_voted`).  The backups whose votes are
lost are tried once more in the end (`repairLoop_tried`).
-/

namespace TeeDist

open Calls

/-! ## The votes of a write -/

/-- The vote loop gets past a backup: its probe is answered and finds room. -/
def Heard (st : Store) (cl : Cluster) (h : UInt64) (f : Faults) (b : Nat) : Prop :=
  (st.backupProbe cl h (b + 1)).isOk = true ∧
    ∀ k < st.probeReads cl (cl.replicaSession h (b + 1)) .backup h,
      f.reads (cl.replicaSession h (b + 1)) k = .ok

instance (st : Store) (cl : Cluster) (h : UInt64) (f : Faults) (b : Nat) :
    Decidable (Heard st cl h f b) := inferInstanceAs (Decidable (_ ∧ ∀ k < _, _))

/-- The store after a commit at the slot a probe of a backup chooses, if its calls go like `c`.
Nothing happens where the probe finds no room. -/
def Store.tried (st : Store) (cl : Cluster) (h : UInt64) (p : Slot) (c : Nat → Fault) (b : Nat) :
    Store :=
  if (st.backupProbe cl h (b + 1)).isOk then
    st.setSlot (st.votingAddr cl h b) ((st.votingSlot cl h b).afterCommit p (c 0) (c 1))
  else st

/-- What the vote of a backup says, and what it leaves.  The store before the votes is `st`, and
the store after them is `st'`. -/
structure VoteOf (st st' : Store) (cl : Cluster) (h : UInt64) (p : Slot) (f f' : Faults) (b : Nat)
    (vote : Vote) : Prop where
  success : vote.success = true ↔ f.changes (cl.replicaSession h (b + 1)) 0 = .ok ∧
    f.changes (cl.replicaSession h (b + 1)) 1 = .ok
  tie : vote.success = false → vote.observedTie = (st.votingSlot cl h b).tieBreaker
  table : st'.table (cl.replicaSession h (b + 1)) .backup =
    (st.tried cl h p (f.changes (cl.replicaSession h (b + 1))) b).table
      (cl.replicaSession h (b + 1)) .backup
  changes : ∀ k, f'.changes (cl.replicaSession h (b + 1)) k =
    f.changes (cl.replicaSession h (b + 1))
      (k + commitCalls (f.changes (cl.replicaSession h (b + 1)) 0))

/-- Two stores and patterns are the same for the backup at a memory node. -/
structure SameBackup (mn : Nat) (st st₁ : Store) (f f₁ : Faults) : Prop where
  table : st₁.table mn .backup = st.table mn .backup
  reads : f₁.reads mn = f.reads mn
  changes : f₁.changes mn = f.changes mn

section Votes

variable {cl : Cluster} {h : UInt64} {p : Slot} {st st₁ st' : Store} {f f₁ f' : Faults}

theorem SameBackup.refl (mn : Nat) (st : Store) (f : Faults) : SameBackup mn st st f f :=
  ⟨rfl, rfl, rfl⟩

theorem SameBackup.trans {mn : Nat} (h₁ : SameBackup mn st st₁ f f₁)
    (h₂ : SameBackup mn st₁ st' f₁ f') : SameBackup mn st st' f f' :=
  ⟨h₂.table.trans h₁.table, h₂.reads.trans h₁.reads, h₂.changes.trans h₁.changes⟩

/-- What a program reads from one array depends on that array. -/
theorem transcript_congr {α : Type} {mn : Nat} {kind : RegionKind} {q : Prog Net α}
    (hq : q.Within (Call.Reads mn kind)) (ht : st₁.table mn kind = st.table mn kind) :
    (q.transcript storeHandler st₁).length = (q.transcript storeHandler st).length := by
  induction q with
  | ret a => rfl
  | call c k ih =>
      cases c with
      | writeRegion a p => exact hq.1.elim
      | cas64 a compare swap => exact hq.1.elim
      | readRegion a =>
          obtain ⟨⟨rfl, rfl⟩, hk⟩ := hq
          have hslot : st₁.slot a = st.slot a := congrFun ht a.idx
          simp only [Prog.transcript, storeHandler, hslot, List.length_cons]
          rw [ih _ (hk _)]

theorem backupProbe_congr {b : Nat} (ht : st₁.table (cl.replicaSession h (b + 1)) .backup =
      st.table (cl.replicaSession h (b + 1)) .backup) :
    st₁.backupProbe cl h (b + 1) = st.backupProbe cl h (b + 1) := Store.probe_congr ht h

/-- A commit at a backup depends on the array of that backup. -/
theorem Store.tried_congr {b : Nat} (ht : st₁.table (cl.replicaSession h (b + 1)) .backup =
      st.table (cl.replicaSession h (b + 1)) .backup) (c : Nat → Fault) :
    (st₁.tried cl h p c b).table (cl.replicaSession h (b + 1)) .backup =
      (st.tried cl h p c b).table (cl.replicaSession h (b + 1)) .backup := by
  simp only [Store.tried, Store.votingAddr, Store.votingSlot, Store.votingProbe,
    backupProbe_congr ht]
  split
  · exact Store.table_setSlot_congr ht _ _
  · exact ht

theorem SameBackup.heard {b : Nat} (hs : SameBackup (cl.replicaSession h (b + 1)) st st₁ f f₁) :
    Heard st₁ cl h f₁ b ↔ Heard st cl h f b := by
  have hreads : st₁.probeReads cl (cl.replicaSession h (b + 1)) .backup h =
      st.probeReads cl (cl.replicaSession h (b + 1)) .backup h :=
    transcript_congr (probeSlot_within ..) hs.table
  rw [Heard, backupProbe_congr hs.table, hreads, hs.reads, Heard]

/-- What happened to the other backups before makes no difference to a vote. -/
theorem SameBackup.voteOf {b : Nat} {vote : Vote}
    (hs : SameBackup (cl.replicaSession h (b + 1)) st st₁ f f₁)
    (hv : VoteOf st₁ st' cl h p f₁ f' b vote) : VoteOf st st' cl h p f f' b vote := by
  obtain ⟨hsuccess, htie, htable, hchanges⟩ := hv
  rw [Store.votingSlot, Store.votingProbe, backupProbe_congr hs.table] at htie
  rw [hs.changes] at hsuccess htable hchanges
  exact ⟨hsuccess, htie, htable.trans (Store.tried_congr hs.table _), hchanges⟩

/-- What happens to the other backups afterwards makes no difference to a vote. -/
theorem VoteOf.same {b : Nat} {vote : Vote} (hv : VoteOf st st₁ cl h p f f₁ b vote)
    (hs : SameBackup (cl.replicaSession h (b + 1)) st₁ st' f₁ f') :
    VoteOf st st' cl h p f f' b vote where
  success := hv.success
  tie := hv.tie
  table := hs.table.trans hv.table
  changes k := by rw [hs.changes, hv.changes]

/-- A commit at the slot a probe of a backup chose. -/
theorem run_commitSlotAt_tried (st : Store) (f : Faults) (hp : p.committed = p) {b : Nat}
    (hok : (st.backupProbe cl h (b + 1)).isOk = true) :
    ∃ f', (commitSlotAt (st.votingAddr cl h b) p (st.votingSlot cl h b).guardEpoch).run
        faultyHandler (st, f) =
        (if f.changes (cl.replicaSession h (b + 1)) 0 = .ok ∧
            f.changes (cl.replicaSession h (b + 1)) 1 = .ok then
          some (st.votingSlot cl h b).guardEpoch else none,
          st.tried cl h p (f.changes (cl.replicaSession h (b + 1))) b, f') ∧
      (∀ k, f'.changes (cl.replicaSession h (b + 1)) k =
        f.changes (cl.replicaSession h (b + 1))
          (k + commitCalls (f.changes (cl.replicaSession h (b + 1)) 0))) ∧
      ∀ mn ≠ cl.replicaSession h (b + 1), SameBackup mn st
        (st.tried cl h p (f.changes (cl.replicaSession h (b + 1))) b) f f' := by
  have hslot : st.votingSlot cl h b = st.slot (st.votingAddr cl h b) :=
    (Store.probe_candidate (SlotProbe.eq_ofResult hok)).2.1
  obtain ⟨f', hrun, hreads, hother, hself⟩ :=
    run_commitSlotAt_faulty st f (st.votingAddr cl h b) hp (congrArg Slot.guardEpoch hslot)
  have hmn : (st.votingAddr cl h b).mn = cl.replicaSession h (b + 1) := rfl
  rw [hmn] at hrun hother hself
  refine ⟨f', ?_, hself, fun mn hne => ⟨?_, by rw [hreads], hother mn hne⟩⟩
  · rw [hrun, Store.tried, if_pos hok, ← hslot]
  · rw [Store.tried, if_pos hok]
    exact st.table_setSlot_of_ne _ fun he => hne he.1.symm

/-- The loop ends with an error at a backup that it does not get past. -/
theorem backupLoop_unheard_turn {idx : Nat} (hb : ¬ Heard st cl h f idx) (left : Nat)
    (observed : UInt64) (votes : List Vote) :
    ∃ e, ((backupLoop cl h p (left + 1) idx observed votes).run faultyHandler (st, f)).1 =
      .error e := by
  unfold backupLoop
  simp only [Prog.bind_eq, Prog.run_bind]
  by_cases hreads : ∀ k < st.probeReads cl (cl.replicaSession h (idx + 1)) .backup h,
      f.reads (cl.replicaSession h (idx + 1)) k = .ok
  · obtain ⟨f', hrun, _, _⟩ := run_faulty_reads st (probeSlot_within ..) hreads
    have hroom : ¬ (st.backupProbe cl h (idx + 1)).isOk = true := fun hok => hb ⟨hok, hreads⟩
    rw [hrun, run_probeSlot]
    cases hp : st.probe cl (cl.replicaSession h (idx + 1)) .backup h with
    | error e => exact ⟨e, rfl⟩
    | ok pr =>
        rw [Store.backupProbe, hp] at hroom
        exact absurd rfl hroom
  · push Not at hreads
    obtain ⟨k, hk, hbad⟩ := hreads
    have hstops : Stops (probeSlot cl (cl.replicaSession h (idx + 1)) .backup h) := by
      unfold probeSlot
      simp only []
      split
      · trivial
      · exact probeLoop_stops ..
    rw [run_faulty_stops (probeSlot_within ..) hstops ⟨k, hk, hbad⟩]
    exact ⟨.transport, rfl⟩

/-- The loop gets past a backup and collects its vote. -/
theorem backupLoop_heard_turn (hp : p.committed = p) {idx : Nat} (hb : Heard st cl h f idx)
    (left : Nat) (observed : UInt64) (votes : List Vote) :
    ∃ vote observed' st₁ f₁,
      (backupLoop cl h p (left + 1) idx observed votes).run faultyHandler (st, f) =
        (backupLoop cl h p left (idx + 1) observed' (votes ++ [vote])).run faultyHandler (st₁, f₁) ∧
      VoteOf st st₁ cl h p f f₁ idx vote ∧
      ∀ mn ≠ cl.replicaSession h (idx + 1), SameBackup mn st st₁ f f₁ := by
  obtain ⟨f', hrun, hchanges, hreads⟩ := run_faulty_reads st (probeSlot_within ..) hb.2
  have hok := SlotProbe.eq_ofResult hb.1
  rw [Store.backupProbe] at hok
  rw [run_probeSlot, hok] at hrun
  have hvalid := (Store.probe_candidate hok).1
  have hvoting : SlotProbe.ofResult (st.probe cl (cl.replicaSession h (idx + 1)) .backup h) =
      st.votingProbe cl h idx := rfl
  rw [hvoting] at hrun hvalid
  obtain ⟨f₁, hcommit, hself, hother⟩ := run_commitSlotAt_tried st f' hp hb.1
  rw [hchanges] at hcommit hself hother
  by_cases hboth : f.changes (cl.replicaSession h (idx + 1)) 0 = .ok ∧
      f.changes (cl.replicaSession h (idx + 1)) 1 = .ok
  · rw [if_pos hboth] at hcommit
    refine ⟨⟨true, 0, 0⟩, (st.votingSlot cl h idx).guardEpoch, _, f₁, ?_,
      ⟨iff_of_true rfl hboth, (fun hs => by cases hs), rfl, hself⟩, fun mn hmn => ?_⟩
    · conv_lhs => unfold backupLoop
      rw [Store.votingAddr, Cluster.backupAddr, Store.votingSlot] at hcommit
      simp only [Prog.bind_eq, Prog.run_bind, hrun, hvalid, Bool.not_true, Bool.false_eq_true,
        if_false, hcommit]
      simp [Store.votingSlot]
    · exact SameBackup.trans ⟨rfl, hreads mn hmn, by rw [hchanges]⟩ (hother mn hmn)
  · rw [if_neg hboth] at hcommit
    refine ⟨⟨false, observed, (st.votingSlot cl h idx).tieBreaker⟩, observed, _, f₁, ?_,
      ⟨iff_of_false Bool.false_ne_true hboth, fun _ => rfl, rfl, hself⟩, fun mn hmn => ?_⟩
    · conv_lhs => unfold backupLoop
      rw [Store.votingAddr, Cluster.backupAddr, Store.votingSlot] at hcommit
      simp only [Prog.bind_eq, Prog.run_bind, hrun, hvalid, Bool.not_true, Bool.false_eq_true,
        if_false, hcommit]
      simp [Store.votingSlot]
    · exact SameBackup.trans ⟨rfl, hreads mn hmn, by rw [hchanges]⟩ (hother mn hmn)

/-- The backups are different memory nodes. -/
theorem replicaSession_ne {b b' : Nat} (hb : b + 1 < cl.sessionCount) (hb' : b' + 1 < cl.sessionCount)
    (hne : b ≠ b') : cl.replicaSession h (b + 1) ≠ cl.replicaSession h (b' + 1) := by
  intro he
  have := cl.replicaSession_inj h hb hb' he
  omega

/-- The primary is not a backup. -/
theorem Cluster.replicaSession_ne_primary (cl : Cluster) (h : UInt64) {b : Nat}
    (hb : b < cl.backupCount) : cl.replicaSession h (b + 1) ≠ cl.primarySession h := by
  intro he
  rw [← cl.replicaSession_zero] at he
  have hlt := cl.backupCount_lt
  have := cl.replicaSession_inj h (by omega) (by omega) he
  omega

/-- The vote loop ends with an error if there is a backup that it does not get past. -/
theorem backupLoop_unheard (hp : p.committed = p) :
    ∀ (left idx : Nat) (observed : UInt64) (votes : List Vote) {st : Store} {f : Faults},
      idx + left < cl.sessionCount →
      (∃ b, idx ≤ b ∧ b < idx + left ∧ ¬ Heard st cl h f b) →
      ∃ e, ((backupLoop cl h p left idx observed votes).run faultyHandler (st, f)).1 = .error e
  | 0, idx, _, _, _, _, _, hb => by
      obtain ⟨b, h₁, h₂, _⟩ := hb
      omega
  | left + 1, idx, observed, votes, st, f, hlt, hb => by
      by_cases hidx : Heard st cl h f idx
      · obtain ⟨b, h₁, h₂, hun⟩ := hb
        have hne : b ≠ idx := by
          rintro rfl
          exact hun hidx
        obtain ⟨vote, observed', st₁, f₁, hrun, _, hsame⟩ :=
          backupLoop_heard_turn hp hidx left observed votes
        rw [hrun]
        refine backupLoop_unheard hp left (idx + 1) observed' _ (by omega)
          ⟨b, by omega, by omega, fun hheard => hun ?_⟩
        exact (hsame _ (replicaSession_ne (by omega) (by omega) hne)).heard.mp hheard
      · exact backupLoop_unheard_turn hidx left observed votes

/-- Otherwise it collects the votes of all backups, and leaves the other memory nodes alone. -/
theorem backupLoop_heard (hp : p.committed = p) :
    ∀ (left idx : Nat) (observed : UInt64) (votes : List Vote) (st : Store) (f : Faults),
      idx + left < cl.sessionCount → (∀ b, idx ≤ b → b < idx + left → Heard st cl h f b) →
      ∃ (vote : Nat → Vote) (st' : Store) (f' : Faults),
        (backupLoop cl h p left idx observed votes).run faultyHandler (st, f) =
          (.ok (votes ++ (List.range' idx left).map vote), st', f') ∧
        (∀ b, idx ≤ b → b < idx + left → VoteOf st st' cl h p f f' b (vote b)) ∧
        ∀ mn, (∀ b, idx ≤ b → b < idx + left → mn ≠ cl.replicaSession h (b + 1)) →
          SameBackup mn st st' f f'
  | 0, idx, _, votes, st, f, _, _ => by
      refine ⟨fun _ => .won, st, f, ?_, fun b h₁ h₂ => by omega, fun mn _ => .refl mn st f⟩
      rw [List.range'_zero, List.map_nil, List.append_nil]
      rfl
  | left + 1, idx, observed, votes, st, f, hlt, hheard => by
      obtain ⟨vote, observed', st₁, f₁, hrun, hvote, hsame⟩ :=
        backupLoop_heard_turn hp (hheard idx (Nat.le_refl _) (by omega)) left observed votes
      have hother : ∀ b, idx + 1 ≤ b → b < idx + 1 + left →
          SameBackup (cl.replicaSession h (b + 1)) st st₁ f f₁ := fun b h₁ h₂ =>
        hsame _ (replicaSession_ne (by omega) (by omega) (by omega))
      obtain ⟨rest, st', f', hres, hrest, hframe⟩ :=
        backupLoop_heard hp left (idx + 1) observed' (votes ++ [vote]) st₁ f₁ (by omega)
          fun b h₁ h₂ => (hother b h₁ h₂).heard.mpr (hheard b (by omega) (by omega))
      have hkeep : ∀ b, idx + 1 ≤ b → Function.update rest idx vote b = rest b :=
        fun b hb => Function.update_of_ne (by omega) ..
      refine ⟨Function.update rest idx vote, st', f', ?_, fun b h₁ h₂ => ?_, fun mn hmn => ?_⟩
      · have htail : (List.range' (idx + 1) left).map (Function.update rest idx vote) =
            (List.range' (idx + 1) left).map rest :=
          List.map_congr_left fun b hb => hkeep b (List.mem_range'_1.mp hb).1
        rw [hrun, hres, List.range'_succ, List.map_cons, htail, Function.update_self,
          List.append_assoc]
        rfl
      · by_cases hb : b = idx
        · subst hb
          rw [Function.update_self]
          exact hvote.same (hframe _ fun b' h₁' h₂' =>
            replicaSession_ne (by omega) (by omega) (by omega))
        · rw [hkeep b (by omega)]
          exact (hother b (by omega) (by omega)).voteOf (hrest b (by omega) (by omega))
      · exact (hsame mn (hmn idx (Nat.le_refl _) (by omega))).trans
          (hframe mn fun b h₁ h₂ => hmn b (by omega) (by omega))

/-- The repair tries the backups whose votes were lost once more, and leaves the others alone. -/
theorem repairLoop_tried (cl : Cluster) (h : UInt64) (hp : p.committed = p) (vote : Nat → Vote) :
    ∀ (left idx : Nat) (st : Store) {f : Faults}, idx + left < cl.sessionCount → f.Readable →
      ∃ (st' : Store) (f' : Faults),
        (repairLoop cl h p idx ((List.range' idx left).map vote)).run faultyHandler (st, f) =
          ((), st', f') ∧
        (∀ b, idx ≤ b → b < idx + left → (vote b).success = false →
          st'.table (cl.replicaSession h (b + 1)) .backup =
            (st.tried cl h p (f.changes (cl.replicaSession h (b + 1))) b).table
              (cl.replicaSession h (b + 1)) .backup) ∧
        ∀ mn, (∀ b, idx ≤ b → b < idx + left → (vote b).success = false →
          mn ≠ cl.replicaSession h (b + 1)) → SameBackup mn st st' f f'
  | 0, idx, st, f, _, _ => ⟨st, f, rfl, fun b h₁ h₂ => by omega, fun mn _ => .refl mn st f⟩
  | left + 1, idx, st, f, hlt, hreadable => by
      have hturn : ∃ (st₁ : Store) (f₁ : Faults), f₁.Readable ∧
          (repairLoop cl h p idx ((List.range' idx (left + 1)).map vote)).run faultyHandler
              (st, f) =
            (repairLoop cl h p (idx + 1) ((List.range' (idx + 1) left).map vote)).run faultyHandler
              (st₁, f₁) ∧
          ((vote idx).success = false → st₁.table (cl.replicaSession h (idx + 1)) .backup =
            (st.tried cl h p (f.changes (cl.replicaSession h (idx + 1))) idx).table
              (cl.replicaSession h (idx + 1)) .backup) ∧
          ∀ mn, ((vote idx).success = false → mn ≠ cl.replicaSession h (idx + 1)) →
            SameBackup mn st st₁ f f₁ := by
        rw [List.range'_succ, List.map_cons]
        cases hvote : (vote idx).success with
        | true =>
            refine ⟨st, f, hreadable, ?_, (fun hs => by cases hs), fun mn _ => .refl mn st f⟩
            conv_lhs => unfold repairLoop
            rw [if_pos hvote]
        | false =>
            obtain ⟨f', hrun, hchanges, hreads⟩ := run_faulty_reads st
              (probeSlot_within cl (cl.replicaSession h (idx + 1)) .backup h)
              fun k _ => hreadable _ k
            have hread' : f'.Readable := by
              have := readable_run (p := probeSlot cl (cl.replicaSession h (idx + 1)) .backup h)
                (s := (st, f)) hreadable
              rwa [hrun] at this
            have hsame' : ∀ mn ≠ cl.replicaSession h (idx + 1), SameBackup mn st st f f' :=
              fun mn hmn => ⟨rfl, hreads mn hmn, by rw [hchanges]⟩
            rw [run_probeSlot] at hrun
            cases hprobe : st.probe cl (cl.replicaSession h (idx + 1)) .backup h with
            | error e =>
                have hnone : ¬ (st.backupProbe cl h (idx + 1)).isOk = true := by
                  rw [Store.backupProbe, hprobe]
                  exact Bool.false_ne_true
                refine ⟨st, f', hread', ?_, fun _ => ?_, fun mn hmn => hsame' mn (hmn rfl)⟩
                · conv_lhs => unfold repairLoop
                  simp only [hvote, Bool.false_eq_true, if_false, Prog.bind_eq, Prog.run_bind,
                    hrun, hprobe]
                · rw [Store.tried, if_neg hnone]
            | ok pr =>
                have hok : (st.backupProbe cl h (idx + 1)).isOk = true := by
                  rw [Store.backupProbe, hprobe]
                  rfl
                have hpr : pr = st.votingProbe cl h idx := by
                  rw [Store.votingProbe, Store.backupProbe, hprobe]
                  rfl
                have hvalid := (Store.probe_candidate hprobe).1
                obtain ⟨f₁, hcommit, _, hother⟩ := run_commitSlotAt_tried st f' hp hok
                rw [hchanges] at hcommit hother
                have hread₁ : f₁.Readable := by
                  have := readable_run (p := commitSlotAt (st.votingAddr cl h idx) p
                    (st.votingSlot cl h idx).guardEpoch) (s := (st, f')) hread'
                  rwa [hcommit] at this
                refine ⟨_, f₁, hread₁, ?_, fun _ => rfl, fun mn hmn =>
                  (hsame' mn (hmn rfl)).trans (hother mn (hmn rfl))⟩
                conv_lhs => unfold repairLoop
                rw [Store.votingAddr, Cluster.backupAddr, Store.votingSlot, ← hpr] at hcommit
                simp only [hvote, Bool.false_eq_true, if_false, Prog.bind_eq, Prog.run_bind,
                  hrun, hprobe, hvalid, Bool.not_true, hcommit]
      obtain ⟨st₁, f₁, hread₁, hrun, htable, hsame⟩ := hturn
      obtain ⟨st', f', hres, hrest, hframe⟩ :=
        repairLoop_tried cl h hp vote left (idx + 1) st₁ (by omega) hread₁
      refine ⟨st', f', hrun.trans hres, fun b h₁ h₂ hlost => ?_, fun mn hmn => ?_⟩
      · by_cases hb : b = idx
        · subst hb
          rw [← htable hlost]
          exact (hframe _ fun b' h₁' h₂' _ =>
            replicaSession_ne (by omega) (by omega) (by omega)).table
        · have hkept := hsame (cl.replicaSession h (b + 1)) fun _ =>
            replicaSession_ne (by omega) (by omega) hb
          rw [hrest b (by omega) (by omega) hlost, hkept.changes]
          exact Store.tried_congr hkept.table _
      · exact (hsame mn (hmn idx (Nat.le_refl _) (by omega))).trans
          (hframe mn fun b h₁ h₂ => hmn b (by omega) (by omega))

end Votes

/-! ## The write -/

section Write

variable {cl : Cluster} {key : Key} {p : Slot} {st : Store} {f : Faults}

/-- The slot a write commits at the primary. -/
def Cluster.primeAddr (cl : Cluster) (key : Key) (slotIndex : Nat) : Addr :=
  ⟨cl.primarySession (hash64String key), .prime, slotIndex⟩

/-- Once a rule is met, a healthy primary commits the proposal and the write succeeds.  What is
left to do are the repair and the refresh of the cache. -/
theorem run_commitPrimary_faulty (hp : p.committed = p) {slotIndex : Nat} {currentEpoch : UInt64}
    (hepoch : (st.slot (cl.primeAddr key slotIndex)).guardEpoch = currentEpoch)
    (hf : f.Healthy (cl.primarySession (hash64String key))) (votes : List Vote) (rule : Nat) :
    ∃ f₁, (commitPrimary cl key p slotIndex currentEpoch votes rule).run faultyHandler (st, f) =
        (.ok rule, ((refreshCacheBestEffort cl key p).run faultyHandler
          ((repairLoop cl (hash64String key) p 0 votes).run faultyHandler
            (st.setSlot (cl.primeAddr key slotIndex) p, f₁)).2).2) ∧
      f₁.reads = f.reads ∧
      ∀ mn ≠ cl.primarySession (hash64String key), f₁.changes mn = f.changes mn := by
  obtain ⟨f₁, hcommit, hreads, hother, _⟩ :=
    run_commitSlotAt_faulty st f (cl.primeAddr key slotIndex) hp hepoch.symm
  have hmn : (cl.primeAddr key slotIndex).mn = cl.primarySession (hash64String key) := rfl
  rw [hmn, hf.2, hf.2] at hcommit
  simp only [Slot.afterCommit, reduceCtorEq, and_self, if_true, if_false] at hcommit
  refine ⟨f₁, ?_, hreads, hother⟩
  rw [Cluster.primeAddr] at hcommit
  simp only [commitPrimary, Prog.bind_eq, Prog.run_bind, hcommit, ne_eq, not_true_eq_false,
    if_false, Prog.pure_eq, Prog.run_ret]
  rfl

/-- A write that meets a rule returns it, and its proposal is at the primary. -/
theorem commitPrimary_prime (hp : p.committed = p) {slotIndex : Nat} {currentEpoch : UInt64}
    (hepoch : (st.slot (cl.primeAddr key slotIndex)).guardEpoch = currentEpoch)
    (hf : f.Healthy (cl.primarySession (hash64String key))) (votes : List Vote) (rule : Nat) :
    ((commitPrimary cl key p slotIndex currentEpoch votes rule).run faultyHandler (st, f)).1 =
        .ok rule ∧
      ((commitPrimary cl key p slotIndex currentEpoch votes rule).run faultyHandler
        (st, f)).2.1.slot (cl.primeAddr key slotIndex) = p := by
  obtain ⟨f₁, hrun, _, _⟩ := run_commitPrimary_faulty hp hepoch hf votes rule
  rw [hrun]
  refine ⟨rfl, ?_⟩
  refine faulty_run_inv (I := fun s => s.slot (cl.primeAddr key slotIndex) = p)
    (fun c s hc hs => (hc.slot_of_ne (by simp [Cluster.primeAddr])).trans hs)
    (refreshCache_puts key) ?_
  refine faulty_run_inv (I := fun s => s.slot (cl.primeAddr key slotIndex) = p)
    (fun c s hc hs => (hc.slot_of_ne (by simp [Cluster.primeAddr])).trans hs)
    (repairLoop_puts _ votes 0) ?_
  exact Store.setSlot_slot_self ..

/-- What it leaves at the backups, if no read fails: those that lost their votes are tried once
more. -/
theorem commitPrimary_backups (hp : p.committed = p) {slotIndex : Nat} {currentEpoch : UInt64}
    (hepoch : (st.slot (cl.primeAddr key slotIndex)).guardEpoch = currentEpoch)
    (hf : f.Healthy (cl.primarySession (hash64String key))) (hreadable : f.Readable)
    (vote : Nat → Vote) (rule : Nat) {b : Nat} (hb : b < cl.backupCount) :
    ((commitPrimary cl key p slotIndex currentEpoch ((List.range cl.backupCount).map vote)
        rule).run faultyHandler (st, f)).2.1.table
          (cl.replicaSession (hash64String key) (b + 1)) .backup =
      if (vote b).success then st.table (cl.replicaSession (hash64String key) (b + 1)) .backup
      else (st.tried cl (hash64String key) p
        (f.changes (cl.replicaSession (hash64String key) (b + 1))) b).table
          (cl.replicaSession (hash64String key) (b + 1)) .backup := by
  obtain ⟨f₁, hrun, hreads, hchanges⟩ := run_commitPrimary_faulty hp hepoch hf
    ((List.range cl.backupCount).map vote) rule
  have hlt := cl.backupCount_lt
  have hprimary := cl.replicaSession_ne_primary (hash64String key) hb
  have hprime : (st.setSlot (cl.primeAddr key slotIndex) p).table
      (cl.replicaSession (hash64String key) (b + 1)) .backup =
      st.table (cl.replicaSession (hash64String key) (b + 1)) .backup :=
    st.table_setSlot_of_ne _ fun he => hprimary he.1.symm
  have hread₁ : f₁.Readable := fun mn k => (congrFun (congrFun hreads mn) k).trans (hreadable mn k)
  obtain ⟨st', f', hrepair, htried, hframe⟩ := repairLoop_tried cl (hash64String key) hp vote
    cl.backupCount 0 (st.setSlot (cl.primeAddr key slotIndex) p) (by omega) hread₁
  rw [← List.range_eq_range'] at hrepair
  have hcache : ∀ i, ((refreshCacheBestEffort cl key p).run faultyHandler (st', f')).2.1.slot
      ⟨cl.replicaSession (hash64String key) (b + 1), .backup, i⟩ =
      st'.slot ⟨cl.replicaSession (hash64String key) (b + 1), .backup, i⟩ := fun i =>
    faulty_run_inv (I := fun s => s.slot ⟨cl.replicaSession (hash64String key) (b + 1), .backup, i⟩ =
        st'.slot ⟨cl.replicaSession (hash64String key) (b + 1), .backup, i⟩)
      (fun c s hc hs => (hc.slot_of_ne (by simp)).trans hs) (refreshCache_puts key) rfl
  rw [hrun, hrepair]
  refine (funext hcache).trans ?_
  cases hvote : (vote b).success with
  | true =>
      refine (hframe _ fun b' _ hb' hlost => ?_).table.trans hprime
      refine replicaSession_ne (by omega) (by omega) ?_
      rintro rfl
      rw [hvote] at hlost
      cases hlost
  | false =>
      rw [if_neg Bool.false_ne_true, ← hchanges _ hprimary]
      exact (htried b (Nat.zero_le b) (by omega) hvote).trans (Store.tried_congr hprime _)

/-- A write goes to the backups: its primary probe succeeds, it is not an update of a key that is
not there, and its value is not too long. -/
structure Proposes (cl : Cluster) (st : Store) (key : Key) (value : Value) (updateOnly : Bool)
    (pr : SlotProbe) : Prop where
  probe : st.probe cl (cl.primarySession (hash64String key)) .prime (hash64String key) = .ok pr
  allowed : updateRefuses updateOnly (hash64String key) pr = false
  fits : value.length ≤ maxValueSize

variable {value : Value} {updateOnly : Bool}

/-- A write whose primary is healthy, up to the votes. -/
theorem run_writeValue_faulty (tombstone : Bool) (hf : f.Healthy (cl.primarySession (hash64String key))) :
    (∃ e, ((writeValue cl key value updateOnly tombstone).run faultyHandler (st, f)).1 = .error e ∧
      ∀ pr, ¬ Proposes cl st key value updateOnly pr) ∨
    ∃ pr f', Proposes cl st key value updateOnly pr ∧
      (writeValue cl key value updateOnly tombstone).run faultyHandler (st, f) =
        (writeProposal cl key (cl.proposal key value tombstone pr) pr.candidateSlotIndex
          pr.candidateSlot.guardEpoch).run faultyHandler (st, f') ∧
      f'.Healthy (cl.primarySession (hash64String key)) ∧ (f.Readable → f'.Readable) ∧
      ∀ b < cl.backupCount, SameBackup (cl.replicaSession (hash64String key) (b + 1)) st st f f' := by
  obtain ⟨f', hrun, hchanges, hreads⟩ := run_faulty_reads st
    (probeSlot_within cl (cl.primarySession (hash64String key)) .prime (hash64String key))
    fun k _ => hf.1 k
  have hf' : f'.Healthy (cl.primarySession (hash64String key)) := by
    have hkept : ((probeSlot cl (cl.primarySession (hash64String key)) .prime
        (hash64String key)).run faultyHandler (st, f)).2.2.Healthy _ := healthy_run hf
    rwa [hrun] at hkept
  have hreadable : f.Readable → f'.Readable := by
    intro hr
    have hkept : ((probeSlot cl (cl.primarySession (hash64String key)) .prime
        (hash64String key)).run faultyHandler (st, f)).2.2.Readable := readable_run hr
    rwa [hrun] at hkept
  rw [run_probeSlot] at hrun
  unfold writeValue
  simp only [Prog.bind_eq, Prog.run_bind, hrun]
  cases hp : st.probe cl (cl.primarySession (hash64String key)) .prime (hash64String key) with
  | error e =>
      refine Or.inl ⟨e, rfl, fun pr hpr => ?_⟩
      have := hpr.probe
      rw [hp] at this
      cases this
  | ok pr =>
      have hunique : ∀ pr', Proposes cl st key value updateOnly pr' → pr' = pr := by
        intro pr' hpr'
        have := hpr'.probe
        rw [hp] at this
        cases this
        rfl
      simp only []
      by_cases hu : updateRefuses updateOnly (hash64String key) pr = true
      · refine Or.inl ⟨.updateNotFound key, ?_, fun pr' hpr' => ?_⟩
        · rw [updateRefuses] at hu
          rw [if_pos hu]
          rfl
        · obtain rfl := hunique pr' hpr'
          rw [hpr'.allowed] at hu
          cases hu
      · have hu' := hu
        rw [updateRefuses] at hu'
        rw [if_neg hu']
        by_cases hlen : value.length > maxValueSize
        · refine Or.inl ⟨.prepare, ?_, fun pr' hpr' => Nat.not_le.mpr hlen hpr'.fits⟩
          simp only [makeSlot, if_pos hlen]
          rfl
        · refine Or.inr ⟨pr, f', ⟨hp, by simpa using hu, Nat.not_lt.mp hlen⟩, ?_, hf',
            hreadable, fun b hb => ?_⟩
          · simp only [makeSlot, if_neg hlen]
            rfl
          · exact ⟨rfl, hreads _ (cl.replicaSession_ne_primary _ hb), by rw [hchanges]⟩

/-- A write that does not get past all backups fails. -/
theorem faulty_write_unheard (tombstone : Bool) (hf : f.Healthy (cl.primarySession (hash64String key)))
    (h : ¬ ∃ pr, Proposes cl st key value updateOnly pr ∧
      ∀ b < cl.backupCount, Heard st cl (hash64String key) f b) :
    ∃ e, ((writeValue cl key value updateOnly tombstone).run faultyHandler (st, f)).1 = .error e := by
  rcases run_writeValue_faulty tombstone hf with ⟨e, he, _⟩ |
    ⟨pr, f', hpr, hrun, _, _, hsame⟩
  · exact ⟨e, he⟩
  · have hun : ∃ b, 0 ≤ b ∧ b < 0 + cl.backupCount ∧ ¬ Heard st cl (hash64String key) f' b := by
      by_contra hall
      push Not at hall
      exact h ⟨pr, hpr, fun b hb => (hsame b hb).heard.mp (hall b (Nat.zero_le b) (by omega))⟩
    obtain ⟨e, he⟩ := backupLoop_unheard (proposal_committed cl key value tombstone pr)
      cl.backupCount 0 0 [] (by have := cl.backupCount_lt; omega) hun
    refine ⟨e, ?_⟩
    rw [hrun]
    simp only [writeProposal, Prog.bind_eq, Prog.run_bind, he]
    rfl

/-- A write that gets past all backups evaluates their votes.  If no rule is met it fails, and
otherwise it goes on to the primary. -/
theorem faulty_write_voted (tombstone : Bool) {pr : SlotProbe}
    (hf : f.Healthy (cl.primarySession (hash64String key)))
    (hpr : Proposes cl st key value updateOnly pr)
    (hheard : ∀ b < cl.backupCount, Heard st cl (hash64String key) f b) :
    ∃ (vote : Nat → Vote) (st₁ : Store) (f₁ : Faults),
      (∀ b < cl.backupCount, VoteOf st st₁ cl (hash64String key)
        (cl.proposal key value tombstone pr) f f₁ b (vote b)) ∧
      f₁.Healthy (cl.primarySession (hash64String key)) ∧ (f.Readable → f₁.Readable) ∧
      (st₁.slot (cl.primeAddr key pr.candidateSlotIndex)).guardEpoch = pr.candidateSlot.guardEpoch ∧
      (evaluateVotes ((List.range cl.backupCount).map vote)
          (cl.proposal key value tombstone pr).tieBreaker = 0 →
        ((writeValue cl key value updateOnly tombstone).run faultyHandler (st, f)).1 =
          .error (.consensusLost key)) ∧
      (evaluateVotes ((List.range cl.backupCount).map vote)
          (cl.proposal key value tombstone pr).tieBreaker ≠ 0 →
        (writeValue cl key value updateOnly tombstone).run faultyHandler (st, f) =
          (commitPrimary cl key (cl.proposal key value tombstone pr) pr.candidateSlotIndex
            pr.candidateSlot.guardEpoch ((List.range cl.backupCount).map vote)
            (evaluateVotes ((List.range cl.backupCount).map vote)
              (cl.proposal key value tombstone pr).tieBreaker)).run faultyHandler (st₁, f₁)) := by
  rcases run_writeValue_faulty tombstone hf with
    ⟨_, _, hnone⟩ | ⟨pr', f', hpr', hrun, hf', hreadable, hsame⟩
  · exact absurd hpr (hnone pr)
  · have heq : pr' = pr := Except.ok.inj (hpr'.probe.symm.trans hpr.probe)
    subst heq
    have hp := proposal_committed cl key value tombstone pr'
    obtain ⟨vote, st₁, f₁, hloop, hvote, hframe⟩ := backupLoop_heard (h := hash64String key) hp
      cl.backupCount 0 0 [] st f' (by have := cl.backupCount_lt; omega)
      fun b _ hb => (hsame b (by omega)).heard.mpr (hheard b (by omega))
    rw [List.nil_append, ← List.range_eq_range'] at hloop
    have hf₁ : f₁.Healthy (cl.primarySession (hash64String key)) := by
      have hkept := healthy_run (p := backupLoop cl (hash64String key)
        (cl.proposal key value tombstone pr') cl.backupCount 0 0 []) (s := (st, f')) hf'
      rwa [hloop] at hkept
    have hread₁ : f.Readable → f₁.Readable := by
      intro hr
      have hkept := readable_run (p := backupLoop cl (hash64String key)
        (cl.proposal key value tombstone pr') cl.backupCount 0 0 []) (s := (st, f')) (hreadable hr)
      rwa [hloop] at hkept
    have hprime : st₁.slot (cl.primeAddr key pr'.candidateSlotIndex) =
        st.slot (cl.primeAddr key pr'.candidateSlotIndex) := by
      have hkept := faulty_run_inv (I := fun s => s.slot (cl.primeAddr key pr'.candidateSlotIndex) =
          st.slot (cl.primeAddr key pr'.candidateSlotIndex))
        (fun c s hc hs => (hc.slot_of_ne (by simp [Cluster.primeAddr])).trans hs)
        (p := backupLoop cl (hash64String key) (cl.proposal key value tombstone pr')
          cl.backupCount 0 0 []) (s := (st, f')) (backupLoop_puts ..) rfl
      rwa [hloop] at hkept
    refine ⟨vote, st₁, f₁, fun b hb => (hsame b hb).voteOf (hvote b (Nat.zero_le b) (by omega)), hf₁,
      hread₁, ?_, fun hzero => ?_, fun hrule => ?_⟩
    · rw [hprime]
      exact congrArg Slot.guardEpoch (Store.probe_candidate hpr.probe).2.1.symm
    · rw [hrun]
      simp only [writeProposal, Prog.bind_eq, Prog.run_bind, hloop, hzero, if_true]
      rfl
    · rw [hrun]
      simp only [writeProposal, Prog.bind_eq, Prog.run_bind, hloop, hrule, if_false]

end Write

end TeeDist
