import TeeDist.Measured

/-!
# The breakdown adds up

A latency profile breaks the duration of an operation down into stages.  No two stages overlap, so
together they take no longer than the operation does, if the clock does not go back.  An invariant
carries this through every operation: what the stages have taken up to now fits between the start of
the operation and the time that was read last (`Accounted`).
-/

namespace TeeDist

open Calls Prog

/-! ## Stages -/

/-- The durations that are measured one after the other.  Those of the encryption are parts of
them. -/
def stages : List NsField :=
  [.hash, .probe .prime, .probe .cache, .probe .refreshCache, .probe .backup, .probe .repair,
    .probeScan .prime, .probeScan .cache, .probeScan .refreshCache, .probeScan .backup,
    .probeScan .repair, .cacheDecode, .primeDecode, .cacheValidation, .cryptoEncode,
    .write .refreshCache, .write .backup, .write .primary, .write .repair,
    .cas .refreshCache, .cas .backup, .cas .primary, .cas .repair, .ruleEval,
    .waitForPrimaryChange]

/-- What some fields add up to. -/
def nsSum (ns : NsField → UInt64) : List NsField → Nat
  | [] => 0
  | f :: fs => (ns f).toNat + nsSum ns fs

/-- What the stages have taken together. -/
def LatencyProfile.spent (P : LatencyProfile) : Nat := nsSum P.ns stages

theorem nsSum_update_of_notMem {ns : NsField → UInt64} {f : NsField} {v : UInt64}
    {fs : List NsField} (hf : f ∉ fs) : nsSum (Function.update ns f v) fs = nsSum ns fs := by
  induction fs with
  | nil => rfl
  | cons g fs ih =>
      rw [List.mem_cons, not_or] at hf
      obtain ⟨hg, hfs⟩ := hf
      simp only [nsSum, ih hfs, Function.update_of_ne (Ne.symm hg)]

/-- One field grows, and the sum grows no more. -/
theorem nsSum_update_le {ns : NsField → UInt64} {f : NsField} {v : UInt64} {d : Nat}
    (hv : v.toNat ≤ (ns f).toNat + d) {fs : List NsField} (hfs : fs.Nodup) :
    nsSum (Function.update ns f v) fs ≤ nsSum ns fs + d := by
  induction fs with
  | nil => simp [nsSum]
  | cons g fs ih =>
      obtain ⟨hg, hfs⟩ := List.nodup_cons.mp hfs
      simp only [nsSum]
      by_cases hgf : g = f
      · subst hgf
        rw [nsSum_update_of_notMem hg, Function.update_self]
        omega
      · rw [Function.update_of_ne hgf]
        have := ih hfs
        omega

theorem toNat_add_le (a b : UInt64) : (a + b).toNat ≤ a.toNat + b.toNat := by
  rw [UInt64.toNat_add]
  exact Nat.mod_le _ _

theorem stages_nodup : stages.Nodup := by decide

theorem spent_addNs (P : LatencyProfile) (f : NsField) (d : UInt64) :
    (P.addNs f d).spent ≤ P.spent + d.toNat :=
  nsSum_update_le (toNat_add_le _ _) stages_nodup

/-- What the encryption reports is part of a stage already. -/
@[simp]
theorem spent_addCrypto (C : CryptoProfile) (fs : List CryptoField) :
    ∀ P : LatencyProfile, (P.addCrypto C fs).spent = P.spent := by
  induction fs with
  | nil => exact fun P => rfl
  | cons f fs ih =>
      intro P
      have hf : NsField.crypto f ∉ stages := by simp [stages]
      exact (ih _).trans (nsSum_update_of_notMem hf)

@[simp]
theorem spent_setTargets (P : LatencyProfile) (n : Nat) : (P.setTargets n).spent = P.spent := rfl

@[simp]
theorem spent_zero (cacheOn : Bool) : (LatencyProfile.zero cacheOn).spent = 0 := by
  simp [LatencyProfile.spent, LatencyProfile.zero, stages, nsSum]

/-! ## What fits -/

section Accounted

variable {π α : Type} {cost : π → Nat} {add : π → UInt64 → π} {start : Option Nat} {w w' : Nat}
  {profile : Option π} {t : UInt64} {post : α → Nat → Prop}

/-- What was measured since `start` fits into the time until `w`.  An operation without a profile has
no start. -/
inductive Accounted (cost : π → Nat) : Option Nat → Option π → Nat → Prop where
  | off {w : Nat} : Accounted cost none none w
  | on {start w : Nat} {P : π} (h : start + cost P ≤ w) : Accounted cost (some start) (some P) w

/-- A measurement began at `t`. -/
inductive Measuring (cost : π → Nat) : Option Nat → Option π → UInt64 → Nat → Prop where
  | off {t : UInt64} {w : Nat} : Measuring cost none none t w
  | on {start w : Nat} {P : π} {t : UInt64} (h : start + cost P ≤ t.toNat) (ht : t.toNat ≤ w) :
      Measuring cost (some start) (some P) t w

/-- Time passes. -/
theorem Measuring.later (hp : Measuring cost start profile t w) (hw : w ≤ w') :
    Measuring cost start profile t w' := by
  cases hp with
  | off => exact .off
  | on h ht => exact .on h (Nat.le_trans ht hw)

/-- A measurement that is not added to the profile. -/
theorem Measuring.drop (hp : Measuring cost start profile t w) : Accounted cost start profile w := by
  cases hp with
  | off => exact .off
  | on h ht => exact .on (Nat.le_trans h ht)

/-- A change that costs nothing. -/
theorem Accounted.map {g : π → π} (hg : ∀ P, cost (g P) = cost P)
    (hp : Accounted cost start profile w) : Accounted cost start (profile.map g) w := by
  cases hp with
  | off => exact .off
  | on h => exact .on ((hg _).symm ▸ h)

theorem Measuring.map {g : π → π} (hg : ∀ P, cost (g P) = cost P)
    (hp : Measuring cost start profile t w) : Measuring cost start (profile.map g) t w := by
  cases hp with
  | off => exact .off
  | on h ht => exact .on ((hg _).symm ▸ h) ht

/-- The difference of two times that were read one after the other. -/
theorem toNat_elapsed {t now : UInt64} (h : t.toNat ≤ now.toNat) :
    (now - t).toNat = now.toNat - t.toNat :=
  UInt64.toNat_sub_of_le _ _ (UInt64.le_iff_toNat_le.mpr h)

/-- A measurement begins. -/
theorem Accounted.begin {k : UInt64 → Timed α} (hp : Accounted cost start profile w)
    (hk : ∀ t w', Measuring cost start profile t w' → (k t).Ensures (ticking Net) post w') :
    ((profileBegin profile).bind k).Ensures (ticking Net) post w := by
  cases hp with
  | off => exact hk 0 w .off
  | on h => exact .now fun t ht => hk t _ (.on (Nat.le_trans h ht) (Nat.le_refl _))

/-- It ends, and what it took still fits. -/
theorem Measuring.end {k : Option π → Timed α} (hadd : ∀ P d, cost (add P d) ≤ cost P + d.toNat)
    (hp : Measuring cost start profile t w)
    (hk : ∀ profile w', Accounted cost start profile w' →
      (k profile).Ensures (ticking Net) post w') :
    ((measureEnd add profile t).bind k).Ensures (ticking Net) post w := by
  cases hp with
  | off => exact hk none w .off
  | @on _ _ P _ h ht =>
      unfold measureEnd
      simp only []
      split
      · refine .now fun now hnow => hk _ _ (.on ?_)
        have hd := toNat_elapsed (Nat.le_trans ht hnow)
        have := hadd P (now - t)
        omega
      · exact hk _ w (.on (Nat.le_trans h ht))

end Accounted

/-! ## Reads -/

/-- The stages of a profile fit. -/
abbrev Paid (start : Option Nat) (profile : Option LatencyProfile) (w : Nat) : Prop :=
  Accounted LatencyProfile.spent start profile w

/-- A part of an operation after which the stages fit. -/
abbrev Pays {β : Type} (start : Option Nat) (p : Timed (β × Option LatencyProfile)) (w : Nat) : Prop :=
  p.Ensures (ticking Net) (fun x w' => Paid start x.2 w') w

/-- One part after another. -/
theorem Pays.then {β γ : Type} {start : Option Nat} {w : Nat} {p : Timed (β × Option LatencyProfile)}
    {k : β × Option LatencyProfile → Timed γ} {post : γ → Nat → Prop} (hp : Pays start p w)
    (hk : ∀ x profile w', Paid start profile w' →
      (k (x, profile)).Ensures (ticking Net) post w') :
    (p.bind k).Ensures (ticking Net) post w :=
  Prog.Ensures.bind (hp.mono fun ⟨x, profile⟩ w' h => hk x profile w' h)

section Operations

variable (cl : Cluster) {start : Option Nat} {w : Nat} {profile : Option LatencyProfile} {t : UInt64}

/-- The end of a stage. -/
theorem stage_end {γ : Type} {post : γ → Nat → Prop} {f : NsField}
    {k : Option LatencyProfile → Timed γ}
    (hp : Measuring LatencyProfile.spent start profile t w)
    (hk : ∀ profile w', Paid start profile w' → (k profile).Ensures (ticking Net) post w') :
    ((profileEnd profile t f).bind k).Ensures (ticking Net) post w :=
  hp.end (fun P d => spent_addNs P f d) hk

/-- What a session call takes shows only when the clock is read again. -/
theorem ask_pays {γ : Type} {post : γ → Nat → Prop} {c : Call} {k : c.Reply → Timed γ}
    (hk : ∀ r, (k r).Ensures (ticking Net) post w) :
    ((ask c).bind k).Ensures (ticking Net) post w := .ask hk

theorem fetchSlotAt_pays (a : Addr) (site : ProbeSite) (hp : Paid start profile w) :
    Pays start (fetchSlotAt a site profile) w := by
  unfold fetchSlotAt
  apply hp.begin
  intro t w ht
  apply ask_pays
  intro r
  apply stage_end ht
  intro profile w hp
  exact hp.map fun P => rfl

theorem probeLoop_pays (mn : Nat) (kind : RegionKind) (keyHash : UInt64) (home count : Nat)
    (site : ProbeSite) (left : Nat) :
    ∀ (idx : Nat) (probe : SlotProbe) (profile : Option LatencyProfile) (w : Nat),
      Paid start profile w →
        Pays start (probeLoopProfiled mn kind keyHash home count site left idx probe profile) w := by
  induction left with
  | zero => exact fun idx probe profile w hp => hp
  | succ left ih =>
      intro idx probe profile w hp
      unfold probeLoopProfiled
      apply (fetchSlotAt_pays _ site hp).then
      intro slot profile w hp
      cases slot with
      | none => exact hp
      | some slot =>
          apply hp.begin
          intro t w ht
          have hexamined := ht.map (g := (·.bump (.probeSlotsExamined site))) fun P => rfl
          simp only []
          split_ifs
          · exact stage_end (hexamined.map fun P => rfl) fun profile w hp => ih _ _ _ _ hp
          · exact stage_end hexamined fun profile w hp => hp
          · exact stage_end (hexamined.map fun P => rfl) fun profile w hp => ih _ _ _ _ hp
          · exact stage_end (hexamined.map fun P => rfl) fun profile w hp => hp
          · exact stage_end hexamined fun profile w hp => ih _ _ _ _ hp

theorem probeSlot_pays (mn : Nat) (kind : RegionKind) (keyHash : UInt64) (site : ProbeSite)
    (hp : Paid start profile w) :
    Pays start (probeSlotProfiled cl mn kind keyHash site profile) w := by
  unfold probeSlotProfiled
  simp only []
  split
  · exact hp
  · exact probeLoop_pays mn kind keyHash _ _ site _ 0 .zero profile w hp

/-- What a commit has taken. -/
def CommitTiming.spent (T : CommitTiming) : Nat := T.writeNs.toNat + T.casNs.toNat

theorem commitSlotAt_pays (a : Addr) (slot : Slot) (compareEpoch : UInt64)
    {timing : Option CommitTiming} (hp : Accounted CommitTiming.spent start timing w) :
    (commitSlotAtProfiled a slot compareEpoch timing).Ensures (ticking Net)
      (fun x w' => Accounted CommitTiming.spent start x.2 w') w := by
  have hwrite : ∀ (T : CommitTiming) d,
      CommitTiming.spent { T with writeNs := T.writeNs + d } ≤ T.spent + d.toNat := by
    intro T d
    have := toNat_add_le T.writeNs d
    simp only [CommitTiming.spent]
    omega
  have hcas : ∀ (T : CommitTiming) d,
      CommitTiming.spent { T with casNs := T.casNs + d } ≤ T.spent + d.toNat := by
    intro T d
    have := toNat_add_le T.casNs d
    simp only [CommitTiming.spent]
    omega
  unfold commitSlotAtProfiled
  apply hp.begin
  intro t w ht
  apply ask_pays
  intro r
  cases r with
  | none => exact ht.drop
  | some u =>
      have hwritten : (commitTimingWritten timing t).Ensures (ticking Net)
          (fun x w' => Measuring CommitTiming.spent start x.2 x.1 w') w := by
        cases ht with
        | off => exact .off
        | @on _ _ T _ h ht =>
            unfold commitTimingWritten
            simp only []
            split
            · refine .now fun now hnow => .now fun next hnext => .on ?_ (Nat.le_refl _)
              have hd := toNat_elapsed (Nat.le_trans ht hnow)
              have := hwrite T (now - t)
              show _ ≤ next.toNat
              omega
            · exact .on h ht
      refine Prog.Ensures.bind (hwritten.mono ?_)
      rintro ⟨t, timing⟩ w ht
      apply ask_pays
      intro r
      cases r with
      | none => exact ht.drop
      | some observed => exact ht.end hcas fun timing w hp => hp

theorem commitMeasured_pays (a : Addr) (slot : Slot) (compareEpoch : UInt64) (site : CommitSite)
    (hp : Paid start profile w) :
    Pays start (commitMeasured a slot compareEpoch site profile) w := by
  unfold commitMeasured
  cases hp with
  | off =>
      refine Prog.Ensures.bind ((commitSlotAt_pays a slot compareEpoch .off).mono ?_)
      rintro ⟨result, timing⟩ w' hT
      cases hT with
      | off => exact .off
  | @on start _ P h =>
      have hzero : Accounted CommitTiming.spent (some w) (some ⟨0, 0⟩) w := .on (Nat.le_refl _)
      refine Prog.Ensures.bind ((commitSlotAt_pays a slot compareEpoch hzero).mono ?_)
      rintro ⟨result, timing⟩ w' hT
      cases hT with
      | @on _ _ T hT =>
          refine .on (P := P.addTiming site T) ?_
          have hwrite := spent_addNs P (.write site) T.writeNs
          have hcas := spent_addNs (P.addNs (.write site) T.writeNs) (.cas site) T.casNs
          simp only [CommitTiming.spent] at hT
          simp only [LatencyProfile.addTiming]
          omega

/-- The profile is set up, whatever was in it. -/
theorem hashMeasured_pays (hp : Accounted (fun _ => 0) start profile w) :
    (hashMeasured cl profile).Ensures (ticking Net) (fun profile w' => Paid start profile w') w := by
  cases hp with
  | off => exact .off
  | on h =>
      refine .now fun begun hbegun => .now fun now hnow => .on ?_
      have hd := toNat_elapsed hnow
      have hadd := spent_addNs (.zero cl.cacheOn) .hash (now - begun)
      rw [spent_zero] at hadd
      omega

/-- The fields of the encryption are not stages. -/
theorem Accounted.addCrypto (fs : List CryptoField) (crypto : Option CryptoProfile)
    (hp : Paid start profile w) : Paid start (addCrypto fs crypto profile) w := by
  cases crypto with
  | none => exact hp
  | some C => exact hp.map (spent_addCrypto C fs)

theorem decodeMeasured_pays (s : Slot) (f : NsField) (hp : Paid start profile w) :
    Pays start (decodeMeasured cl s f profile) w := by
  unfold decodeMeasured
  apply hp.begin
  intro t w ht
  refine Prog.Ensures.bind ((Prog.Ensures.elapse _ (Nat.le_refl w)).mono ?_)
  rintro ⟨value, crypto⟩ w' hw
  exact stage_end (ht.later hw) fun profile w hp => hp.addCrypto _ crypto

theorem encodeMeasured_pays (key : Key) (value : Value) (flags : UInt32) (epoch : UInt64)
    (hp : Paid start profile w) :
    Pays start (encodeMeasured cl key value flags epoch profile) w := by
  unfold encodeMeasured
  apply hp.begin
  intro t w ht
  refine Prog.Ensures.bind ((Prog.Ensures.elapse _ (Nat.le_refl w)).mono ?_)
  rintro ⟨slot, crypto⟩ w' hw
  exact stage_end (ht.later hw) fun profile w hp => hp.addCrypto _ crypto

theorem refreshCache_pays (key : Key) (slot : Slot) (hp : Paid start profile w) :
    (refreshCacheProfiled cl key slot profile).Ensures (ticking Net)
      (fun profile w' => Paid start profile w') w := by
  unfold refreshCacheProfiled
  simp only []
  split
  · exact hp
  · apply (probeSlot_pays cl _ _ _ _ hp).then
    intro r profile w hp
    cases r with
    | error e => exact hp
    | ok probe =>
        simp only []
        split
        · exact hp
        · exact (commitMeasured_pays _ _ _ _ hp).then fun x profile w hp => hp

theorem readCache_pays (key : Key) (primeProbe : SlotProbe) (hp : Paid start profile w) :
    Pays start (readCacheProfiled cl key primeProbe profile) w := by
  unfold readCacheProfiled
  simp only []
  split
  · exact hp
  · apply (probeSlot_pays cl _ _ _ _ hp).then
    intro r profile w hp
    cases r with
    | error e => exact hp
    | ok cacheProbe =>
        apply hp.begin
        intro t w ht
        apply stage_end ht
        intro profile w hp
        split
        · apply (decodeMeasured_pays cl cacheProbe.slot .cacheDecode hp).then
          intro value profile w hp
          cases value with
          | none => exact hp
          | some value => exact hp.map fun P => rfl
        · exact hp

theorem readPrime_pays (key : Key) (primeProbe : SlotProbe) (hp : Paid start profile w) :
    Pays start (readPrimeProfiled cl key primeProbe profile) w := by
  unfold readPrimeProfiled
  split
  · exact hp
  · apply (decodeMeasured_pays cl primeProbe.slot .primeDecode hp).then
    intro value profile w hp
    cases value with
    | none => exact hp
    | some value =>
        exact Prog.Ensures.bind ((refreshCache_pays cl key primeProbe.slot hp).mono
          fun profile w hp => hp)

theorem readValue_pays (key : Key) (hp : Accounted (fun _ => 0) start profile w) :
    Pays start (readValueProfiled cl key profile) w := by
  unfold readValueProfiled
  refine Prog.Ensures.bind ((hashMeasured_pays cl hp).mono ?_)
  intro profile w hp
  apply (probeSlot_pays cl _ _ _ _ hp).then
  intro r profile w hp
  cases r with
  | error e => exact hp
  | ok primeProbe =>
      apply (readCache_pays cl key primeProbe hp).then
      intro value profile w hp
      cases value with
      | none => exact readPrime_pays cl key primeProbe hp
      | some value => exact hp

/-! ## Writes -/

theorem backupLoop_pays (keyHash : UInt64) (proposal : Slot) (left : Nat) :
    ∀ (idx : Nat) (observed : UInt64) (votes : List Vote) (profile : Option LatencyProfile)
      (w : Nat), Paid start profile w →
        Pays start (backupLoopProfiled cl keyHash proposal left idx observed votes profile) w := by
  induction left with
  | zero => exact fun idx observed votes profile w hp => hp
  | succ left ih =>
      intro idx observed votes profile w hp
      unfold backupLoopProfiled
      apply (probeSlot_pays cl _ _ _ _ hp).then
      intro r profile w hp
      cases r with
      | error e => exact hp
      | ok probe =>
          simp only []
          split
          · exact hp
          · apply (commitMeasured_pays _ _ _ _ hp).then
            intro result profile w hp
            simp only []
            split_ifs
            · exact ih _ _ _ _ _ (hp.map fun P => rfl)
            · exact ih _ _ _ _ _ hp

/-- The probes of the loop are no stages: they are part of the wait. -/
theorem waitLoop_pays (keyHash oldEpoch : UInt64) (attempts : Nat) :
    ∀ (profile : Option LatencyProfile) (w : Nat),
      Measuring LatencyProfile.spent start profile t w →
        (waitLoopProfiled cl keyHash oldEpoch attempts profile).Ensures (ticking Net)
          (fun x w' => Measuring LatencyProfile.spent start x.2 t w') w := by
  induction attempts with
  | zero => exact fun profile w ht => ht
  | succ attempts ih =>
      intro profile w ht
      unfold waitLoopProfiled
      have hcounted := ht.map (g := (·.bump .waitForPrimaryChangeAttempts)) fun P => rfl
      refine Prog.Ensures.bind ((Prog.Ensures.elapse _ (Nat.le_refl w)).mono ?_)
      rintro ⟨r, profile'⟩ w' hw
      cases r with
      | error e => exact ih _ _ (hcounted.later hw)
      | ok probe =>
          simp only []
          split
          · exact hcounted.later hw
          · exact ih _ _ (hcounted.later hw)

theorem waitForPrimaryChange_pays (keyHash oldEpoch : UInt64) (hp : Paid start profile w) :
    Pays start (waitForPrimaryChangeProfiled cl keyHash oldEpoch profile) w := by
  unfold waitForPrimaryChangeProfiled
  apply hp.begin
  intro t w ht
  refine Prog.Ensures.bind ((waitLoop_pays cl keyHash oldEpoch 50 _ _ ht).mono ?_)
  rintro ⟨changed, profile⟩ w ht
  exact stage_end ht fun profile w hp => hp

theorem repairLoop_pays (keyHash : UInt64) (proposal : Slot) (votes : List Vote) :
    ∀ (idx : Nat) (profile : Option LatencyProfile) (w : Nat), Paid start profile w →
      (repairLoopProfiled cl keyHash proposal idx votes profile).Ensures (ticking Net)
        (fun profile w' => Paid start profile w') w := by
  induction votes with
  | nil => exact fun idx profile w hp => hp
  | cons vote votes ih =>
      intro idx profile w hp
      unfold repairLoopProfiled
      have hcounted := hp.map (g := (·.bump .repairAttempts)) fun P => rfl
      split
      · exact ih _ _ _ hp
      · apply (probeSlot_pays cl _ _ _ _ hcounted).then
        intro r profile w hp
        cases r with
        | error e => exact ih _ _ _ hp
        | ok probe =>
            simp only []
            split
            · exact ih _ _ _ hp
            · exact (commitMeasured_pays _ _ _ _ hp).then fun x profile w hp => ih _ _ _ hp

theorem commitPrimary_pays (key : Key) (proposal : Slot) (slotIndex : Nat) (currentEpoch : UInt64)
    (votes : List Vote) (rule : Nat) (hp : Paid start profile w) :
    Pays start
      (commitPrimaryProfiled cl key proposal slotIndex currentEpoch votes rule profile) w := by
  unfold commitPrimaryProfiled
  apply (commitMeasured_pays _ _ _ _ hp).then
  intro result profile w hp
  cases result with
  | none => exact hp
  | some observed =>
      simp only []
      split
      · exact hp
      · refine Prog.Ensures.bind ((repairLoop_pays cl _ proposal votes 0 profile w hp).mono ?_)
        intro profile w hp
        exact Prog.Ensures.bind ((refreshCache_pays cl key proposal hp).mono fun profile w hp => hp)

theorem writeProposal_pays (key : Key) (proposal : Slot) (slotIndex : Nat) (currentEpoch : UInt64)
    (hp : Paid start profile w) :
    Pays start (writeProposalProfiled cl key proposal slotIndex currentEpoch profile) w := by
  unfold writeProposalProfiled
  apply (backupLoop_pays cl _ proposal _ 0 0 [] profile w hp).then
  intro r profile w hp
  cases r with
  | error e => exact hp
  | ok votes =>
      apply hp.begin
      intro t w ht
      apply stage_end ht
      intro profile w hp
      simp only []
      split
      · exact (waitForPrimaryChange_pays cl _ _ hp).then fun x profile w hp => hp
      · exact commitPrimary_pays cl key proposal slotIndex currentEpoch votes _ hp

theorem writeValue_pays (key : Key) (value : Value) (updateOnly tombstone : Bool)
    (hp : Accounted (fun _ => 0) start profile w) :
    Pays start (writeValueProfiled cl key value updateOnly tombstone profile) w := by
  unfold writeValueProfiled
  refine Prog.Ensures.bind ((hashMeasured_pays cl hp).mono ?_)
  intro profile w hp
  apply (probeSlot_pays cl _ _ _ _ (hp.map fun P => spent_setTargets P cl.backupCount)).then
  intro r profile w hp
  cases r with
  | error e => exact hp
  | ok probe =>
      simp only []
      split
      · exact hp
      · apply (encodeMeasured_pays cl key value _ _ hp).then
        intro slot profile w hp
        cases slot with
        | none => exact hp
        | some proposal => exact writeProposal_pays cl key proposal _ _ hp

/-! ## Whole operations -/

/-- An operation that is measured ends with a profile whose stages take no longer than the whole. -/
structure Balanced (before after : Option LatencyProfile) : Prop where
  measured : after.isSome = before.isSome
  spent_le : ∀ P ∈ after, P.spent ≤ P.totalNs.toNat

/-- The clock has been read when an operation begins. -/
theorem measured_begin {γ : Type} {post : γ → Nat → Prop} {k : UInt64 → Timed γ} (hw : 0 < w)
    (hk : ∀ (t : UInt64) w', 0 < w' → (profile.isSome → 0 < t.toNat) →
      Accounted (fun _ => 0) (profile.map fun _ => t.toNat) profile w' →
        (k t).Ensures (ticking Net) post w') :
    ((profileBegin profile).bind k).Ensures (ticking Net) post w := by
  cases profile with
  | none => exact hk 0 w hw (fun h => by cases h) .off
  | some P =>
      refine .now fun t ht => ?_
      have ht0 : 0 < t.toNat := Nat.lt_of_lt_of_le hw ht
      exact hk t _ ht0 (fun _ => ht0) (.on (Nat.le_refl _))

/-- `total_ns` is set. -/
theorem total_balanced {γ : Type} {post : γ → Nat → Prop} {k : Option LatencyProfile → Timed γ}
    {before : Option LatencyProfile} (ht : before.isSome → 0 < t.toNat) (hw : 0 < w)
    (hp : Paid (before.map fun _ => t.toNat) profile w)
    (hk : ∀ profile w', 0 < w' → Balanced before profile → (k profile).Ensures (ticking Net) post w') :
    ((totalMeasured profile t).bind k).Ensures (ticking Net) post w := by
  cases before with
  | none =>
      cases hp with
      | off => exact hk none w hw ⟨rfl, fun P hP => by cases hP⟩
  | some before =>
      cases hp with
      | @on _ _ P h =>
          have h : t.toNat + P.spent ≤ w := h
          have ht0 := ht rfl
          have hne : t ≠ 0 := fun h0 => by simp [h0] at ht0
          unfold totalMeasured measureEnd
          simp only [if_pos hne]
          refine .now fun now hnow => hk _ _ (Nat.lt_of_lt_of_le hw hnow) ⟨rfl, ?_⟩
          intro P' hP'
          obtain rfl := Option.some.inj hP'
          have hle : t.toNat ≤ now.toNat := by omega
          have hd := toNat_elapsed hle
          show P.spent ≤ (now - t).toNat
          omega

theorem readKv_balanced (key : Key) (profile : Option LatencyProfile) (hw : 0 < w) :
    (readKvProfiled cl key profile).Ensures (ticking Net)
      (fun x w' => 0 < w' ∧ Balanced profile x.2) w := by
  unfold readKvProfiled
  apply measured_begin hw
  intro t w hw ht hp
  refine Prog.Ensures.bind ((Prog.Ensures.both (readValue_pays cl key hp)
    (Prog.Ensures.elapse _ hw)).mono ?_)
  rintro ⟨result, profile⟩ w ⟨hp, hw⟩
  exact total_balanced ht hw hp fun profile w hw hb => ⟨hw, hb⟩

theorem mutation_balanced (m : Mutation) (profile : Option LatencyProfile) (hw : 0 < w) :
    (m.profiled cl profile).Ensures (ticking Net)
      (fun x w' => 0 < w' ∧ Balanced profile x.2) w := by
  unfold Mutation.profiled
  apply measured_begin hw
  intro t w hw ht hp
  refine Prog.Ensures.bind ((Prog.Ensures.both (writeValue_pays cl m.key m.value m.updateOnly
    m.tombstone hp) (Prog.Ensures.elapse _ hw)).mono ?_)
  rintro ⟨result, profile⟩ w ⟨hp, hw⟩
  exact total_balanced ht hw hp fun profile w hw hb => ⟨hw, hb⟩

theorem op_balanced (o : Op) (profile : Option LatencyProfile) (hw : 0 < w) :
    (o.profiled cl profile).Ensures (ticking Net)
      (fun x w' => 0 < w' ∧ Balanced profile x.2) w := by
  cases o with
  | read key => exact Prog.Ensures.bind ((readKv_balanced cl key profile hw).mono fun x w h => h)
  | mutate m => exact Prog.Ensures.bind ((mutation_balanced cl m profile hw).mono fun x w h => h)

theorem client_balanced (ops : List (Op × Option LatencyProfile)) :
    ∀ w, 0 < w → (clientProfiled cl ops).Ensures (ticking Net)
      (fun answers _ => List.Forall₂ (fun o x => Balanced o.2 x.2) ops answers) w := by
  induction ops with
  | nil => exact fun w hw => .nil
  | cons o ops ih =>
      obtain ⟨o, profile⟩ := o
      intro w hw
      refine Prog.Ensures.bind ((op_balanced cl o profile hw).mono ?_)
      rintro answer w ⟨hw, hb⟩
      exact Prog.Ensures.bind ((ih w hw).mono fun answers w h => .cons hb h)

end Operations

/-- Any number of clients, with operations of which some are measured, at work on the regions of the
memory nodes together, with evictions and with a clock that never goes back and does not show 0. The
operations that are measured end with profiles, and in each of them the stages take no longer
together than the operation took. -/
theorem stages_le_total {ι κ : Type} [DecidableEq ι] (header : Nat → RegionHeader)
    (cl : ι → Cluster) (ops : ι → List (Op × Option LatencyProfile)) (rs : Nat → Region)
    (clock : Ticker Net (Nat → Region) κ) (time : κ → Nat) (hclock : clock.Tells time) (k : κ)
    (hk : 0 < time k) (tr : List (Option (Event ι Net.timed)))
    (Q : Pool ι Net.timed ((Nat → Region) × κ) (List (Except Err Answer × Option LatencyProfile)))
    (hr : Run ((regionHandler header).timed clock)
      (fun x y => Passing Evicts x y ∧ time x.2 ≤ time y.2) (fun _ _ => True)
      ⟨(rs, k), fun i => clientProfiled (cl i) (ops i)⟩ tr Q)
    (i : ι) (answers : List (Except Err Answer × Option LatencyProfile))
    (hret : Q.prog i = .ret answers) :
    List.Forall₂ (fun o x => Balanced o.2 x.2) (ops i) answers := by
  obtain ⟨w, hQ⟩ := hr.ticks hclock (fun x y he => he.2) fun i => client_balanced (cl i) (ops i) _ hk
  have hi := hQ i
  rw [hret] at hi
  exact hi

/-- A clock that counts as far as it can. -/
def steady (k : UInt64) : UInt64 := if k + 1 = 0 then k else k + 1

def steadyClock : Ticker Net (Nat → Region) UInt64 where
  reads _ k := (steady k, steady k)
  passes _ _ k := steady k

theorem steadyClock_tells : steadyClock.Tells UInt64.toNat := by
  have hsteady : ∀ k : UInt64, k.toNat ≤ (steady k).toNat := by
    intro k
    unfold steady
    split
    · exact Nat.le_refl _
    · rename_i h
      have hne : (k + 1).toNat ≠ 0 := fun h0 => h (UInt64.toNat_inj.mp h0)
      rw [UInt64.toNat_add] at hne ⊢
      have := k.toNat_lt
      simp only [UInt64.reduceToNat] at hne ⊢
      omega
  exact ⟨fun s k => ⟨hsteady k, rfl⟩, fun c s k => hsteady k⟩

/-- A write that is measured and a read side by side. -/
theorem stages_le_total_write : ∃ (Q : Pool Bool Net.timed ((Nat → Region) × UInt64)
      (List (Except Err Answer × Option LatencyProfile))) (tr : _) (answers : _),
    Run ((regionHandler Deployment.pair.header).timed steadyClock)
        (fun x y => Passing Evicts x y ∧ x.2.toNat ≤ y.2.toNat) (fun _ _ => True)
        ⟨((fun _ => Region.create .pair), 1), fun i =>
          clientProfiled Deployment.pair.toCluster (measuringOps i)⟩ tr Q ∧
      Q.prog true = .ret answers ∧
      List.Forall₂ (fun o x => Balanced o.2 x.2) (measuringOps true) answers ∧
      answers.map (fun x => x.2.map LatencyProfile.totalNs) = [some 36] := by
  have hrun := Pool.run_schedule ((regionHandler Deployment.pair.header).timed steadyClock)
    (fun x y => Passing Evicts x y ∧ x.2.toNat ≤ y.2.toNat) (fun _ _ => True)
    ⟨((fun _ => Region.create .pair), 1), fun i =>
      clientProfiled Deployment.pair.toCluster (measuringOps i)⟩
    (List.replicate 4 false ++ List.replicate 40 true) (Pool.respects_true _ _ _)
  have hdone : (match (Pool.schedule ((regionHandler Deployment.pair.header).timed steadyClock)
      ⟨((fun _ => Region.create .pair), 1), fun i =>
        clientProfiled Deployment.pair.toCluster (measuringOps i)⟩
      (List.replicate 4 false ++ List.replicate 40 true)).2.prog true with
      | .ret answers => decide (answers.map (fun x => x.2.map LatencyProfile.totalNs) = [some 36])
      | .call _ _ => false) = true := by decide +kernel
  split at hdone
  next answers hret =>
    refine ⟨_, _, answers, hrun, hret, ?_, of_decide_eq_true hdone⟩
    exact stages_le_total Deployment.pair.header (fun _ => Deployment.pair.toCluster) measuringOps
      (fun _ => Region.create .pair) steadyClock UInt64.toNat steadyClock_tells 1 (by decide) _ _ hrun
      true answers hret
  next => cases hdone

end TeeDist
