import TeeDist.Consoles
import TeeDist.Lib.Views

/-!
# Compute nodes with keys of their own

Compute nodes work at the same time, each on keys that no other one changes.  Once these keys have
slots, the slots never change hands: the *seats* of a store are the key hashes its slots belong to,
and every commit puts a key into the seat it has (`Domain.seated`).

So each compute node can be given a view of its own, in which it is alone.  The view agrees with the
regions on the slots of its keys (`Agrees`); of the slots of others it knows the seat only, and what
is read there may be anything else, a commit half done included (`Domain.contract`).  A probe walks
past such slots whatever they hold (`probeSlot_follows`), so operations end as they do in the view
(`mutation_follows`, `readKv_follows`).  With `Run.views` a console ends as if it were alone with the
memory nodes, and that is what the dictionary makes it say (`consoles_apart`).
-/

namespace TeeDist

open CText Calls Probing

/-! ## Seats -/

/-- The key hashes to which the slots of a store belong. -/
def Store.seats (st : Store) (a : Addr) : Option UInt64 := (st.slot a).owner

/-- Outside the caches, slots belong to the key hashes that have their seats. -/
def Seated (seats : Addr → Option UInt64) (st : Store) : Prop :=
  ∀ a, a.kind ≠ .cache → (st.slot a).owner = seats a

/-- A key hash has a seat in every table where it is placed. -/
def Deployment.Seats (d : Deployment) (seats : Addr → Option UInt64) (h : UInt64) : Prop :=
  ∀ mn kind, d.Places mn kind h → ∃ i < d.slots mn kind, seats ⟨mn, kind, i⟩ = some h

theorem seated_seats (st : Store) : Seated st.seats st := fun _ _ => rfl

@[simp] theorem Slot.owner_withBody (s body : Slot) : (s.withBody body).owner = body.owner := rfl

@[simp] theorem Slot.owner_withGuard (s : Slot) (epoch : UInt64) :
    (s.withGuard epoch).owner = s.owner := rfl

@[simp] theorem Slot.owner_committed (s : Slot) : s.committed.owner = s.owner := rfl

/-- A key that has a value has its seats. -/
theorem Serves.seats {d : Deployment} {st : Store} {keys : List Key} {map : Key → Option Value}
    (hs : Serves d keys st map) {key : Key} (hkey : key ∈ keys) (hsome : (map key).isSome) :
    d.Seats st.seats (hash64String key) := by
  intro mn kind hp
  obtain ⟨s, ⟨i, hi, rfl, ho⟩, -⟩ := (hs.keeps key hkey).stocked hsome mn kind hp
  exact ⟨i, hi, ho⟩

section Seats

variable {d : Deployment} {seats : Addr → Option UInt64} {st : Store}

theorem Deployment.Seats.holds {h : UInt64} (hd : d.Seats seats h) (hst : Seated seats st) {mn : Nat}
    {kind : RegionKind} (hp : d.Places mn kind h) : ∃ s, st.Holds d mn kind h s := by
  obtain ⟨i, hi, hseat⟩ := hd mn kind hp
  exact ⟨_, i, hi, rfl, (hst ⟨mn, kind, i⟩ hp.kind_ne).trans hseat⟩

theorem Seated.setSlot {a : Addr} {s : Slot} (hst : Seated seats st) (hs : s.owner = seats a) :
    Seated seats (st.setSlot a s) := by
  intro b hb
  by_cases hab : b = a
  · subst hab
    rw [Store.setSlot_slot_self, hs]
  · rw [st.setSlot_slot_of_ne s hab]
    exact hst b hb

end Seats

/-! ## Contracts -/

/-- The key hashes a compute node looks for, and those it changes. -/
structure Domain where
  looks : UInt64 → Prop
  changes : UInt64 → Prop
  changes_looks : ∀ h, changes h → looks h

namespace Domain

variable (D : Domain) (seats : Addr → Option UInt64)

/-- A slot that belongs to no key hash, or to one that is looked for. -/
def InView (a : Addr) : Prop := ∀ h, seats a = some h → D.looks h

/-- A slot of a key hash that may be changed. -/
def Held (a : Addr) : Prop := ∃ h, seats a = some h ∧ D.changes h

/-- A compute node keeps to its own slots when it writes, and puts nobody else's key there.  Where
it reads it hears what it expects if the slot is in view, and otherwise some slot of the key that has
the seat. -/
def contract : Contract Net Store where
  may
    | _, .readRegion _ => True
    | _, .writeRegion a body => D.Held seats a ∧ body.owner = seats a
    | _, .cas64 a _ _ => D.Held seats a
  hears
    | w, .readRegion a, r, w' =>
        w' = w ∧ ∃ s, r = some s ∧ (a.kind ≠ .cache → s.owner = seats a ∧
          (D.InView seats a → s = w.slot a))
    | w, .writeRegion a body, r, w' =>
        r = (storeHandler (.writeRegion a body) w).1 ∧ w' = (storeHandler (.writeRegion a body) w).2
    | w, .cas64 a compare swap, r, w' =>
        r = (storeHandler (.cas64 a compare swap) w).1 ∧
          w' = (storeHandler (.cas64 a compare swap) w).2

/-- The contract of a console, which may ask for evictions too. -/
def sessions : Contract Sessions Store := (D.contract seats).sum (.exact Control.done)

variable {D seats} {st w : Store} {c : Call}

theorem Held.inView {a : Addr} (h : D.Held seats a) : D.InView seats a := by
  obtain ⟨h, hseat, hc⟩ := h
  intro h' hseat'
  rw [hseat, Option.some.injEq] at hseat'
  exact hseat' ▸ D.changes_looks h hc

/-- What a contract permits keeps seats. -/
theorem seated (hmay : (D.contract seats).may w c) (hst : Seated seats st) :
    Seated seats (storeHandler c st).2 := by
  cases c with
  | readRegion a => exact hst
  | writeRegion a body => exact hst.setSlot hmay.2
  | cas64 a compare swap =>
      simp only [storeHandler]
      split
      · intro b hb
        by_cases hab : b = a
        · subst hab
          rw [Store.setSlot_slot_self]
          exact hst b hb
        · rw [st.setSlot_slot_of_ne _ hab]
          exact hst b hb
      · exact hst

/-- So a view stays seated. -/
theorem seated_view {r : Net.Reply c} {w' : Store} (hw : Seated seats w)
    (hmay : (D.contract seats).may w c) (hears : (D.contract seats).hears w c r w') :
    Seated seats w' := by
  cases c with
  | readRegion a =>
      obtain ⟨rfl, -⟩ : w' = w ∧ _ := hears
      exact hw
  | writeRegion a body =>
      obtain ⟨-, rfl⟩ : _ ∧ w' = _ := hears
      exact seated hmay hw
  | cas64 a compare swap =>
      obtain ⟨-, rfl⟩ : _ ∧ w' = _ := hears
      exact seated hmay hw

theorem seated_sessions {c : Sessions.Call} {r : Sessions.Reply c} {w' : Store} (hw : Seated seats w)
    (hmay : (D.sessions seats).may w c) (hears : (D.sessions seats).hears w c r w') :
    Seated seats w' := by
  cases c with
  | inl c => exact seated_view hw hmay hears
  | inr mn =>
      obtain ⟨-, rfl⟩ := Prod.mk.inj hears
      exact hw

end Domain

/-! ## A store and the views of it -/

/-- The view is right about the slots it is about. -/
def Agrees (D : Domain) (seats : Addr → Option UInt64) (st w : Store) : Prop :=
  ∀ a, a.kind ≠ .cache → D.InView seats a → w.slot a = st.slot a

section Agrees

variable {D : Domain} {seats : Addr → Option UInt64} {st w : Store} {c : Call}

/-- A call of the compute node.  It hears what its contract says, and its view stays right. -/
theorem Agrees.call (ha : Agrees D seats st w) (hst : Seated seats st) (hc : c.Tables)
    (hmay : (D.contract seats).may w c) :
    ∃ w', (D.contract seats).hears w c (storeHandler c st).1 w' ∧
      Agrees D seats (storeHandler c st).2 w' := by
  cases c with
  | readRegion a =>
      exact ⟨w, ⟨rfl, st.slot a, rfl, fun ht => ⟨hst a ht, fun hv => (ha a ht hv).symm⟩⟩, ha⟩
  | writeRegion a body =>
      have hslot : w.slot a = st.slot a := ha a hc hmay.1.inView
      refine ⟨_, ⟨rfl, rfl⟩, fun b hb hv => ?_⟩
      simp only [storeHandler, hslot]
      by_cases hab : b = a
      · subst hab
        simp only [Store.setSlot_slot_self]
      · simp only [Store.setSlot_slot_of_ne _ _ hab, ha b hb hv]
  | cas64 a compare swap =>
      have hslot : w.slot a = st.slot a := ha a hc (Domain.Held.inView hmay)
      refine ⟨_, ⟨by simp only [storeHandler, hslot], rfl⟩, fun b hb hv => ?_⟩
      simp only [storeHandler, hslot]
      split
      · by_cases hab : b = a
        · subst hab
          simp only [Store.setSlot_slot_self]
        · simp only [Store.setSlot_slot_of_ne _ _ hab, ha b hb hv]
      · exact ha b hb hv

/-- A call of another compute node. -/
theorem Agrees.other {D' : Domain} {w' : Store} (ha : Agrees D seats st w)
    (hapart : ∀ h, D'.changes h → ¬ D.looks h) (hmay : (D'.contract seats).may w' c) :
    Agrees D seats (storeHandler c st).2 w := by
  intro b hb hv
  have hne : ∀ a, D'.Held seats a → b ≠ a := by
    rintro a ⟨h, hseat, hc⟩ rfl
    exact hapart h hc (hv h hseat)
  cases c with
  | readRegion a => exact ha b hb hv
  | writeRegion a body => exact (ha b hb hv).trans (Call.slot_of_ne (hne a hmay.1) st).symm
  | cas64 a compare swap => exact (ha b hb hv).trans (Call.slot_of_ne (hne a hmay) st).symm

end Agrees

/-! ## Operations in a view -/

/-- A slot that a probe finds empty belongs to nobody. -/
theorem Slot.owner_of_empty {s : Slot} {h : UInt64} (hc : s.classFor h = .empty) :
    s.owner = none := by
  have hempty : s.isEmpty = true := by
    by_contra hne
    revert hc
    unfold Slot.classFor
    split_ifs <;> simp_all
  have hflags : s.flags = 0 := by
    simp only [Slot.isEmpty, Bool.and_eq_true, beq_iff_eq] at hempty
    exact hempty.2
  simp [Slot.owner, Slot.valid, hflags]

section Follows

variable {D : Domain} {seats : Addr → Option UInt64} {d : Deployment} {w : Store} {h : UInt64}
  {mn : Nat} {kind : RegionKind}

/-- The loop of a probe comes to the seat of its key, whatever it reads on the way. -/
theorem probeLoop_ensures (hkind : kind ≠ .cache) (hlook : D.looks h) {n : Nat}
    (hseat : seats (d.probeAddr mn kind h n) = some h)
    (hhit : (w.slot (d.probeAddr mn kind h n)).classFor h = .hit)
    (hbefore : ∀ j < n, seats (d.probeAddr mn kind h j) ≠ some h ∧
      seats (d.probeAddr mn kind h j) ≠ none) (hn : n < d.slots mn kind) :
    ∀ (left idx : Nat) (probe : SlotProbe), idx + left = d.slots mn kind → idx ≤ n →
      (probeLoop mn kind h (d.home mn kind h) (d.slots mn kind) left idx probe).Ensures
        (D.contract seats)
        (fun r w' => r = .ok (foundProbe (w.slot (d.probeAddr mn kind h n))
          (d.probeAddr mn kind h n).idx) ∧ w' = w) w := by
  intro left
  induction left with
  | zero =>
      intro idx probe hleft hidx
      omega
  | succ left ih =>
      intro idx probe hleft hidx
      have hlater := fun probe => ih (idx + 1) probe (by omega)
      rw [probeLoop_succ]
      refine ⟨trivial, fun r w' hr => ?_⟩
      obtain ⟨hw', s, rfl, hs⟩ := hr
      obtain ⟨howner, hview⟩ := hs hkind
      show (probeStep mn kind h _ _ left idx probe s).Ensures _ _ w'
      rw [hw', probeStep]
      cases Nat.lt_or_eq_of_le hidx with
      | inr heq =>
          subst heq
          have hin : D.InView seats (d.probeAddr mn kind h idx) := by
            intro h' hseat'
            rw [hseat, Option.some.injEq] at hseat'
            exact hseat' ▸ hlook
          obtain rfl := hview hin
          simp only [Cluster.probeAddr] at hhit
          simp only [hhit]
          exact ⟨rfl, rfl⟩
      | inl hlt =>
          obtain ⟨hother, htaken⟩ := hbefore idx hlt
          cases hclass : s.classFor h with
          | hit =>
              have hown := Slot.owner_eq_some.mpr (Slot.classFor_hit_inv hclass)
              exact absurd (howner.symm.trans hown) hother
          | empty => exact absurd (howner.symm.trans (Slot.owner_of_empty hclass)) htaken
          | reusable => exact hlater _ hlt
          | skip => exact hlater _ hlt

/-- A probe finds its key as it does in the view. -/
theorem probeSlot_follows (ht : Tidy d w mn kind h) (hw : Seated seats w) (hkind : kind ≠ .cache)
    (hlook : D.looks h) {s : Slot} (hs : w.Holds d mn kind h s) :
    (probeSlot d.toCluster mn kind h).Follows (D.contract seats) storeHandler w := by
  obtain ⟨n, hn, hscan, -⟩ := ht.placed.scan_found ht.sees hs
  obtain ⟨-, hhit, hbefore⟩ := (scan_eq_iff _ _ _).mp hscan
  have hseats : ∀ j < d.slots mn kind, seats (d.probeAddr mn kind h j) =
      (w.table mn kind ((d.home mn kind h + j) % d.slots mn kind)).owner := by
    intro j hj
    rw [← hw _ hkind, d.probeAddr_slot w hj]
  have hpos : ¬ kindSlotCount (d.header mn) kind = 0 := by
    show ¬ d.slots mn kind = 0
    omega
  unfold Prog.Follows
  rw [run_probeSlot, Store.probe, Store.outcome, hscan]
  unfold probeSlot
  simp only [hpos, if_false]
  refine Prog.Ensures.mono ?_ (probeLoop_ensures hkind hlook ?_ hhit ?_ hn (d.slots mn kind) 0 .zero
    (Nat.zero_add _) (Nat.zero_le n))
  · rintro r w' ⟨rfl, rfl⟩
    rfl
  · rw [hseats n hn]
    exact (ht.sees.hit n hn).mp hhit
  · intro j hj
    have hj' : j < d.slots mn kind := Nat.lt_trans hj hn
    rw [hseats j hj']
    exact ⟨fun he => (hbefore j hj).1 ((ht.sees.hit j hj').mpr he),
      fun he => (hbefore j hj).2 ((ht.sees.empty j hj').mpr he)⟩

/-- So does a commit to a slot that is held. -/
theorem commitSlotAt_follows {a : Addr} {p : Slot} (ha : D.Held seats a) (hp : p.owner = seats a)
    (epoch : UInt64) : (commitSlotAt a p epoch).Follows (D.contract seats) storeHandler w := by
  simp only [commitSlotAt, writeRegion, cas64, Prog.bind_eq, Prog.call_bind, Prog.ret_bind]
  refine .call ⟨ha, hp⟩ (fun r w' hr => hr) ?_
  exact .call ha (fun r w' hr => hr) (.ret _)

/-- Where a key is placed, a probe returns its seat. -/
theorem seat_probe (hrest : Rest d w) (hw : Seated seats w) (hseats : d.Seats seats h)
    (hp : d.Places mn kind h) :
    ∃ i, w.probe d.toCluster mn kind h = .ok (foundProbe (w.slot ⟨mn, kind, i⟩) i) ∧
      seats ⟨mn, kind, i⟩ = some h := by
  obtain ⟨s, hs⟩ := hseats.holds hw hp
  obtain ⟨i, hprobe, rfl⟩ := (hrest mn kind hp.kind_ne).probe_of_holds hs
  exact ⟨i, hprobe, (hw ⟨mn, kind, i⟩ hp.kind_ne).symm.trans hs.owner⟩

theorem probe_place_follows (hrest : Rest d w) (hw : Seated seats w) (hseats : d.Seats seats h)
    (hlook : D.looks h) (hp : d.Places mn kind h) :
    (probeSlot d.toCluster mn kind h).Follows (D.contract seats) storeHandler w := by
  obtain ⟨s, hs⟩ := hseats.holds hw hp
  exact probeSlot_follows (hrest mn kind hp.kind_ne) hw hp.kind_ne hlook hs

/-- Replication puts the key into its seats. -/
theorem backupLoop_follows (hseats : d.Seats seats h) (hc : D.changes h) {p : Slot}
    (hcalm : ∀ k, p.Calm k) (ho : p.owner = some h) (left : Nat) :
    ∀ (idx : Nat) (observed : UInt64) (votes : List Vote) {w : Store},
      idx + left = d.backupCount → Rest d w → Seated seats w →
      (backupLoop d.toCluster h p left idx observed votes).Follows (D.contract seats)
        storeHandler w := by
  induction left with
  | zero =>
      intro idx observed votes w _ _ _
      exact .ret _
  | succ left ih =>
      intro idx observed votes w hleft hrest hw
      have hplace : d.Places (d.replicaSession h (idx + 1)) .backup h := ⟨idx, by omega, rfl⟩
      obtain ⟨i, hprobe, hseat⟩ := seat_probe hrest hw hseats hplace
      have hrest' := (Frame.commit hrest (by decide) hprobe hcalm ho).rest
      have hw' := hw.setSlot (ho.trans hseat.symm)
      rw [backupLoop]
      apply (probe_place_follows hrest hw hseats (D.changes_looks h hc) hplace).bind
      simp only [run_probeSlot, hprobe, foundProbe, Bool.not_true, Bool.false_eq_true, if_false]
      apply (commitSlotAt_follows ⟨h, hseat, hc⟩ (ho.trans hseat.symm) _).bind
      simp only [run_commitSlotAt_self, Slot.committed_eq ((hcalm h).epochs ho)]
      exact ih (idx + 1) _ _ (by omega) hrest' hw'

theorem repairLoop_follows (cl : Cluster) (p : Slot) (n : Nat) :
    ∀ idx, (repairLoop cl h p idx (List.replicate n Vote.won)).Follows (D.contract seats)
      storeHandler w := by
  induction n with
  | zero => exact fun idx => .ret _
  | succ n ih => exact fun idx => ih (idx + 1)

theorem commitPrimary_follows {cl : Cluster} (hoff : cl.cacheOn = false) {key : Key} {p : Slot}
    {i : Nat} (ha : D.Held seats ⟨cl.primarySession (hash64String key), .prime, i⟩)
    (hp : p.owner = seats ⟨cl.primarySession (hash64String key), .prime, i⟩) (epoch : UInt64)
    (n rule : Nat) :
    (commitPrimary cl key p i epoch (List.replicate n Vote.won) rule).Follows (D.contract seats)
      storeHandler w := by
  rw [commitPrimary]
  apply (commitSlotAt_follows ha hp epoch).bind
  simp only [run_commitSlotAt]
  split
  · exact .ret _
  · apply (repairLoop_follows cl p n 0).bind
    simp only [refresh_off hoff, Prog.bind_eq, Prog.ret_bind]
    exact .ret _

/-- A mutation ends as it does in the view. -/
theorem mutation_follows (hoff : d.cacheOn = false) (m : Mutation) (hrest : Rest d w)
    (hw : Seated seats w) (hseats : d.Seats seats (hash64String m.key))
    (hc : D.changes (hash64String m.key)) :
    (m.prog d.toCluster).Follows (D.contract seats) storeHandler w := by
  have hplace : d.Places (d.primarySession (hash64String m.key)) .prime (hash64String m.key) := rfl
  obtain ⟨i, hprobe, hseat⟩ := seat_probe hrest hw hseats hplace
  rw [Mutation.prog_eq, writeValue]
  apply (probe_place_follows hrest hw hseats (D.changes_looks _ hc) hplace).bind
  simp only [run_probeSlot, hprobe]
  split
  · exact .ret _
  · simp only [makeSlot]
    split
    next _ hslot => exact .ret _
    next _ p hslot =>
      obtain ⟨hcalm, ho⟩ : (∀ k, p.Calm k) ∧ p.owner = some (hash64String m.key) := by
        split at hslot
        · cases hslot
        · cases hslot
          exact ⟨proposal_calm d.toCluster m.key m.value m.tombstone _,
            proposal_owner d.toCluster m.key m.value m.tombstone _⟩
      rw [writeProposal]
      apply (backupLoop_follows hseats hc hcalm ho d.backupCount 0 0 [] (Nat.zero_add _) hrest
        hw).bind
      simp only [run_backupLoop]
      cases Store.replicate d.toCluster (hash64String m.key) p d.backupCount 0 w with
      | mk e st' =>
          cases e with
          | some e => exact .ret _
          | none =>
              simp only [List.nil_append, evaluateVotes_won, Nat.one_ne_zero, if_false]
              exact commitPrimary_follows hoff ⟨_, hseat, hc⟩ (ho.trans hseat.symm) _ _ _

/-- So does a read. -/
theorem readKv_follows (hoff : d.cacheOn = false) (key : Key) (hrest : Rest d w)
    (hw : Seated seats w) (hseats : d.Seats seats (hash64String key))
    (hlook : D.looks (hash64String key)) :
    (readKv d.toCluster key).Follows (D.contract seats) storeHandler w := by
  have hplace : d.Places (d.primarySession (hash64String key)) .prime (hash64String key) := rfl
  have hcache : ∀ pr, readCache d.toCluster key pr = .ret none := fun pr => by simp [readCache, hoff]
  obtain ⟨i, hprobe, -⟩ := seat_probe hrest hw hseats hplace
  rw [readKv, readValue]
  apply (probe_place_follows hrest hw hseats hlook hplace).bind
  simp only [run_probeSlot, hprobe, hcache, Prog.bind_eq, Prog.ret_bind, readPrime, refresh_off hoff]
  split
  · exact .ret _
  · split
    · exact .ret _
    · exact .ret _

end Follows

/-! ## Many compute nodes -/

/-- What a compute node keeps to: its domain, or if it has none, reading. -/
def role (cl : Cluster) (seats : Addr → Option UInt64) : Option Domain → Contract Sessions Store
  | some D => (D.sessions seats).limit fun c =>
      Sum.elim (Call.Exists cl) (fun _ => True) c ∧ Sum.elim Call.Tables (fun _ => True) c
  | none => (Contract.any Sessions Store).limit fun c =>
      Sum.elim (Call.Exists cl) (fun _ => True) c ∧ Sum.elim Call.Harmless (fun _ => True) c

section Views

variable {ι : Type} {d : Deployment} {seats : Addr → Option UInt64} {roles : ι → Option Domain}

/-- Beneath the regions lies a store that is seated, and the views of the domains are right. -/
def Viewed (d : Deployment) (seats : Addr → Option UInt64) (roles : ι → Option Domain)
    (rs : Nat → Region) (w : ι → Store) : Prop :=
  ∃ st, Beneath d rs st ∧ Seated seats st ∧ ∀ i D, roles i = some D → Agrees D seats st (w i)

theorem viewed_evicts (rs rs' : Nat → Region) (w : ι → Store) (he : Evicts rs rs')
    (hv : Viewed d seats roles rs w) : Viewed d seats roles rs' w := by
  obtain ⟨st, hb, hst, hw⟩ := hv
  exact ⟨st, hb.evicts he, hst, hw⟩

/-- A call of one compute node, among others that keep to their roles. -/
theorem viewed_call [DecidableEq ι]
    (hapart : ∀ i j D D', i ≠ j → roles i = some D → roles j = some D' →
      ∀ h, D'.changes h → ¬ D.looks h)
    (i : ι) (c : Sessions.Call) (rs : Nat → Region) (w : ι → Store) (hv : Viewed d seats roles rs w)
    (hmay : (role d.toCluster seats (roles i)).may (w i) c) :
    ∃ w', (role d.toCluster seats (roles i)).hears (w i) c (regionSessions d.header c rs).1 w' ∧
      Viewed d seats roles (regionSessions d.header c rs).2 (Function.update w i w') := by
  obtain ⟨st, hb, hst, hw⟩ := hv
  cases hi : roles i with
  | none =>
      rw [hi] at hmay
      refine ⟨w i, trivial, st, hb.session_harmless hmay.2, hst, ?_⟩
      rw [Function.update_eq_self]
      exact hw
  | some D =>
      rw [hi] at hmay
      obtain ⟨hmay, hc⟩ := hmay
      cases c with
      | inl c =>
          obtain ⟨hreply, hb'⟩ := hb.call hc
          obtain ⟨w', hears, ha⟩ := (hw i D hi).call hst hc.2 hmay
          rw [← hreply] at hears
          refine ⟨w', hears, _, hb', D.seated hmay hst, fun j D' hj => ?_⟩
          by_cases hji : j = i
          · subst hji
            rw [hi, Option.some.injEq] at hj
            rw [Function.update_self, ← hj]
            exact ha
          · rw [Function.update_of_ne hji]
            exact (hw j D' hj).other (hapart j i D' D hji hj hi) hmay
      | inr mn =>
          refine ⟨w i, rfl, st, hb, hst, ?_⟩
          rw [Function.update_eq_self]
          exact hw

end Views

/-! ## Consoles with keys of their own -/

/-- The keys that a console is asked about, and those it is asked to change. -/
def domainOf (input : List UInt8) : Domain where
  looks h := ∃ o ∈ typedOps input, hash64String o.key = h
  changes h := ∃ o ∈ typedOps input, o.isRead = false ∧ hash64String o.key = h
  changes_looks h := by
    rintro ⟨o, ho, -, hh⟩
    exact ⟨o, ho, hh⟩

section Console

variable {d : Deployment} {keys : List Key} {seats : Addr → Option UInt64} {input : List UInt8}
  {w : Store} {map : Key → Option Value} {around : Around}

/-- A routine returns what the dictionary answers. -/
theorem carryOut_ensures (hroom : d.Room keys) (hdist : DistinctHashes keys)
    (hkeys : ∀ o ∈ typedOps input, o.key ∈ keys)
    (hseats : ∀ o ∈ typedOps input, d.Seats seats (hash64String o.key)) (log : Log Console)
    {c : ConsoleCall} (hc : c.Asks fun o => o ∈ typedOps input) (hs : Serves d keys w map)
    (hw : Seated seats w) :
    (carryOut (d.client false).toCluster around log c).Ensures ((domainOf input).sessions seats)
      (fun r w' => r = (dictHandler around log c map).1 ∧
        Serves d keys w' (dictHandler around log c map).2 ∧ Seated seats w') w := by
  have hfollows : (carryOut (d.client false).toCluster around log c).Follows
      ((domainOf input).sessions seats) storeSessions w := by
    cases c with
    | readKv profiled key =>
        have hkey : Op.read key ∈ typedOps input := hc _ rfl
        apply (readKv_follows (D := domainOf input) rfl key (hs.rest.client false) hw (hseats _ hkey)
          ⟨_, hkey, rfl⟩).inl.bind
        exact .ret _
    | mutateKv profiled m =>
        have hkey : Op.mutate m ∈ typedOps input := hc _ rfl
        apply (mutation_follows (D := domainOf input) rfl m (hs.rest.client false) hw (hseats _ hkey)
          ⟨_, hkey, rfl, rfl⟩).inl.bind
        exact .ret _
    | control session => exact .call trivial (fun r w' hr => Prod.mk.inj hr) (.ret _)
    | nowNs => exact .ret _
    | print text => exact .ret _
    | printStatus => exact .ret _
    | printTimed text => exact .ret _
    | printProfile => exact .ret _
  have hserves : (carryOut (d.client false).toCluster around log c).Ensures
      ((domainOf input).sessions seats) (fun r w' => r = (dictHandler around log c map).1 ∧
        Serves d keys w' (dictHandler around log c map).2) w :=
    hfollows.ensures (carryOut_serves hroom hdist (fun o ho => hkeys o (hc o ho)) hs)
  refine (Prog.Ensures.keeping (fun _ _ _ _ hw hmay hears => Domain.seated_sessions hw hmay hears) hw
    hserves).mono fun r w' hr => ?_
  exact ⟨hr.1.1, hr.1.2, hr.2⟩

/-- A console says what the dictionary makes it say. -/
theorem consoleProg_ensures (hroom : d.Room keys) (hdist : DistinctHashes keys)
    (hkeys : ∀ o ∈ typedOps input, o.key ∈ keys)
    (hseats : ∀ o ∈ typedOps input, d.Seats seats (hash64String o.key)) (hs : Serves d keys w map)
    (hw : Seated seats w) :
    (consoleProg (d.client false).toCluster around input).Ensures ((domainOf input).sessions seats)
      (fun a _ => a = ((), dictConsole d.sessionCount around map input)) w := by
  refine (Prog.Ensures.implement (R := fun w map => Serves d keys w map ∧ Seated seats w)
    (fun log c w map hc hR => carryOut_ensures hroom hdist hkeys hseats log hc hR.1 hR.2)
    (asks_cnLoop d.sessionCount fun o ho => ho) [] ⟨hs, hw⟩).mono fun a w' ha => ?_
  exact ha.1

end Console

section Consoles

variable {ι : Type} [DecidableEq ι]

/-- A console without cache is apart from the others: it is asked about keys that have slots where
they are placed, and no other console changes them. -/
structure Apart (d : Deployment) (keys : List Key) (st : Store) (cacheOn : ι → Bool)
    (input : ι → List UInt8) (i : ι) : Prop where
  off : cacheOn i = false
  known : ∀ o ∈ typedOps (input i), o.key ∈ keys
  seats : ∀ o ∈ typedOps (input i), d.Seats st.seats (hash64String o.key)
  alone : ∀ j ≠ i, ∀ o ∈ typedOps (input i), ∀ o' ∈ typedOps (input j), o'.key = o.key → o'.isRead

/-- Let compute nodes run their consoles over TCP, all at the same time, on regions with the slots of
some history of turns.  Let each be apart from the others or, with or without cache, only read.  Then
whatever order the bytes take and whatever is evicted, each console that is apart has said what the
dictionary makes it say when it comes to its end, as if the others were not there.  Between any two
calls it can come to its end, if its evictions end and the loops under way find enough valid slots
to clear. -/
theorem consoles_apart (env : ServerEnv) (hmalloc : ∀ n, env.malloc n = true)
    (session : ι → Nat → TcpSession) (cap : Nat) (hcap : 0 < cap) (d : Deployment)
    (thresholdPct : Nat → UInt64) (cacheOn : ι → Bool) (around : ι → Around)
    (input : ι → List UInt8) (served : ι × Nat → Nat) (keys : List Key)
    (hdist : DistinctHashes keys) (hroom : d.Room keys) (ts : List Turn) (hts : Changes keys ts)
    (rs : Nat → Region) (hrs : Beneath d rs (d.after ts))
    (hroles : ∀ j, Apart d keys (d.after ts) cacheOn input j ∨ ∀ o ∈ typedOps (input j), o.isRead)
    (i : ι) (hi : Apart d keys (d.after ts) cacheOn input i)
    (N : Locked ι Sessions (Unit × Log Console))
    (hr : Locked.Run (consoleService env session d.header) cap thresholdPct
      (consoles d rs cacheOn around input served) N) :
    (∀ log, N.net.client i = .between (.ret ((), log)) →
      log = dictConsole d.sessionCount (around i) (dictAfter ts) (input i)) ∧
    ((∀ mn, d.Evictable mn (thresholdPct mn)) → (∀ mn, N.Settles mn) →
      ∀ m, N.net.client i = .between m →
        ∃ N', Locked.Run (consoleService env session d.header) cap thresholdPct N N' ∧
          N'.net.client i =
            .between (.ret ((), dictConsole d.sessionCount (around i) (dictAfter ts) (input i)))) := by
  classical
  have hserves := serves_after d hroom hdist ts hts
  let roles : ι → Option Domain := fun j =>
    if Apart d keys (d.after ts) cacheOn input j then some (domainOf (input j)) else none
  have hrole : ∀ j D, roles j = some D →
      Apart d keys (d.after ts) cacheOn input j ∧ D = domainOf (input j) := by
    intro j D hj
    simp only [roles, Option.ite_none_right_eq_some, Option.some.injEq] at hj
    exact ⟨hj.1, hj.2.symm⟩
  have hapart : ∀ j k D D', j ≠ k → roles j = some D → roles k = some D' →
      ∀ h, D'.changes h → ¬ D.looks h := by
    intro j k D D' hjk hj hk h
    obtain ⟨hapartj, rfl⟩ := hrole j D hj
    obtain ⟨hapartk, rfl⟩ := hrole k D' hk
    rintro ⟨o', ho', hchanges, rfl⟩ ⟨o, ho, hh⟩
    have hkey : o'.key = o.key := hdist _ (hapartk.known o' ho') _ (hapartj.known o ho) hh.symm
    rw [hapartj.alone k (Ne.symm hjk) o ho o' ho' hkey] at hchanges
    cases hchanges
  have hexists := fun j => consoleProg_exists d (cacheOn j) (around j) (input j)
  let post : ι → Unit × Log Console → Store → Prop := fun j a _ =>
    Apart d keys (d.after ts) cacheOn input j →
      a = ((), dictConsole d.sessionCount (around j) (dictAfter ts) (input j))
  have hensures : ∀ j, (consoleProg (d.client (cacheOn j)).toCluster (around j) (input j)).Ensures
      (role d.toCluster (d.after ts).seats (roles j)) (post j) (d.after ts) := by
    intro j
    by_cases hj : Apart d keys (d.after ts) cacheOn input j
    · simp only [roles, if_pos hj, role]
      have htables : (consoleProg (d.client (cacheOn j)).toCluster (around j) (input j)).Within
          (Sum.elim Call.Tables fun _ => True) :=
        consoleProg_within (P := fun _ => True) (fun key _ => tables_readKv hj.off key)
          (fun m _ => tables_mutation hj.off m) fun _ _ => trivial
      refine Prog.Ensures.limit ((hexists j).and htables) ?_
      rw [hj.off]
      exact (consoleProg_ensures hroom hdist hj.known hj.seats hserves (seated_seats _)).mono
        fun a _ ha _ => ha
    · simp only [roles, if_neg hj, role]
      have hharmless : (consoleProg (d.client (cacheOn j)).toCluster (around j)
          (input j)).Within (Sum.elim Call.Harmless fun _ => True) :=
        consoleProg_within (P := fun o => o.isRead) (fun key _ => harmless_readKv _ key)
          (fun m hm => by simp [Op.isRead] at hm) ((hroles j).resolve_left hj)
      refine Prog.Ensures.limit ((hexists j).and hharmless) ((Prog.Ensures.any _ _).mono ?_)
      exact fun _ _ _ hj' => absurd hj' hj
  obtain ⟨st, hm, hsame⟩ := hrs
  refine consoles_said hmalloc hcap ⟨st, hm⟩ (fun {N a} hr hend => ?_) hr
  obtain ⟨tr, q, hpool, hbetween⟩ := consoles_pool hmalloc hr
  obtain ⟨w, -, hq⟩ := Run.views (R := Viewed d (d.after ts).seats roles)
    (fun j c rs w hv hmay => viewed_call hapart j c rs w hv hmay) viewed_evicts hensures
    ⟨_, ⟨st, hm, hsame⟩, seated_seats _, fun j D _ a _ _ => rfl⟩ hpool
  have hlast := hq i
  simp only [hbetween i _ hend] at hlast
  exact hlast hi

/-- A history after which two keys have values. -/
def stocked : List Turn :=
  [.op true (.mutate (.write [98] [48])), .op true (.mutate (.write [97] [48]))]

/-- Texts for two consoles, each with a key of its own. -/
def ownTexts (first : Bool) : List UInt8 :=
  if first then ascii "write a 1\nread a\ndelete a\nread a\n" else ascii "update b 2\nread b\n"

/-- Two consoles are at work at the same time.  One says what it would say alone. -/
theorem consoles_apart_sample : ∃ rs N' log,
    Locked.Run (consoleService .plentiful (fun _ _ => ⟨false, 0⟩) Deployment.pair.header) 1
      (fun _ => 80) (consoles .pair rs (fun _ => false) (fun _ => .still) ownTexts fun _ => 1) N' ∧
    N'.net.client true = .between (.ret ((), log)) ∧
    printed log = ["tee-dist cn ready. type help for commands.", "td> ",
      "ok a rule=1 latency_us=0", "td> ", "value a 1", "td> ",
      "deleted a rule=1 latency_us=0", "td> ", "not_found a", "td> "] := by
  have hdist : DistinctHashes [[97], [98]] := by decide +kernel
  have hroom : Deployment.pair.Room [[97], [98]] := by decide +kernel
  have hserves := serves_after .pair hroom hdist stocked (by decide)
  have hapart : ∀ i, Apart .pair [[97], [98]] (Deployment.pair.after stocked) (fun _ => false)
      ownTexts i := by
    intro i
    have hknown : ∀ o ∈ typedOps (ownTexts i), o.key ∈ [[97], [98]] := by
      cases i <;> decide +kernel
    have hstocked : ∀ key ∈ [[97], [98]], (dictAfter stocked key).isSome := by decide
    refine ⟨rfl, hknown, fun o ho => hserves.seats (hknown o ho) (hstocked _ (hknown o ho)), ?_⟩
    cases i <;> decide +kernel
  obtain ⟨rs₁, h₁⟩ := (models_fresh (d := .pair) fun mn => ⟨fun kind => rfl, rfl⟩).op true
    (.mutate (.write [97] [48]))
  obtain ⟨rs₂, h₂⟩ := h₁.op true (.mutate (.write [98] [48]))
  obtain ⟨N', hrun, hclient⟩ := (consoles_apart .plentiful (fun _ => rfl) (fun _ _ => ⟨false, 0⟩) 1
    Nat.one_pos .pair (fun _ => 80) (fun _ => false) (fun _ => .still) ownTexts (fun _ => 1)
    [[97], [98]] hdist hroom stocked (by decide) rs₂ ⟨_, h₂, fun _ _ _ => rfl⟩
    (fun j => .inl (hapart j)) true (hapart true) _ .refl).2 pair_evictable consoles_settle _ rfl
  exact ⟨rs₂, N', _, hrun, hclient, by decide +kernel⟩

end Consoles

end TeeDist
