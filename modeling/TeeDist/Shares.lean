import TeeDist.Lib.Apportion
import TeeDist.Capacity

/-!
# Automatic slot counts

`td_resolve_mn_slots` shares the slots that explicit counts leave among the other regions, by the
weights 4:1:4.  `automatic_split_exact` says that it is the split by largest remainders
(`Lib.Apportion`): no slot is lost, each count is less than one slot off its exact share, and the
loop that hands out the slots that rounding left over serves no region twice.
-/

namespace TeeDist

open Apportion CText

instance : Fintype RegionKind where
  elems := {.prime, .cache, .backup}
  complete kind := by cases kind <;> decide

theorem sum_regionKind (f : RegionKind → Nat) :
    ∑ kind, f kind = f .prime + f .cache + f .backup := by
  show ∑ kind ∈ {.prime, .cache, .backup}, f kind = _
  rw [Finset.sum_insert (by decide), Finset.sum_pair (by decide), Nat.add_assoc]

/-- A configuration with these explicit counts.  A count that is left out is 0 before it is
resolved. -/
def Config.giving (cfg : Config) (given : RegionKind → Option UInt64) : Config :=
  { cfg with
    slots := fun kind => (given kind).getD 0
    slotsExplicit := fun kind => (given kind).isSome }

/-- This is what `td_config_load` resolves: the last count of each kind in the file is explicit. -/
theorem configLoad_giving {path : String} {text : List UInt8} {cfg : Config}
    (h : configLoad path (some text) = .ok cfg) (hmode : cfg.mode = .mn) :
    ∃ cfg₁ : Config,
      resolveMnSlots (cfg₁.giving fun kind => (slotsLines kind text).getLast?) = .ok cfg := by
  obtain ⟨cfg₀, hlines, hfinish⟩ := configLoad_eq_ok.mp h
  obtain ⟨cfg₁, hcfg₁, _, _, hresolved⟩ := Config.finish_ok hfinish
  refine ⟨cfg₁, ?_⟩
  have hgiving : cfg₁.giving (fun kind => (slotsLines kind text).getLast?) = cfg₁ := by
    have hlast (kind : RegionKind) := Config.applyLines_slots kind _ hlines
    have hcounts : (fun kind => (slotsLines kind text).getLast?.getD 0) = cfg₁.slots := by
      rw [hcfg₁]
      exact funext fun kind => (hlast kind).1.symm
    have hgiven : (fun kind => (slotsLines kind text).getLast?.isSome) = cfg₁.slotsExplicit := by
      rw [hcfg₁]
      funext kind
      rw [(hlast kind).2]
      cases hs : slotsLines kind text <;> simp_all [slotsLines, Config.initDefaults]
    rw [Config.giving, hcounts, hgiven]
  rw [hgiving]
  exact hresolved hmode

/-- The number of slots that fit into a memory. -/
def memorySlots (mnMemorySize : UInt64) : Nat := (mnMemorySize.toNat - headerBytes) / slotBytes

/-- The regions whose counts are left out. -/
def automatic (given : RegionKind → Option UInt64) : Finset RegionKind :=
  Finset.univ.filter fun kind => (given kind).isNone

/-- The weight of a region, as a number. -/
def weightOf (kind : RegionKind) : Nat := kind.weight.toNat

/-- The slots that are left for them. -/
def slotsLeft (mnMemorySize : UInt64) (given : RegionKind → Option UInt64) : Nat :=
  memorySlots mnMemorySize - totalSlots fun kind => (given kind).getD 0

/-- The last loop of `td_allocate_weighted_slots`, for at most `fuel` turns. -/
def topUp (cfg : Config) (remaining : UInt64) (fuel : Nat) : RegionKind → Bucket :=
  distribute remaining fuel (bucketSum (·.slots) (sharedBuckets cfg remaining))
    (sharedBuckets cfg remaining)

/-! ## The best bucket -/

section Best

variable {buckets : RegionKind → Bucket}

/-- A bucket is served before another one. -/
def Beats (buckets : RegionKind → Bucket) (kind kind' : RegionKind) : Prop :=
  (buckets kind').remainder < (buckets kind).remainder ∨
    ((buckets kind).remainder = (buckets kind').remainder ∧
      (buckets kind).priority < (buckets kind').priority)

theorem Beats.trans {a b c : RegionKind} (hab : Beats buckets a b) (hbc : Beats buckets b c) :
    Beats buckets a c := by
  unfold Beats at *
  simp only [UInt64.lt_iff_toNat_lt, ← UInt64.toNat_inj] at *
  omega

/-- The best bucket so far, after some of the kinds. -/
def BestOf (buckets : RegionKind → Bucket) (kinds : List RegionKind) : Option RegionKind → Prop
  | none => ∀ kind ∈ kinds, (buckets kind).isExplicit = true
  | some best => (buckets best).isExplicit = false ∧
      ∀ kind ∈ kinds, (buckets kind).isExplicit = false → kind ≠ best → Beats buckets best kind

theorem BestOf.step {kinds : List RegionKind} {best : Option RegionKind}
    (hpriority : ∀ kind kind', (buckets kind).priority = (buckets kind').priority → kind = kind')
    (h : BestOf buckets kinds best) (kind : RegionKind) :
    BestOf buckets (kind :: kinds) (betterBucket buckets best kind) := by
  unfold betterBucket
  cases hkind : (buckets kind).isExplicit with
  | true =>
      rw [if_pos rfl]
      cases best with
      | none => exact List.forall_mem_cons.mpr ⟨hkind, h⟩
      | some b =>
          refine ⟨h.1, List.forall_mem_cons.mpr ⟨fun hfree => ?_, h.2⟩⟩
          rw [hkind] at hfree
          cases hfree
  | false =>
      rw [if_neg Bool.false_ne_true]
      cases best with
      | none =>
          refine ⟨hkind, List.forall_mem_cons.mpr ⟨fun _ hne => absurd rfl hne, ?_⟩⟩
          intro k hk hfree
          rw [h k hk] at hfree
          cases hfree
      | some b =>
          dsimp only
          split
          next hbeats =>
            refine ⟨hkind, List.forall_mem_cons.mpr ⟨fun _ hne => absurd rfl hne, ?_⟩⟩
            intro k hk hfree hne
            by_cases hkb : k = b
            · rw [hkb]
              exact hbeats
            · exact Beats.trans hbeats (h.2 k hk hfree hkb)
          next hbeats =>
            refine ⟨h.1, List.forall_mem_cons.mpr ⟨fun _ hne => ?_, h.2⟩⟩
            have hprio := mt (hpriority kind b) hne
            unfold Beats
            simp only [gt_iff_lt, UInt64.lt_iff_toNat_lt, ← UInt64.toNat_inj] at *
            omega

/-- What the search for the best bucket finds. -/
theorem bestBucket_bestOf
    (hpriority : ∀ kind kind', (buckets kind).priority = (buckets kind').priority → kind = kind') :
    BestOf buckets [.backup, .cache, .prime] (bestBucket buckets) := by
  have hnone : BestOf buckets [] none := fun kind hkind => by cases hkind
  exact ((hnone.step hpriority .prime).step hpriority .cache).step hpriority .backup

end Best

/-! ## The loop -/

section Loop

variable {cfg : Config} {given : RegionKind → Option UInt64} {remaining : UInt64}

@[simp] theorem mem_automatic {kind : RegionKind} : kind ∈ automatic given ↔ given kind = none := by
  simp [automatic]

theorem sum_automatic (f : RegionKind → Nat) :
    ∑ kind ∈ automatic given, f kind = ∑ kind, if (given kind).isNone then f kind else 0 :=
  Finset.sum_filter _ _

/-- The buckets when the kinds `served` have got one slot more. -/
def servedBuckets (cfg : Config) (remaining : UInt64) (served : Finset RegionKind)
    (kind : RegionKind) : Bucket :=
  if kind ∈ served then
    { sharedBuckets cfg remaining kind with
      slots := (sharedBuckets cfg remaining kind).slots + 1, remainder := 0 }
  else sharedBuckets cfg remaining kind

theorem servedBuckets_empty : servedBuckets cfg remaining ∅ = sharedBuckets cfg remaining := rfl

/-- One turn of the loop. -/
theorem servedBuckets_insert {served : Finset RegionKind} {best : RegionKind}
    (h : best ∉ served) :
    Function.update (servedBuckets cfg remaining served) best
        { servedBuckets cfg remaining served best with
          slots := (servedBuckets cfg remaining served best).slots + 1, remainder := 0 } =
      servedBuckets cfg remaining (insert best served) := by
  funext kind
  by_cases hkind : kind = best
  · subst hkind
    simp [servedBuckets, h]
  · simp [servedBuckets, hkind]

theorem servedBuckets_keeps (served : Finset RegionKind) (kind : RegionKind) :
    (servedBuckets cfg remaining served kind).isExplicit = cfg.slotsExplicit kind ∧
      (servedBuckets cfg remaining served kind).priority = kind.number := by
  unfold servedBuckets sharedBuckets
  cases h : cfg.slotsExplicit kind <;> split <;> simp

/-- The sum of the weights the source computes. -/
theorem freeWeight_toNat (given : RegionKind → Option UInt64) :
    (freeWeight fun kind => (given kind).isSome).toNat = weightSum (automatic given) weightOf := by
  cases hp : given .prime <;> cases hc : given .cache <;> cases hb : given .backup <;>
    simp [weightSum, sum_automatic, sum_regionKind, freeWeight, RegionKind.all, RegionKind.weight,
      weightOf, hp, hc, hb]

variable (hsmall : remaining.toNat < 2 ^ 60)
include hsmall

/-- No product overflows. -/
theorem product_toNat (kind : RegionKind) :
    (remaining * kind.weight).toNat = remaining.toNat * weightOf kind := by
  rw [UInt64.toNat_mul, weightOf]
  refine Nat.mod_eq_of_lt ?_
  have hweight : kind.weight.toNat ≤ 4 := by cases kind <;> decide
  calc remaining.toNat * kind.weight.toNat ≤ remaining.toNat * 4 := Nat.mul_le_mul_left _ hweight
    _ < 2 ^ 64 := by omega

theorem sharedBuckets_automatic (cfg : Config) {kind : RegionKind} (h : given kind = none) :
    (sharedBuckets (cfg.giving given) remaining kind).isExplicit = false ∧
      (sharedBuckets (cfg.giving given) remaining kind).slots.toNat =
        share (automatic given) weightOf remaining.toNat kind ∧
      (sharedBuckets (cfg.giving given) remaining kind).remainder.toNat =
        leftover (automatic given) weightOf remaining.toNat kind := by
  have hexplicit : (cfg.giving given).slotsExplicit kind = false := by
    simp [Config.giving, h]
  rw [sharedBuckets, if_neg (by simp [hexplicit])]
  refine ⟨rfl, ?_, ?_⟩
  · rw [UInt64.toNat_div, product_toNat hsmall, share, ← freeWeight_toNat]
    rfl
  · rw [UInt64.toNat_mod, product_toNat hsmall, leftover, ← freeWeight_toNat]
    rfl

/-- The buckets of two kinds that were not served compare by what rounding took from them. -/
theorem beats_automatic {served : Finset RegionKind} {kind kind' : RegionKind}
    (h : given kind = none) (hnot : kind ∉ served) (h' : given kind' = none) (hnot' : kind' ∉ served)
    (hbeats : Beats (servedBuckets (cfg.giving given) remaining served) kind kind') :
    leftover (automatic given) weightOf remaining.toNat kind' <
        leftover (automatic given) weightOf remaining.toNat kind ∨
      (leftover (automatic given) weightOf remaining.toNat kind' =
          leftover (automatic given) weightOf remaining.toNat kind ∧
        kind.number < kind'.number) := by
  unfold Beats at hbeats
  rw [(servedBuckets_keeps ..).2, (servedBuckets_keeps ..).2, servedBuckets, servedBuckets,
    if_neg hnot, if_neg hnot', UInt64.lt_iff_toNat_lt, ← UInt64.toNat_inj,
    (sharedBuckets_automatic hsmall cfg h).2.2, (sharedBuckets_automatic hsmall cfg h').2.2] at hbeats
  omega

omit hsmall in
theorem servedBuckets_free (served : Finset RegionKind) (kind : RegionKind) :
    (servedBuckets (cfg.giving given) remaining served kind).isExplicit = false ↔
      given kind = none := by
  rw [(servedBuckets_keeps ..).1]
  simp [Config.giving]

omit hsmall in
/-- The best bucket comes before all other regions whose counts are left out. -/
theorem bestBucket_served (cfg : Config) (served : Finset RegionKind) {kind : RegionKind}
    (hkind : given kind = none) :
    ∃ best, bestBucket (servedBuckets (cfg.giving given) remaining served) = some best ∧
      given best = none ∧ ∀ kind, given kind = none → kind ≠ best →
        Beats (servedBuckets (cfg.giving given) remaining served) best kind := by
  have hpriority : ∀ kind kind',
      (servedBuckets (cfg.giving given) remaining served kind).priority =
        (servedBuckets (cfg.giving given) remaining served kind').priority → kind = kind' := by
    intro kind kind' h
    rw [(servedBuckets_keeps ..).2, (servedBuckets_keeps ..).2] at h
    revert h
    cases kind <;> cases kind' <;> decide
  have hall : ∀ kind : RegionKind, kind ∈ [RegionKind.backup, .cache, .prime] := by
    intro kind
    cases kind <;> decide
  have hbest := bestBucket_bestOf hpriority
  cases hb : bestBucket (servedBuckets (cfg.giving given) remaining served) with
  | none =>
      rw [hb] at hbest
      have hexplicit := hbest kind (hall kind)
      rw [(servedBuckets_free served kind).mpr hkind] at hexplicit
      cases hexplicit
  | some best =>
      rw [hb] at hbest
      refine ⟨best, rfl, (servedBuckets_free served best).mp hbest.1, fun kind hkind hne => ?_⟩
      exact hbest.2 kind (hall kind) ((servedBuckets_free served kind).mpr hkind) hne

/-- As long as there are slots left over, a region that was not served gets the next one. -/
theorem bestBucket_next (cfg : Config) (hpos : 0 < weightSum (automatic given) weightOf)
    {served : Finset RegionKind}
    (hserved : Served (automatic given) weightOf remaining.toNat RegionKind.number served)
    (hless : served.card < missing (automatic given) weightOf remaining.toNat) :
    ∃ best, bestBucket (servedBuckets (cfg.giving given) remaining served) = some best ∧
      best ∉ served ∧
      Served (automatic given) weightOf remaining.toNat RegionKind.number (insert best served) := by
  obtain ⟨i, hi, hnot, hrem⟩ := exists_leftover hpos hserved.subset hless
  rw [mem_automatic] at hi
  obtain ⟨best, hbest, hauto, hbeats⟩ := bestBucket_served cfg served hi
  -- a region that was served has no remainder left, so `i` would come first
  have hbestNot : best ∉ served := by
    intro hmem
    have hne : i ≠ best := fun h => hnot (h ▸ hmem)
    have hzero : (servedBuckets (cfg.giving given) remaining served best).remainder = 0 := by
      rw [servedBuckets, if_pos hmem]
    have hrest : (servedBuckets (cfg.giving given) remaining served i).remainder.toNat =
        leftover (automatic given) weightOf remaining.toNat i := by
      rw [servedBuckets, if_neg hnot]
      exact (sharedBuckets_automatic hsmall cfg hi).2.2
    obtain hlt | ⟨heq, _⟩ := hbeats i hi hne
    · rw [hzero, UInt64.lt_iff_toNat_lt] at hlt
      exact absurd hlt (Nat.not_lt_zero _)
    · rw [hzero] at heq
      rw [← hrest, ← heq] at hrem
      exact absurd hrem (Nat.lt_irrefl 0)
  refine ⟨best, hbest, hbestNot, hserved.insert (mem_automatic.mpr hauto) ?_ ?_⟩
  · by_cases heq : i = best
    · exact heq ▸ hrem
    · have := beats_automatic hsmall hauto hbestNot hi hnot (hbeats i hi heq)
      omega
  · intro j hj hjnot hne
    rw [mem_automatic] at hj
    exact beats_automatic hsmall hauto hbestNot hj hjnot (hbeats j hj hne)

/-- The loop serves as many regions as there are slots left over, and ends. -/
theorem distribute_serves (cfg : Config) (hpos : 0 < weightSum (automatic given) weightOf) :
    ∀ (turns : Nat) {served : Finset RegionKind} {allocated : UInt64},
      Served (automatic given) weightOf remaining.toNat RegionKind.number served →
      allocated.toNat = ∑ kind ∈ automatic given,
        share (automatic given) weightOf remaining.toNat kind + served.card →
      missing (automatic given) weightOf remaining.toNat = served.card + turns →
      ∃ extra, Served (automatic given) weightOf remaining.toNat RegionKind.number extra ∧
        extra.card = missing (automatic given) weightOf remaining.toNat ∧
        ∀ fuel, turns ≤ fuel →
          distribute remaining fuel allocated (servedBuckets (cfg.giving given) remaining served) =
            servedBuckets (cfg.giving given) remaining extra := by
  intro turns
  have hunits := sum_share_add_missing hpos remaining.toNat
  induction turns with
  | zero =>
      intro served allocated hserved hallocated hmissing
      refine ⟨served, hserved, by omega, fun fuel _ => ?_⟩
      have hdone : ¬ allocated < remaining := by
        rw [UInt64.lt_iff_toNat_lt]
        omega
      cases fuel with
      | zero => rfl
      | succ fuel => rw [distribute, if_neg hdone]
  | succ turns ih =>
      intro served allocated hserved hallocated hmissing
      have hlt : allocated.toNat < remaining.toNat := by omega
      obtain ⟨best, hbest, hnot, hnext⟩ := bestBucket_next hsmall cfg hpos hserved (by omega)
      have hcard := Finset.card_insert_of_notMem hnot
      have hadd : (allocated + 1).toNat = allocated.toNat + 1 := by
        rw [UInt64.toNat_add, UInt64.toNat_one, Nat.mod_eq_of_lt (by omega)]
      obtain ⟨extra, hextra, hall, hloop⟩ := ih hnext
        (show (allocated + 1).toNat = _ by omega) (by omega)
      refine ⟨extra, hextra, hall, fun fuel hfuel => ?_⟩
      cases fuel with
      | zero => cases hfuel
      | succ fuel =>
          rw [distribute, if_pos (UInt64.lt_iff_toNat_lt.mpr hlt)]
          simp only [hbest]
          rw [servedBuckets_insert hnot]
          exact hloop fuel (by omega)

omit hsmall in
theorem weightSum_pos : 0 < weightSum (automatic given) weightOf ↔ ∃ kind, given kind = none := by
  have hweight : ∀ kind, 0 < weightOf kind := fun kind => by cases kind <;> decide
  constructor
  · intro hpos
    obtain ⟨kind, hkind, _⟩ := Finset.exists_ne_zero_of_sum_ne_zero hpos.ne'
    exact ⟨kind, mem_automatic.mp hkind⟩
  · rintro ⟨kind, hkind⟩
    exact (hweight kind).trans_le
      (Finset.single_le_sum (fun _ _ => Nat.zero_le _) (mem_automatic.mpr hkind))

/-- What is allocated before the loop. -/
theorem allocated_toNat (cfg : Config) (given : RegionKind → Option UInt64) :
    (bucketSum (·.slots) (sharedBuckets (cfg.giving given) remaining)).toNat =
      ∑ kind ∈ automatic given, share (automatic given) weightOf remaining.toNat kind := by
  have hfree : freeSlots (sharedBuckets (cfg.giving given) remaining) =
      ∑ kind ∈ automatic given, share (automatic given) weightOf remaining.toNat kind := by
    have hkind : ∀ kind, (if (sharedBuckets (cfg.giving given) remaining kind).isExplicit then 0
          else (sharedBuckets (cfg.giving given) remaining kind).slots.toNat) =
        if (given kind).isNone then share (automatic given) weightOf remaining.toNat kind else 0 := by
      intro kind
      cases h : given kind with
      | none =>
          obtain ⟨hexplicit, hslots, _⟩ := sharedBuckets_automatic hsmall cfg h
          simp [hexplicit, hslots]
      | some count => simp [sharedBuckets, Config.giving, h]
    rw [sum_automatic, sum_regionKind, ← hkind, ← hkind, ← hkind]
    simp [freeSlots, RegionKind.all, Nat.add_assoc]
  rw [bucketSum_slots, hfree]
  exact (freeSlots_shared hsmall).trans_lt remaining.toNat_lt

omit hsmall in
/-- The loop does nothing without regions to serve, or without slots. -/
theorem topUp_idle (cfg : Config) (h : (¬ ∃ kind, given kind = none) ∨ remaining = 0) (fuel : Nat) :
    topUp (cfg.giving given) remaining fuel = sharedBuckets (cfg.giving given) remaining := by
  rw [topUp]
  cases fuel with
  | zero => rfl
  | succ fuel =>
      rw [distribute]
      split
      next hlt =>
        cases hbest : bestBucket (sharedBuckets (cfg.giving given) remaining) with
        | none => rfl
        | some best =>
            obtain hall | rfl := h
            · have hfree := bestBucket_free hbest
              cases hgiven : given best with
              | none => exact absurd ⟨best, hgiven⟩ hall
              | some count => simp [sharedBuckets, Config.giving, hgiven] at hfree
            · exact absurd hlt UInt64.not_lt_zero
      next => rfl

/-- The loop ends, and says which regions it serves. -/
theorem topUp_serves (cfg : Config) (given : RegionKind → Option UInt64) :
    ∃ extra, Served (automatic given) weightOf remaining.toNat RegionKind.number extra ∧
      ((∃ kind, given kind = none) →
        extra.card = missing (automatic given) weightOf remaining.toNat) ∧
      ∀ fuel, extra.card ≤ fuel →
        topUp (cfg.giving given) remaining fuel = servedBuckets (cfg.giving given) remaining extra := by
  by_cases hpos : 0 < weightSum (automatic given) weightOf
  · obtain ⟨extra, hextra, hcard, hloop⟩ := distribute_serves hsmall cfg hpos
      (missing (automatic given) weightOf remaining.toNat) (Served.empty _)
      (allocated_toNat hsmall cfg given) (Nat.zero_add _).symm
    exact ⟨extra, hextra, fun _ => hcard, fun fuel hfuel => hloop fuel (hcard ▸ hfuel)⟩
  · rw [weightSum_pos] at hpos
    refine ⟨∅, Served.empty _, fun h => absurd h hpos, fun fuel _ => ?_⟩
    rw [servedBuckets_empty]
    exact topUp_idle cfg (.inl hpos) fuel

/-- The loop takes two turns at most, and no more than there are slots left over. -/
theorem card_extra (cfg : Config) {extra : Finset RegionKind}
    (hserved : Served (automatic given) weightOf remaining.toNat RegionKind.number extra)
    (hcard : (∃ kind, given kind = none) →
      extra.card = missing (automatic given) weightOf remaining.toNat) :
    extra.card ≤ 2 ∧ extra.card ≤
      (remaining - bucketSum (·.slots) (sharedBuckets (cfg.giving given) remaining)).toNat := by
  by_cases hauto : ∃ kind, given kind = none
  · have hpos := weightSum_pos.mpr hauto
    have hunits := sum_share_add_missing hpos remaining.toNat
    have hallocated := allocated_toNat hsmall cfg given
    have hle : bucketSum (·.slots) (sharedBuckets (cfg.giving given) remaining) ≤ remaining := by
      rw [UInt64.le_iff_toNat_le]
      omega
    have hless := missing_lt_card hpos remaining.toNat
    have hthree : (automatic given).card ≤ 3 := Finset.card_le_univ _
    rw [hcard hauto, UInt64.toNat_sub_of_le _ _ hle]
    omega
  · have hnone : extra = ∅ := by
      rw [Finset.eq_empty_iff_forall_notMem]
      exact fun kind hkind => hauto ⟨kind, mem_automatic.mp (hserved.subset hkind)⟩
    rw [hnone]
    exact ⟨Nat.zero_le _, Nat.zero_le _⟩

omit hsmall in
/-- `td_allocate_weighted_slots` leaves what its loop leaves. -/
theorem allocateWeightedSlots_topUp (cfg : Config) (given : RegionKind → Option UInt64)
    (remaining : UInt64) :
    (allocateWeightedSlots (cfg.giving given) remaining).slots = fun kind =>
      (topUp (cfg.giving given) remaining
        (remaining - bucketSum (·.slots) (sharedBuckets (cfg.giving given) remaining)).toNat
        kind).slots := by
  rw [allocateWeightedSlots_slots]
  split
  next hearly =>
    have hidle : (¬ ∃ kind, given kind = none) ∨ remaining = 0 := by
      refine hearly.imp_left fun hweight => ?_
      rw [← weightSum_pos, ← freeWeight_toNat]
      show ¬ 0 < (freeWeight (cfg.giving given).slotsExplicit).toNat
      rw [hweight]
      exact Nat.lt_irrefl 0
    rw [topUp_idle cfg hidle]
    funext kind
    cases hgiven : given kind with
    | none =>
        obtain hall | rfl := hidle
        · exact absurd ⟨kind, hgiven⟩ hall
        · simp [mapBuckets, sharedBuckets, Config.giving, hgiven]
    | some count => simp [mapBuckets, sharedBuckets, Config.giving, hgiven]
  next => rfl

/-- The counts the loop leaves. -/
theorem servedBuckets_slots (cfg : Config) {extra : Finset RegionKind}
    (hextra : extra ⊆ automatic given) (kind : RegionKind) :
    (∀ count, given kind = some count →
        (servedBuckets (cfg.giving given) remaining extra kind).slots = count) ∧
      (given kind = none → (servedBuckets (cfg.giving given) remaining extra kind).slots.toNat =
        share (automatic given) weightOf remaining.toNat kind + if kind ∈ extra then 1 else 0) := by
  constructor
  · intro count hgiven
    have hnot : kind ∉ extra := by
      intro hmem
      rw [mem_automatic.mp (hextra hmem)] at hgiven
      cases hgiven
    rw [servedBuckets, if_neg hnot]
    simp [sharedBuckets, Config.giving, hgiven]
  · intro hgiven
    have hslots := (sharedBuckets_automatic hsmall cfg hgiven).2.1
    have hle := share_le (weightSum_pos.mpr ⟨kind, hgiven⟩) remaining.toNat
      (mem_automatic.mpr hgiven)
    rw [servedBuckets]
    split
    · rw [UInt64.toNat_add, UInt64.toNat_one, hslots, Nat.mod_eq_of_lt (by omega)]
    · exact hslots

end Loop

/-! ## Resolved counts -/

/-- The last checks of `td_resolve_mn_slots`. -/
def Config.checkCounts (cfg : Config) : Except String Config :=
  if cfg.slots .prime = 0 then
    .error "resolved prime_slots is zero; increase mn_memory_size or set prime_slots"
  else if cfg.replication > 1 ∧ cfg.slots .backup = 0 then
    .error "resolved backup_slots is zero; increase mn_memory_size or set backup_slots"
  else .ok cfg

/-- The counts `resolved` are the split by largest remainders, the regions `extra` having got one
of the slots that rounding left over. -/
structure ExactSplit (mnMemorySize : UInt64) (given : RegionKind → Option UInt64)
    (resolved : RegionKind → UInt64) (extra : Finset RegionKind) : Prop where
  /-- Explicit counts are unchanged. -/
  unchanged : ∀ kind count, given kind = some count → resolved kind = count
  /-- No slot is lost. -/
  total : (∃ kind, given kind = none) →
    (resolved .prime).toNat + (resolved .cache).toNat + (resolved .backup).toNat =
      memorySlots mnMemorySize
  /-- An automatic count is less than one slot off its share. -/
  near : ∀ kind, given kind = none →
    |((resolved kind).toNat : ℚ) - slotsLeft mnMemorySize given * weightOf kind /
      weightSum (automatic given) weightOf| < 1
  /-- It is the share rounded down, and one more at most. -/
  rounded : ∀ kind, given kind = none → (resolved kind).toNat =
    slotsLeft mnMemorySize given * weightOf kind / weightSum (automatic given) weightOf +
      if kind ∈ extra then 1 else 0
  /-- The regions with the largest remainders come first. -/
  first : Served (automatic given) weightOf (slotsLeft mnMemorySize given) RegionKind.number extra

section Resolved

variable {cfg : Config} {given : RegionKind → Option UInt64}

/-- The sum of the slot counts, whether they are automatic or not. -/
theorem totalSlots_eq (slots : RegionKind → UInt64) :
    totalSlots slots = ∑ kind, (slots kind).toNat := by
  rw [sum_regionKind]
  simp [totalSlots, RegionKind.all, Nat.add_assoc]

/-- What is left of the memory, as the source computes it. -/
theorem remaining_toNat (hcapacity : 1 ≤ memorySlots cfg.mnMemorySize)
    (hgiven : (totalSlots fun kind => (given kind).getD 0) ≤ memorySlots cfg.mnMemorySize) :
    headerBytes < cfg.mnMemorySize.toNat ∧
      (slotCapacity cfg.mnMemorySize).toNat = memorySlots cfg.mnMemorySize ∧
      ((cfg.giving given).slots .prime + (cfg.giving given).slots .cache +
        (cfg.giving given).slots .backup).toNat = totalSlots fun kind => (given kind).getD 0 := by
  have hheader : headerBytes < cfg.mnMemorySize.toNat := by
    by_contra hle
    rw [memorySlots, Nat.sub_eq_zero_of_le (Nat.not_lt.mp hle)] at hcapacity
    exact absurd hcapacity (by decide)
  have hmemory : memorySlots cfg.mnMemorySize < 2 ^ 64 :=
    (Nat.div_le_self _ _).trans_lt ((Nat.sub_le _ _).trans_lt cfg.mnMemorySize.toNat_lt)
  refine ⟨hheader, slotCapacity_toNat hheader, ?_⟩
  rw [manualSlots_toNat]
  exact Nat.mod_eq_of_lt (hgiven.trans_lt hmemory)

/-- The automatic counts add up to the slots that are left. -/
theorem sum_resolved {extra : Finset RegionKind} {resolved : RegionKind → UInt64} {units : Nat}
    (hauto : ∃ kind, given kind = none) (hextra : extra ⊆ automatic given)
    (hcard : extra.card = missing (automatic given) weightOf units)
    (hkeeps : ∀ kind count, given kind = some count → resolved kind = count)
    (hrounded : ∀ kind, given kind = none → (resolved kind).toNat =
      share (automatic given) weightOf units kind + if kind ∈ extra then 1 else 0) :
    totalSlots resolved = (totalSlots fun kind => (given kind).getD 0) + units := by
  have hkind : ∀ kind, (resolved kind).toNat = ((given kind).getD 0).toNat +
      if (given kind).isNone then
        share (automatic given) weightOf units kind + if kind ∈ extra then 1 else 0
      else 0 := by
    intro kind
    cases hgiven : given kind with
    | none => simp [hrounded kind hgiven]
    | some count => simp [hkeeps kind count hgiven]
  have hserved : ∑ kind ∈ automatic given, (if kind ∈ extra then 1 else 0) = extra.card := by
    rw [Finset.sum_ite_mem, Finset.inter_eq_right.mpr hextra, Finset.card_eq_sum_ones]
  rw [totalSlots_eq, totalSlots_eq, Finset.sum_congr rfl fun kind _ => hkind kind,
    Finset.sum_add_distrib, ← sum_automatic, Finset.sum_add_distrib, hserved, hcard,
    sum_share_add_missing (weightSum_pos.mpr hauto)]

/-- `td_resolve_mn_slots` when the explicit counts fit. -/
theorem resolveMnSlots_fitting (hcapacity : 1 ≤ memorySlots cfg.mnMemorySize)
    (hgiven : (totalSlots fun kind => (given kind).getD 0) ≤ memorySlots cfg.mnMemorySize) :
    resolveMnSlots (cfg.giving given) = (allocateWeightedSlots (cfg.giving given)
      (UInt64.ofNat (slotsLeft cfg.mnMemorySize given))).checkCounts := by
  obtain ⟨hheader, hcap, hmanual⟩ := remaining_toNat hcapacity hgiven
  have hle : (cfg.giving given).slots .prime + (cfg.giving given).slots .cache +
      (cfg.giving given).slots .backup ≤ slotCapacity cfg.mnMemorySize := by
    rw [UInt64.le_iff_toNat_le, hcap, hmanual]
    exact hgiven
  have hremaining : slotCapacity cfg.mnMemorySize - ((cfg.giving given).slots .prime +
      (cfg.giving given).slots .cache + (cfg.giving given).slots .backup) =
      UInt64.ofNat (slotsLeft cfg.mnMemorySize given) := by
    rw [slotsLeft, ← hcap, ← hmanual, ← UInt64.toNat_sub_of_le _ _ hle, UInt64.ofNat_toNat]
  have hsize : ¬ (cfg.giving given).mnMemorySize ≤ UInt64.ofNat headerBytes :=
    UInt64.not_le.mpr hheader
  have hroom : ¬ slotCapacity cfg.mnMemorySize = 0 := by
    intro hzero
    rw [hzero] at hcap
    rw [← hcap] at hcapacity
    exact absurd hcapacity (by decide)
  unfold resolveMnSlots
  simp only []
  rw [if_neg hsize]
  show (if slotCapacity cfg.mnMemorySize = 0 then _ else
    if _ > slotCapacity cfg.mnMemorySize then _ else _) = _
  rw [if_neg hroom, if_neg (UInt64.not_lt.mpr hle), ← hremaining]
  rfl

/-- The counts that the loop leaves are the split by largest remainders. -/
theorem exactSplit_served {remaining : UInt64} {extra : Finset RegionKind}
    (hgiven : (totalSlots fun kind => (given kind).getD 0) ≤ memorySlots cfg.mnMemorySize)
    (hunits : remaining.toNat = slotsLeft cfg.mnMemorySize given)
    (hsmall : remaining.toNat < 2 ^ 60)
    (hserved : Served (automatic given) weightOf remaining.toNat RegionKind.number extra)
    (hcard : (∃ kind, given kind = none) →
      extra.card = missing (automatic given) weightOf remaining.toNat) :
    ExactSplit cfg.mnMemorySize given
      (fun kind => (servedBuckets (cfg.giving given) remaining extra kind).slots) extra := by
  have hslots (kind : RegionKind) := servedBuckets_slots hsmall cfg hserved.subset kind
  rw [hunits] at hserved hcard hslots
  constructor
  case unchanged => exact fun kind => (hslots kind).1
  case rounded => exact fun kind => (hslots kind).2
  case first => exact hserved
  case total =>
    intro hauto
    have htotal := sum_resolved hauto hserved.subset (hcard hauto) (fun kind => (hslots kind).1)
      fun kind => (hslots kind).2
    rw [totalSlots_eq, sum_regionKind] at htotal
    rw [htotal, slotsLeft]
    omega
  case near =>
    intro kind hkind
    refine abs_share_sub_lt (weightSum_pos.mpr ⟨kind, hkind⟩) ?_
    have hcount := (hslots kind).2 hkind
    by_cases hmem : kind ∈ extra
    · exact .inr ⟨by rw [hcount, if_pos hmem], hserved.pos kind hmem⟩
    · exact .inl (by rw [hcount, if_neg hmem, Nat.add_zero])

end Resolved

/-- The slots that explicit counts leave are shared among the other regions by the weights 4:1:4
and largest remainders.  The products do not overflow, and the loop ends after two turns at most. -/
theorem automatic_split_exact (cfg : Config) (given : RegionKind → Option UInt64)
    (hcapacity : 1 ≤ memorySlots cfg.mnMemorySize)
    (hgiven : (totalSlots fun kind => (given kind).getD 0) ≤ memorySlots cfg.mnMemorySize) :
    ∃ (resolved : RegionKind → UInt64) (extra : Finset RegionKind),
      resolveMnSlots (cfg.giving given) =
          Config.checkCounts { cfg.giving given with slots := resolved } ∧
        ExactSplit cfg.mnMemorySize given resolved extra ∧
        (∀ kind, slotsLeft cfg.mnMemorySize given * weightOf kind < 2 ^ 64) ∧
        extra.card ≤ 2 ∧
        ∀ fuel, extra.card ≤ fuel → ∀ kind,
          (topUp (cfg.giving given) (UInt64.ofNat (slotsLeft cfg.mnMemorySize given)) fuel kind).slots =
            resolved kind := by
  have hleft : slotsLeft cfg.mnMemorySize given < 2 ^ 60 := by
    have hmem := cfg.mnMemorySize.toNat_lt
    simp only [slotsLeft, memorySlots, slotBytes, headerBytes]
    omega
  have hunits : (UInt64.ofNat (slotsLeft cfg.mnMemorySize given)).toNat =
      slotsLeft cfg.mnMemorySize given :=
    UInt64.toNat_ofNat_of_lt' (hleft.trans (by decide))
  have hresolves := resolveMnSlots_fitting hcapacity hgiven
  generalize UInt64.ofNat (slotsLeft cfg.mnMemorySize given) = remaining at hunits hresolves ⊢
  have hsmall : remaining.toNat < 2 ^ 60 := hunits ▸ hleft
  obtain ⟨extra, hserved, hcard, hloop⟩ := topUp_serves hsmall cfg given
  obtain ⟨htwo, hfuel⟩ := card_extra hsmall cfg hserved hcard
  refine ⟨fun kind => (servedBuckets (cfg.giving given) remaining extra kind).slots, extra, ?_,
    exactSplit_served hgiven hunits hsmall hserved hcard, ?_, htwo, ?_⟩
  · have hleaves := allocateWeightedSlots_topUp cfg given remaining
    rw [hloop _ hfuel] at hleaves
    rw [hresolves, ← hleaves]
    rfl
  · intro kind
    have hweight : weightOf kind ≤ 4 := by cases kind <;> decide
    calc slotsLeft cfg.mnMemorySize given * weightOf kind
        ≤ slotsLeft cfg.mnMemorySize given * 4 := Nat.mul_le_mul_left _ hweight
      _ < 2 ^ 64 := by omega
  · intro fuel hmore kind
    rw [hloop fuel hmore]

/-- In 64 KiB there is room for 190 slots.  Rounding leaves one of them over, and of the two
regions with the largest remainder the prime region gets it. -/
theorem automatic_split_exact_untouched :
    memorySlots 65536 = 190 ∧ ∃ (resolved : RegionKind → UInt64) (extra : Finset RegionKind),
      ExactSplit 65536 (fun _ => none) resolved extra ∧
        resolved .prime = 85 ∧ resolved .cache = 21 ∧ resolved .backup = 84 := by
  obtain ⟨resolved, extra, _, hsplit, _, htwo, hloop⟩ := automatic_split_exact
    { Config.initDefaults with mnMemorySize := 65536 } (fun _ => none) (by decide) (by decide)
  refine ⟨by decide, resolved, extra, hsplit, ?_⟩
  rw [← hloop 2 htwo .prime, ← hloop 2 htwo .cache, ← hloop 2 htwo .backup]
  decide

end TeeDist
