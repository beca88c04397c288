import TeeDist.Config
import TeeDist.Refinement

/-!
# Configurations that fit their memory

`td_resolve_mn_slots` adds the three slot counts of a file as `size_t` before it compares
them with the capacity.  Counts whose sum wraps around are accepted although their slots lie
far outside of the memory (`config_overcommitted`).  `config_fits_iff` says that this is the
only way to get such a configuration: automatic counts never take more than what is left.
-/

namespace TeeDist

open CText

/-! ## The counts of a file -/

/-- The slot count of a kind that a line gives. -/
def slotsLine (kind : RegionKind) (line : List UInt8) : Option UInt64 :=
  match parseLine line with
  | .entry key value =>
      if key = ascii kind.slotsKey ∧ value ≠ [] then some (strtoull value).value else none
  | _ => none

/-- The slot counts of a kind in a file, in order. -/
def slotsLines (kind : RegionKind) (text : List UInt8) : List UInt64 :=
  (fgetsLines 512 text).filterMap (slotsLine kind)

/-- The number of slots of all kinds. -/
def totalSlots (slots : RegionKind → UInt64) : Nat :=
  (RegionKind.all.map fun kind => (slots kind).toNat).sum

/-- The sum of the three slot counts of a file.  The last line of a key counts. -/
def explicitTotal (text : List UInt8) : Nat :=
  totalSlots fun kind => (slotsLines kind text).getLast?.getD 0

section Lines

variable {cfg cfg' : Config} {lineNo : Nat} {line value : List UInt8} {kind : RegionKind}

/-- Whatever a setting does to a configuration, `P` relates it to the one before. -/
def Setting.Does (s : Setting) (P : Config → Config → Prop) : Prop :=
  ∀ lineNo value cfg cfg', s.apply lineNo value cfg = .ok cfg' → P cfg cfg'

section Does

variable {P : Config → Config → Prop}

theorem Setting.does_checked {α : Type} {name : String} {parse : List UInt8 → Option α}
    {set : Config → α → Config} (hset : ∀ cfg a, P cfg (set cfg a)) :
    (Setting.checked name parse set).Does P := by
  intro lineNo value cfg cfg' h
  simp only [Setting.checked] at h
  cases hparse : parse value with
  | none =>
      rw [hparse] at h
      cases h
  | some a =>
      rw [hparse] at h
      cases h
      exact hset cfg a

theorem Setting.does_plain {name : String} {set : Config → List UInt8 → Config}
    (hset : ∀ cfg v, P cfg (set cfg v)) : (Setting.plain name set).Does P := by
  intro lineNo value cfg cfg' h
  cases h
  exact hset cfg value

theorem Setting.does_mnEndpoint
    (hset : ∀ cfg endpoints, P cfg { cfg with mnEndpoints := endpoints }) :
    Setting.mnEndpoint.Does P := by
  intro lineNo value cfg cfg' h
  simp only [Setting.mnEndpoint] at h
  split at h
  · cases h
  · cases hparse : parseHostPort value with
    | none =>
        rw [hparse] at h
        cases h
    | some endpoint =>
        rw [hparse] at h
        cases h
        exact hset cfg _

theorem Setting.does_slots {kind : RegionKind} (hsame : ∀ cfg, P cfg cfg)
    (hset : ∀ cfg slots explicit, P cfg { cfg with slots := slots, slotsExplicit := explicit }) :
    (Setting.slots kind).Does P := by
  intro lineNo value cfg cfg' h
  simp only [Setting.slots] at h
  split at h
  · cases h
    exact hsame cfg
  · cases hparse : parseSizeLiteral value with
    | none =>
        rw [hparse] at h
        cases h
    | some count =>
        rw [hparse] at h
        cases h
        exact hset cfg _ _

end Does

/-- A setting that has nothing to do with the slot counts. -/
def Setting.Neutral (s : Setting) : Prop :=
  (∀ kind : RegionKind, ascii s.name ≠ ascii kind.slotsKey) ∧
    ∀ lineNo value cfg cfg', s.apply lineNo value cfg = .ok cfg' →
      cfg'.slots = cfg.slots ∧ cfg'.slotsExplicit = cfg.slotsExplicit

theorem Setting.neutral_checked {α : Type} {name : String} {parse : List UInt8 → Option α}
    {set : Config → α → Config} (hname : ∀ kind : RegionKind, ascii name ≠ ascii kind.slotsKey)
    (hset : ∀ cfg a, (set cfg a).slots = cfg.slots ∧ (set cfg a).slotsExplicit = cfg.slotsExplicit) :
    (Setting.checked name parse set).Neutral :=
  ⟨hname, Setting.does_checked hset⟩

theorem Setting.neutral_plain {name : String} {set : Config → List UInt8 → Config}
    (hname : ∀ kind : RegionKind, ascii name ≠ ascii kind.slotsKey)
    (hset : ∀ cfg v, (set cfg v).slots = cfg.slots ∧ (set cfg v).slotsExplicit = cfg.slotsExplicit) :
    (Setting.plain name set).Neutral :=
  ⟨hname, Setting.does_plain hset⟩

theorem Setting.neutral_mnEndpoint : Setting.mnEndpoint.Neutral := by
  refine ⟨fun kind => by cases kind <;> decide, Setting.does_mnEndpoint fun _ _ => ⟨rfl, rfl⟩⟩

/-- Three settings are about slot counts. -/
theorem settings_cases : ∀ s ∈ settings, s.Neutral ∨ ∃ kind, s = .slots kind := by
  simp only [settings, List.forall_mem_cons, List.not_mem_nil, false_imp_iff, implies_true, and_true]
  refine ⟨?_, ?_, ?_, ?_, ?_, ?_, ?_, ?_, ?_, ?_, ?_, ?_, ?_, .inr ⟨.prime, rfl⟩, .inr ⟨.cache, rfl⟩,
    .inr ⟨.backup, rfl⟩, ?_, ?_, ?_, .inl Setting.neutral_mnEndpoint⟩
  all_goals left
  all_goals
    first
    | refine Setting.neutral_checked ?_ fun _ _ => ⟨rfl, rfl⟩
    | refine Setting.neutral_plain ?_ fun _ _ => ⟨rfl, rfl⟩
  all_goals
    intro kind
    cases kind <;> decide

/-- What a slot count line does. -/
theorem Setting.slots_ok (h : (Setting.slots kind).apply lineNo value cfg = .ok cfg') :
    (value = [] ∧ cfg' = cfg) ∨ (value ≠ [] ∧
      cfg'.slots = Function.update cfg.slots kind (strtoull value).value ∧
      cfg'.slotsExplicit = Function.update cfg.slotsExplicit kind true) := by
  simp only [Setting.slots] at h
  split at h
  next hnil =>
    cases h
    exact .inl ⟨hnil, rfl⟩
  next hne =>
    cases hparse : parseSizeLiteral value with
    | none =>
        rw [hparse] at h
        cases h
    | some count =>
        rw [hparse] at h
        cases h
        unfold parseSizeLiteral at hparse
        simp only [] at hparse
        split at hparse
        · cases hparse
        · cases hparse
          exact .inr ⟨hne, rfl, rfl⟩

theorem ascii_slotsKey_inj {kind kind' : RegionKind}
    (h : ascii kind.slotsKey = ascii kind'.slotsKey) : kind = kind' := by
  revert h
  cases kind <;> cases kind' <;> decide

/-- A line says nothing, is an error, has a key that nobody knows, or is one of the settings. -/
theorem Config.applyLine_cases (line : List UInt8) :
    (parseLine line = .blank ∧ ∀ n (cfg : Config), cfg.applyLine n line = .ok cfg) ∨
      (∀ n (cfg : Config), ∃ e, cfg.applyLine n line = .error e) ∨
      (∃ key value, parseLine line = .entry key value ∧ (∀ s ∈ settings, ascii s.name ≠ key) ∧
        ∀ n (cfg : Config), cfg.applyLine n line = .ok cfg) ∨
      ∃ s ∈ settings, ∃ value, parseLine line = .entry (ascii s.name) value ∧
        ∀ n (cfg : Config), cfg.applyLine n line = s.apply n value cfg := by
  unfold Config.applyLine
  cases hline : parseLine line with
  | blank => exact .inl ⟨rfl, fun _ _ => rfl⟩
  | noColon => exact .inr (.inl fun _ _ => ⟨_, rfl⟩)
  | entry key value =>
      cases hfind : settings.find? fun s => ascii s.name = key with
      | none =>
          refine .inr (.inr (.inl ⟨key, value, rfl, fun s hs => ?_, fun _ _ => by simp only [hfind]⟩))
          simpa using List.find?_eq_none.mp hfind s hs
      | some s =>
          have hname : ascii s.name = key := by simpa using List.find?_some hfind
          refine .inr (.inr (.inr ⟨s, List.mem_of_find?_eq_some hfind, value, by rw [hname], ?_⟩))
          exact fun _ _ => by simp only [hfind]

/-- A line changes the counts it gives, and no others. -/
theorem Config.applyLine_slots (h : cfg.applyLine lineNo line = .ok cfg') (kind : RegionKind) :
    cfg'.slots kind = (slotsLine kind line).getD (cfg.slots kind) ∧
      cfg'.slotsExplicit kind = ((slotsLine kind line).isSome || cfg.slotsExplicit kind) := by
  unfold slotsLine
  obtain ⟨hline, hok⟩ | hfails | ⟨key, value, hline, hunknown, hok⟩ | ⟨s, hs, value, hline, happly⟩ :=
    Config.applyLine_cases line
  · rw [hok] at h
    cases h
    simp [hline]
  · obtain ⟨e, he⟩ := hfails lineNo cfg
    rw [he] at h
    cases h
  · rw [hok] at h
    cases h
    have hkey : key ≠ ascii kind.slotsKey := by
      have hmem : Setting.slots kind ∈ settings := by cases kind <;> simp [settings]
      exact (hunknown _ hmem).symm
    simp [hline, hkey]
  · rw [happly] at h
    simp only [hline]
    obtain ⟨hne, hkeeps⟩ | ⟨kind', rfl⟩ := settings_cases s hs
    · obtain ⟨hslots, hexplicit⟩ := hkeeps _ _ _ _ h
      simp [hne kind, hslots, hexplicit]
    · obtain ⟨rfl, rfl⟩ | ⟨hvalue, hslots, hexplicit⟩ := Setting.slots_ok h
      · simp
      · rw [hslots, hexplicit]
        by_cases hkind : kind = kind'
        · subst hkind
          simp [Setting.slots, hvalue]
        · have hkey : ascii kind'.slotsKey ≠ ascii kind.slotsKey :=
            fun heq => hkind (ascii_slotsKey_inj heq).symm
          simp [Setting.slots, hkey, Function.update_of_ne hkind]

/-- Lines are taken one after the other. -/
theorem Config.applyLines_cons {lines : List (List UInt8)} :
    Config.applyLines lineNo (line :: lines) cfg = .ok cfg' ↔
      ∃ cfg₁, cfg.applyLine lineNo line = .ok cfg₁ ∧
        Config.applyLines (lineNo + 1) lines cfg₁ = .ok cfg' := by
  rw [Config.applyLines]
  cases cfg.applyLine lineNo line with
  | error e =>
      constructor
      · rintro ⟨⟩
      · rintro ⟨_, ⟨⟩, _⟩
  | ok cfg₁ =>
      constructor
      · exact fun h => ⟨cfg₁, rfl, h⟩
      · rintro ⟨_, ⟨⟩, h⟩
        exact h

/-- A field that each line sets or leaves alone has the last setting after all lines. -/
theorem Config.applyLines_field {α : Type} (field : Config → α) (of : List UInt8 → Option α)
    (hline : ∀ {lineNo : Nat} {line : List UInt8} {cfg cfg' : Config},
      cfg.applyLine lineNo line = .ok cfg' → field cfg' = (of line).getD (field cfg))
    (lines : List (List UInt8)) {lineNo : Nat} {cfg cfg' : Config}
    (h : Config.applyLines lineNo lines cfg = .ok cfg') :
    field cfg' = (lines.filterMap of).getLast?.getD (field cfg) := by
  induction lines generalizing lineNo cfg with
  | nil =>
      cases h
      rfl
  | cons line lines ih =>
      obtain ⟨cfg₁, hfirst, hrest⟩ := Config.applyLines_cons.mp h
      rw [ih hrest, hline hfirst]
      cases hs : of line with
      | none => rw [List.filterMap_cons_none hs, Option.getD_none]
      | some a =>
          rw [List.filterMap_cons_some hs, List.getLast?_cons]
          rfl

/-- After all lines the last count of each kind is there. -/
theorem Config.applyLines_slots (kind : RegionKind) (lines : List (List UInt8)) {lineNo : Nat}
    {cfg cfg' : Config} (h : Config.applyLines lineNo lines cfg = .ok cfg') :
    cfg'.slots kind = (lines.filterMap (slotsLine kind)).getLast?.getD (cfg.slots kind) ∧
      cfg'.slotsExplicit kind =
        (!(lines.filterMap (slotsLine kind)).isEmpty || cfg.slotsExplicit kind) := by
  refine ⟨Config.applyLines_field (·.slots kind) (slotsLine kind)
    (fun hline => (Config.applyLine_slots hline kind).1) lines h, ?_⟩
  have hexplicit := Config.applyLines_field (·.slotsExplicit kind)
    (fun line => (slotsLine kind line).map fun _ => true) (fun hline => by
      rw [(Config.applyLine_slots hline kind).2]
      cases slotsLine kind _ <;> simp) lines h
  rw [hexplicit, ← List.map_filterMap, List.getLast?_map]
  cases hs : lines.filterMap (slotsLine kind) with
  | nil => rfl
  | cons count counts =>
      rw [List.getLast?_cons]
      rfl

/-- The configuration of a file before its slot counts are resolved. -/
theorem applyLines_defaults {text : List UInt8}
    (h : Config.applyLines 1 (fgetsLines 512 text) .initDefaults = .ok cfg) :
    totalSlots cfg.slots = explicitTotal text ∧
      ∀ kind, cfg.slotsExplicit kind = false → cfg.slots kind = 0 := by
  have hslots (kind : RegionKind) := Config.applyLines_slots kind _ h
  refine ⟨?_, fun kind hexplicit => ?_⟩
  · unfold explicitTotal
    congr 1
    funext kind
    exact (hslots kind).1
  · rw [(hslots kind).2, Bool.or_eq_false_iff, Bool.not_eq_false', List.isEmpty_iff] at hexplicit
    rw [(hslots kind).1, hexplicit.1]
    rfl

end Lines

/-! ## Automatic counts -/

/-- The slots of the buckets that are not explicit. -/
def freeSlots (buckets : RegionKind → Bucket) : Nat :=
  (RegionKind.all.map fun kind =>
    if (buckets kind).isExplicit then 0 else (buckets kind).slots.toNat).sum

section Buckets

variable {buckets : RegionKind → Bucket}

/-- The best bucket is not an explicit one. -/
theorem bestBucket_free {best : RegionKind} (h : bestBucket buckets = some best) :
    (buckets best).isExplicit = false := by
  have hstep : ∀ (b : Option RegionKind) kind, (∀ k ∈ b, (buckets k).isExplicit = false) →
      ∀ k ∈ betterBucket buckets b kind, (buckets k).isExplicit = false := by
    intro b kind hb k hk
    unfold betterBucket at hk
    split at hk
    · exact hb k hk
    next hfree =>
      rw [Bool.not_eq_true] at hfree
      split at hk
      · cases hk
        exact hfree
      · split at hk
        · cases hk
          exact hfree
        · exact hb k hk
  have hfold : ∀ (kinds : List RegionKind) (b : Option RegionKind),
      (∀ k ∈ b, (buckets k).isExplicit = false) →
      ∀ k ∈ kinds.foldl (betterBucket buckets) b, (buckets k).isExplicit = false := by
    intro kinds
    induction kinds with
    | nil => exact fun b hb => hb
    | cons kind kinds ih => exact fun b hb => ih _ (hstep b kind hb)
  exact hfold _ none (by nofun) best h

/-- The sum the source computes is exact as long as it does not wrap around. -/
theorem bucketSum_slots (h : freeSlots buckets < 2 ^ 64) :
    (bucketSum (·.slots) buckets).toNat = freeSlots buckets := by
  unfold freeSlots at *
  unfold bucketSum
  cases hp : (buckets .prime).isExplicit <;> cases hc : (buckets .cache).isExplicit <;>
    cases hb : (buckets .backup).isExplicit <;>
    simp only [RegionKind.all, List.map_cons, List.map_nil, List.sum_cons, List.sum_nil,
      List.foldl_cons, List.foldl_nil, hp, hc, hb, Bool.false_eq_true, if_true, if_false,
      UInt64.toNat_add, UInt64.toNat_zero, Nat.reducePow] at h ⊢ <;>
    omega

/-- One slot more for a bucket that is not explicit. -/
theorem freeSlots_update {best : RegionKind} (hbest : (buckets best).isExplicit = false)
    (h : freeSlots buckets + 1 < 2 ^ 64) (remainder : UInt64) :
    freeSlots (Function.update buckets best
      { buckets best with slots := (buckets best).slots + 1, remainder := remainder }) =
      freeSlots buckets + 1 := by
  unfold freeSlots at *
  cases best <;>
    simp [RegionKind.all, hbest, UInt64.toNat_add] at h ⊢ <;>
    omega

/-- A bucket that is served stays free. -/
theorem isExplicit_update {best : RegionKind} (slots remainder : UInt64) (kind : RegionKind) :
    (Function.update buckets best
      { buckets best with slots := slots, remainder := remainder } kind).isExplicit =
      (buckets kind).isExplicit := by
  by_cases h : kind = best
  · subst h
    rw [Function.update_self]
  · rw [Function.update_of_ne h]

/-- The second loop allocates no more than there is, and leaves explicit counts alone. -/
theorem distribute_free (remaining : UInt64) :
    ∀ (fuel : Nat) {allocated : UInt64} {buckets : RegionKind → Bucket},
      freeSlots buckets = allocated.toNat → allocated ≤ remaining →
      freeSlots (distribute remaining fuel allocated buckets) ≤ remaining.toNat ∧
        ∀ kind, (distribute remaining fuel allocated buckets kind).isExplicit =
            (buckets kind).isExplicit ∧
          ((buckets kind).isExplicit = true →
            (distribute remaining fuel allocated buckets kind).slots = (buckets kind).slots)
  | 0, allocated, buckets, hfree, hle => by
      rw [distribute, hfree]
      exact ⟨hle, fun _ => ⟨rfl, fun _ => rfl⟩⟩
  | fuel + 1, allocated, buckets, hfree, hle => by
      have hdone : freeSlots buckets ≤ remaining.toNat := hfree ▸ hle
      rw [distribute]
      split
      next hlt =>
        cases hbest : bestBucket buckets with
        | none => exact ⟨hdone, fun _ => ⟨rfl, fun _ => rfl⟩⟩
        | some best =>
            have hexplicit := bestBucket_free hbest
            have hlt' : allocated.toNat < remaining.toNat := hlt
            have hbound := remaining.toNat_lt
            have hnext : (allocated + 1).toNat = allocated.toNat + 1 := by
              rw [UInt64.toNat_add, UInt64.toNat_one, Nat.mod_eq_of_lt (by omega)]
            obtain ⟨hsum, hkeeps⟩ := distribute_free remaining fuel
              ((freeSlots_update hexplicit (by omega) 0).trans (by omega))
              (show (allocated + 1).toNat ≤ remaining.toNat by omega)
            refine ⟨hsum, fun kind => ⟨(hkeeps kind).1.trans (isExplicit_update ..), fun hkind => ?_⟩⟩
            have hne : kind ≠ best := by
              rintro rfl
              rw [hexplicit] at hkind
              cases hkind
            refine ((hkeeps kind).2 ((isExplicit_update ..).trans hkind)).trans ?_
            rw [Function.update_of_ne hne]
      next => exact ⟨hdone, fun _ => ⟨rfl, fun _ => rfl⟩⟩

/-- Explicit slots and free ones. -/
theorem totalSlots_add (slots : RegionKind → UInt64)
    (hzero : ∀ kind, (buckets kind).isExplicit = false → slots kind = 0)
    (hkeeps : ∀ kind, (buckets kind).isExplicit = true → (buckets kind).slots = slots kind) :
    totalSlots (fun kind => (buckets kind).slots) = totalSlots slots + freeSlots buckets := by
  have hkind (kind : RegionKind) : (buckets kind).slots.toNat = (slots kind).toNat +
      if (buckets kind).isExplicit then 0 else (buckets kind).slots.toNat := by
    cases h : (buckets kind).isExplicit with
    | false => simp [hzero kind h]
    | true => simp [hkeeps kind h]
  have hp := hkind .prime
  have hc := hkind .cache
  have hb := hkind .backup
  simp only [totalSlots, freeSlots, RegionKind.all, List.map_cons, List.map_nil, List.sum_cons,
    List.sum_nil]
  omega

end Buckets

section Allocate

variable {cfg : Config} {remaining : UInt64}

/-- The sum of the weights of the kinds that are not explicit. -/
def freeWeight (isExplicit : RegionKind → Bool) : UInt64 :=
  RegionKind.all.foldl (fun sum kind => if isExplicit kind then sum else sum + kind.weight) 0

/-- Shares by weight, rounded down. -/
def sharedBuckets (cfg : Config) (remaining : UInt64) (kind : RegionKind) : Bucket :=
  if cfg.slotsExplicit kind then ⟨cfg.slots kind, true, kind.weight, 0, kind.number⟩
  else
    ⟨remaining * kind.weight / freeWeight cfg.slotsExplicit, false, kind.weight,
      remaining * kind.weight % freeWeight cfg.slotsExplicit, kind.number⟩

/-- Rounded down, the shares are no more than the whole. -/
theorem freeSlots_shared (hr : remaining.toNat < 2 ^ 60) :
    freeSlots (sharedBuckets cfg remaining) ≤ remaining.toNat := by
  have h4 : (remaining * 4).toNat = remaining.toNat * 4 := by
    rw [UInt64.toNat_mul]
    exact Nat.mod_eq_of_lt (by show remaining.toNat * 4 < 2 ^ 64; omega)
  unfold freeSlots sharedBuckets freeWeight
  cases hp : cfg.slotsExplicit .prime <;> cases hc : cfg.slotsExplicit .cache <;>
    cases hb : cfg.slotsExplicit .backup <;>
    simp [RegionKind.all, RegionKind.weight, hp, hc, hb, UInt64.toNat_div, h4] <;>
    omega

/-- What `td_allocate_weighted_slots` leaves in the slot counts. -/
theorem allocateWeightedSlots_slots (cfg : Config) (remaining : UInt64) :
    (allocateWeightedSlots cfg remaining).slots = fun kind =>
      (if freeWeight cfg.slotsExplicit = 0 ∨ remaining = 0 then
        mapBuckets (fun b => { b with slots := 0 }) fun kind : RegionKind =>
          ⟨cfg.slots kind, cfg.slotsExplicit kind, kind.weight, 0, kind.number⟩
      else
        distribute remaining (remaining - bucketSum (·.slots) (sharedBuckets cfg remaining)).toNat
          (bucketSum (·.slots) (sharedBuckets cfg remaining)) (sharedBuckets cfg remaining)) kind
        |>.slots := by
  have hshared : mapBuckets (fun b => { b with
        slots := b.slots + remaining * b.weight / freeWeight cfg.slotsExplicit
        remainder := remaining * b.weight % freeWeight cfg.slotsExplicit })
      (mapBuckets (fun b => { b with slots := 0 }) fun kind : RegionKind =>
        ⟨cfg.slots kind, cfg.slotsExplicit kind, kind.weight, 0, kind.number⟩) =
      sharedBuckets cfg remaining := by
    funext kind
    cases h : cfg.slotsExplicit kind <;> simp [mapBuckets, sharedBuckets, h]
  rw [← hshared]
  rfl

/-- Automatic counts take no more than what is left, and explicit ones stay. -/
theorem allocateWeightedSlots_total (hr : remaining.toNat < 2 ^ 60)
    (hzero : ∀ kind, cfg.slotsExplicit kind = false → cfg.slots kind = 0) :
    totalSlots cfg.slots ≤ totalSlots (allocateWeightedSlots cfg remaining).slots ∧
      totalSlots (allocateWeightedSlots cfg remaining).slots ≤
        totalSlots cfg.slots + remaining.toNat := by
  rw [allocateWeightedSlots_slots]
  split
  next =>
    have hsame : (fun kind => (mapBuckets (fun b => { b with slots := 0 }) (fun kind : RegionKind =>
        (⟨cfg.slots kind, cfg.slotsExplicit kind, kind.weight, 0, kind.number⟩ : Bucket))
        kind).slots) = cfg.slots := by
      funext kind
      cases h : cfg.slotsExplicit kind with
      | false => simp [mapBuckets, h, hzero kind h]
      | true => simp [mapBuckets, h]
    rw [hsame]
    exact ⟨le_rfl, Nat.le_add_right _ _⟩
  next =>
    have hle : freeSlots (sharedBuckets cfg remaining) ≤ remaining.toNat := freeSlots_shared hr
    have hsum : (bucketSum (·.slots) (sharedBuckets cfg remaining)).toNat =
        freeSlots (sharedBuckets cfg remaining) :=
      bucketSum_slots (hle.trans_lt remaining.toNat_lt)
    have hexplicit (kind : RegionKind) :
        (sharedBuckets cfg remaining kind).isExplicit = cfg.slotsExplicit kind := by
      cases h : cfg.slotsExplicit kind <;> simp [sharedBuckets, h]
    obtain ⟨hfree, hkeeps⟩ := distribute_free remaining
      (remaining - bucketSum (·.slots) (sharedBuckets cfg remaining)).toNat hsum.symm
      (show _ ≤ remaining.toNat from hsum.le.trans hle)
    have htotal := totalSlots_add cfg.slots
      (fun kind h => hzero kind (by rw [← hexplicit, ← (hkeeps kind).1, h]))
      (fun kind h => by
        rw [(hkeeps kind).1] at h
        rw [(hkeeps kind).2 h]
        rw [hexplicit] at h
        simp [sharedBuckets, h])
    omega

end Allocate

/-! ## Accepted configurations -/

section Accepted

variable {cfg cfg' : Config}

/-- The sum the source compares with the capacity. -/
theorem manualSlots_toNat (cfg : Config) :
    (cfg.slots .prime + cfg.slots .cache + cfg.slots .backup).toNat =
      totalSlots cfg.slots % 2 ^ 64 := by
  simp only [totalSlots, RegionKind.all, List.map_cons, List.map_nil, List.sum_cons, List.sum_nil,
    UInt64.toNat_add]
  omega

/-- The number of slots a memory of a given size has room for. -/
def slotCapacity (mnMemorySize : UInt64) : UInt64 :=
  (mnMemorySize - UInt64.ofNat headerBytes) / UInt64.ofNat slotBytes

theorem slotCapacity_toNat {mnMemorySize : UInt64} (h : headerBytes < mnMemorySize.toNat) :
    (slotCapacity mnMemorySize).toNat = (mnMemorySize.toNat - headerBytes) / slotBytes := by
  have hle : UInt64.ofNat headerBytes ≤ mnMemorySize := h.le
  rw [slotCapacity, UInt64.toNat_div, UInt64.toNat_sub_of_le _ _ hle]
  rfl

/-- What an accepted configuration has passed. -/
theorem resolveMnSlots_ok (h : resolveMnSlots cfg = .ok cfg') :
    headerBytes < cfg.mnMemorySize.toNat ∧
      cfg.slots .prime + cfg.slots .cache + cfg.slots .backup ≤ slotCapacity cfg.mnMemorySize ∧
      cfg' = allocateWeightedSlots cfg (slotCapacity cfg.mnMemorySize -
        (cfg.slots .prime + cfg.slots .cache + cfg.slots .backup)) := by
  simp only [resolveMnSlots] at h
  split at h
  · cases h
  next hheader =>
    split at h
    · cases h
    · split at h
      · cases h
      next hmanual =>
        split at h
        · cases h
        · split at h
          · cases h
          · cases h
            exact ⟨UInt64.not_le.mp hheader, UInt64.not_lt.mp hmanual, rfl⟩

/-- The counts of an accepted configuration fit iff the explicit ones do not wrap around. -/
theorem resolveMnSlots_fits (hzero : ∀ kind, cfg.slotsExplicit kind = false → cfg.slots kind = 0)
    (h : resolveMnSlots cfg = .ok cfg') :
    headerBytes + totalSlots cfg'.slots * slotBytes ≤ cfg'.mnMemorySize.toNat ↔
      totalSlots cfg.slots < 2 ^ 64 := by
  obtain ⟨hheader, hmanual, rfl⟩ := resolveMnSlots_ok h
  have hmem := cfg.mnMemorySize.toNat_lt
  have hremaining := UInt64.toNat_sub_of_le _ _ hmanual
  have hle := UInt64.le_iff_toNat_le.mp hmanual
  rw [slotCapacity_toNat hheader, manualSlots_toNat] at hremaining hle
  simp only [headerBytes, slotBytes] at hheader hle hremaining ⊢
  have htotal := allocateWeightedSlots_total (by rw [hremaining]; omega) hzero
  rw [hremaining] at htotal
  show 88 + totalSlots (allocateWeightedSlots cfg _).slots * 344 ≤ cfg.mnMemorySize.toNat ↔ _
  omega

/-- The checks at the end make the replication positive, ask for a key, and resolve the counts of
a memory node. -/
theorem Config.finish_ok (h : cfg.finish = .ok cfg') :
    ∃ cfg₁ : Config,
      cfg₁ = { cfg with replication := if cfg.replication ≤ 0 then 1 else cfg.replication } ∧
      (∃ slots, cfg' = { cfg₁ with slots := slots }) ∧ cfg'.encryptionKeyHex ≠ [] ∧
      (cfg'.mode = .mn → resolveMnSlots cfg₁ = .ok cfg') := by
  simp only [Config.finish] at h
  split at h
  · cases h
  · generalize hcfg₁ : (if cfg.replication ≤ 0 then { cfg with replication := 1 } else cfg) = cfg₁ at h
    refine ⟨cfg₁, ?_, ?_⟩
    · rw [← hcfg₁]
      split <;> rfl
    split at h
    · cases h
    · split at h
      · cases h
      · split at h
        · cases h
        next cfg₂ hresolved =>
          split at h
          · cases h
          next hkey =>
            cases h
            split at hresolved
            · refine ⟨?_, hkey, fun _ => hresolved⟩
              obtain ⟨_, _, hallocated⟩ := resolveMnSlots_ok hresolved
              exact ⟨_, hallocated⟩
            next hcn =>
              cases hresolved
              exact ⟨⟨_, rfl⟩, hkey, fun hmode => absurd hmode hcn⟩

/-- A file is accepted line by line, and then by the checks at the end. -/
theorem configLoad_eq_ok {path : String} {text : List UInt8} :
    configLoad path (some text) = .ok cfg ↔
      ∃ cfg₀, Config.applyLines 1 (fgetsLines 512 text) .initDefaults = .ok cfg₀ ∧
        cfg₀.finish = .ok cfg := by
  show (Config.initDefaults.applyLines 1 (fgetsLines 512 text) >>= Config.finish) = .ok cfg ↔ _
  cases Config.initDefaults.applyLines 1 (fgetsLines 512 text) with
  | error e =>
      constructor
      · rintro ⟨⟩
      · rintro ⟨_, ⟨⟩, _⟩
  | ok cfg₀ =>
      constructor
      · exact fun h => ⟨cfg₀, rfl, h⟩
      · rintro ⟨_, ⟨⟩, h⟩
        exact h

/-- Everything `td_config_load` does to the slot counts of a memory node. -/
theorem configLoad_mn {path : String} {text : List UInt8}
    (h : configLoad path (some text) = .ok cfg) (hmode : cfg.mode = .mn) :
    ∃ cfg₁ : Config, totalSlots cfg₁.slots = explicitTotal text ∧
      (∀ kind, cfg₁.slotsExplicit kind = false → cfg₁.slots kind = 0) ∧
      resolveMnSlots cfg₁ = .ok cfg := by
  obtain ⟨cfg₀, hlines, hfinish⟩ := configLoad_eq_ok.mp h
  obtain ⟨cfg₁, rfl, _, _, hresolved⟩ := Config.finish_ok hfinish
  obtain ⟨htotal, hzero⟩ := applyLines_defaults hlines
  refine ⟨_, ?_, ?_, hresolved hmode⟩
  · exact htotal
  · exact hzero

end Accepted

/-- A memory node's configuration that is accepted fits its memory if and only if the sum of the
slot counts in the file is less than `2 ^ 64`.  Then all slots lie inside of the mapping. -/
theorem config_fits_iff (path : String) (text : List UInt8) (cfg : Config)
    (h : configLoad path (some text) = .ok cfg) (hmode : cfg.mode = .mn) :
    (headerBytes + ((cfg.slots .prime).toNat + (cfg.slots .cache).toNat + (cfg.slots .backup).toNat) *
        slotBytes ≤ cfg.mnMemorySize.toNat ↔ explicitTotal text < 2 ^ 64) ∧
      (explicitTotal text < 2 ^ 64 → ∀ kind i,
        i < kindSlotCount (Region.create cfg.region).header kind →
        slotOffsetForIndex (Region.create cfg.region).header kind i + slotBytes ≤
          (Region.create cfg.region).mappedBytes) := by
  obtain ⟨cfg₁, htotal, hzero, hresolved⟩ := configLoad_mn h hmode
  have hsum : totalSlots cfg.slots =
      (cfg.slots .prime).toNat + (cfg.slots .cache).toNat + (cfg.slots .backup).toNat := by
    simp [totalSlots, RegionKind.all, Nat.add_assoc]
  have hfits := resolveMnSlots_fits hzero hresolved
  rw [htotal, hsum] at hfits
  refine ⟨hfits, fun hlt kind i hi => ?_⟩
  rw [Region.header_create] at hi ⊢
  have hregion : cfg.region.header.Fits (Region.create cfg.region).mappedBytes :=
    ⟨hfits.mpr hlt, cfg.mnMemorySize.toNat_lt⟩
  obtain ⟨hoff, hinside, _⟩ := slotOffset_eq hregion hi
  rw [hoff]
  exact hinside

/-- What a test can compare of a configuration. -/
def Config.counts (cfg : Config) : Mode × UInt64 × UInt64 × UInt64 × UInt64 :=
  (cfg.mode, cfg.mnMemorySize, cfg.slots .prime, cfg.slots .cache, cfg.slots .backup)

theorem configLoad_counts (path : String) (file : Option (List UInt8))
    (counts : Mode × UInt64 × UInt64 × UInt64 × UInt64)
    (h : (configLoad path file).toOption.map Config.counts = some counts) :
    ∃ cfg, configLoad path file = .ok cfg ∧ cfg.counts = counts := by
  cases hload : configLoad path file with
  | error e =>
      rw [hload] at h
      cases h
  | ok cfg =>
      rw [hload] at h
      cases h
      exact ⟨cfg, rfl, rfl⟩

/-- One count is explicit, and the others share what it leaves of the memory. -/
theorem config_fits_iff_mixed :
    ∃ cfg, configLoad "mn.conf" (some (ascii ("mode: mn\nlisten_port: 7001\nmn_memory_size: 64KB\n" ++
        "cache_slots: 10\nencryption_key_hex: 00ff\n"))) = .ok cfg ∧
      cfg.counts = (.mn, 65536, 90, 10, 90) ∧
      headerBytes + ((cfg.slots .prime).toNat + (cfg.slots .cache).toNat +
        (cfg.slots .backup).toNat) * slotBytes ≤ cfg.mnMemorySize.toNat := by
  obtain ⟨cfg, hload, hcounts⟩ := configLoad_counts "mn.conf"
    (some (ascii ("mode: mn\nlisten_port: 7001\nmn_memory_size: 64KB\n" ++
      "cache_slots: 10\nencryption_key_hex: 00ff\n"))) (.mn, 65536, 90, 10, 90) (by decide +kernel)
  refine ⟨cfg, hload, hcounts, (config_fits_iff _ _ cfg hload (congrArg Prod.fst hcounts)).1.mpr ?_⟩
  decide +kernel

/-- Two counts of `2 ^ 63` slots add up to nothing, and one MiB is enough for them. -/
theorem config_overcommitted :
    ¬ ∀ (path : String) (text : List UInt8) (cfg : Config),
      configLoad path (some text) = .ok cfg → cfg.mode = .mn →
      headerBytes + ((cfg.slots .prime).toNat + (cfg.slots .cache).toNat +
        (cfg.slots .backup).toNat) * slotBytes ≤ cfg.mnMemorySize.toNat := by
  intro h
  obtain ⟨cfg, hload, hcounts⟩ := configLoad_counts "mn.conf"
    (some (ascii ("mode: mn\nlisten_port: 7001\nmn_memory_size: 1MB\nencryption_key_hex: 00ff\n" ++
      "prime_slots: 9223372036854775808\nbackup_slots: 9223372036854775808\n")))
    (.mn, 1048576, 9223372036854775808, 3047, 9223372036854775808) (by decide +kernel)
  simp only [Config.counts, Prod.mk.injEq] at hcounts
  obtain ⟨hmode, hmem, hprime, hcache, hbackup⟩ := hcounts
  have hfits := h _ _ cfg hload hmode
  rw [hmem, hprime, hcache, hbackup] at hfits
  exact absurd hfits (by decide)

end TeeDist
