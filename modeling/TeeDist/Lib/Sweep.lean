import Mathlib.Data.Nat.Count
import Mathlib.Data.Nat.ModEq
import Mathlib.Logic.Function.Basic

/-!
# A hand that sweeps a table

A table of `n` entries, some of which are *live*, and a hand that goes around it.  A turn makes
the entry under the hand dead if it is live, and moves the hand to the next entry.  A sweep
takes turns until a given number of entries have been live.

`sweep_exact` says what a sweep does: it makes the first live entries dead, in the order of the
hand, and goes around at most once.  It ends if and only if there are as many live entries as it
is to make dead (`sweep_ends_iff`), and then has made that many of them dead (`count_of_sweep`).
-/

namespace Sweep

/-- A table, and the place of the hand. -/
@[ext] structure Clock (β : Type) where
  table : Nat → β
  hand : Nat

variable {β : Type}

/-- One turn. -/
def Clock.turn (live : β → Bool) (dead : β) (n : Nat) (c : Clock β) : Clock β where
  table := if live (c.table c.hand) then Function.update c.table c.hand dead else c.table
  hand := (c.hand + 1) % n

/-- What is left of a target after a turn. -/
def Clock.left (live : β → Bool) (c : Clock β) (target : Nat) : Nat :=
  if live (c.table c.hand) then target - 1 else target

/-- At most `fuel` turns, until the target is reached. -/
def sweep (live : β → Bool) (dead : β) (n : Nat) : Nat → Nat → Clock β → Option (Clock β)
  | _, 0, c => some c
  | 0, _ + 1, _ => none
  | fuel + 1, target + 1, c =>
      sweep live dead n fuel (c.left live (target + 1)) (c.turn live dead n)

/-- The number of live entries. -/
def liveCount (live : β → Bool) (n : Nat) (table : Nat → β) : Nat :=
  Nat.count (fun i => live (table i)) n

variable {live : β → Bool} {dead : β} {n : Nat}

/-! ## Counting -/

theorem liveCount_congr {table table' : Nat → β} (h : ∀ i < n, live (table i) = live (table' i)) :
    liveCount live n table = liveCount live n table' :=
  Nat.le_antisymm (Nat.count_mono_left fun i hi hlive => (h i hi).symm.trans hlive)
    (Nat.count_mono_left fun i hi hlive => (h i hi).trans hlive)

/-- One entry fewer. -/
theorem liveCount_update (hdead : live dead = false) {table : Nat → β} {i : Nat}
    (hlive : live (table i) = true) (hi : i < n) :
    liveCount live n (Function.update table i dead) + 1 = liveCount live n table := by
  induction n with
  | zero => omega
  | succ n ih =>
      simp only [liveCount, Nat.count_succ] at ih ⊢
      by_cases h : i = n
      · subst h
        have hsame : liveCount live i (Function.update table i dead) = liveCount live i table :=
          liveCount_congr fun j hj => by rw [Function.update_of_ne (by omega)]
        simp only [liveCount] at hsame
        simp [hdead, hlive, hsame]
      · rw [Function.update_of_ne (Ne.symm h)]
        have := ih (by omega)
        omega

/-- A turn takes as much off the target as it takes off the live entries. -/
theorem liveCount_turn (hdead : live dead = false) {c : Clock β} (hhand : c.hand < n) {target : Nat}
    (hpos : 0 < target) :
    liveCount live n (c.turn live dead n).table + target =
      liveCount live n c.table + c.left live target := by
  unfold Clock.turn Clock.left
  cases hlive : live (c.table c.hand) with
  | false => simp
  | true =>
      have := liveCount_update hdead hlive hhand
      simp only [if_true]
      omega

/-! ## Sweeps that end -/

/-- A sweep makes as many entries dead as it is told to. -/
theorem count_of_sweep (hdead : live dead = false) (hn : 0 < n) :
    ∀ (fuel target : Nat) {c c' : Clock β}, c.hand < n →
      sweep live dead n fuel target c = some c' →
      liveCount live n c'.table + target = liveCount live n c.table
  | _, 0, c, c', _, h => by
      rw [sweep] at h
      cases h
      rfl
  | 0, target + 1, c, c', _, h => by
      rw [sweep] at h
      cases h
  | fuel + 1, target + 1, c, c', hhand, h => by
      rw [sweep] at h
      have hrest := count_of_sweep hdead hn fuel _ (Nat.mod_lt _ hn) h
      have hturn := liveCount_turn hdead hhand (Nat.zero_lt_succ target)
      rw [Nat.succ_eq_add_one] at hturn
      omega

/-! ## What a sweep does -/

/-- How far an entry is from the hand. -/
def offset (n hand i : Nat) : Nat := (i + n - hand) % n

theorem offset_lt {hand i : Nat} (hn : 0 < n) : offset n hand i < n := Nat.mod_lt _ hn

theorem add_offset {hand i : Nat} (hhand : hand < n) (hi : i < n) :
    (hand + offset n hand i) % n = i := by
  rw [offset, Nat.add_mod_mod, show hand + (i + n - hand) = i + n by omega, Nat.add_mod_right,
    Nat.mod_eq_of_lt hi]

theorem offset_add {hand d : Nat} (hhand : hand < n) (hd : d < n) :
    offset n hand ((hand + d) % n) = d := by
  by_cases h : hand + d < n
  · rw [Nat.mod_eq_of_lt h, offset, show hand + d + n - hand = d + n by omega, Nat.add_mod_right,
      Nat.mod_eq_of_lt hd]
  · rw [Nat.mod_eq_sub_mod (by omega), Nat.mod_eq_of_lt (by omega), offset,
      show hand + d - n + n - hand = d by omega, Nat.mod_eq_of_lt hd]

/-- The number of live entries that the hand comes to in its next `d` turns. -/
def ahead (live : β → Bool) (n : Nat) (c : Clock β) (d : Nat) : Nat :=
  Nat.count (fun j => live (c.table ((c.hand + j) % n))) d

/-- All entries are ahead. -/
theorem ahead_all (c : Clock β) : ahead live n c n = liveCount live n c.table := by
  have hperiod : Nat.count (fun j => live (c.table (j % n))) (c.hand + n) =
      Nat.count (fun j => live (c.table (j % n))) n +
        Nat.count (fun j => live (c.table (j % n))) c.hand := by
    rw [Nat.add_comm c.hand n, Nat.count_add]
    simp only [Nat.add_mod_left]
  rw [Nat.count_add] at hperiod
  have hsame : liveCount live n (fun j => c.table (j % n)) = liveCount live n c.table :=
    liveCount_congr fun i hi => by rw [Nat.mod_eq_of_lt hi]
  simp only [liveCount] at hsame ⊢
  unfold ahead
  omega

/-- The table after `d` turns. -/
def swept (live : β → Bool) (dead : β) (n : Nat) (c : Clock β) (d i : Nat) : β :=
  if i < n ∧ live (c.table i) = true ∧ offset n c.hand i < d then dead else c.table i

/-- The entry under the hand has not been looked at. -/
theorem swept_under {c : Clock β} (hhand : c.hand < n) {d : Nat} (hd : d < n) :
    swept live dead n c d ((c.hand + d) % n) = c.table ((c.hand + d) % n) := by
  refine if_neg fun h => ?_
  rw [offset_add hhand hd] at h
  omega

/-- One turn more. -/
theorem swept_succ {c : Clock β} (hhand : c.hand < n) {d : Nat} (hd : d < n) :
    (Clock.turn live dead n ⟨swept live dead n c d, (c.hand + d) % n⟩) =
      ⟨swept live dead n c (d + 1), (c.hand + (d + 1)) % n⟩ := by
  have hlt : (c.hand + d) % n < n := Nat.mod_lt _ (by omega)
  have hunder : swept live dead n c d ((c.hand + d) % n) = c.table ((c.hand + d) % n) :=
    swept_under hhand hd
  refine Clock.ext ?_ ?_
  · funext i
    simp only [Clock.turn, hunder]
    have hother : i ≠ (c.hand + d) % n →
        swept live dead n c (d + 1) i = swept live dead n c d i := by
      intro hi
      have hne : i < n → offset n c.hand i ≠ d := by
        rintro hin rfl
        exact hi (add_offset hhand hin).symm
      unfold swept
      refine if_congr ⟨fun h => ⟨h.1, h.2.1, ?_⟩, fun h => ⟨h.1, h.2.1, by omega⟩⟩ rfl rfl
      have := hne h.1
      omega
    cases hlive : live (c.table ((c.hand + d) % n)) with
    | false =>
        simp only [Bool.false_eq_true, if_false]
        by_cases hi : i = (c.hand + d) % n
        · subst hi
          simp [swept, hlive]
        · exact (hother hi).symm
    | true =>
        simp only [if_true]
        by_cases hi : i = (c.hand + d) % n
        · subst hi
          rw [Function.update_self, swept, if_pos ⟨hlt, hlive, by rw [offset_add hhand hd]; omega⟩]
        · rw [Function.update_of_ne hi, hother hi]
  · simp only [Clock.turn, Nat.mod_add_mod, Nat.add_assoc]

/-- The first turns of a sweep, as long as the target is not reached before. -/
theorem sweep_turns {c : Clock β} (hhand : c.hand < n) (fuel target : Nat) :
    ∀ d ≤ n, (∀ e < d, ahead live n c e < target) →
      sweep live dead n (fuel + d) target c =
        sweep live dead n fuel (target - ahead live n c d)
          ⟨swept live dead n c d, (c.hand + d) % n⟩ := by
  intro d
  induction d generalizing fuel with
  | zero =>
      intro _ _
      have hswept : swept live dead n c 0 = c.table := by
        funext i
        exact if_neg fun h => Nat.not_lt_zero _ h.2.2
      rw [hswept, Nat.add_zero, Nat.add_zero, Nat.mod_eq_of_lt hhand]
      rfl
  | succ d ih =>
      intro hd hbefore
      have hlt := hbefore d (Nat.lt_succ_self d)
      rw [show fuel + (d + 1) = fuel + 1 + d by omega,
        ih (fuel + 1) (by omega) fun e he => hbefore e (by omega)]
      obtain ⟨left, hleft⟩ : ∃ left, target - ahead live n c d = left + 1 :=
        ⟨target - ahead live n c d - 1, by omega⟩
      rw [hleft, sweep, swept_succ hhand (by omega)]
      congr 1
      have hcount : ahead live n c (d + 1) = ahead live n c d +
          if live (c.table ((c.hand + d) % n)) = true then 1 else 0 := Nat.count_succ ..
      have hlive : Clock.left live ⟨swept live dead n c d, (c.hand + d) % n⟩ (left + 1) =
          if live (c.table ((c.hand + d) % n)) = true then left + 1 - 1 else left + 1 := by
        rw [← swept_under hhand (by omega : d < n)]
        rfl
      rw [hlive, hcount]
      split <;> omega

/-- The first live entries in the order of the hand. -/
def victim (live : β → Bool) (n : Nat) (c : Clock β) (target i : Nat) : Bool :=
  decide (i < n) && live (c.table i) && decide (ahead live n c (offset n c.hand i) < target)

/-- A sweep makes the first live entries dead, as many as it is to, and leaves the hand behind the
last one of them.  It goes around the table at most once. -/
theorem sweep_exact (dead : β) {c : Clock β} (hhand : c.hand < n) {target : Nat}
    (hpos : 0 < target) (hle : target ≤ liveCount live n c.table) :
    ∃ d < n, live (c.table ((c.hand + d) % n)) = true ∧ ahead live n c d + 1 = target ∧
      ∀ fuel ≥ n, sweep live dead n fuel target c =
        some ⟨fun i => if victim live n c target i then dead else c.table i,
          (c.hand + d + 1) % n⟩ := by
  have hmono : ∀ {d e}, d ≤ e → ahead live n c d ≤ ahead live n c e :=
    fun h => Nat.count_monotone _ h
  have hex : ∃ d, target ≤ ahead live n c (d + 1) := by
    refine ⟨n - 1, ?_⟩
    rw [Nat.sub_add_cancel (by omega), ahead_all]
    exact hle
  obtain ⟨d, hreach, hfirst⟩ : ∃ d, target ≤ ahead live n c (d + 1) ∧
      ∀ e < d, ahead live n c (e + 1) < target :=
    ⟨Nat.find hex, Nat.find_spec hex, fun e he => Nat.lt_of_not_le (Nat.find_min hex he)⟩
  have hd : d < n := by
    refine Nat.lt_of_not_le fun hnd => ?_
    have hlast := hfirst (n - 1) (by omega)
    rw [Nat.sub_add_cancel (by omega), ahead_all] at hlast
    omega
  have hbefore : ∀ e < d + 1, ahead live n c e < target := by
    intro e he
    cases e with
    | zero => exact hpos
    | succ e => exact hfirst e (by omega)
  have hcount : ahead live n c (d + 1) = ahead live n c d +
      if live (c.table ((c.hand + d) % n)) = true then 1 else 0 := Nat.count_succ ..
  have hbelow := hbefore d (Nat.lt_succ_self d)
  obtain ⟨hlive, hone⟩ : live (c.table ((c.hand + d) % n)) = true ∧
      ahead live n c d + 1 = target := by
    split at hcount
    next hlive => exact ⟨hlive, by omega⟩
    next => omega
  have htable : swept live dead n c (d + 1) =
      fun i => if victim live n c target i then dead else c.table i := by
    funext i
    have hturn : offset n c.hand i < d + 1 ↔ ahead live n c (offset n c.hand i) < target := by
      refine ⟨hbefore _, fun hlt => Nat.lt_of_not_le fun hge => ?_⟩
      have := hmono hge
      omega
    simp only [swept, victim, Bool.and_eq_true, decide_eq_true_eq, hturn, and_assoc]
  refine ⟨d, hd, hlive, hone, fun fuel hfuel => ?_⟩
  rw [show fuel = (fuel - (d + 1)) + (d + 1) by omega,
    sweep_turns hhand _ target (d + 1) hd hbefore, htable, hcount, if_pos hlive, hone,
    Nat.sub_self, sweep]
  rfl

/-- A sweep ends if and only if there are as many live entries as it is to make dead. -/
theorem sweep_ends_iff (hdead : live dead = false) {c : Clock β} (hhand : c.hand < n)
    (target : Nat) :
    (∃ fuel c', sweep live dead n fuel target c = some c') ↔ target ≤ liveCount live n c.table := by
  constructor
  · rintro ⟨fuel, c', h⟩
    have := count_of_sweep hdead (by omega) fuel target hhand h
    omega
  · intro hle
    cases target with
    | zero => exact ⟨0, c, rfl⟩
    | succ target =>
        obtain ⟨_, _, _, _, hsweep⟩ := sweep_exact dead hhand (Nat.succ_pos target) hle
        exact ⟨n, _, hsweep n (Nat.le_refl n)⟩

/-- More turns than a sweep needs make no difference. -/
theorem sweep_mono {fuel' : Nat} {c' : Clock β} :
    ∀ (fuel target : Nat) {c : Clock β}, sweep live dead n fuel target c = some c' → fuel ≤ fuel' →
      sweep live dead n fuel' target c = some c' := by
  intro fuel
  induction fuel generalizing fuel' with
  | zero =>
      intro target c h _
      cases target with
      | zero =>
          rw [sweep] at h ⊢
          exact h
      | succ target =>
          rw [sweep] at h
          cases h
  | succ fuel ih =>
      intro target c h hle
      cases target with
      | zero =>
          rw [sweep] at h ⊢
          exact h
      | succ target =>
          obtain ⟨more, rfl⟩ : ∃ more, fuel' = more + 1 := ⟨fuel' - 1, by omega⟩
          rw [sweep] at h ⊢
          exact ih _ h (by omega)

/-- What a sweep that has ended has made dead. -/
theorem table_of_sweep (hdead : live dead = false) {c c' : Clock β} (hhand : c.hand < n)
    {fuel target : Nat} (hpos : 0 < target) (h : sweep live dead n fuel target c = some c') :
    c'.table = fun i => if victim live n c target i then dead else c.table i := by
  have hle := (sweep_ends_iff hdead hhand target).mp ⟨fuel, c', h⟩
  obtain ⟨_, _, _, _, hsweep⟩ := sweep_exact dead hhand hpos hle
  have hmore := sweep_mono fuel target h (Nat.le_add_right fuel n)
  rw [hsweep (fuel + n) (Nat.le_add_left n fuel)] at hmore
  exact (congrArg Clock.table (Option.some.inj hmore)).symm

end Sweep
