import Mathlib.Algebra.BigOperators.Ring.Finset
import Mathlib.Algebra.Order.BigOperators.Group.Finset
import Mathlib.Algebra.Order.Field.Basic
import Mathlib.Algebra.Order.Field.Rat
import Mathlib.Tactic.Linarith

/-!
# Sharing by weight

A number of units is shared among the members of a finite set by their weights.  Each member
first gets its share rounded down; the units that are left over go, one each, to the members
with the largest remainders.  `Served` describes the members that have got one of these units so
far: the rounding loses less than one unit a member, so there always is a next one that was not
served and has a remainder (`exists_leftover`).
-/

namespace Apportion

variable {ι : Type} (members : Finset ι) (weight : ι → ℕ) (units : ℕ)

/-- The sum of the weights. -/
def weightSum : ℕ := ∑ i ∈ members, weight i

/-- The share of a member, rounded down. -/
def share (i : ι) : ℕ := units * weight i / weightSum members weight

/-- What rounding takes from a member, in parts of a unit. -/
def leftover (i : ι) : ℕ := units * weight i % weightSum members weight

/-- The units that are left over. -/
def missing : ℕ := units - ∑ i ∈ members, share members weight units i

/-- The members `served` come first: by their remainders, then by a priority. -/
structure Served (priority : ι → ℕ) (served : Finset ι) : Prop where
  subset : served ⊆ members
  pos : ∀ i ∈ served, 0 < leftover members weight units i
  first : ∀ i ∈ served, ∀ j ∈ members, j ∉ served →
    leftover members weight units j < leftover members weight units i ∨
      (leftover members weight units j = leftover members weight units i ∧ priority i < priority j)

variable {members weight units}

theorem Served.empty (priority : ι → ℕ) : Served members weight units priority ∅ where
  subset := Finset.empty_subset _
  pos i hi := absurd hi (Finset.notMem_empty i)
  first i hi := absurd hi (Finset.notMem_empty i)

/-- The next member. -/
theorem Served.insert [DecidableEq ι] {priority : ι → ℕ} {served : Finset ι} {i : ι}
    (h : Served members weight units priority served) (hi : i ∈ members)
    (hpos : 0 < leftover members weight units i)
    (hfirst : ∀ j ∈ members, j ∉ served → j ≠ i →
      leftover members weight units j < leftover members weight units i ∨
        (leftover members weight units j = leftover members weight units i ∧
          priority i < priority j)) :
    Served members weight units priority (insert i served) where
  subset := Finset.insert_subset hi h.subset
  pos j hj := by
    obtain rfl | hj := Finset.mem_insert.mp hj
    · exact hpos
    · exact h.pos j hj
  first j hj k hk hnot := by
    rw [Finset.mem_insert, not_or] at hnot
    obtain rfl | hj := Finset.mem_insert.mp hj
    · exact hfirst k hk hnot.2 hnot.1
    · exact h.first j hj k hk hnot.2

/-- Division with remainder, summed up. -/
theorem sum_share_add (members : Finset ι) (weight : ι → ℕ) (units : ℕ) :
    weightSum members weight * ∑ i ∈ members, share members weight units i +
        ∑ i ∈ members, leftover members weight units i =
      weightSum members weight * units := by
  have hdivmod : ∀ i ∈ members, units * weight i =
      weightSum members weight * share members weight units i + leftover members weight units i :=
    fun i _ => (Nat.div_add_mod ..).symm
  calc weightSum members weight * ∑ i ∈ members, share members weight units i +
        ∑ i ∈ members, leftover members weight units i
      = ∑ i ∈ members, units * weight i := by
        rw [Finset.sum_congr rfl hdivmod, Finset.sum_add_distrib, Finset.mul_sum]
    _ = weightSum members weight * units := by
        rw [← Finset.mul_sum, Nat.mul_comm]
        rfl

section Positive

variable (hpos : 0 < weightSum members weight)
include hpos

/-- Rounded down, the shares are no more than the whole. -/
theorem sum_share_le : ∑ i ∈ members, share members weight units i ≤ units := by
  have hsum := sum_share_add members weight units
  exact Nat.le_of_mul_le_mul_left (by omega) hpos

theorem sum_share_add_missing (units : ℕ) :
    ∑ i ∈ members, share members weight units i + missing members weight units = units :=
  Nat.add_sub_of_le (sum_share_le hpos)

/-- The remainders add up to the units that are left over. -/
theorem sum_leftover : ∑ i ∈ members, leftover members weight units i =
    weightSum members weight * missing members weight units := by
  have hsum := sum_share_add members weight units
  have hmul := congrArg (weightSum members weight * ·)
    (sum_share_add_missing hpos units)
  simp only [Nat.mul_add] at hmul
  omega

theorem leftover_lt (i : ι) : leftover members weight units i < weightSum members weight :=
  Nat.mod_lt _ hpos

/-- As long as there are units left over, a member that was not served has a remainder. -/
theorem exists_leftover [DecidableEq ι] {served : Finset ι} (hserved : served ⊆ members)
    (h : served.card < missing members weight units) :
    ∃ i ∈ members, i ∉ served ∧ 0 < leftover members weight units i := by
  have hsplit := Finset.sum_sdiff (f := leftover members weight units) hserved
  have hmost : ∑ i ∈ served, leftover members weight units i ≤
      served.card * weightSum members weight :=
    Finset.sum_le_card_nsmul _ _ _ fun i _ => (leftover_lt hpos i).le
  have hless : served.card * weightSum members weight <
      weightSum members weight * missing members weight units := by
    rw [Nat.mul_comm]
    exact Nat.mul_lt_mul_of_pos_left h hpos
  have hrest : ∑ i ∈ members \ served, leftover members weight units i ≠ 0 := by
    rw [sum_leftover hpos] at hsplit
    omega
  obtain ⟨i, hi, hne⟩ := Finset.exists_ne_zero_of_sum_ne_zero hrest
  obtain ⟨hmem, hnot⟩ := Finset.mem_sdiff.mp hi
  exact ⟨i, hmem, hnot, Nat.pos_of_ne_zero hne⟩

/-- Fewer units are left over than there are members. -/
theorem missing_lt_card (units : ℕ) : missing members weight units < members.card := by
  have hne : members.Nonempty := by
    rw [Finset.nonempty_iff_ne_empty]
    rintro rfl
    exact absurd hpos (Nat.lt_irrefl 0)
  have hlt : ∑ i ∈ members, leftover members weight units i <
      ∑ _i ∈ members, weightSum members weight :=
    Finset.sum_lt_sum_of_nonempty hne fun i _ => leftover_lt hpos i
  rw [sum_leftover hpos, Finset.sum_const_nat fun _ _ => rfl, Nat.mul_comm] at hlt
  exact Nat.lt_of_mul_lt_mul_right hlt

/-- No share is more than the whole. -/
theorem share_le (units : ℕ) {i : ι} (hi : i ∈ members) : share members weight units i ≤ units :=
  (Finset.single_le_sum (fun _ _ => Nat.zero_le _) hi).trans (sum_share_le hpos)

/-- A share that is rounded down, or up if there is a remainder, is less than a unit off. -/
theorem abs_share_sub_lt {i : ι} {n : ℕ}
    (h : n = share members weight units i ∨
      (n = share members weight units i + 1 ∧ 0 < leftover members weight units i)) :
    |(n : ℚ) - units * weight i / weightSum members weight| < 1 := by
  have hW : (0 : ℚ) < weightSum members weight := by exact_mod_cast hpos
  have hdivmod : (units * weight i : ℚ) = weightSum members weight * share members weight units i +
      leftover members weight units i := by
    exact_mod_cast (Nat.div_add_mod (units * weight i) (weightSum members weight)).symm
  have hlt : (leftover members weight units i : ℚ) < weightSum members weight := by
    exact_mod_cast leftover_lt hpos i
  have hquota : (units * weight i / weightSum members weight : ℚ) =
      share members weight units i +
        leftover members weight units i / weightSum members weight := by
    rw [hdivmod, add_div, mul_div_cancel_left₀ _ hW.ne']
  have hpart : (leftover members weight units i / weightSum members weight : ℚ) < 1 :=
    (div_lt_one hW).mpr hlt
  have hnonneg : (0 : ℚ) ≤ leftover members weight units i / weightSum members weight :=
    div_nonneg (Nat.cast_nonneg _) hW.le
  rw [hquota, abs_lt]
  obtain rfl | ⟨rfl, hrem⟩ := h
  · constructor <;> linarith
  · have hsome : (0 : ℚ) < leftover members weight units i / weightSum members weight :=
      div_pos (by exact_mod_cast hrem) hW
    rw [Nat.cast_succ]
    constructor <;> linarith

end Positive

end Apportion
