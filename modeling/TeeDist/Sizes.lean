import TeeDist.Config

/-!
# Sizes in configuration files

`td_parse_size_bytes` reads sizes like `64 MB`, and `td_format_bytes` of `mn_main.c` prints
them.  `size_literals` says which texts are read and as what, and that every size is read back
from what is printed for it.
-/

namespace TeeDist

open CText

/-- `td_format_bytes` into a buffer: the largest unit that divides the size. -/
def formatBytes (bufLen : Nat) (bytes : UInt64) : List UInt8 :=
  let gb : UInt64 := 1024 * 1024 * 1024
  let mb : UInt64 := 1024 * 1024
  let kb : UInt64 := 1024
  if bytes % gb = 0 then truncated bufLen (decimalText (bytes / gb).toNat ++ ascii "GB")
  else if bytes % mb = 0 then truncated bufLen (decimalText (bytes / mb).toNat ++ ascii "MB")
  else if bytes % kb = 0 then truncated bufLen (decimalText (bytes / kb).toNat ++ ascii "KB")
  else truncated bufLen (decimalText bytes.toNat ++ ascii "B")

/-- A unit in any letter case, and the bytes it stands for. -/
inductive UnitOf (unit : List UInt8) : Nat → Prop where
  | b : unit.map toLower = ascii "b" → UnitOf unit 1
  | kb : unit.map toLower = ascii "kb" → UnitOf unit 1024
  | mb : unit.map toLower = ascii "mb" → UnitOf unit (1024 * 1024)
  | gb : unit.map toLower = ascii "gb" → UnitOf unit (1024 * 1024 * 1024)

/-- A size literal: 1 to 63 digits and a unit, with white space between them and after them. -/
def SizeLiteral (text : List UInt8) (value : Nat) : Prop :=
  ∃ digits space unit space' multiplier,
    text = digits ++ (space ++ (unit ++ space')) ∧
      (∀ b ∈ digits, isDigit b) ∧ 1 ≤ digits.length ∧ digits.length ≤ 63 ∧
      (∀ b ∈ space, isSpace b) ∧ UnitOf unit multiplier ∧ (∀ b ∈ space', isSpace b) ∧
      value = decimal digits * multiplier

section Units

variable {unit : List UInt8}

theorem unitMultiplier_some {multiplier : UInt64}
    (h : unitMultiplier (unit.map toLower) = some multiplier) : UnitOf unit multiplier.toNat := by
  unfold unitMultiplier at h
  split at h
  next hb =>
    cases h
    exact .b hb
  next =>
    split at h
    next hkb =>
      cases h
      exact .kb hkb
    next =>
      split at h
      next hmb =>
        cases h
        exact .mb hmb
      next =>
        split at h
        next hgb =>
          cases h
          exact .gb hgb
        next => cases h

theorem UnitOf.multiplier_some {m : Nat} (h : UnitOf unit m) :
    unitMultiplier (unit.map toLower) = some (UInt64.ofNat m) := by
  cases h with
  | b h => rw [h]; decide
  | kb h => rw [h]; decide
  | mb h => rw [h]; decide
  | gb h => rw [h]; decide

/-- A unit has one or two letters. -/
theorem UnitOf.letters {m : Nat} (h : UnitOf unit m) :
    (1 ≤ unit.length ∧ unit.length ≤ 2) ∧ ∀ b ∈ unit, isAlpha (toLower b) := by
  have hspelt : ∀ {name : List UInt8}, unit.map toLower = name → 1 ≤ name.length →
      name.length ≤ 2 → name.all isAlpha →
      (1 ≤ unit.length ∧ unit.length ≤ 2) ∧ ∀ b ∈ unit, isAlpha (toLower b) := by
    rintro _ rfl hpos hle hall
    rw [List.length_map] at hpos hle
    exact ⟨⟨hpos, hle⟩, fun b hb => List.all_eq_true.mp hall _ (List.mem_map_of_mem hb)⟩
  cases h with
  | b h => exact hspelt h (by decide) (by decide) (by decide)
  | kb h => exact hspelt h (by decide) (by decide) (by decide)
  | mb h => exact hspelt h (by decide) (by decide) (by decide)
  | gb h => exact hspelt h (by decide) (by decide) (by decide)

theorem UnitOf.pos {m : Nat} (h : UnitOf unit m) : 0 < m ∧ m < 2 ^ 64 := by
  cases h <;> decide

end Units

section Parse

variable {text : List UInt8} {n : UInt64}

/-- The guard against overflow. -/
theorem magnitude_le_iff {magnitude m : Nat} (hm : 0 < m) (hm' : m < 2 ^ 64)
    (hmagnitude : magnitude < 2 ^ 64) :
    ¬ UInt64.ofNat magnitude > 0xffffffffffffffff / UInt64.ofNat m ↔ magnitude * m ≤ 2 ^ 64 - 1 := by
  have hM : (UInt64.ofNat magnitude).toNat = magnitude := UInt64.toNat_ofNat_of_lt' hmagnitude
  have hU : (UInt64.ofNat m).toNat = m := UInt64.toNat_ofNat_of_lt' hm'
  rw [gt_iff_lt, UInt64.not_lt, UInt64.le_iff_toNat_le, UInt64.toNat_div, hM, hU,
    Nat.le_div_iff_mul_le hm]
  rfl

/-- What is left of the parser once the text is taken apart. -/
theorem parseSizeBytes_literal {digits space unit space' : List UInt8} {m : Nat}
    (hdigits : ∀ b ∈ digits, isDigit b) (hpos : 1 ≤ digits.length) (hmost : digits.length ≤ 63)
    (hspace : ∀ b ∈ space, isSpace b) (hunit : UnitOf unit m) (hspace' : ∀ b ∈ space', isSpace b) :
    parseSizeBytes (digits ++ (space ++ (unit ++ space'))) =
      if decimal digits * m ≤ 2 ^ 64 - 1 then some (UInt64.ofNat (decimal digits * m)) else none := by
  obtain ⟨⟨hunitPos, hunitMost⟩, hletters⟩ := hunit.letters
  obtain ⟨hm, hm'⟩ := hunit.pos
  have hne : digits ≠ [] := List.ne_nil_of_length_pos hpos
  have hunitNe : unit ≠ [] := List.ne_nil_of_length_pos hunitPos
  have halpha : ∀ b ∈ unit, isAlpha b := fun b hb => ((classes b).2.2 (hletters b hb)).1
  have hhead : ∀ b ∈ (unit ++ space').head?, isDigit b = false ∧ isSpace b = false := by
    intro b hb
    rw [List.head?_append_of_ne_nil _ hunitNe] at hb
    exact ((classes b).2.2 (hletters b (List.mem_of_mem_head? hb))).2
  obtain ⟨hnumber, hrest⟩ := span_append hdigits (space ++ (unit ++ space')) (by
    cases space with
    | nil => exact fun b hb => (hhead b hb).1
    | cons s space => simp [((classes s).2.1 (hspace s List.mem_cons_self)).1])
  obtain ⟨_, hafter⟩ := span_append hspace (unit ++ space') fun b hb => (hhead b hb).2
  obtain ⟨hletter, htail⟩ := span_append halpha space' (by
    cases space' with
    | nil => simp
    | cons s space' => simp [((classes s).2.1 (hspace' s List.mem_cons_self)).2])
  obtain ⟨_, hend⟩ := span_append hspace' [] (by simp)
  rw [List.append_nil] at hend
  have hshape : ¬ (64 ≤ digits.length ∨ 8 ≤ (unit.map toLower).length ∨ digits = [] ∨
      unit.map toLower = [] ∨ ([] : List UInt8) ≠ []) := by
    rw [List.length_map, List.map_eq_nil_iff]
    simp only [hne, hunitNe, ne_eq, not_true_eq_false, or_false]
    omega
  unfold parseSizeBytes
  simp only [hnumber, hrest, hafter, hletter, htail, hend]
  rw [if_neg hshape, strtoull_digits hne hdigits]
  by_cases hover : 2 ^ 64 ≤ decimal digits
  · have hmul : 2 ^ 64 ≤ decimal digits * m := hover.trans (Nat.le_mul_of_pos_right _ hm)
    simp only [if_pos hover, if_true]
    rw [if_neg (by omega)]
  · rw [if_neg hover]
    simp only [Bool.false_eq_true, if_false, hunit.multiplier_some]
    have hguard := magnitude_le_iff hm hm' (Nat.not_le.mp hover)
    by_cases hfits : decimal digits * m ≤ 2 ^ 64 - 1
    · rw [if_neg (hguard.mpr hfits), if_pos hfits, UInt64.ofNat_mul]
    · rw [if_pos (not_not.mp (mt hguard.mp hfits)), if_neg hfits]

/-- A text that is read is taken apart by the four loops. -/
theorem parseSizeBytes_shape (h : parseSizeBytes text = some n) :
    ∃ digits space unit space' m, text = digits ++ (space ++ (unit ++ space')) ∧
      (∀ b ∈ digits, isDigit b) ∧ 1 ≤ digits.length ∧ digits.length ≤ 63 ∧
      (∀ b ∈ space, isSpace b) ∧ UnitOf unit m ∧ (∀ b ∈ space', isSpace b) := by
  unfold parseSizeBytes at h
  simp only [] at h
  split at h
  · cases h
  next hshape =>
    simp only [not_or, not_not] at hshape
    obtain ⟨hnumber, _, hne, _, hend⟩ := hshape
    split at h
    · cases h
    · split at h
      · cases h
      next multiplier hunit =>
        have hall : ∀ (p : UInt8 → Bool) (bs : List UInt8), ∀ b ∈ bs.takeWhile p, p b :=
          fun p bs => List.all_eq_true.mp List.all_takeWhile
        refine ⟨_, _, _, _, _, ?_, hall isDigit text, List.length_pos_iff.mpr hne, by omega,
          hall isSpace (text.dropWhile isDigit), unitMultiplier_some hunit,
          hall isSpace (((text.dropWhile isDigit).dropWhile isSpace).dropWhile isAlpha)⟩
        have hlast := List.takeWhile_append_dropWhile (p := isSpace)
          (l := ((text.dropWhile isDigit).dropWhile isSpace).dropWhile isAlpha)
        rw [hend, List.append_nil] at hlast
        rw [hlast, List.takeWhile_append_dropWhile, List.takeWhile_append_dropWhile,
          List.takeWhile_append_dropWhile]

/-- The parser reads size literals, and nothing else. -/
theorem parseSizeBytes_iff (text : List UInt8) (value : Nat) :
    (∃ n, parseSizeBytes text = some n ∧ n.toNat = value) ↔
      SizeLiteral text value ∧ value ≤ 2 ^ 64 - 1 := by
  constructor
  · rintro ⟨n, h, rfl⟩
    obtain ⟨digits, space, unit, space', m, rfl, hdigits, hpos, hmost, hspace, hunit, hspace'⟩ :=
      parseSizeBytes_shape h
    rw [parseSizeBytes_literal hdigits hpos hmost hspace hunit hspace'] at h
    split at h
    next hfits =>
      cases h
      rw [UInt64.toNat_ofNat_of_lt' (show _ < 2 ^ 64 by omega)]
      exact ⟨⟨digits, space, unit, space', m, rfl, hdigits, hpos, hmost, hspace, hunit, hspace', rfl⟩,
        hfits⟩
    next => cases h
  · rintro ⟨⟨digits, space, unit, space', m, rfl, hdigits, hpos, hmost, hspace, hunit, hspace', rfl⟩,
      hfits⟩
    refine ⟨_, ?_, UInt64.toNat_ofNat_of_lt' (show _ < 2 ^ 64 by omega)⟩
    rw [parseSizeBytes_literal hdigits hpos hmost hspace hunit hspace', if_pos hfits]

end Parse

/-! ## What is printed -/

/-- A number of units is read back. -/
theorem parseSizeBytes_decimalText {unit : List UInt8} {m k : Nat} (hunit : UnitOf unit m)
    (hfits : k * m ≤ 2 ^ 64 - 1) :
    parseSizeBytes (truncated 32 (decimalText k ++ unit)) = some (UInt64.ofNat (k * m)) := by
  obtain ⟨⟨_, hunitMost⟩, _⟩ := hunit.letters
  have hk : k < 10 ^ 20 := by
    have := Nat.le_mul_of_pos_right k hunit.pos.1
    omega
  have hlen := length_decimalText_le (by decide) hk
  have hpos := List.length_pos_iff.mpr (decimalText_ne_nil k)
  have hnone : ∀ b ∈ ([] : List UInt8), isSpace b := by simp
  have hread := parseSizeBytes_literal (isDigit_decimalText k) hpos (by omega) hnone hunit hnone
  rw [decimal_decimalText, if_pos hfits, List.nil_append, List.append_nil] at hread
  rw [truncated, List.take_of_length_le (by rw [List.length_append]; omega)]
  exact hread

/-- A size is read back in a unit that divides it. -/
theorem parseSizeBytes_printed {unit : List UInt8} {n multiplier : UInt64}
    (hunit : UnitOf unit multiplier.toNat) (hdvd : n % multiplier = 0) :
    parseSizeBytes (truncated 32 (decimalText (n / multiplier).toNat ++ unit)) = some n := by
  have hmod : n.toNat % multiplier.toNat = 0 := by
    rw [← UInt64.toNat_mod, hdvd]
    rfl
  have hexact : (n / multiplier).toNat * multiplier.toNat = n.toNat := by
    rw [UInt64.toNat_div]
    exact Nat.div_mul_cancel (Nat.dvd_of_mod_eq_zero hmod)
  have hlt := n.toNat_lt
  rw [parseSizeBytes_decimalText hunit (by omega), hexact, UInt64.ofNat_toNat]

/-- Which texts are read and as what, and that what is printed is read back. -/
theorem size_literals :
    (∀ (text : List UInt8) (value : Nat), (∃ n, parseSizeBytes text = some n ∧ n.toNat = value) ↔
      SizeLiteral text value ∧ value ≤ 2 ^ 64 - 1) ∧
    ∀ n : UInt64, parseSizeBytes (formatBytes 32 n) = some n := by
  refine ⟨parseSizeBytes_iff, fun n => ?_⟩
  unfold formatBytes
  simp only []
  split
  next hgb => exact parseSizeBytes_printed (.gb (by decide)) hgb
  next =>
    split
    next hmb => exact parseSizeBytes_printed (.mb (by decide)) hmb
    next =>
      split
      next hkb => exact parseSizeBytes_printed (.kb (by decide)) hkb
      next =>
        have hlt := n.toNat_lt
        rw [parseSizeBytes_decimalText (.b (by decide)) (by omega), Nat.mul_one, UInt64.ofNat_toNat]

example : parseSizeBytes (ascii "64 Mb ") = some 67108864 := by decide +kernel

end TeeDist
