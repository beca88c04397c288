import Mathlib.Data.Nat.Count
import Mathlib.Data.Fintype.Card
import Mathlib.Order.Interval.Finset.Nat

/-!
# Elections by arrival and rank

There are `n` voters, numbered from zero.  A voter votes for the candidate that reaches it
first, and some voters *block* some candidates.  A candidate leads if a majority votes for
it, or if all voters that block it do.  `decided_iff` says for which `n`, candidates and
blocks there is exactly one leader whoever reaches whom first.
-/

namespace Voting

variable {ι : Type} [DecidableEq ι]

/-- Candidate `i` leads when `first b` is who reached the voter `b` first. -/
def Leads (n : Nat) (first : Nat → ι) (blocks : ι → Nat → Prop) (i : ι) : Prop :=
  n < 2 * Nat.count (fun b => first b = i) n ∨ ∀ b < n, blocks i b → first b = i

/-- There are at most two voters, one of which blocks everybody and the other one nobody.  Or
there are two candidates, the number of voters is odd, and a majority of them blocks each
candidate. -/
def Decided [Fintype ι] (n : Nat) (blocks : ι → Nat → Prop) [∀ i, DecidablePred (blocks i)] :
    Prop :=
  (n ≤ 2 ∧ ∃ b₀ < n, ∀ i, ∀ b < n, blocks i b ↔ b = b₀) ∨
    (n % 2 = 1 ∧ Fintype.card ι = 2 ∧ ∀ i, n < 2 * Nat.count (blocks i) n)

/-! ## Counting -/

section Count

variable {n : Nat} {p q : Nat → Prop} [DecidablePred p] [DecidablePred q]

theorem count_add_count_not (n : Nat) (p : Nat → Prop) [DecidablePred p] :
    Nat.count p n + Nat.count (fun b => ¬ p b) n = n := by
  rw [Nat.count_eq_card_filter_range, Nat.count_eq_card_filter_range,
    Finset.card_filter_add_card_filter_not, Finset.card_range]

theorem count_congr (h : ∀ b < n, p b ↔ q b) : Nat.count p n = Nat.count q n :=
  Nat.le_antisymm (Nat.count_mono_left fun b hb => (h b hb).mp)
    (Nat.count_mono_left fun b hb => (h b hb).mpr)

/-- Of two properties of which one implies the other, the weaker one is the stronger one if no
more voters have it. -/
theorem iff_of_count_le (h : ∀ b < n, p b → q b) (hle : Nat.count q n ≤ Nat.count p n) :
    ∀ b < n, p b ↔ q b := by
  rw [Nat.count_eq_card_filter_range, Nat.count_eq_card_filter_range] at hle
  have hsub : (Finset.range n).filter p ⊆ (Finset.range n).filter q := by
    intro b hb
    obtain ⟨hlt, hp⟩ := Finset.mem_filter.mp hb
    exact Finset.mem_filter.mpr ⟨hlt, h b (Finset.mem_range.mp hlt) hp⟩
  have heq := Finset.eq_of_subset_of_card_le hsub hle
  intro b hb
  refine ⟨h b hb, fun hq => ?_⟩
  have hmem : b ∈ (Finset.range n).filter q := Finset.mem_filter.mpr ⟨Finset.mem_range.mpr hb, hq⟩
  rw [← heq] at hmem
  exact (Finset.mem_filter.mp hmem).2

/-- A window of `k` voters. -/
theorem count_window {n s k : Nat} (h : s + k ≤ n) :
    Nat.count (fun b => s ≤ b ∧ b < s + k) n = k := by
  have heq : (Finset.range n).filter (fun b => s ≤ b ∧ b < s + k) = Finset.Ico s (s + k) := by
    ext b
    simp only [Finset.mem_filter, Finset.mem_range, Finset.mem_Ico]
    omega
  rw [Nat.count_eq_card_filter_range, heq, Nat.card_Ico]
  omega

end Count

/-! ## One leader -/

section Leads

variable {n : Nat} {first : Nat → ι} {blocks : ι → Nat → Prop}

theorem leads_iff_of_one {b₀ : Nat} (hn : n ≤ 2) (hb₀ : b₀ < n)
    (hblocks : ∀ i, ∀ b < n, blocks i b ↔ b = b₀) (i : ι) :
    Leads n first blocks i ↔ i = first b₀ := by
  constructor
  · rintro (hmaj | hall)
    · have hle := Nat.count_le (fun b => first b = i) (n := n)
      have hfull : Nat.count (fun b => first b = i) n = n := by omega
      exact (Nat.count_iff_forall.mp hfull b₀ hb₀).symm
    · exact (hall b₀ hb₀ ((hblocks i b₀ hb₀).mpr rfl)).symm
  · rintro rfl
    refine Or.inr fun b hb hblock => ?_
    rw [(hblocks _ b hb).mp hblock]

/-- With two candidates, who does not vote for one votes for the other. -/
theorem count_first_add (n : Nat) (first : Nat → ι) {i j : ι} (hij : ∀ k, k = i ∨ k = j) (hne : i ≠ j) :
    Nat.count (fun b => first b = i) n + Nat.count (fun b => first b = j) n = n := by
  have hother : Nat.count (fun b => first b = j) n = Nat.count (fun b => ¬ first b = i) n := by
    refine count_congr fun b _ => ?_
    rcases hij (first b) with h | h
    · simp [h, hne]
    · simp [h, Ne.symm hne]
  rw [hother]
  exact count_add_count_not n _

/-- If a majority blocks a candidate, it leads only with a majority. -/
theorem Leads.majority [∀ i, DecidablePred (blocks i)] {i : ι} (hi : Leads n first blocks i)
    (hblocks : n < 2 * Nat.count (blocks i) n) : n < 2 * Nat.count (fun b => first b = i) n := by
  rcases hi with hmaj | hall
  · exact hmaj
  · have := Nat.count_mono_left hall
    omega

theorem leads_iff_of_two [∀ i, DecidablePred (blocks i)] {i j : ι} (hij : ∀ k, k = i ∨ k = j)
    (hne : i ≠ j) (hblocks : ∀ k, n < 2 * Nat.count (blocks k) n)
    (hi : n < 2 * Nat.count (fun b => first b = i) n) (k : ι) : Leads n first blocks k ↔ k = i := by
  constructor
  · intro hk
    refine (hij k).resolve_right ?_
    rintro rfl
    have hmaj := hk.majority (hblocks k)
    have hsum := count_first_add n first hij hne
    omega
  · rintro rfl
    exact Or.inl hi

/-- In a decided election there is one leader. -/
theorem Decided.leads [Fintype ι] [∀ i, DecidablePred (blocks i)] (hd : Decided n blocks)
    (first : Nat → ι) : ∃! i, Leads n first blocks i := by
  suffices h : ∃ i, ∀ j, Leads n first blocks j ↔ j = i by
    obtain ⟨i, hi⟩ := h
    exact ⟨i, (hi i).mpr rfl, fun j hj => (hi j).mp hj⟩
  rcases hd with ⟨hn, b₀, hb₀, hblocks⟩ | ⟨hodd, hcard, hblocks⟩
  · exact ⟨_, leads_iff_of_one hn hb₀ hblocks⟩
  · obtain ⟨i, j, hne, huniv⟩ := Finset.card_eq_two.mp hcard
    have hij : ∀ k, k = i ∨ k = j := fun k => by
      have hk := Finset.mem_univ k
      rwa [huniv, Finset.mem_insert, Finset.mem_singleton] at hk
    have hsum := count_first_add n first hij hne
    by_cases hi : n < 2 * Nat.count (fun b => first b = i) n
    · exact ⟨i, leads_iff_of_two hij hne hblocks hi⟩
    · exact ⟨j, leads_iff_of_two (fun k => (hij k).symm) (Ne.symm hne) hblocks (by omega)⟩

end Leads

/-! ## Elections that are not decided -/

section Undecided

variable {n : Nat} {blocks : ι → Nat → Prop} [∀ i, DecidablePred (blocks i)]
  (hone : ∀ first : Nat → ι, ∃! i, Leads n first blocks i)

include hone

/-- At least half of the voters block a candidate that has a rival.  If fewer did, the candidate
could get their votes and the rival the others. -/
theorem half_blocks {i j : ι} (hne : i ≠ j) : n ≤ 2 * Nat.count (blocks i) n := by
  by_contra hlt
  let first := fun b => if blocks i b then i else j
  have hi : Leads n first blocks i := Or.inr fun b _ hb => if_pos hb
  have hvotes : Nat.count (fun b => first b = j) n = Nat.count (fun b => ¬ blocks i b) n := by
    refine count_congr fun b _ => ?_
    by_cases hb : blocks i b <;> simp [first, hb, hne]
  have hsum := count_add_count_not n (blocks i)
  have hj : Leads n first blocks j := Or.inl (by omega)
  exact hne ((hone first).unique hi hj)

/-- If nobody has more than half of the votes, the leader's votes are those of the voters that
block it. -/
theorem exists_votes_eq_blocks (htwo : ∀ i : ι, ∃ j, i ≠ j) (first : Nat → ι)
    (hhalf : ∀ i, 2 * Nat.count (fun b => first b = i) n ≤ n) :
    ∃ i, 2 * Nat.count (fun b => first b = i) n = n ∧ ∀ b < n, blocks i b ↔ first b = i := by
  obtain ⟨i, hi, _⟩ := hone first
  obtain ⟨j, hne⟩ := htwo i
  have hblocks := half_blocks hone hne
  have hle := hhalf i
  rcases hi with hmaj | hall
  · omega
  · have hmono := Nat.count_mono_left hall
    exact ⟨i, by omega, iff_of_count_le hall (by omega)⟩

/-- The votes of an even number of voters can be split between two candidates, one of which
gets a window. -/
theorem window_split (htwo : ∀ i : ι, ∃ j, i ≠ j) {k s : Nat} (hn : n = 2 * k) (hs : s + k ≤ n)
    {i j : ι} (hne : i ≠ j) :
    (∀ b < n, blocks i b ↔ s ≤ b ∧ b < s + k) ∨ (∀ b < n, blocks j b ↔ ¬ (s ≤ b ∧ b < s + k)) := by
  let first := fun b => if s ≤ b ∧ b < s + k then i else j
  have hi : ∀ b, first b = i ↔ s ≤ b ∧ b < s + k := fun b => by
    by_cases hb : s ≤ b ∧ b < s + k <;> simp [first, hb, Ne.symm hne]
  have hj : ∀ b, first b = j ↔ ¬ (s ≤ b ∧ b < s + k) := fun b => by
    by_cases hb : s ≤ b ∧ b < s + k <;> simp [first, hb, hne]
  have hwindow := count_window hs
  have hrest := count_add_count_not n (fun b => s ≤ b ∧ b < s + k)
  have hnobody : ∀ l, l ≠ i → l ≠ j → Nat.count (fun b => first b = l) n = 0 := fun l hli hlj => by
    refine Nat.count_iff_forall_not.mpr fun b _ hb => ?_
    by_cases hw : s ≤ b ∧ b < s + k
    · exact hli (hb.symm.trans ((hi b).mpr hw))
    · exact hlj (hb.symm.trans ((hj b).mpr hw))
  obtain ⟨l, hvotes, hl⟩ := exists_votes_eq_blocks hone htwo first fun l => by
    by_cases hli : l = i
    · subst hli
      rw [count_congr fun b _ => hi b]
      omega
    · by_cases hlj : l = j
      · subst hlj
        rw [count_congr fun b _ => hj b]
        omega
      · rw [hnobody l hli hlj]
        omega
  by_cases hli : l = i
  · subst hli
    exact Or.inl fun b hb => (hl b hb).trans (hi b)
  · by_cases hlj : l = j
    · subst hlj
      exact Or.inr fun b hb => (hl b hb).trans (hj b)
    · rw [hnobody l hli hlj] at hvotes
      exact Or.inl fun b hb => by omega

/-- Four or more voters of an even number cannot decide. -/
theorem le_two_of_even (htwo : ∀ i : ι, ∃ j, i ≠ j) [Nonempty ι] (heven : n % 2 = 0) : n ≤ 2 := by
  by_contra hgt
  obtain ⟨k, hk⟩ : ∃ k, n = 2 * k := ⟨n / 2, by omega⟩
  obtain ⟨i⟩ := ‹Nonempty ι›
  obtain ⟨j, hne⟩ := htwo i
  -- Of three windows two are the blocks of one candidate, or the complements of the other's.
  have h₀ := window_split hone htwo hk (s := 0) (by omega) hne
  have h₁ := window_split hone htwo hk (s := 1) (by omega) hne
  have h₂ := window_split hone htwo hk (s := 2) (by omega) hne
  have hzero : 0 < n := by omega
  have hlast : 1 < n := by omega
  rcases h₀ with h₀ | h₀ <;> rcases h₁ with h₁ | h₁ <;> rcases h₂ with h₂ | h₂ <;>
    have a₀ := h₀ 0 hzero <;> have a₁ := h₁ 0 hzero <;> have a₂ := h₂ 0 hzero <;>
    have b₁ := h₁ 1 hlast <;> have b₂ := h₂ 1 hlast <;> grind

/-- Two voters that decide block everybody alike, and one of them nobody. -/
theorem one_blocks_of_two (htwo : ∀ i : ι, ∃ j, i ≠ j) (hn : n = 2) {i j : ι} (hne : i ≠ j) :
    ∃ b₀ < n, (∀ b < n, blocks i b ↔ b = b₀) ∧ ∀ b < n, blocks j b ↔ b = b₀ := by
  subst hn
  rcases window_split hone htwo (k := 1) (s := 0) rfl (by omega) hne with h₀ | h₀ <;>
    rcases window_split hone htwo (k := 1) (s := 1) rfl (by omega) hne with h₁ | h₁
  · have := (h₀ 0 (by omega)).symm.trans (h₁ 0 (by omega))
    omega
  · refine ⟨0, by omega, fun b hb => (h₀ b hb).trans ?_, fun b hb => (h₁ b hb).trans ?_⟩ <;> omega
  · refine ⟨1, by omega, fun b hb => (h₁ b hb).trans ?_, fun b hb => (h₀ b hb).trans ?_⟩ <;> omega
  · have := (h₀ 0 (by omega)).symm.trans (h₁ 0 (by omega))
    omega

/-- Three or more voters of an odd number cannot decide between three candidates: two can get
the same number of votes, and the third one the vote that is left. -/
theorem not_three_of_odd (htwo : ∀ i : ι, ∃ j, i ≠ j) (hodd : n % 2 = 1) (hn : 1 < n) {i j l : ι}
    (hij : i ≠ j) (hil : i ≠ l) (hjl : j ≠ l) : False := by
  obtain ⟨k, hk⟩ : ∃ k, n = 2 * k + 1 := ⟨n / 2, by omega⟩
  let first := fun b => if b < k then i else if b < 2 * k then j else l
  have hwindow : ∀ m, ∃ s, s + k ≤ n ∧ ∀ b < n, first b = m → s ≤ b ∧ b < s + k := by
    intro m
    by_cases hi : m = i
    · refine ⟨0, by omega, fun b hb he => ?_⟩
      simp only [first] at he
      grind
    · by_cases hj : m = j
      · refine ⟨k, by omega, fun b hb he => ?_⟩
        simp only [first] at he
        grind
      · refine ⟨k + 1, by omega, fun b hb he => ?_⟩
        simp only [first] at he
        grind
  have hle : ∀ m, Nat.count (fun b => first b = m) n ≤ k := by
    intro m
    obtain ⟨s, hs, hin⟩ := hwindow m
    calc Nat.count (fun b => first b = m) n ≤ Nat.count (fun b => s ≤ b ∧ b < s + k) n :=
          Nat.count_mono_left hin
      _ = k := count_window hs
  obtain ⟨m, hvotes, _⟩ := exists_votes_eq_blocks hone htwo first fun m => by
    have := hle m
    omega
  omega

/-- Only decided elections have one leader whoever reaches whom first. -/
theorem decided_of_leads [Fintype ι] (hcard : 2 ≤ Fintype.card ι) (hpos : 0 < n) :
    Decided n blocks := by
  have : Nontrivial ι := Fintype.one_lt_card_iff_nontrivial.mp (by omega)
  have htwo : ∀ i : ι, ∃ j, i ≠ j := fun i => by
    obtain ⟨j, hj⟩ := exists_ne i
    exact ⟨j, hj.symm⟩
  have hhalf : ∀ i, n ≤ 2 * Nat.count (blocks i) n := fun i => by
    obtain ⟨j, hne⟩ := htwo i
    exact half_blocks hone hne
  by_cases hn : n = 1
  · subst hn
    refine Or.inl ⟨by omega, 0, by omega, fun i b hb => ?_⟩
    have hi := hhalf i
    rw [Nat.count_one] at hi
    split at hi
    · rename_i h
      obtain rfl : b = 0 := by omega
      simp [h]
    · omega
  · rcases Nat.mod_two_eq_zero_or_one n with heven | hodd
    · have hle := le_two_of_even hone htwo heven
      obtain ⟨i⟩ := (inferInstance : Nonempty ι)
      obtain ⟨j, hij⟩ := htwo i
      obtain ⟨b₀, hb₀, hi, _⟩ := one_blocks_of_two hone htwo (by omega) hij
      refine Or.inl ⟨hle, b₀, hb₀, fun l b hb => ?_⟩
      by_cases hl : l = i
      · subst hl
        exact hi b hb
      · obtain ⟨b₁, hb₁, hi', hl'⟩ := one_blocks_of_two hone htwo (by omega) (Ne.symm hl)
        obtain rfl : b₀ = b₁ := (hi' b₀ hb₀).mp ((hi b₀ hb₀).mpr rfl)
        exact hl' b hb
    · refine Or.inr ⟨hodd, ?_, fun i => ?_⟩
      · by_contra hne
        obtain ⟨i, j, l, hij, hil, hjl⟩ := Fintype.two_lt_card_iff.mp (by omega : 2 < Fintype.card ι)
        exact not_three_of_odd hone htwo hodd (by omega) hij hil hjl
      · have := hhalf i
        omega

end Undecided

/-- With two candidates or more and at least one voter, there is one leader whoever reaches whom
first exactly if the election is decided. -/
theorem decided_iff [Fintype ι] {n : Nat} {blocks : ι → Nat → Prop}
    [∀ i, DecidablePred (blocks i)] (hcard : 2 ≤ Fintype.card ι) (hpos : 0 < n) :
    (∀ first : Nat → ι, ∃! i, Leads n first blocks i) ↔ Decided n blocks :=
  ⟨fun hone => decided_of_leads hone hcard hpos, Decided.leads⟩

end Voting
