import Mathlib.Data.List.Nodup
import Mathlib.Data.List.Perm.Subperm
import Mathlib.Data.Nat.ModEq
import Mathlib.Logic.Function.Basic

/-!
# Open addressing with tombstones

A probe walks over slots in an order fixed by the key.  It stops at the slot of
the key or at an empty slot, and remembers the first slot on its way that an
insertion may take.  `scan` is that walk, over the classes of the slots it
meets, and `scan_meets` is what it returns: the outcome meets a specification
(`Meets`) that no other outcome meets (`Meets.unique`).  The same in terms of the
slots that the walk has examined (`walked`) is `scan_describes`.

A table is *placed* when no key owns two slots and no slot between the home of
a key and the slot it owns is empty.  `Placed.update` says that an insertion at
the slot a probe returns keeps a table placed, and `Placed.scan_found` that a key
which owns a slot of a placed table is found there.
-/

namespace Probing

/-! ## The walk -/

/-- How a probe for one key sees a slot. -/
inductive SlotClass where
  /-- The slot of the key. -/
  | hit
  /-- A slot an insertion may take over, on a chain that goes on. -/
  | reusable
  /-- A slot never used, the end of every chain through it. -/
  | empty
  /-- A slot to walk past. -/
  | skip
deriving DecidableEq, Repr

/-- What a probe returns, slots being numbered in the order of the walk. -/
inductive Outcome where
  /-- The key owns the slot. -/
  | found (j : Nat)
  /-- The key owns no slot on the walk, and an insertion takes this one. -/
  | free (j : Nat)
  /-- No slot of the key and none to take. -/
  | full
deriving DecidableEq, Repr

/-- Walk over `n` slots from the `j`-th on, `cand` being the first slot an
insertion may take among those passed. -/
def scan (cls : Nat → SlotClass) : Nat → Nat → Option Nat → Outcome
  | 0, _, none => .full
  | 0, _, some c => .free c
  | n + 1, j, cand =>
      match cls j with
      | .hit => .found j
      | .reusable => scan cls n (j + 1) (cand.or (some j))
      | .empty => .free (cand.getD j)
      | .skip => scan cls n (j + 1) cand

/-- What an outcome of a walk over `m` slots says about them. -/
def Meets (cls : Nat → SlotClass) (m : Nat) : Outcome → Prop
  | .found j => j < m ∧ cls j = .hit ∧ ∀ i < j, cls i ≠ .hit ∧ cls i ≠ .empty
  | .free j => j < m ∧ (cls j = .reusable ∨ cls j = .empty) ∧ (∀ i < j, cls i = .skip) ∧
      ∃ e ≤ m, j ≤ e ∧ (∀ i < e, cls i ≠ .hit ∧ cls i ≠ .empty) ∧ (e < m → cls e = .empty)
  | .full => ∀ i < m, cls i = .skip

/-- What the walk knows at the `j`-th slot. -/
def Passed (cls : Nat → SlotClass) (j : Nat) : Option Nat → Prop
  | none => ∀ i < j, cls i = .skip
  | some c => c < j ∧ cls c = .reusable ∧ (∀ i < c, cls i = .skip) ∧
      ∀ i < j, cls i ≠ .hit ∧ cls i ≠ .empty

theorem Passed.no_stop {cls : Nat → SlotClass} {j : Nat} :
    ∀ {cand : Option Nat}, Passed cls j cand → ∀ i < j, cls i ≠ .hit ∧ cls i ≠ .empty
  | none, h, i, hi => by rw [h i hi]; exact ⟨nofun, nofun⟩
  | some _, h, i, hi => h.2.2.2 i hi

theorem forall_lt_succ {p : Nat → Prop} {j : Nat} (h : ∀ i < j, p i) (hj : p j) :
    ∀ i < j + 1, p i := by
  intro i hi
  rcases Nat.lt_succ_iff_lt_or_eq.mp hi with h' | rfl
  · exact h i h'
  · exact hj

/-- A slot walked past leaves the candidate as it is. -/
theorem Passed.skip {cls : Nat → SlotClass} {j : Nat} (hj : cls j = .skip) :
    ∀ {cand : Option Nat}, Passed cls j cand → Passed cls (j + 1) cand
  | none, h => forall_lt_succ h hj
  | some _, h => ⟨by have := h.1; omega, h.2.1, h.2.2.1,
      forall_lt_succ h.2.2.2 (by rw [hj]; exact ⟨nofun, nofun⟩)⟩

/-- A reusable slot becomes the candidate if there is none. -/
theorem Passed.reusable {cls : Nat → SlotClass} {j : Nat} (hj : cls j = .reusable) :
    ∀ {cand : Option Nat}, Passed cls j cand → Passed cls (j + 1) (cand.or (some j))
  | none, h => ⟨Nat.lt_succ_self j, hj, h,
      forall_lt_succ (Passed.no_stop h) (by rw [hj]; exact ⟨nofun, nofun⟩)⟩
  | some _, h => ⟨by have := h.1; omega, h.2.1, h.2.2.1,
      forall_lt_succ h.2.2.2 (by rw [hj]; exact ⟨nofun, nofun⟩)⟩

/-- The walk from the `j`-th slot on meets the specification of the whole. -/
theorem scan_meets_from (cls : Nat → SlotClass) :
    ∀ (n j : Nat) (cand : Option Nat), Passed cls j cand →
      Meets cls (j + n) (scan cls n j cand)
  | 0, _, none, h => h
  | 0, j, some c, h =>
      ⟨h.1, Or.inl h.2.1, h.2.2.1, j, Nat.le_refl _, Nat.le_of_lt h.1, h.2.2.2, by omega⟩
  | n + 1, j, cand, h => by
      have hlen : j + (n + 1) = (j + 1) + n := by omega
      simp only [scan]
      split
      next hj => exact ⟨by omega, hj, Passed.no_stop h⟩
      next hj => rw [hlen]; exact scan_meets_from cls n (j + 1) _ (h.reusable hj)
      next hj =>
        have hstop : ∀ i < j, cls i ≠ .hit ∧ cls i ≠ .empty := Passed.no_stop h
        cases cand with
        | none =>
            exact ⟨by simp, Or.inr hj, h, j, by omega, Nat.le_refl _, hstop, fun _ => hj⟩
        | some c =>
            have hc : c < j := h.1
            exact ⟨by simp only [Option.getD_some]; omega, Or.inl h.2.1, h.2.2.1, j, by omega,
              Nat.le_of_lt hc, hstop, fun _ => hj⟩
      next hj => rw [hlen]; exact scan_meets_from cls n (j + 1) _ (h.skip hj)

/-- The walk over `m` slots meets its specification. -/
theorem scan_meets (cls : Nat → SlotClass) (m : Nat) : Meets cls m (scan cls m 0 none) := by
  have h := scan_meets_from cls m 0 none (fun i hi => absurd hi (Nat.not_lt_zero i))
  rwa [Nat.zero_add] at h

theorem Meets.found_ne_free {cls : Nat → SlotClass} {m j j' : Nat} (h : Meets cls m (.found j))
    (h' : Meets cls m (.free j')) : False := by
  obtain ⟨e, _, _, hstop, hend⟩ := h'.2.2.2
  have hem : ¬ j < e := fun hje => (hstop j hje).1 h.2.1
  have he : cls e = .empty := hend (by have := h.1; omega)
  rcases Nat.lt_or_eq_of_le (Nat.le_of_not_lt hem) with hlt | rfl
  · exact (h.2.2 e hlt).2 he
  · rw [h.2.1] at he
    cases he

theorem Meets.free_not_skip {cls : Nat → SlotClass} {m j : Nat} (h : Meets cls m (.free j)) :
    cls j ≠ .skip := by
  intro hs
  rcases h.2.1 with hc | hc <;> rw [hs] at hc <;> cases hc

/-- The specification determines the outcome. -/
theorem Meets.unique {cls : Nat → SlotClass} {m : Nat} {o o' : Outcome} (h : Meets cls m o)
    (h' : Meets cls m o') : o = o' := by
  cases o with
  | found j =>
      cases o' with
      | found j' =>
          rcases Nat.lt_trichotomy j j' with hlt | rfl | hlt
          · exact absurd h.2.1 (h'.2.2 j hlt).1
          · rfl
          · exact absurd h'.2.1 (h.2.2 j' hlt).1
      | free j' => exact (h.found_ne_free h').elim
      | full => have := h' j h.1; rw [h.2.1] at this; cases this
  | free j =>
      cases o' with
      | found j' => exact (Meets.found_ne_free h' h).elim
      | free j' =>
          rcases Nat.lt_trichotomy j j' with hlt | rfl | hlt
          · exact absurd (h'.2.2.1 j hlt) h.free_not_skip
          · rfl
          · exact absurd (h.2.2.1 j' hlt) (Meets.free_not_skip h')
      | full => exact absurd (h' j h.1) h.free_not_skip
  | full =>
      cases o' with
      | found j' => have := h j' h'.1; rw [h'.2.1] at this; cases this
      | free j' => exact absurd (h j' h'.1) (Meets.free_not_skip h')
      | full => rfl

theorem scan_eq_iff (cls : Nat → SlotClass) (m : Nat) (o : Outcome) :
    scan cls m 0 none = o ↔ Meets cls m o :=
  ⟨fun h => h ▸ scan_meets cls m, fun h => Meets.unique (scan_meets cls m) h⟩

/-- A slot that has been found is found again after others were made empty if and only if none of
them comes before it. -/
theorem scan_found_holes {cls cls' : Nat → SlotClass} {m k : Nat} (hole : Nat → Prop)
    (h : scan cls m 0 none = .found k) (hempty : ∀ j < m, hole j → cls' j = .empty)
    (hsame : ∀ j < m, ¬ hole j → cls' j = cls j) (hk : ¬ hole k) :
    scan cls' m 0 none = .found k ↔ ∀ j < k, ¬ hole j := by
  obtain ⟨hlt, hhit, hbefore⟩ := (scan_eq_iff cls m _).mp h
  rw [scan_eq_iff]
  constructor
  · rintro ⟨_, _, hbefore'⟩ j hj hhole
    exact (hbefore' j hj).2 (hempty j (by omega) hhole)
  · intro hnone
    refine ⟨hlt, (hsame k hlt hk).trans hhit, fun j hj => ?_⟩
    rw [hsame j (by omega) (hnone j hj)]
    exact hbefore j hj

/-! ## The slots of a walk -/

/-- A list up to the first element that satisfies a condition, with that element. -/
def cutAfter {α : Type} (p : α → Bool) : List α → List α
  | [] => []
  | x :: xs => if p x then [x] else x :: cutAfter p xs

theorem cutAfter_map {α β : Type} (p : β → Bool) (f : α → β) :
    ∀ l : List α, cutAfter p (l.map f) = (cutAfter (fun x => p (f x)) l).map f
  | [] => rfl
  | x :: xs => by
      simp only [List.map_cons, cutAfter]
      split
      · rfl
      · rw [List.map_cons, cutAfter_map p f xs]

theorem cutAfter_congr {α : Type} {p q : α → Bool} :
    ∀ {l : List α}, (∀ x ∈ l, p x = q x) → cutAfter p l = cutAfter q l
  | [], _ => rfl
  | x :: xs, h => by
      rw [cutAfter, cutAfter, h x List.mem_cons_self,
        cutAfter_congr fun y hy => h y (List.mem_cons_of_mem _ hy)]

theorem cutAfter_sublist {α : Type} (p : α → Bool) : ∀ l : List α, (cutAfter p l).Sublist l
  | [] => List.Sublist.refl _
  | x :: xs => by
      rw [cutAfter]
      split
      · exact (List.nil_sublist xs).cons_cons x
      · exact (cutAfter_sublist p xs).cons_cons x

theorem cutAfter_range' (p : Nat → Bool) {s n e : Nat} (hle : e ≤ n)
    (hbefore : ∀ j < e, p (s + j) = false) (hstop : e < n → p (s + e) = true) :
    cutAfter p (List.range' s n) = List.range' s (min (e + 1) n) := by
  induction n generalizing s e with
  | zero => rfl
  | succ n ih =>
      rw [List.range'_succ, cutAfter]
      cases e with
      | zero =>
          have hp : p s = true := hstop (Nat.succ_pos n)
          rw [if_pos hp, show min (0 + 1) (n + 1) = 1 by omega]
          rfl
      | succ e =>
          have hp : p s = false := hbefore 0 (Nat.succ_pos e)
          have hbefore' : ∀ j < e, p (s + 1 + j) = false := by
            intro j hj
            rw [Nat.add_assoc, Nat.add_comm 1 j]
            exact hbefore (j + 1) (by omega)
          have hstop' : e < n → p (s + 1 + e) = true := by
            intro he
            rw [Nat.add_assoc, Nat.add_comm 1 e]
            exact hstop (by omega)
          rw [if_neg (by rw [hp]; exact Bool.false_ne_true), ih (by omega) hbefore' hstop',
            show min (e + 1 + 1) (n + 1) = min (e + 1) n + 1 by omega, List.range'_succ]

/-- A walk stops at the slot of the key and at empty slots. -/
def SlotClass.stops : SlotClass → Bool
  | .hit => true
  | .empty => true
  | .reusable => false
  | .skip => false

/-- A slot that an insertion may take. -/
def SlotClass.free : SlotClass → Bool
  | .empty => true
  | .reusable => true
  | .hit => false
  | .skip => false

/-- The slots a walk over `m` slots examines, in their order. -/
def walked (cls : Nat → SlotClass) (m : Nat) : List Nat :=
  cutAfter (fun j => (cls j).stops) (List.range m)

theorem walked_eq {cls : Nat → SlotClass} {m e : Nat} (hle : e ≤ m)
    (hbefore : ∀ j < e, (cls j).stops = false) (hstop : e < m → (cls e).stops = true) :
    walked cls m = List.range (min (e + 1) m) := by
  rw [walked, List.range_eq_range', List.range_eq_range']
  exact cutAfter_range' _ hle (fun j hj => by rw [Nat.zero_add]; exact hbefore j hj)
    (fun h => by rw [Nat.zero_add]; exact hstop h)

theorem SlotClass.not_stops {c : SlotClass} (h : c ≠ .hit ∧ c ≠ .empty) : c.stops = false := by
  cases c with
  | hit => exact absurd rfl h.1
  | empty => exact absurd rfl h.2
  | reusable => rfl
  | skip => rfl

/-- The first entry of a range that satisfies a condition. -/
theorem find?_range {p : Nat → Bool} {m j : Nat} (hj : j < m) (hp : p j = true)
    (hbefore : ∀ i < j, p i = false) : (List.range m).find? p = some j := by
  rw [List.find?_eq_some_iff_getElem]
  refine ⟨hp, j, by simpa using hj, by simp, fun i hi => ?_⟩
  simp [hbefore i hi]

/-- What an outcome says about the slots that the walk has examined. -/
def Outcome.Describes (cls : Nat → SlotClass) (m : Nat) (S : List Nat) : Outcome → Prop
  | .found j => S.getLast? = some j ∧ cls j = .hit
  | .free j => (∀ i ∈ S, cls i ≠ .hit) ∧ S.find? (fun i => (cls i).free) = some j
  | .full => S = List.range m ∧ ∀ i ∈ S, cls i = .skip

/-- The outcome of a walk describes the slots it has examined. -/
theorem scan_describes (cls : Nat → SlotClass) (m : Nat) :
    (scan cls m 0 none).Describes cls m (walked cls m) := by
  have hmeets := scan_meets cls m
  cases hout : scan cls m 0 none with
  | found j =>
      rw [hout] at hmeets
      obtain ⟨hj, hhit, hbefore⟩ := hmeets
      have hS := walked_eq (Nat.le_of_lt hj) (fun i hi => SlotClass.not_stops (hbefore i hi))
        (fun _ => by rw [hhit]; rfl)
      rw [hS, show min (j + 1) m = j + 1 by omega]
      exact ⟨by simp [List.getLast?_range], hhit⟩
  | free j =>
      rw [hout] at hmeets
      obtain ⟨hj, hfree, hskip, e, he, hje, hbefore, hend⟩ := hmeets
      have hS := walked_eq he (fun i hi => SlotClass.not_stops (hbefore i hi))
        (fun h => by rw [hend h]; rfl)
      rw [hS]
      refine ⟨fun i hi => ?_, find?_range (by omega) ?_ fun i hi => by rw [hskip i hi]; rfl⟩
      · rw [List.mem_range] at hi
        by_cases hie : i < e
        · exact (hbefore i hie).1
        · have hi' : i = e := by omega
          rw [hi', hend (by omega)]
          exact fun h => by cases h
      · rcases hfree with h | h <;> rw [h] <;> rfl
  | full =>
      rw [hout] at hmeets
      have hS : walked cls m = List.range (min (m + 1) m) :=
        walked_eq (Nat.le_refl m) (fun i hi => by rw [hmeets i hi]; rfl)
          (fun h => absurd h (Nat.lt_irrefl m))
      rw [hS, show min (m + 1) m = m by omega]
      exact ⟨rfl, fun i hi => hmeets i (List.mem_range.mp hi)⟩

/-! ## Cyclic order -/

/-- Distinct offsets below the size reach distinct slots. -/
theorem add_mod_inj {a d d' m : Nat} (hd : d < m) (hd' : d' < m)
    (h : (a + d) % m = (a + d') % m) : d = d' := by
  have hmod : d ≡ d' [MOD m] := Nat.ModEq.add_left_cancel' a h
  rwa [Nat.ModEq, Nat.mod_eq_of_lt hd, Nat.mod_eq_of_lt hd'] at hmod

/-- Every slot is at some offset from a home. -/
theorem exists_offset (a : Nat) {i m : Nat} (hi : i < m) : ∃ d < m, i = (a + d) % m := by
  refine ⟨(i + m - a % m) % m, Nat.mod_lt _ (by omega), ?_⟩
  have ha : a % m < m := Nat.mod_lt _ (by omega)
  have hsum : a + (i + m - a % m) = i + m * (a / m + 1) := by
    have hdiv : m * (a / m) + a % m = a := Nat.div_add_mod a m
    rw [Nat.mul_add, Nat.mul_one]
    omega
  rw [Nat.add_mod_mod, hsum, Nat.add_mul_mod_self_left, Nat.mod_eq_of_lt hi]

/-! ## Placed tables -/

section Placed

variable {β κ : Type} (owner : β → Option κ) (home : κ → Nat) (m : Nat)

/-- No key owns two slots, and no slot between the home of a key and the slot it
owns is empty.  A slot without an owner is an empty one. -/
structure Placed (t : Nat → β) : Prop where
  unique : ∀ {i j : Nat} {k : κ}, i < m → j < m → owner (t i) = some k → owner (t j) = some k →
    i = j
  reach : ∀ {i : Nat} {k : κ}, i < m → owner (t i) = some k →
    ∃ d < m, i = (home k + d) % m ∧ ∀ d' < d, owner (t ((home k + d') % m)) ≠ none

/-- The slot a key owns. -/
def Owns (t : Nat → β) (k : κ) (b : β) : Prop := ∃ i < m, t i = b ∧ owner b = some k

variable {owner home m} {t : Nat → β} {k : κ} {b : β} {i : Nat}

theorem Placed.owns_unique (hp : Placed owner home m t) {b' : β} (h : Owns owner m t k b)
    (h' : Owns owner m t k b') : b = b' := by
  obtain ⟨i, hi, rfl, ho⟩ := h
  obtain ⟨j, hj, rfl, ho'⟩ := h'
  rw [hp.unique hi hj ho ho']

/-- A table of slots without an owner is placed. -/
theorem placed_of_unowned (h : ∀ i < m, owner (t i) = none) : Placed owner home m t where
  unique hi _ ho _ := by rw [h _ hi] at ho; cases ho
  reach hi ho := by rw [h _ hi] at ho; cases ho

/-- Where a key may be put: its own slot, or, if it owns none, a slot that no
empty one comes before. -/
def Fits (owner : β → Option κ) (home : κ → Nat) (m : Nat) (t : Nat → β) (k : κ) (i : Nat) : Prop :=
  owner (t i) = some k ∨ (∀ j < m, owner (t j) ≠ some k) ∧
    ∃ d < m, i = (home k + d) % m ∧ ∀ d' < d, owner (t ((home k + d') % m)) ≠ none

theorem owner_update_ne_none (hb : owner b = some k) {j : Nat} (h : owner (t j) ≠ none) :
    owner (Function.update t i b j) ≠ none := by
  by_cases hj : j = i
  · subst hj
    simp [hb]
  · rwa [Function.update_of_ne hj]

/-- Putting a key where it fits keeps the table placed. -/
theorem Placed.update (hp : Placed owner home m t) (hb : owner b = some k)
    (hfit : Fits owner home m t k i) : Placed owner home m (Function.update t i b) where
  unique := by
    -- Two owners of one key: both old, or one of them is the new slot.
    have hnew : ∀ j < m, j ≠ i → i < m → owner (t j) ≠ some k := by
      intro j hj hji hi ho
      rcases hfit with hown | ⟨hnone, _⟩
      · exact hji (hp.unique hj hi ho hown)
      · exact hnone j hj ho
    intro j j' k' hj hj' ho ho'
    by_cases h : j = i
    · by_cases h' : j' = i
      · rw [h, h']
      · subst h
        rw [Function.update_self, hb, Option.some.injEq] at ho
        subst ho
        rw [Function.update_of_ne h'] at ho'
        exact absurd ho' (hnew j' hj' h' hj)
    · by_cases h' : j' = i
      · subst h'
        rw [Function.update_self, hb, Option.some.injEq] at ho'
        subst ho'
        rw [Function.update_of_ne h] at ho
        exact absurd ho (hnew j hj h hj')
      · rw [Function.update_of_ne h] at ho
        rw [Function.update_of_ne h'] at ho'
        exact hp.unique hj hj' ho ho'
  reach := by
    intro j k' hj ho
    by_cases h : j = i
    · subst h
      rw [Function.update_self, hb, Option.some.injEq] at ho
      subst ho
      have hreach : ∃ d < m, j = (home k + d) % m ∧
          ∀ d' < d, owner (t ((home k + d') % m)) ≠ none := by
        rcases hfit with hown | ⟨_, hreach⟩
        · exact hp.reach hj hown
        · exact hreach
      obtain ⟨d, hd, hjd, hfull⟩ := hreach
      exact ⟨d, hd, hjd, fun d' hd' => owner_update_ne_none hb (hfull d' hd')⟩
    · rw [Function.update_of_ne h] at ho
      obtain ⟨d, hd, hjd, hfull⟩ := hp.reach hj ho
      exact ⟨d, hd, hjd, fun d' hd' => owner_update_ne_none hb (hfull d' hd')⟩

/-- After an update the key owns the new slot. -/
theorem owns_update_self (hi : i < m) (hb : owner b = some k) :
    Owns owner m (Function.update t i b) k b :=
  ⟨i, hi, Function.update_self .., hb⟩

/-- The slots of the other keys stay, unless the one overwritten was theirs. -/
theorem owns_update_of_ne (hb : owner b = some k) {k' : κ} {b' : β} (hk : k' ≠ k)
    (hi : owner (t i) ≠ some k') :
    Owns owner m (Function.update t i b) k' b' ↔ Owns owner m t k' b' := by
  constructor
  · rintro ⟨j, hj, rfl, ho⟩
    by_cases h : j = i
    · subst h
      rw [Function.update_self, hb, Option.some.injEq] at ho
      exact absurd ho.symm hk
    · rw [Function.update_of_ne h] at ho ⊢
      exact ⟨j, hj, rfl, ho⟩
  · rintro ⟨j, hj, rfl, ho⟩
    have h : j ≠ i := fun h => hi (h ▸ ho)
    exact ⟨j, hj, Function.update_of_ne h .., ho⟩

/-! ## Probing a placed table -/

variable (cls : Nat → SlotClass)

/-- The classes a probe for `k` meets agree with the owners of the slots: its own
slot is a hit, and the walk stops at slots without an owner. -/
structure Sees (owner : β → Option κ) (home : κ → Nat) (m : Nat) (t : Nat → β) (k : κ)
    (cls : Nat → SlotClass) : Prop where
  hit : ∀ d < m, (cls d = .hit ↔ owner (t ((home k + d) % m)) = some k)
  empty : ∀ d < m, (cls d = .empty ↔ owner (t ((home k + d) % m)) = none)

variable {cls}

/-- A key that owns a slot is found there. -/
theorem Placed.scan_found (hp : Placed owner home m t) (hs : Sees owner home m t k cls)
    (ho : Owns owner m t k b) :
    ∃ d < m, scan cls m 0 none = .found d ∧ t ((home k + d) % m) = b := by
  obtain ⟨i, hi, rfl, hown⟩ := ho
  obtain ⟨d, hd, rfl, hfull⟩ := hp.reach hi hown
  refine ⟨d, hd, (scan_eq_iff cls m _).mpr ⟨hd, (hs.hit d hd).mpr hown, ?_⟩, rfl⟩
  intro d' hd'
  have hlt : d' < m := by omega
  refine ⟨fun hhit => ?_, fun hemp => hfull d' hd' ((hs.empty d' hlt).mp hemp)⟩
  have := add_mod_inj hlt hd (hp.unique (Nat.mod_lt _ (by omega)) hi ((hs.hit d' hlt).mp hhit) hown)
  omega

/-- A slot found is the slot of the key. -/
theorem owns_of_scan_found (hs : Sees owner home m t k cls) {d : Nat}
    (h : scan cls m 0 none = .found d) :
    d < m ∧ Owns owner m t k (t ((home k + d) % m)) := by
  obtain ⟨hd, hhit, -⟩ := (scan_eq_iff cls m _).mp h
  exact ⟨hd, _, Nat.mod_lt _ (by omega), rfl, (hs.hit d hd).mp hhit⟩

/-- A key that is not found owns no slot. -/
theorem Placed.not_owns (hp : Placed owner home m t) (hs : Sees owner home m t k cls)
    (h : ∀ d, scan cls m 0 none ≠ .found d) : ¬ Owns owner m t k b := by
  intro ho
  obtain ⟨d, _, hd, _⟩ := hp.scan_found hs ho
  exact h d hd

/-- The slot a probe returns is one where the key fits. -/
theorem Placed.fits_of_scan (hp : Placed owner home m t) (hs : Sees owner home m t k cls) {d : Nat}
    (h : scan cls m 0 none = .found d ∨ scan cls m 0 none = .free d) :
    d < m ∧ Fits owner home m t k ((home k + d) % m) := by
  rcases h with h | h
  · obtain ⟨hd, hhit, -⟩ := (scan_eq_iff cls m _).mp h
    exact ⟨hd, Or.inl ((hs.hit d hd).mp hhit)⟩
  · have hnot : ∀ j < m, owner (t j) ≠ some k := fun j hj ho =>
      hp.not_owns hs (b := t j) (fun d' hd' => by rw [h] at hd'; cases hd') ⟨j, hj, rfl, ho⟩
    obtain ⟨hd, -, hskip, -⟩ := (scan_eq_iff cls m _).mp h
    refine ⟨hd, Or.inr ⟨hnot, d, hd, rfl, fun d' hd' hn => ?_⟩⟩
    have hemp := (hs.empty d' (by omega)).mpr hn
    rw [hskip d' hd'] at hemp
    cases hemp

/-! ## Counting -/

omit cls in
/-- A table whose slots all belong to keys of a list has no more slots than the list has keys. -/
theorem Placed.slots_le (hp : Placed owner home m t) {ks : List κ}
    (h : ∀ i < m, ∃ k ∈ ks, owner (t i) = some k) : m ≤ ks.length := by
  have hnodup : ((List.range m).map fun i => owner (t i)).Nodup := by
    refine List.Nodup.map_on ?_ List.nodup_range
    intro i hi j hj hij
    rw [List.mem_range] at hi hj
    obtain ⟨k, -, hk⟩ := h i hi
    exact hp.unique hi hj hk (hij ▸ hk)
  have hsub : ((List.range m).map fun i => owner (t i)) ⊆ ks.map some := by
    intro o ho
    obtain ⟨i, hi, rfl⟩ := List.mem_map.mp ho
    obtain ⟨k, hk, hown⟩ := h i (List.mem_range.mp hi)
    exact List.mem_map.mpr ⟨k, hk, hown.symm⟩
  simpa using (hnodup.subperm hsub).length_le

omit cls in
/-- Different keys own different slots. -/
theorem owns_length_le {ks : List κ} (hks : ks.Nodup) (h : ∀ k ∈ ks, ∃ b, Owns owner m t k b) :
    ks.length ≤ m := by
  have hnodup : (ks.map some).Nodup := hks.map (Option.some_injective κ)
  have hsub : ks.map some ⊆ (List.range m).map fun i => owner (t i) := by
    intro o ho
    obtain ⟨k, hk, rfl⟩ := List.mem_map.mp ho
    obtain ⟨b, i, hi, rfl, hown⟩ := h k hk
    exact List.mem_map.mpr ⟨i, List.mem_range.mpr hi, hown⟩
  simpa using (hnodup.subperm hsub).length_le

end Placed

end Probing
