import Mathlib.Data.List.Nodup
import Mathlib.Logic.Function.Basic

/-!
# Ledgers of objects

Objects are made from other objects, and need them as long as they are there: a memory region its
buffer, a file its directory.  A `Ledger` has the objects that are there, each with those it needs.
An object may be taken away if no other one needs it (`Ledger.Loose`).

`Owns l L L'` says that the ledger went from `L` to `L'` because the objects of the list `l` were
made, that these need nothing but each other, and that they may be taken away in the order of the
list.  The rules are about one object that is made (`Owns.insert`), two lists that were made one
after the other (`Owns.append`), and the first object of a list, which is taken away
(`Owns.loose`, `Owns.drop`).
-/

namespace Objects

variable {π : Type}

/-- The objects that are there, each with those it needs. -/
structure Ledger (π : Type) where
  needs : π → Option (List π)
  /-- What an object needs is there. -/
  closed : ∀ {x b}, needs x = some b → ∀ y ∈ b, (needs y).isSome = true
  irrefl : ∀ {x b}, needs x = some b → x ∉ b

namespace Ledger

/-- The ledger without objects. -/
def empty : Ledger π := ⟨fun _ => none, nofun, nofun⟩

/-- An object is there. -/
def There (L : Ledger π) (x : π) : Prop := (L.needs x).isSome = true

/-- No object needs this one. -/
def Loose (L : Ledger π) (x : π) : Prop := ∀ y b, L.needs y = some b → x ∉ b

variable {L L' L'' : Ledger π} {x y : π} {b : List π}

/-- Nobody needs what is not there. -/
theorem not_mem_of_not_there (hx : ¬ L.There x) (hy : L.needs y = some b) : x ∉ b :=
  fun hmem => hx (L.closed hy x hmem)

variable [DecidableEq π]

/-- An object is made. -/
structure Adds (L : Ledger π) (x : π) (b : List π) (L' : Ledger π) : Prop where
  fresh : ¬ L.There x
  eq : L'.needs = Function.update L.needs x (some b)

/-- An object is taken away. -/
def Drops (L : Ledger π) (x : π) (L' : Ledger π) : Prop :=
  L'.needs = Function.update L.needs x none

theorem Adds.needs_self (h : L.Adds x b L') : L'.needs x = some b := by
  rw [h.eq, Function.update_self]

theorem Adds.needs_of_ne (h : L.Adds x b L') (hy : y ≠ x) : L'.needs y = L.needs y := by
  rw [h.eq, Function.update_of_ne hy]

theorem Drops.needs_self (h : L.Drops x L') : L'.needs x = none := by
  rw [Drops] at h
  rw [h, Function.update_self]

theorem Drops.needs_of_ne (h : L.Drops x L') (hy : y ≠ x) : L'.needs y = L.needs y := by
  rw [Drops] at h
  rw [h, Function.update_of_ne hy]

/-- Objects can be made from those that are there. -/
theorem exists_adds (hx : ¬ L.There x) (hb : ∀ y ∈ b, L.There y) : ∃ L', L.Adds x b L' := by
  have hmine : x ∉ b := fun hmem => hx (hb x hmem)
  refine ⟨⟨Function.update L.needs x (some b), fun {y c} hy z hz => ?_, fun {y c} hy => ?_⟩, hx, rfl⟩
  · by_cases hzx : z = x
    · subst hzx
      rw [Function.update_self]
      rfl
    · rw [Function.update_of_ne hzx]
      by_cases hyx : y = x
      · subst hyx
        rw [Function.update_self, Option.some.injEq] at hy
        subst hy
        exact hb z hz
      · rw [Function.update_of_ne hyx] at hy
        exact L.closed hy z hz
  · by_cases hyx : y = x
    · subst hyx
      rw [Function.update_self, Option.some.injEq] at hy
      subst hy
      exact hmine
    · rw [Function.update_of_ne hyx] at hy
      exact L.irrefl hy

/-- Objects that nobody needs can be taken away. -/
theorem exists_drops (hx : L.Loose x) : ∃ L', L.Drops x L' := by
  have hold : ∀ {y c}, Function.update L.needs x none y = some c → y ≠ x ∧ L.needs y = some c := by
    intro y c hy
    have hyx : y ≠ x := by
      rintro rfl
      rw [Function.update_self] at hy
      cases hy
    rw [Function.update_of_ne hyx] at hy
    exact ⟨hyx, hy⟩
  refine ⟨⟨Function.update L.needs x none, fun {y c} hy z hz => ?_, fun {y c} hy => ?_⟩, rfl⟩
  · obtain ⟨_, hwas⟩ := hold hy
    have hzx : z ≠ x := by
      rintro rfl
      exact hx y c hwas hz
    rw [Function.update_of_ne hzx]
    exact L.closed hwas z hz
  · exact L.irrefl (hold hy).2

end Ledger

/-! ## What was made since -/

/-- The objects of a list were made since the ledger was `L`.  They need nothing but each other,
and none of them needs one that comes before it. -/
structure Owns (l : List π) (L L' : Ledger π) : Prop where
  nodup : l.Nodup
  fresh : ∀ x ∈ l, ¬ L.There x
  there : ∀ x ∈ l, L'.There x
  rest : ∀ x ∉ l, L'.needs x = L.needs x
  own : ∀ x ∈ l, ∀ b, L'.needs x = some b → ∀ y ∈ b, y ∈ l
  order : l.Pairwise fun x y => ∀ b, L'.needs y = some b → x ∉ b

namespace Owns

variable {L L' L'' : Ledger π} {x : π} {l l' l₁ l₂ b : List π}

theorem nil (L : Ledger π) : Owns [] L L :=
  ⟨List.nodup_nil, nofun, nofun, fun _ _ => rfl, nofun, List.Pairwise.nil⟩

/-- What was there is there still. -/
theorem keeps (h : Owns l L L') (hx : L.There x) : L'.There x := by
  have hnot : x ∉ l := fun hmem => h.fresh x hmem hx
  rw [Ledger.There, h.rest x hnot]
  exact hx

/-- Two lists of objects, made one after the other. -/
theorem append (h : Owns l L L') (h' : Owns l' L' L'') : Owns (l ++ l') L L'' := by
  have hdisjoint : ∀ x ∈ l, x ∉ l' := fun x hx hx' => h'.fresh x hx' (h.there x hx)
  have hold : ∀ x ∈ l, L''.needs x = L'.needs x := fun x hx => h'.rest x (hdisjoint x hx)
  refine ⟨List.Nodup.append h.nodup h'.nodup fun x hx hx' => hdisjoint x hx hx', fun x hx => ?_,
    fun x hx => ?_, fun x hx => ?_, fun x hx b hb y hy => ?_, ?_⟩
  · rcases List.mem_append.mp hx with hx | hx
    · exact h.fresh x hx
    · exact fun hthere => h'.fresh x hx (h.keeps hthere)
  · rcases List.mem_append.mp hx with hx | hx
    · rw [Ledger.There, hold x hx]
      exact h.there x hx
    · exact h'.there x hx
  · rw [List.mem_append, not_or] at hx
    rw [h'.rest x hx.2, h.rest x hx.1]
  · rcases List.mem_append.mp hx with hx | hx
    · rw [hold x hx] at hb
      exact List.mem_append_left _ (h.own x hx b hb y hy)
    · exact List.mem_append_right _ (h'.own x hx b hb y hy)
  · refine List.pairwise_append.mpr ⟨h.order.imp_of_mem fun {x y} _ hy hxy b hb => ?_, h'.order,
      fun x hx y hy b hb hmem => hdisjoint x hx (h'.own y hy b hb x hmem)⟩
    rw [hold y hy] at hb
    exact hxy b hb

variable [DecidableEq π]

/-- One more object was made.  It comes before those it needs. -/
theorem insert (h : Owns (l₁ ++ l₂) L L') (hx : L'.Adds x b L'') (hb : ∀ y ∈ b, y ∈ l₂) :
    Owns (l₁ ++ x :: l₂) L L'' := by
  have hnew : x ∉ l₁ ++ l₂ := fun hmem => hx.fresh (h.there x hmem)
  have hne : ∀ y ∈ l₁ ++ l₂, y ≠ x := fun y hy he => hnew (he ▸ hy)
  have hmem : ∀ y, y ∈ l₁ ++ x :: l₂ ↔ y = x ∨ y ∈ l₁ ++ l₂ := by
    intro y
    simp only [List.mem_append, List.mem_cons]
    tauto
  have hL : ¬ L.There x := fun hthere => hx.fresh (h.keeps hthere)
  refine ⟨List.nodup_middle.mpr (List.nodup_cons.mpr ⟨hnew, h.nodup⟩), fun y hy => ?_, fun y hy => ?_,
    fun y hy => ?_, fun y hy c hc z hz => ?_, ?_⟩
  · rcases (hmem y).mp hy with rfl | hy
    · exact hL
    · exact h.fresh y hy
  · rcases (hmem y).mp hy with rfl | hy
    · rw [Ledger.There, hx.needs_self]
      rfl
    · rw [Ledger.There, hx.needs_of_ne (hne y hy)]
      exact h.there y hy
  · rw [hmem, not_or] at hy
    rw [hx.needs_of_ne hy.1, h.rest y hy.2]
  · refine (hmem z).mpr (.inr ?_)
    rcases (hmem y).mp hy with rfl | hy
    · rw [hx.needs_self, Option.some.injEq] at hc
      subst hc
      exact List.mem_append_right _ (hb z hz)
    · rw [hx.needs_of_ne (hne y hy)] at hc
      exact h.own y hy c hc z hz
  · have hold : (l₁ ++ l₂).Pairwise fun y z => ∀ c, L''.needs z = some c → y ∉ c :=
      h.order.imp_of_mem fun {y z} _ hz hyz c hc => by
        rw [hx.needs_of_ne (hne z hz)] at hc
        exact hyz c hc
    obtain ⟨hl₁, hl₂, hcross⟩ := List.pairwise_append.mp hold
    refine List.pairwise_append.mpr ⟨hl₁, List.pairwise_cons.mpr ⟨fun z hz c hc => ?_, hl₂⟩,
      fun y hy z hz => ?_⟩
    · rw [hx.needs_of_ne (hne z (List.mem_append_right _ hz))] at hc
      exact Ledger.not_mem_of_not_there hx.fresh hc
    · rcases List.mem_cons.mp hz with rfl | hz
      · intro c hc hyc
        rw [hx.needs_self, Option.some.injEq] at hc
        subst hc
        have hdisjoint := (List.nodup_append.mp h.nodup).2.2
        exact hdisjoint y hy y (hb y hyc) rfl
      · exact hcross y hy z hz

/-- One more object was made, and those it needs before it. -/
theorem cons (h : Owns l L L') (hx : L'.Adds x b L'') (hb : ∀ y ∈ b, y ∈ l) : Owns (x :: l) L L'' := by
  have hl : Owns ([] ++ l) L L' := h
  exact hl.insert hx hb

/-- One object that needs nothing. -/
theorem single (hx : L.Adds x [] L') : Owns [x] L L' := (nil L).cons hx nofun

/-- The first object of the list is taken away. -/
theorem drop (h : Owns (x :: l) L L') (hx : L'.Drops x L'') : Owns l L L'' := by
  obtain ⟨hnew, hnodup⟩ := List.nodup_cons.mp h.nodup
  obtain ⟨hfirst, horder⟩ := List.pairwise_cons.mp h.order
  have hne : ∀ y ∈ l, y ≠ x := fun y hy he => hnew (he ▸ hy)
  have hold : ∀ y ∈ l, L''.needs y = L'.needs y := fun y hy => hx.needs_of_ne (hne y hy)
  refine ⟨hnodup, fun y hy => h.fresh y (List.mem_cons_of_mem _ hy), fun y hy => ?_, fun y hy => ?_,
    fun y hy c hc z hz => ?_, horder.imp_of_mem fun {y z} _ hz hyz c hc => ?_⟩
  · rw [Ledger.There, hold y hy]
    exact h.there y (List.mem_cons_of_mem _ hy)
  · by_cases hyx : y = x
    · subst hyx
      rw [hx.needs_self]
      have hnone := h.fresh y List.mem_cons_self
      rw [Ledger.There, Option.not_isSome_iff_eq_none] at hnone
      exact hnone.symm
    · rw [hx.needs_of_ne hyx]
      exact h.rest y fun hmem => (List.mem_cons.mp hmem).elim hyx hy
  · rw [hold y hy] at hc
    refine (List.mem_cons.mp (h.own y (List.mem_cons_of_mem _ hy) c hc z hz)).resolve_left ?_
    rintro rfl
    exact hfirst y hy c hc hz
  · rw [hold z hz] at hc
    exact hyz c hc

end Owns

end Objects
