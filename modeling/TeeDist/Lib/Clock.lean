import Mathlib.Data.List.ReduceOption
import TeeDist.Lib.Views

/-!
# Programs that read the clock

`Signature.timed` adds a clock to a signature.  A program that measures how long its parts take
reads the clock between its calls, and should do nothing else that the same program without
measurements does not do.  `Prog.Measures` says so: leave out the readings, whatever they are, and
what is left is the other program, call by call and reply by reply.  It is closed under sequencing,
and programs that measure do together what they do without measuring (`Run.untimed`).

What can be said about the times that were measured follows from the clock never going back.
`ticking` is the contract with such a clock: the view is the latest time that the program knows.
-/

namespace Calls

/-- The calls of a signature, and reading the clock. -/
def Signature.timed (S : Signature) : Signature where
  Call := Option S.Call
  Reply
    | none => UInt64
    | some c => S.Reply c

variable {S : Signature} {α β δ ε σ τ : Type}

namespace Prog

/-- Read the clock. -/
def now : Prog S.timed UInt64 := .call (S := S.timed) none .ret

/-- A program without measurements. -/
def timed : Prog S α → Prog S.timed α
  | .ret a => .ret a
  | .call c k => .call (S := S.timed) (some c) fun r => (k r).timed

/-- Without the readings of the clock, `p` is `q`, and `f` takes what it returns to what `q`
returns. -/
inductive Measures (f : α → β) : Prog S.timed α → Prog S β → Prop where
  | ret (a : α) : Measures f (.ret a) (.ret (f a))
  | now {k : UInt64 → Prog S.timed α} {q : Prog S β} : (∀ t, Measures f (k t) q) →
      Measures f (.call (S := S.timed) none k) q
  | call {c : S.Call} {k : S.Reply c → Prog S.timed α} {k' : S.Reply c → Prog S β} :
      (∀ r, Measures f (k r) (k' r)) → Measures f (.call (S := S.timed) (some c) k) (.call c k')

/-- The rule for sequencing. -/
theorem Measures.bind {f : α → β} {g : δ → ε} {p : Prog S.timed α} {q : Prog S β}
    {p' : α → Prog S.timed δ} {q' : β → Prog S ε} (hp : p.Measures f q)
    (hp' : ∀ a, (p' a).Measures g (q' (f a))) : (p.bind p').Measures g (q.bind q') := by
  induction hp with
  | ret a => exact hp' a
  | now _ ih => exact .now ih
  | call _ ih => exact .call ih

/-- Measurements that are made before the program goes on. -/
theorem Measures.first {f : α → β} {p : Prog S.timed δ} {k : δ → Prog S.timed α} {q : Prog S β}
    {a : ε} {g : δ → ε} (hp : p.Measures g (.ret a)) (hk : ∀ x, g x = a → (k x).Measures f q) :
    (p.bind k).Measures f q := by
  generalize hr : (Prog.ret a : Prog S ε) = r at hp
  induction hp with
  | ret x =>
      cases hr
      exact hk x rfl
  | now _ ih => exact .now fun t => ih t hr
  | call _ _ => cases hr

/-- Measurements that are made at the end. -/
theorem Measures.last {f : α → β} {g : δ → β} {p : Prog S.timed α} {q : Prog S β}
    {k : α → Prog S.timed δ} (hp : p.Measures f q) (hk : ∀ a, (k a).Measures g (.ret (f a))) :
    (p.bind k).Measures g q := by
  induction hp with
  | ret a => exact hk a
  | now _ ih => exact .now ih
  | call _ ih => exact .call ih

theorem Measures.ret_inv {f : α → β} {a : α} {q : Prog S β}
    (hp : (Prog.ret a : Prog S.timed α).Measures f q) : q = .ret (f a) := by
  cases hp
  rfl

end Prog

/-! ## Programs side by side -/

/-- A clock of which nothing is known.  It may depend on the shared state, and be changed by
looking at it and by calls. -/
structure Ticker (S : Signature) (σ κ : Type) where
  reads : σ → κ → UInt64 × κ
  passes : S.Call → σ → κ → κ

section Ticker

variable {κ : Type}

/-- A handler with a clock. -/
def Handler.timed (h : Handler S σ) (clock : Ticker S σ κ) : Handler S.timed (σ × κ)
  | none, (s, k) => ((clock.reads s k).1, (s, (clock.reads s k).2))
  | some c, (s, k) => ((h c s).1, ((h c s).2, clock.passes c s k))

/-- Whatever the environment does, time may pass. -/
def Passing (env : σ → σ → Prop) (x y : σ × κ) : Prop := env x.1 y.1 ∨ x.1 = y.1

/-- The event without measurements, if there is one. -/
def Event.untimed {ι : Type} : Event ι S.timed → Option (Event ι S)
  | ⟨_, none, _⟩ => none
  | ⟨i, some c, r⟩ => some ⟨i, c, r⟩

variable {ι : Type} [DecidableEq ι] {h : Handler S σ} {clock : Ticker S σ κ} {env : σ → σ → Prop}
  {ok : Pool ι S.timed (σ × κ) α → Event ι S.timed → Prop} {P Q : Pool ι S.timed (σ × κ) α}
  {tr : List (Option (Event ι S.timed))} {f : α → β}

/-- What programs that measure can do together, the programs without measurements can do: the calls
are the same in the same order, and so are their replies and the shared state. -/
theorem Run.untimed {p : ι → Prog S β} (hP : ∀ i, (P.prog i).Measures f (p i))
    (hr : Run (h.timed clock) (Passing env) ok P tr Q) :
    ∃ tr' q, Run h env (fun _ _ => True) ⟨P.shared.1, p⟩ tr' ⟨Q.shared.1, q⟩ ∧
      tr'.reduceOption = tr.reduceOption.filterMap Event.untimed ∧
      ∀ i, (Q.prog i).Measures f (q i) := by
  refine Run.invariant (I := fun tr Q => ∃ tr' q, Run h env (fun _ _ => True) ⟨P.shared.1, p⟩ tr'
    ⟨Q.shared.1, q⟩ ∧ tr'.reduceOption = tr.reduceOption.filterMap Event.untimed ∧
    ∀ i, (Q.prog i).Measures f (q i)) ⟨[], p, .nil, rfl, hP⟩ ?_ ?_ hr
  · rintro tr Q i c k _ ⟨tr', q, hrun, htr, hQ⟩ hc -
    have hi := hQ i
    rw [hc] at hi
    generalize hqi : q i = p' at hi
    cases hi with
    | now hk =>
        refine ⟨tr', q, hrun, htr, fun j => ?_⟩
        by_cases hj : j = i
        · subst hj
          simp only [Function.update_self, hqi]
          exact hk _
        · simp only [Function.update_of_ne hj]
          exact hQ j
    | @call c _ k' hk =>
        refine ⟨_, _, .step hrun (.call hqi) fun _ _ => trivial, ?_, fun j => ?_⟩
        · simp only [List.reduceOption_cons_of_some, htr]
          rfl
        · by_cases hj : j = i
          · subst hj
            simp only [Function.update_self]
            exact hk _
          · simp only [Function.update_of_ne hj]
            exact hQ j
  · rintro tr Q ⟨s, k⟩ _ ⟨tr', q, hrun, htr, hQ⟩ he
    cases he with
    | inl he =>
        refine ⟨_, q, .step hrun (.env he) fun _ _ => trivial, ?_, hQ⟩
        simp only [List.reduceOption_cons_of_none, htr]
    | inr he =>
        refine ⟨tr', q, ?_, ?_, hQ⟩
        · rw [← he]
          exact hrun
        · simp only [List.reduceOption_cons_of_none, htr]

end Ticker

/-! ## A clock that does not go back -/

/-- What a program hears of a clock that does not go back.  Its view is the latest time it knows. -/
def ticking (S : Signature) : Contract S.timed Nat where
  may _ _ := True
  hears
    | w, none, t, w' => w ≤ UInt64.toNat t ∧ w' = UInt64.toNat t
    | w, some _, _, w' => w' = w

namespace Prog.Ensures

/-- Reading the clock. -/
theorem now {k : UInt64 → Prog S.timed α} {post : α → Nat → Prop} {w : Nat}
    (hk : ∀ t : UInt64, w ≤ t.toNat → (k t).Ensures (ticking S) post t.toNat) :
    (Prog.call (S := S.timed) none k).Ensures (ticking S) post w := by
  refine ⟨trivial, fun t w' ht => ?_⟩
  obtain ⟨hle, rfl⟩ := ht
  exact hk t hle

/-- A session call. -/
theorem ask {c : S.Call} {k : S.Reply c → Prog S.timed α} {post : α → Nat → Prop} {w : Nat}
    (hk : ∀ r, (k r).Ensures (ticking S) post w) :
    (Prog.call (S := S.timed) (some c) k).Ensures (ticking S) post w := by
  refine ⟨trivial, fun r w' hw => ?_⟩
  obtain rfl : w' = w := hw
  exact hk r

/-- Time does not go back. -/
theorem elapse {w₀ : Nat} : ∀ {w : Nat} (p : Prog S.timed α), w₀ ≤ w →
    p.Ensures (ticking S) (fun _ w' => w₀ ≤ w') w
  | _, .ret _, hw => hw
  | _, .call none k, hw => now fun t ht => elapse (k t) (Nat.le_trans hw ht)
  | _, .call (some _) k, hw => ask fun r => elapse (k r) hw

end Prog.Ensures

section Ticking

variable {κ ι : Type} [DecidableEq ι] {h : Handler S σ} {clock : Ticker S σ κ}
  {env : σ × κ → σ × κ → Prop} {ok : Pool ι S.timed (σ × κ) α → Event ι S.timed → Prop}
  {P Q : Pool ι S.timed (σ × κ) α} {tr : List (Option (Event ι S.timed))} {time : κ → Nat}

/-- The clock tells a time that does not go back. -/
structure Ticker.Tells (clock : Ticker S σ κ) (time : κ → Nat) : Prop where
  reads : ∀ s k, time k ≤ (clock.reads s k).1.toNat ∧
    time (clock.reads s k).2 = (clock.reads s k).1.toNat
  passes : ∀ c s k, time k ≤ time (clock.passes c s k)

/-- What programs ensure with such a clock they ensure side by side. -/
theorem Run.ticks (hclock : clock.Tells time) (henv : ∀ x y, env x y → time x.2 ≤ time y.2)
    {post : ι → α → Nat → Prop}
    (hP : ∀ i, (P.prog i).Ensures (ticking S) (post i) (time P.shared.2))
    (hr : Run (h.timed clock) env ok P tr Q) :
    ∃ w : ι → Nat, ∀ i, (Q.prog i).Ensures (ticking S) (post i) (w i) := by
  have hcall : ∀ (i : ι) (c : S.timed.Call) (x : σ × κ) (w : ι → Nat), (∀ j, w j ≤ time x.2) →
      True → ∃ w', (ticking S).hears (w i) c (h.timed clock c x).1 w' ∧
        ∀ j, Function.update w i w' j ≤ time (h.timed clock c x).2.2 := by
    rintro i c ⟨s, k⟩ w hw -
    cases c with
    | none =>
        obtain ⟨hle, heq⟩ := hclock.reads s k
        refine ⟨(clock.reads s k).1.toNat, ⟨Nat.le_trans (hw i) hle, rfl⟩, fun j => ?_⟩
        show Function.update w i _ j ≤ time (clock.reads s k).2
        rw [heq]
        by_cases hj : j = i
        · subst hj
          exact Nat.le_of_eq (Function.update_self ..)
        · rw [Function.update_of_ne hj]
          exact Nat.le_trans (hw j) hle
    | some c =>
        refine ⟨w i, rfl, fun j => ?_⟩
        rw [Function.update_eq_self]
        exact Nat.le_trans (hw j) (hclock.passes c s k)
  obtain ⟨w, -, hQ⟩ := Run.views (K := fun _ => ticking S)
    (R := fun x w => ∀ j, w j ≤ time x.2) (w := fun _ => time P.shared.2) hcall
    (fun x y w he hw j => Nat.le_trans (hw j) (henv x y he)) hP (fun _ => Nat.le_refl _) hr
  exact ⟨w, hQ⟩

end Ticking

end Calls
