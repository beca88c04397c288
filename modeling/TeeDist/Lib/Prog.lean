import Mathlib.Logic.Function.Basic

/-!
# Programs that talk to a remote party

A `Prog S α` is a finite tree.  A leaf returns a value, and a node makes one
call of the signature `S` and continues with the reply.  The tree fixes what
the caller does and leaves the answers open, so one program can be run

* alone against a handler (`Prog.run`), or for its first `n` calls only
  (`Prog.advance`);
* next to other programs, one call at a time (`Calls.Pool`);
* against answers that nobody vouches for (`Prog.Answers`).

Two predicates speak about every path of a tree at once.  `Prog.Within` bounds
the calls a program may make.  `Prog.Obeys` follows the calls and replies with
an automaton, a `Protocol`, and ends in a postcondition on the automaton's last
state and the value returned.  It has a rule for `bind`, so it is established
along the text of a program.
-/

namespace Calls

/-- The calls a program can make, each with the type of its replies. -/
structure Signature where
  /-- The calls. -/
  Call : Type
  /-- What a call is answered with. -/
  Reply : Call → Type

/-- A program: return a value, or make a call and go on with its reply. -/
inductive Prog (S : Signature) (α : Type) : Type where
  | ret : α → Prog S α
  | call : (c : S.Call) → (S.Reply c → Prog S α) → Prog S α

/-- What a call does to a shared state, as a function. -/
abbrev Handler (S : Signature) (σ : Type) : Type := (c : S.Call) → σ → S.Reply c × σ

namespace Prog

variable {S : Signature} {σ α β δ : Type}

/-! ## Sequencing -/

/-- Run `p`, then `f` on what it returns. -/
def bind : Prog S α → (α → Prog S β) → Prog S β
  | .ret a, f => f a
  | .call c k, f => .call c fun r => (k r).bind f

instance : Monad (Prog S) where
  pure := .ret
  bind := Prog.bind

@[simp] theorem pure_eq (a : α) : (pure a : Prog S α) = .ret a := rfl

@[simp] theorem bind_eq (p : Prog S α) (f : α → Prog S β) : (p >>= f) = p.bind f := rfl

@[simp] theorem ret_bind (a : α) (f : α → Prog S β) : (Prog.ret a : Prog S α).bind f = f a := rfl

@[simp] theorem call_bind (c : S.Call) (k : S.Reply c → Prog S α) (f : α → Prog S β) :
    (Prog.call c k).bind f = .call c fun r => (k r).bind f := rfl

theorem bind_assoc (p : Prog S α) (f : α → Prog S β) (g : β → Prog S δ) :
    (p.bind f).bind g = p.bind fun a => (f a).bind g := by
  induction p with
  | ret a => rfl
  | call c k ih =>
      simp only [call_bind]
      congr 1
      funext r
      exact ih r

/-! ## Running alone -/

/-- Run a program to its end, nobody else touching the state. -/
def run (h : Handler S σ) : Prog S α → σ → α × σ
  | .ret a, s => (a, s)
  | .call c k, s => (k (h c s).1).run h (h c s).2

@[simp] theorem run_ret (h : Handler S σ) (a : α) (s : σ) : (Prog.ret a).run h s = (a, s) := rfl

@[simp] theorem run_call (h : Handler S σ) (c : S.Call) (k : S.Reply c → Prog S α) (s : σ) :
    (Prog.call c k).run h s = (k (h c s).1).run h (h c s).2 := rfl

theorem run_bind (h : Handler S σ) (p : Prog S α) (f : α → Prog S β) (s : σ) :
    (p.bind f).run h s = (f (p.run h s).1).run h (p.run h s).2 := by
  induction p generalizing s with
  | ret a => rfl
  | call c k ih => exact ih _ _

/-- The rest of a program and the state after its first `n` calls. -/
def advance (h : Handler S σ) : Nat → Prog S α → σ → Prog S α × σ
  | 0, p, s => (p, s)
  | _ + 1, .ret a, s => (.ret a, s)
  | n + 1, .call c k, s => advance h n (k (h c s).1) (h c s).2

@[simp] theorem advance_zero (h : Handler S σ) (p : Prog S α) (s : σ) :
    advance h 0 p s = (p, s) := rfl

@[simp] theorem advance_ret (h : Handler S σ) (n : Nat) (a : α) (s : σ) :
    advance h n (.ret a : Prog S α) s = (.ret a, s) := by
  cases n <;> rfl

@[simp] theorem advance_call (h : Handler S σ) (n : Nat) (c : S.Call)
    (k : S.Reply c → Prog S α) (s : σ) :
    advance h (n + 1) (.call c k) s = advance h n (k (h c s).1) (h c s).2 := rfl

/-- After `n` calls of `p.bind f`, either `p` is still at work, or it has
returned and `f` has made the calls that are left. -/
theorem advance_bind (h : Handler S σ) (f : α → Prog S β) :
    ∀ (n : Nat) (p : Prog S α) (s : σ),
      (∃ c k s', advance h n p s = (.call c k, s') ∧
        advance h n (p.bind f) s = ((Prog.call c k).bind f, s')) ∨
      (∃ m, advance h n (p.bind f) s = advance h m (f (p.run h s).1) (p.run h s).2)
  | n, .ret a, s => Or.inr ⟨n, rfl⟩
  | 0, .call c k, s => Or.inl ⟨c, k, s, rfl, rfl⟩
  | n + 1, .call c k, s => by
      simp only [call_bind, advance_call, run_call]
      exact advance_bind h f n (k (h c s).1) (h c s).2

/-! ## Calls within bounds -/

/-- Every call the program can make satisfies `Q`. -/
def Within (Q : S.Call → Prop) : Prog S α → Prop
  | .ret _ => True
  | .call c k => Q c ∧ ∀ r, (k r).Within Q

theorem Within.mono {Q Q' : S.Call → Prop} (hQ : ∀ c, Q c → Q' c) :
    ∀ {p : Prog S α}, p.Within Q → p.Within Q'
  | .ret _, _ => trivial
  | .call _ _, hp => ⟨hQ _ hp.1, fun r => Within.mono hQ (hp.2 r)⟩

theorem Within.bind {Q : S.Call → Prop} {f : α → Prog S β} (hf : ∀ a, (f a).Within Q) :
    ∀ {p : Prog S α}, p.Within Q → (p.bind f).Within Q
  | .ret a, _ => hf a
  | .call _ _, hp => ⟨hp.1, fun r => Within.bind hf (hp.2 r)⟩

/-- What every call within the bounds preserves, the whole run preserves. -/
theorem Within.run_inv {Q : S.Call → Prop} {h : Handler S σ} {I : σ → Prop}
    (hI : ∀ c s, Q c → I s → I (h c s).2) {p : Prog S α} {s : σ}
    (hp : p.Within Q) (hs : I s) : I (p.run h s).2 := by
  induction p generalizing s with
  | ret a => exact hs
  | call c k ih => exact ih _ (hp.2 _) (hI c s hp.1 hs)

/-- Whatever the replies are, the program returns something that satisfies `Q`. -/
def Yields (Q : α → Prop) : Prog S α → Prop
  | .ret a => Q a
  | .call _ k => ∀ r, (k r).Yields Q

theorem Yields.bind {Q : β → Prop} {f : α → Prog S β} (hf : ∀ a, (f a).Yields Q) :
    ∀ (p : Prog S α), (p.bind f).Yields Q
  | .ret a => hf a
  | .call _ k => fun r => Yields.bind hf (k r)

/-- Only what a program can return matters to what follows it. -/
theorem Yields.bind_congr {Q : α → Prop} {f g : α → Prog S β} (hfg : ∀ a, Q a → f a = g a) :
    ∀ {p : Prog S α}, p.Yields Q → p.bind f = p.bind g
  | .ret a, hp => hfg a hp
  | .call c k, hp => by
      rw [call_bind, call_bind]
      congr 1
      funext r
      exact Yields.bind_congr hfg (hp r)

/-! ## Arbitrary answers -/

/-- `p.Answers tr a`: answered as the transcript `tr` says, call by call, the
program returns `a`.  Nothing is assumed about where the answers come from. -/
inductive Answers : Prog S α → List (Σ c : S.Call, S.Reply c) → α → Prop where
  | ret (a : α) : Answers (.ret a) [] a
  | call {c : S.Call} {k : S.Reply c → Prog S α} (r : S.Reply c)
      {tr : List (Σ c : S.Call, S.Reply c)} {a : α} :
      Answers (k r) tr a → Answers (.call c k) (⟨c, r⟩ :: tr) a

/-- The calls and replies of a run against a handler. -/
def transcript (h : Handler S σ) : Prog S α → σ → List (Σ c : S.Call, S.Reply c)
  | .ret _, _ => []
  | .call c k, s => ⟨c, (h c s).1⟩ :: (k (h c s).1).transcript h (h c s).2

/-- A handler gives one of the ways to answer. -/
theorem answers_transcript (h : Handler S σ) (p : Prog S α) (s : σ) :
    p.Answers (p.transcript h s) (p.run h s).1 := by
  induction p generalizing s with
  | ret a => exact .ret a
  | call c k ih => exact .call _ (ih _ _)

theorem Answers.ret_inv {a b : α} {tr : List (Σ c : S.Call, S.Reply c)}
    (h : (Prog.ret a : Prog S α).Answers tr b) : tr = [] ∧ b = a := by
  cases h
  exact ⟨rfl, rfl⟩

theorem Answers.call_inv {c : S.Call} {k : S.Reply c → Prog S α} {b : α}
    {tr : List (Σ c : S.Call, S.Reply c)} (h : (Prog.call c k).Answers tr b) :
    ∃ r tr', tr = ⟨c, r⟩ :: tr' ∧ (k r).Answers tr' b := by
  cases h with
  | call r h => exact ⟨r, _, rfl, h⟩

/-- A transcript of `p.bind f` is one of `p` followed by one of `f`. -/
theorem Answers.bind_inv {f : α → Prog S β} :
    ∀ {p : Prog S α} {tr : List (Σ c : S.Call, S.Reply c)} {b : β}, (p.bind f).Answers tr b →
      ∃ a tr₁ tr₂, tr = tr₁ ++ tr₂ ∧ p.Answers tr₁ a ∧ (f a).Answers tr₂ b
  | .ret a, tr, b, h => ⟨a, [], tr, rfl, .ret a, h⟩
  | .call c k, _, b, h => by
      rw [call_bind] at h
      cases h with
      | call r h' =>
          obtain ⟨a, tr₁, tr₂, rfl, h₁, h₂⟩ := Answers.bind_inv h'
          exact ⟨a, ⟨c, r⟩ :: tr₁, tr₂, rfl, .call r h₁, h₂⟩

/-- The calls of a transcript are within the bounds of the program. -/
theorem Answers.within {Q : S.Call → Prop} {p : Prog S α} {tr : List (Σ c : S.Call, S.Reply c)}
    {a : α} (hp : p.Within Q) (h : p.Answers tr a) : ∀ x ∈ tr, Q x.1 := by
  induction h with
  | ret a => simp
  | call r _ ih =>
      intro x hx
      rcases List.mem_cons.mp hx with rfl | hx
      · exact hp.1
      · exact ih (hp.2 r) x hx

/-- Answered as a handler does in a state that no call of the transcript changes, a program
returns what it returns when it is run in that state. -/
theorem Answers.eq_run {h : Handler S σ} {s : σ} {p : Prog S α}
    {tr : List (Σ c : S.Call, S.Reply c)} {a : α} (hp : p.Answers tr a)
    (hs : ∀ x ∈ tr, h x.1 s = (x.2, s)) : p.run h s = (a, s) := by
  induction hp with
  | ret a => rfl
  | call r _ ih =>
      have hc := hs _ List.mem_cons_self
      rw [run_call, hc]
      exact ih fun x hx => hs x (List.mem_cons_of_mem _ hx)

theorem Within.and {Q Q' : S.Call → Prop} :
    ∀ {p : Prog S α}, p.Within Q → p.Within Q' → p.Within fun c => Q c ∧ Q' c
  | .ret _, _, _ => trivial
  | .call _ _, hp, hp' => ⟨⟨hp.1, hp'.1⟩, fun r => Within.and (hp.2 r) (hp'.2 r)⟩

end Prog

/-! ## Calls carried out by programs -/

/-- Calls and their replies, the latest one first. -/
abbrev Log (S : Signature) : Type := List (Σ c : S.Call, S.Reply c)

/-- A handler that takes into account what was said before notes what is said. -/
def Handler.noting {S : Signature} {σ : Type} (h : Log S → Handler S σ) : Handler S (Log S × σ) :=
  fun c s => ((h s.1 c s.2).1, ⟨c, (h s.1 c s.2).1⟩ :: s.1, (h s.1 c s.2).2)

namespace Prog

variable {S T : Signature} {σ τ α : Type} {impl : Log S → (c : S.Call) → Prog T (S.Reply c)}

/-- Carry out the calls of a program by programs over another signature, noting what is said. -/
def implement (impl : Log S → (c : S.Call) → Prog T (S.Reply c)) :
    Prog S α → Log S → Prog T (α × Log S)
  | .ret a, log => .ret (a, log)
  | .call c k, log => (impl log c).bind fun r => (k r).implement impl (⟨c, r⟩ :: log)

theorem Within.implement {Q : S.Call → Prop} {C : T.Call → Prop}
    (himpl : ∀ log c, Q c → (impl log c).Within C) {p : Prog S α} (hp : p.Within Q) (log : Log S) :
    (p.implement impl log).Within C := by
  induction p generalizing log with
  | ret a => trivial
  | call c k ih => exact (himpl log c hp.1).bind fun r => ih r (hp.2 r) _

/-- What is true of each call is true of a program: if the programs that carry the calls out
simulate a handler, then the program run by way of them says what it says to the handler. -/
theorem run_implement {hT : Handler T σ} {hS : Log S → Handler S τ} {R : σ → τ → Prop}
    {Q : S.Call → Prop}
    (himpl : ∀ log c s t, Q c → R s t → ((impl log c).run hT s).1 = (hS log c t).1 ∧
      R ((impl log c).run hT s).2 (hS log c t).2)
    {p : Prog S α} (hp : p.Within Q) (log : Log S) {s : σ} {t : τ} (hR : R s t) :
    ((p.implement impl log).run hT s).1 =
        ((p.run (.noting hS) (log, t)).1, (p.run (.noting hS) (log, t)).2.1) ∧
      R ((p.implement impl log).run hT s).2 (p.run (.noting hS) (log, t)).2.2 := by
  induction p generalizing log s t with
  | ret a => exact ⟨rfl, hR⟩
  | call c k ih =>
      obtain ⟨hreply, hR'⟩ := himpl log c s t hp.1 hR
      rw [implement, run_bind, hreply]
      exact ih _ (hp.2 _) _ hR'

end Prog

/-! ## Calls of two kinds -/

/-- The calls of two signatures. -/
abbrev Signature.sum (S T : Signature) : Signature where
  Call := S.Call ⊕ T.Call
  Reply
    | .inl c => S.Reply c
    | .inr c => T.Reply c

/-- A handler for the calls of each kind. -/
def Handler.sum {S T : Signature} {σ : Type} (h : Handler S σ) (h' : Handler T σ) :
    Handler (S.sum T) σ
  | .inl c => h c
  | .inr c => h' c

namespace Prog

variable {S T : Signature} {σ α : Type}

/-- A program that makes calls of the first kind. -/
def inl : Prog S α → Prog (S.sum T) α
  | .ret a => .ret a
  | .call c k => .call (.inl c) fun r => (k r).inl

theorem Within.inl {C : S.Call → Prop} {C' : T.Call → Prop} :
    ∀ {p : Prog S α}, p.Within C → (p.inl : Prog (S.sum T) α).Within (Sum.elim C C')
  | .ret _, _ => trivial
  | .call _ _, hp => ⟨hp.1, fun r => Within.inl (hp.2 r)⟩

@[simp] theorem run_inl (h : Handler S σ) (h' : Handler T σ) (p : Prog S α) (s : σ) :
    p.inl.run (h.sum h') s = p.run h s := by
  induction p generalizing s with
  | ret a => rfl
  | call c k ih => exact ih _ _

end Prog

/-! ## Protocols -/

/-- An automaton that reads the calls and replies of one program: which calls
each of its states permits, and where a call and its reply lead. -/
structure Protocol (S : Signature) (γ : Type) where
  /-- The calls a state permits. -/
  allow : γ → S.Call → Prop
  /-- The state after a call and its reply. -/
  next : γ → (c : S.Call) → S.Reply c → γ

/-- The protocol that permits only calls within bounds. -/
def Protocol.within {S : Signature} {γ : Type} (P : Protocol S γ) (Q : S.Call → Prop) :
    Protocol S γ where
  allow g c := P.allow g c ∧ Q c
  next := P.next

/-- The protocol that permits calls of a kind, in any order. -/
def Protocol.only {S : Signature} (Q : S.Call → Prop) : Protocol S Unit where
  allow _ := Q
  next _ _ _ := ()

namespace Prog

variable {S : Signature} {γ σ α β : Type}

/-- Along every path from `g` the calls are permitted, and a leaf `a` reached in
the state `g'` satisfies `post g' a`. -/
def Obeys (P : Protocol S γ) (post : γ → α → Prop) : γ → Prog S α → Prop
  | g, .ret a => post g a
  | g, .call c k => P.allow g c ∧ ∀ r, Obeys P post (P.next g c r) (k r)

theorem Obeys.mono {P : Protocol S γ} {post post' : γ → α → Prop}
    (hpost : ∀ g a, post g a → post' g a) :
    ∀ {g : γ} {p : Prog S α}, p.Obeys P post g → p.Obeys P post' g
  | _, .ret _, hp => hpost _ _ hp
  | _, .call _ _, hp => ⟨hp.1, fun r => Obeys.mono hpost (hp.2 r)⟩

/-- The rule for sequencing: the first program ends where the second can go on. -/
theorem Obeys.bind {P : Protocol S γ} {post : γ → β → Prop} {f : α → Prog S β} :
    ∀ {g : γ} {p : Prog S α}, p.Obeys P (fun g a => (f a).Obeys P post g) g →
      (p.bind f).Obeys P post g
  | _, .ret _, hp => hp
  | _, .call _ _, hp => ⟨hp.1, fun r => Obeys.bind (hp.2 r)⟩

/-- A program that obeys the protocol that permits calls of a kind makes only such calls. -/
theorem Obeys.only {post : Unit → α → Prop} {Q : S.Call → Prop} :
    ∀ {p : Prog S α}, p.Obeys (.only Q) post () → p.Within Q
  | .ret _, _ => trivial
  | .call _ _, hp => ⟨hp.1, fun r => Obeys.only (hp.2 r)⟩

theorem Obeys.of_within {P : Protocol S γ} {post : γ → α → Prop} {Q : S.Call → Prop} :
    ∀ {g : γ} {p : Prog S α}, p.Obeys (P.within Q) post g → p.Obeys P post g
  | _, .ret _, hp => hp
  | _, .call _ _, hp => ⟨hp.1.1, fun r => Obeys.of_within (hp.2 r)⟩

/-- What every permitted call preserves holds after the first `n` calls, in the state the
protocol is then in. -/
theorem Obeys.advance_inv {P : Protocol S γ} {post : γ → α → Prop} {h : Handler S σ}
    {J : γ → σ → Prop}
    (hJ : ∀ g c s, P.allow g c → J g s → J (P.next g c (h c s).1) (h c s).2) {n : Nat} {g : γ}
    {p : Prog S α} {s : σ} (hp : p.Obeys P post g) (hs : J g s) :
    ∃ g', (advance h n p s).1.Obeys P post g' ∧ J g' (advance h n p s).2 := by
  induction n generalizing g p s with
  | zero => exact ⟨g, hp, hs⟩
  | succ n ih =>
      cases p with
      | ret a => exact ⟨g, hp, hs⟩
      | call c k => exact ih (hp.2 _) (hJ g c s hp.1 hs)

end Prog

end Calls
