import TeeDist.Lib.Pool

/-!
# Programs that see parts of a shared state

Programs in a pool often own parts of the shared state.  Each has a *view*: what it knows of the
state.  A `Contract` says which calls it may make in a view, and what it may hear in reply, which
need not be determined by the view.  `Prog.Ensures` is the weakest precondition of a program under a
contract: it keeps the contract, and ends in a postcondition whatever it hears.

If calls that keep the contracts change no view but that of their program, then what each program
ensures alone it ensures in every interleaving (`Run.views`).

A program that is run in its view alone hears one of the things it may hear.  It *follows* a handler
if it ends as it does when it hears what the handler says (`Prog.Follows`); this is closed under
sequencing.
-/

namespace Calls

/-- What a program may ask in a view, and what it may hear. -/
structure Contract (S : Signature) (ω : Type) where
  /-- The calls a view permits. -/
  may : ω → S.Call → Prop
  /-- The replies to a call, and the views they lead to. -/
  hears : ω → (c : S.Call) → S.Reply c → ω → Prop

/-- No promise, and nothing known. -/
def Contract.any (S : Signature) (ω : Type) : Contract S ω := ⟨fun _ _ => True, fun _ _ _ _ => True⟩

/-- Every call is permitted, and answered as a handler says. -/
def Contract.exact {S : Signature} {ω : Type} (h : Handler S ω) : Contract S ω where
  may _ _ := True
  hears w c r w' := (r, w') = h c w

/-- A contract for the calls of each kind. -/
def Contract.sum {S T : Signature} {ω : Type} (K : Contract S ω) (K' : Contract T ω) :
    Contract (S.sum T) ω where
  may
    | w, .inl c => K.may w c
    | w, .inr c => K'.may w c
  hears
    | w, .inl c => K.hears w c
    | w, .inr c => K'.hears w c

/-- A contract that permits calls of one kind only. -/
def Contract.limit {S : Signature} {ω : Type} (K : Contract S ω) (C : S.Call → Prop) : Contract S ω where
  may w c := K.may w c ∧ C c
  hears := K.hears

namespace Prog

variable {S : Signature} {ω α β : Type} {K : Contract S ω}

/-- The program keeps the contract and ends in `post`, whatever it hears. -/
def Ensures (K : Contract S ω) (post : α → ω → Prop) : Prog S α → ω → Prop
  | .ret a, w => post a w
  | .call c k, w => K.may w c ∧ ∀ r w', K.hears w c r w' → (k r).Ensures K post w'

theorem Ensures.mono {post post' : α → ω → Prop} (hpost : ∀ a w, post a w → post' a w) :
    ∀ {p : Prog S α} {w : ω}, p.Ensures K post w → p.Ensures K post' w
  | .ret _, _, hp => hpost _ _ hp
  | .call _ _, _, hp => ⟨hp.1, fun r w' h => Ensures.mono hpost (hp.2 r w' h)⟩

/-- Two things that are ensured. -/
theorem Ensures.both {post post' : α → ω → Prop} :
    ∀ {p : Prog S α} {w : ω}, p.Ensures K post w → p.Ensures K post' w →
      p.Ensures K (fun a w => post a w ∧ post' a w) w
  | .ret _, _, hp, hp' => ⟨hp, hp'⟩
  | .call _ _, _, hp, hp' =>
      ⟨hp.1, fun r w' h => Ensures.both (hp.2 r w' h) (hp'.2 r w' h)⟩

/-- The rule for sequencing. -/
theorem Ensures.bind {post : β → ω → Prop} {f : α → Prog S β} :
    ∀ {p : Prog S α} {w : ω}, p.Ensures K (fun a w => (f a).Ensures K post w) w →
      (p.bind f).Ensures K post w
  | .ret _, _, hp => hp
  | .call _ _, _, hp => ⟨hp.1, fun r w' h => Ensures.bind (hp.2 r w' h)⟩

/-- Nothing is needed to ensure nothing. -/
theorem Ensures.any : ∀ (p : Prog S α) (w : ω), p.Ensures (.any S ω) (fun _ _ => True) w
  | .ret _, _ => trivial
  | .call _ k, _ => ⟨trivial, fun r w' _ => Ensures.any (k r) w'⟩

theorem Ensures.limit {C : S.Call → Prop} {post : α → ω → Prop} :
    ∀ {p : Prog S α} {w : ω}, p.Within C → p.Ensures K post w → p.Ensures (K.limit C) post w
  | .ret _, _, _, hp => hp
  | .call _ _, _, hC, hp => ⟨⟨hp.1, hC.1⟩, fun r w' h => Ensures.limit (hC.2 r) (hp.2 r w' h)⟩

/-- A program that makes calls of the first kind. -/
theorem Ensures.inl {T : Signature} {K' : Contract T ω} {post : α → ω → Prop} :
    ∀ {p : Prog S α} {w : ω}, p.Ensures K post w → (p.inl : Prog (S.sum T) α).Ensures (K.sum K') post w
  | .ret _, _, hp => hp
  | .call _ _, _, hp => ⟨hp.1, fun r w' h => Ensures.inl (hp.2 r w' h)⟩

/-- What every call of the contract keeps holds at the end. -/
theorem Ensures.keeping {I : ω → Prop} {post : α → ω → Prop}
    (hI : ∀ w c r w', I w → K.may w c → K.hears w c r w' → I w') :
    ∀ {p : Prog S α} {w : ω}, I w → p.Ensures K post w → p.Ensures K (fun a w => post a w ∧ I w) w
  | .ret _, _, hw, hp => ⟨hp, hw⟩
  | .call _ _, _, hw, hp =>
      ⟨hp.1, fun r w' h => Ensures.keeping hI (hI _ _ r w' hw hp.1 h) (hp.2 r w' h)⟩

/-- Programs that carry out the calls of a program, each as a handler on another state does. -/
theorem Ensures.implement {T : Signature} {τ : Type} {impl : Log T → (c : T.Call) → Prog S (T.Reply c)}
    {h : Log T → Handler T τ} {R : ω → τ → Prop} {Q : T.Call → Prop}
    (himpl : ∀ log c w t, Q c → R w t →
      (impl log c).Ensures K (fun r w' => r = (h log c t).1 ∧ R w' (h log c t).2) w)
    {p : Prog T α} (hp : p.Within Q) (log : Log T) {w : ω} {t : τ} (hR : R w t) :
    (p.implement impl log).Ensures K (fun out w' =>
      out = ((p.run (.noting h) (log, t)).1, (p.run (.noting h) (log, t)).2.1) ∧
        R w' (p.run (.noting h) (log, t)).2.2) w := by
  induction p generalizing log w t with
  | ret a => exact ⟨rfl, hR⟩
  | call c k ih =>
      refine Ensures.bind ((himpl log c w t hp.1 hR).mono fun r w' hr => ?_)
      obtain ⟨rfl, hR'⟩ := hr
      exact ih _ (hp.2 _) _ hR'

/-- The program ends as it does when it is run against a handler, whatever it hears. -/
def Follows (K : Contract S ω) (h : Handler S ω) (p : Prog S α) (w : ω) : Prop :=
  p.Ensures K (fun a w' => (a, w') = p.run h w) w

section Follows

variable {h : Handler S ω} {w : ω}

theorem Follows.ret (a : α) : (Prog.ret a).Follows K h w := rfl

/-- One part after the other. -/
theorem Follows.bind {p : Prog S α} {f : α → Prog S β} (hp : p.Follows K h w)
    (hf : (f (p.run h w).1).Follows K h (p.run h w).2) : (p.bind f).Follows K h w := by
  refine Ensures.bind (Ensures.mono (fun a w' he => ?_) hp)
  have ha : a = (p.run h w).1 := congrArg Prod.fst he
  have hw : w' = (p.run h w).2 := congrArg Prod.snd he
  rw [ha, hw]
  refine Ensures.mono (fun b w'' he' => ?_) hf
  rw [run_bind]
  exact he'

/-- A call to which there is one reply. -/
theorem Follows.call {c : S.Call} {k : S.Reply c → Prog S α} (hmay : K.may w c)
    (hears : ∀ r w', K.hears w c r w' → r = (h c w).1 ∧ w' = (h c w).2)
    (hk : (k (h c w).1).Follows K h (h c w).2) : (Prog.call c k).Follows K h w := by
  refine ⟨hmay, fun r w' hr => ?_⟩
  obtain ⟨rfl, rfl⟩ := hears r w' hr
  exact hk

theorem Follows.inl {T : Signature} {K' : Contract T ω} {h' : Handler T ω} {p : Prog S α}
    (hp : p.Follows K h w) : (p.inl : Prog (S.sum T) α).Follows (K.sum K') (h.sum h') w := by
  refine Ensures.mono (fun a w' he => ?_) (Ensures.inl hp)
  rw [run_inl]
  exact he

/-- What holds after a run against the handler is ensured. -/
theorem Follows.ensures {p : Prog S α} {post : α → ω → Prop} (hp : p.Follows K h w)
    (hpost : post (p.run h w).1 (p.run h w).2) : p.Ensures K post w := by
  refine Ensures.mono (fun a w' he => ?_) hp
  have ha : a = (p.run h w).1 := congrArg Prod.fst he
  have hw : w' = (p.run h w).2 := congrArg Prod.snd he
  rw [ha, hw]
  exact hpost

end Follows

end Prog

variable {ι : Type} [DecidableEq ι] {S : Signature} {σ ω α : Type}

/-- A call that keeps the contract of its program has a reply that the program may hear, and changes
no other view.  Then programs ensure in every interleaving what they ensure alone. -/
theorem Run.views {h : Handler S σ} {env : σ → σ → Prop} {ok : Pool ι S σ α → Event ι S → Prop}
    {P Q : Pool ι S σ α} {tr : List (Option (Event ι S))} {K : ι → Contract S ω}
    {R : σ → (ι → ω) → Prop}
    (hcall : ∀ i c s w, R s w → (K i).may (w i) c →
      ∃ w', (K i).hears (w i) c (h c s).1 w' ∧ R (h c s).2 (Function.update w i w'))
    (henv : ∀ s s' w, env s s' → R s w → R s' w) {post : ι → α → ω → Prop} {w : ι → ω}
    (hP : ∀ i, (P.prog i).Ensures (K i) (post i) (w i)) (hR : R P.shared w)
    (hr : Run h env ok P tr Q) :
    ∃ w', R Q.shared w' ∧ ∀ i, (Q.prog i).Ensures (K i) (post i) (w' i) := by
  refine Run.invariant (I := fun _ Q => ∃ w', R Q.shared w' ∧
    ∀ i, (Q.prog i).Ensures (K i) (post i) (w' i)) ⟨w, hR, hP⟩ ?_ ?_ hr
  · rintro tr Q i c k _ ⟨w, hR, hQ⟩ hc _
    have hi := hQ i
    rw [hc] at hi
    obtain ⟨w', hears, hR'⟩ := hcall i c Q.shared w hR hi.1
    refine ⟨Function.update w i w', hR', fun j => ?_⟩
    by_cases hj : j = i
    · subst hj
      simp only [Function.update_self]
      exact hi.2 _ w' hears
    · simp only [Function.update_of_ne hj]
      exact hQ j
  · rintro tr Q s _ ⟨w, hR, hQ⟩ he
    exact ⟨w, henv _ _ _ he hR, hQ⟩

end Calls
