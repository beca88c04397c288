import TeeDist.Lib.Prog

/-!
# Programs side by side

A pool is a shared state and a family of programs.  One step lets one program
make its next call, the call being atomic, or lets the environment change the
shared state.  `Run` collects the steps from a start, newest first, and can ask
a condition of every call at the state it is made in.

What holds of all interleavings is proved from two sources.  `Run.invariant` is
induction on the run.  `Run.obeys` says that programs which obey a protocol
alone obey it in every run, the protocol state of each being a function of the
events of the run (`protocolState`).
-/

namespace Calls

/-- One call of one program of a pool, with its reply. -/
structure Event (ι : Type) (S : Signature) where
  /-- The program that made the call. -/
  who : ι
  /-- The call. -/
  call : S.Call
  /-- Its reply. -/
  reply : S.Reply call

/-- A shared state and the programs at work on it. -/
structure Pool (ι : Type) (S : Signature) (σ α : Type) where
  /-- The shared state. -/
  shared : σ
  /-- What each program has left to do. -/
  prog : ι → Prog S α

variable {ι : Type} [DecidableEq ι] {S : Signature} {σ α γ : Type}

/-- One step: a call of the program `i`, or a change by the environment. -/
inductive Step (h : Handler S σ) (env : σ → σ → Prop) :
    Pool ι S σ α → Option (Event ι S) → Pool ι S σ α → Prop where
  | call {P : Pool ι S σ α} {i : ι} {c : S.Call} {k : S.Reply c → Prog S α} :
      P.prog i = .call c k →
      Step h env P (some ⟨i, c, (h c P.shared).1⟩)
        ⟨(h c P.shared).2, Function.update P.prog i (k (h c P.shared).1)⟩
  | env {P : Pool ι S σ α} {s : σ} : env P.shared s → Step h env P none ⟨s, P.prog⟩

/-- `Run h env ok P tr Q`: steps from `P` to `Q` whose events are `tr`, the last
one first, and every call of which satisfies `ok` in the pool it is made in. -/
inductive Run (h : Handler S σ) (env : σ → σ → Prop)
    (ok : Pool ι S σ α → Event ι S → Prop) (P : Pool ι S σ α) :
    List (Option (Event ι S)) → Pool ι S σ α → Prop where
  | nil : Run h env ok P [] P
  | step {tr : List (Option (Event ι S))} {Q R : Pool ι S σ α} {e : Option (Event ι S)} :
      Run h env ok P tr Q → Step h env Q e R → (∀ ev ∈ e, ok Q ev) → Run h env ok P (e :: tr) R

section Run

variable {h : Handler S σ} {env : σ → σ → Prop} {ok : Pool ι S σ α → Event ι S → Prop}
  {P Q : Pool ι S σ α} {tr : List (Option (Event ι S))}

/-- Induction on a run. -/
theorem Run.invariant {I : List (Option (Event ι S)) → Pool ι S σ α → Prop}
    (h0 : I [] P)
    (hcall : ∀ tr Q i c k, Run h env ok P tr Q → I tr Q → Q.prog i = .call c k →
      ok Q ⟨i, c, (h c Q.shared).1⟩ →
      I (some ⟨i, c, (h c Q.shared).1⟩ :: tr)
        ⟨(h c Q.shared).2, Function.update Q.prog i (k (h c Q.shared).1)⟩)
    (henv : ∀ tr Q s, Run h env ok P tr Q → I tr Q → env Q.shared s →
      I (none :: tr) ⟨s, Q.prog⟩)
    (hr : Run h env ok P tr Q) : I tr Q := by
  induction hr with
  | nil => exact h0
  | step hr hs hok ih =>
      cases hs with
      | call hc => exact hcall _ _ _ _ _ hr ih hc (hok _ rfl)
      | env he => exact henv _ _ _ hr ih he

/-- What the calls of programs within bounds and the environment keep holds in every pool. -/
theorem Run.keeps {C : S.Call → Prop} {J : σ → Prop} (hC : ∀ c s, C c → J s → J (h c s).2)
    (henv : ∀ s s', env s s' → J s → J s') (hP : ∀ i, (P.prog i).Within C) (hJ : J P.shared)
    (hr : Run h env ok P tr Q) : J Q.shared ∧ ∀ i, (Q.prog i).Within C := by
  refine Run.invariant (I := fun _ Q => J Q.shared ∧ ∀ i, (Q.prog i).Within C) ⟨hJ, hP⟩ ?_ ?_ hr
  · rintro tr Q i c k _ ⟨hJ, hQ⟩ hc _
    have hi := hQ i
    rw [hc] at hi
    refine ⟨hC c _ hi.1 hJ, fun j => ?_⟩
    by_cases hj : j = i
    · subst hj
      simpa only [Function.update_self] using hi.2 _
    · simpa only [Function.update_of_ne hj] using hQ j
  · rintro tr Q s _ ⟨hJ, hQ⟩ he
    exact ⟨henv _ _ he hJ, hQ⟩

/-- Runs compose. -/
theorem Run.trans {R : Pool ι S σ α} {tr' : List (Option (Event ι S))} (hr : Run h env ok P tr Q)
    (hr' : Run h env ok Q tr' R) : Run h env ok P (tr' ++ tr) R := by
  induction hr' with
  | nil => exact hr
  | step _ hs hok ih => exact .step ih hs hok

end Run

/-! ## What one program saw -/

/-- The calls and replies of one program in a run, the first one first. -/
def transcriptOf (i : ι) : List (Option (Event ι S)) → List (Σ c : S.Call, S.Reply c)
  | [] => []
  | none :: tr => transcriptOf i tr
  | some e :: tr =>
      if e.who = i then transcriptOf i tr ++ [⟨e.call, e.reply⟩] else transcriptOf i tr

theorem mem_transcriptOf (i : ι) (c : S.Call) (r : S.Reply c) :
    ∀ tr : List (Option (Event ι S)), ⟨c, r⟩ ∈ transcriptOf i tr ↔ some ⟨i, c, r⟩ ∈ tr
  | [] => by simp [transcriptOf]
  | none :: tr => by simp [transcriptOf, mem_transcriptOf i c r tr]
  | some ⟨j, c', r'⟩ :: tr => by
      have ih := mem_transcriptOf i c r tr
      by_cases hj : j = i
      · subst hj
        simp only [transcriptOf, if_true, List.mem_append, List.mem_cons, ih, List.not_mem_nil,
          or_false, Option.some.injEq, Sigma.mk.injEq, Event.mk.injEq, true_and]
        exact or_comm
      · simp [transcriptOf, hj, ih, Ne.symm hj]

/-- A program that has returned was answered as its transcript says. -/
theorem Run.answers {h : Handler S σ} {env : σ → σ → Prop}
    {ok : Pool ι S σ α → Event ι S → Prop} {P Q : Pool ι S σ α} {tr : List (Option (Event ι S))}
    (hr : Run h env ok P tr Q) {i : ι} {a : α} (ha : Q.prog i = .ret a) :
    (P.prog i).Answers (transcriptOf i tr) a := by
  have key : ∀ tr' b, (Q.prog i).Answers tr' b → (P.prog i).Answers (transcriptOf i tr ++ tr') b := by
    refine Run.invariant (I := fun tr Q => ∀ tr' b, (Q.prog i).Answers tr' b →
      (P.prog i).Answers (transcriptOf i tr ++ tr') b) ?_ ?_ ?_ hr
    · exact fun tr' b hb => hb
    · intro tr Q j c k _ ih hc _ tr' b hb
      by_cases hj : j = i
      · subst hj
        simp only [Function.update_self] at hb
        have hcall : (Q.prog j).Answers (⟨c, (h c Q.shared).1⟩ :: tr') b := by
          rw [hc]
          exact .call _ hb
        simpa [transcriptOf] using ih _ b hcall
      · simp only [Function.update_of_ne (Ne.symm hj)] at hb
        simpa [transcriptOf, hj] using ih tr' b hb
    · exact fun tr Q s _ ih _ tr' b hb => ih tr' b hb
  have hret := key [] a (by rw [ha]; exact .ret a)
  rwa [List.append_nil] at hret

/-! ## Protocols in a pool -/

/-- Where the events of a run leave each program in its protocol. -/
def protocolState (P : ι → Protocol S γ) (g : ι → γ) : List (Option (Event ι S)) → ι → γ
  | [] => g
  | none :: tr => protocolState P g tr
  | some e :: tr =>
      Function.update (protocolState P g tr) e.who
        ((P e.who).next (protocolState P g tr e.who) e.call e.reply)

/-- A program that made no call is where it was. -/
theorem protocolState_of_silent (P : ι → Protocol S γ) (g : ι → γ) {i : ι} :
    ∀ {tr : List (Option (Event ι S))}, (∀ c r, some ⟨i, c, r⟩ ∉ tr) → protocolState P g tr i = g i
  | [], _ => rfl
  | none :: tr, hi => by
      have ih : protocolState P g tr i = g i :=
        protocolState_of_silent P g fun c r hm => hi c r (List.mem_cons_of_mem _ hm)
      exact ih
  | some ⟨j, c, r⟩ :: tr, hi => by
      have ih : protocolState P g tr i = g i :=
        protocolState_of_silent P g fun c r hm => hi c r (List.mem_cons_of_mem _ hm)
      have hji : i ≠ j := by
        rintro rfl
        exact hi c r List.mem_cons_self
      rw [protocolState, Function.update_of_ne hji]
      exact ih

section Obeys

variable {h : Handler S σ} {env : σ → σ → Prop} {ok : Pool ι S σ α → Event ι S → Prop}
  {P Q : Pool ι S σ α} {tr : List (Option (Event ι S))}
  {pr : ι → Protocol S γ} {post : ι → γ → α → Prop} {g : ι → γ}

/-- Programs that obey a protocol alone obey it in every interleaving. -/
theorem Run.obeys (hP : ∀ i, (P.prog i).Obeys (pr i) (post i) (g i)) (hr : Run h env ok P tr Q) :
    ∀ i, (Q.prog i).Obeys (pr i) (post i) (protocolState pr g tr i) := by
  refine Run.invariant (I := fun tr Q =>
    ∀ i, (Q.prog i).Obeys (pr i) (post i) (protocolState pr g tr i)) hP ?_ ?_ hr
  · intro tr Q i c k _ ih hc _ j
    by_cases hj : j = i
    · subst hj
      have hi := ih j
      rw [hc] at hi
      simpa only [protocolState, Function.update_self] using hi.2 _
    · simpa only [protocolState, Function.update_of_ne hj] using ih j
  · intro tr Q s _ ih _
    exact ih

/-- So the next call of each program is one its protocol state permits. -/
theorem Run.allows (hP : ∀ i, (P.prog i).Obeys (pr i) (post i) (g i)) (hr : Run h env ok P tr Q)
    {i : ι} {c : S.Call} {k : S.Reply c → Prog S α} (hc : Q.prog i = .call c k) :
    (pr i).allow (protocolState pr g tr i) c := by
  have hi := hr.obeys hP i
  rw [hc] at hi
  exact hi.1

/-- And a program that has returned did so in a state of its postcondition. -/
theorem Run.returns (hP : ∀ i, (P.prog i).Obeys (pr i) (post i) (g i)) (hr : Run h env ok P tr Q)
    {i : ι} {a : α} (ha : Q.prog i = .ret a) : post i (protocolState pr g tr i) a := by
  have hi := hr.obeys hP i
  rw [ha] at hi
  exact hi

/-- Two handlers that agree on permitted calls, up to a relation between their states which
the environments keep, have the same runs. -/
theorem Run.simulate {σ' : Type} (h' : Handler S σ') (env' : σ' → σ' → Prop) (R : σ → σ' → Prop)
    (hP : ∀ i, (P.prog i).Obeys (pr i) (post i) (g i))
    (hcall : ∀ i g c s s', (pr i).allow g c → R s s' →
      (h c s).1 = (h' c s').1 ∧ R (h c s).2 (h' c s').2)
    (henv : ∀ s t s', env s t → R s s' → ∃ t', env' s' t' ∧ R t t')
    {s₀ : σ'} (h₀ : R P.shared s₀) (hr : Run h env ok P tr Q) :
    ∃ s, Run h' env' (fun _ _ => True) ⟨s₀, P.prog⟩ tr ⟨s, Q.prog⟩ ∧ R Q.shared s := by
  refine Run.invariant (I := fun tr Q => ∃ s, Run h' env' (fun _ _ => True) ⟨s₀, P.prog⟩ tr
    ⟨s, Q.prog⟩ ∧ R Q.shared s) ⟨s₀, .nil, h₀⟩ ?_ ?_ hr
  · rintro tr Q i c k hr ⟨s, hs, hR⟩ hc _
    obtain ⟨hreply, hR'⟩ := hcall i _ c _ _ (hr.allows hP hc) hR
    refine ⟨(h' c s).2, ?_, hR'⟩
    rw [hreply]
    exact .step hs (.call hc) fun _ _ => trivial
  · rintro tr Q t hr ⟨s, hs, hR⟩ he
    obtain ⟨t', he', hR'⟩ := henv _ _ _ he hR
    exact ⟨t', .step hs (.env he') fun _ _ => trivial, hR'⟩

end Obeys

/-! ## One program among others that do not matter to it -/

/-- A program whose calls have their counterparts in another state, among programs and an
environment that do not change this state: what it has left to do there ends as the whole of it
does. -/
theorem Run.solo {σ' : Type} {h : Handler S σ} {h' : Handler S σ'} {env : σ → σ → Prop}
    {ok : Pool ι S σ α → Event ι S → Prop} {P Q : Pool ι S σ α} {tr : List (Option (Event ι S))}
    {R : σ → σ' → Prop} {C D : S.Call → Prop}
    (hC : ∀ c s t, C c → R s t → (h c s).1 = (h' c t).1 ∧ R (h c s).2 (h' c t).2)
    (hD : ∀ c s t, D c → R s t → R (h c s).2 t) (henv : ∀ s s' t, env s s' → R s t → R s' t)
    {i : ι} (hi : (P.prog i).Within C) (hothers : ∀ j ≠ i, (P.prog j).Within D) {t : σ'}
    (ht : R P.shared t) (hr : Run h env ok P tr Q) :
    ∃ t', R Q.shared t' ∧ (Q.prog i).Within C ∧ (Q.prog i).run h' t' = (P.prog i).run h' t := by
  have hall : (∀ j ≠ i, (Q.prog j).Within D) ∧
      ∃ t', R Q.shared t' ∧ (Q.prog i).Within C ∧ (Q.prog i).run h' t' = (P.prog i).run h' t := by
    refine Run.invariant (I := fun _ Q => (∀ j ≠ i, (Q.prog j).Within D) ∧ ∃ t', R Q.shared t' ∧
      (Q.prog i).Within C ∧ (Q.prog i).run h' t' = (P.prog i).run h' t) ?_ ?_ ?_ hr
    · exact ⟨hothers, t, ht, hi, rfl⟩
    · rintro tr Q j c k _ ⟨hothers, t', ht', hi, hrun⟩ hc _
      by_cases hj : j = i
      · subst hj
        rw [hc] at hi hrun
        obtain ⟨hreply, ht''⟩ := hC c _ _ hi.1 ht'
        refine ⟨fun l hl => ?_, _, ht'', ?_⟩
        · simpa only [Function.update_of_ne hl] using hothers l hl
        · simp only [Function.update_self]
          refine ⟨hi.2 _, ?_⟩
          rw [hreply]
          exact hrun
      · have hd := hothers j hj
        rw [hc] at hd
        refine ⟨fun l hl => ?_, t', hD c _ _ hd.1 ht', ?_⟩
        · by_cases hlj : l = j
          · subst hlj
            simpa only [Function.update_self] using hd.2 _
          · simpa only [Function.update_of_ne hlj] using hothers l hl
        · simpa only [Function.update_of_ne (Ne.symm hj)] using ⟨hi, hrun⟩
    · rintro tr Q s _ ⟨hothers, t', ht', hrest⟩ he
      exact ⟨hothers, t', henv _ _ _ he ht', hrest⟩
  exact hall.2

/-! ## Programs that run alone for a while -/

section Alone

variable {β : Type} {h : Handler S σ} (env : σ → σ → Prop)
  {ok : Pool ι S σ α → Event ι S → Prop} {C : S.Call → Prop} {I : σ → Prop}

/-- A program makes the calls of its first part with nobody in between.  The calls are within
`C`, which keeps `I`, and calls within `C` satisfy the condition where `I` holds. -/
theorem Run.alone (hI : ∀ c s, C c → I s → I (h c s).2)
    (hok : ∀ (R : Pool ι S σ α) i c, C c → I R.shared → ok R ⟨i, c, (h c R.shared).1⟩) {i : ι}
    {k : β → Prog S α} :
    ∀ {p : Prog S β} {Q : Pool ι S σ α}, Q.prog i = p.bind k → p.Within C → I Q.shared →
      ∃ tr, Run h env ok Q tr
          ⟨(p.run h Q.shared).2, Function.update Q.prog i (k (p.run h Q.shared).1)⟩ ∧
        ∀ x ∈ p.transcript h Q.shared, some ⟨i, x.1, x.2⟩ ∈ tr
  | .ret a, Q, hprog, _, _ => by
      refine ⟨[], ?_, fun x hx => by cases hx⟩
      rw [Prog.run_ret, ← Prog.ret_bind a k, ← hprog, Function.update_eq_self]
      exact .nil
  | .call c k', Q, hprog, hp, hs => by
      have hfirst : Run h env ok Q [some ⟨i, c, (h c Q.shared).1⟩] _ :=
        .step .nil (.call hprog) fun ev hev => by cases hev; exact hok Q i c hp.1 hs
      obtain ⟨tr, hrest, hmem⟩ := Run.alone hI hok (p := k' (h c Q.shared).1)
        (Q := ⟨(h c Q.shared).2, Function.update Q.prog i ((k' (h c Q.shared).1).bind k)⟩)
        (Function.update_self ..) (hp.2 _) (hI c _ hp.1 hs)
      refine ⟨tr ++ [some ⟨i, c, (h c Q.shared).1⟩], ?_, fun x hx => ?_⟩
      · have hboth := hfirst.trans hrest
        simp only [Function.update_idem] at hboth
        exact hboth
      · rcases List.mem_cons.mp hx with rfl | hx
        · exact List.mem_append_right _ List.mem_cons_self
        · exact List.mem_append_left _ (hmem x hx)

/-- Some programs, one after the other, make the calls of their first parts. -/
theorem Run.each (hI : ∀ c s, C c → I s → I (h c s).2)
    (hok : ∀ (R : Pool ι S σ α) i c, C c → I R.shared → ok R ⟨i, c, (h c R.shared).1⟩)
    {p : ι → Prog S β} {k : ι → β → Prog S α} (hp : ∀ i, (p i).Within C) :
    ∀ {l : List ι} {Q : Pool ι S σ α}, l.Nodup → (∀ i ∈ l, Q.prog i = (p i).bind (k i)) →
      I Q.shared → ∃ tr R, Run h env ok Q tr R ∧ I R.shared ∧
        (∀ i ∈ l, ∃ s, I s ∧ R.prog i = k i ((p i).run h s).1) ∧ ∀ i ∉ l, R.prog i = Q.prog i
  | [], Q, _, _, hs => ⟨[], Q, .nil, hs, (fun _ hi => by cases hi), fun _ _ => rfl⟩
  | i :: l, Q, hl, hprog, hs => by
      obtain ⟨hi, hl⟩ := List.nodup_cons.mp hl
      obtain ⟨tr, hfirst, _⟩ := Run.alone env hI hok (hprog i List.mem_cons_self) (hp i) hs
      have hs' : I ((p i).run h Q.shared).2 := (hp i).run_inv hI hs
      obtain ⟨tr', R, hrest, hR, hdone, hkept⟩ := Run.each hI hok hp (l := l)
        (Q := ⟨((p i).run h Q.shared).2, Function.update Q.prog i (k i ((p i).run h Q.shared).1)⟩)
        hl (fun j hj => by
          have hne : j ≠ i := by
            rintro rfl
            exact hi hj
          simpa only [Function.update_of_ne hne] using hprog j (List.mem_cons_of_mem _ hj)) hs'
      refine ⟨tr' ++ tr, R, hfirst.trans hrest, hR, fun j hj => ?_, fun j hj => ?_⟩
      · rcases List.mem_cons.mp hj with rfl | hj
        · refine ⟨Q.shared, hs, ?_⟩
          rw [hkept j hi]
          exact Function.update_self ..
        · exact hdone j hj
      · rw [List.mem_cons, not_or] at hj
        rw [hkept j hj.2]
        exact Function.update_of_ne hj.1 ..

end Alone

/-! ## Schedules -/

/-- Let the program `i` make its next call.  Nothing happens if it has returned. -/
def Pool.turn (h : Handler S σ) (i : ι) :
    List (Option (Event ι S)) × Pool ι S σ α → List (Option (Event ι S)) × Pool ι S σ α
  | (tr, Q) =>
      match Q.prog i with
      | .ret _ => (tr, Q)
      | .call c k => (some ⟨i, c, (h c Q.shared).1⟩ :: tr,
          ⟨(h c Q.shared).2, Function.update Q.prog i (k (h c Q.shared).1)⟩)

/-- The events and the pool after calls in the order of a list, the last entry first. -/
def Pool.schedule (h : Handler S σ) (P : Pool ι S σ α) :
    List ι → List (Option (Event ι S)) × Pool ι S σ α
  | [] => ([], P)
  | i :: is => Pool.turn h i (P.schedule h is)

/-- The next call of a program satisfies a condition. -/
def Pool.Permits (h : Handler S σ) (ok : Pool ι S σ α → Event ι S → Prop) (i : ι)
    (Q : Pool ι S σ α) : Prop :=
  match Q.prog i with
  | .ret _ => True
  | .call c _ => ok Q ⟨i, c, (h c Q.shared).1⟩

instance (h : Handler S σ) (ok : Pool ι S σ α → Event ι S → Prop) [∀ Q ev, Decidable (ok Q ev)]
    (i : ι) (Q : Pool ι S σ α) : Decidable (Q.Permits h ok i) :=
  match hc : Q.prog i with
  | .ret _ => isTrue (by simp [Pool.Permits, hc])
  | .call c _ => decidable_of_iff (ok Q ⟨i, c, (h c Q.shared).1⟩) (by simp [Pool.Permits, hc])

/-- Every call of a schedule satisfies a condition in the pool it is made in. -/
def Pool.Respects (h : Handler S σ) (ok : Pool ι S σ α → Event ι S → Prop) (P : Pool ι S σ α) :
    List ι → Prop
  | [] => True
  | i :: is => P.Respects h ok is ∧ (P.schedule h is).2.Permits h ok i

instance Pool.decidableRespects (h : Handler S σ) (ok : Pool ι S σ α → Event ι S → Prop)
    [∀ Q ev, Decidable (ok Q ev)] (P : Pool ι S σ α) : (is : List ι) → Decidable (P.Respects h ok is)
  | [] => isTrue trivial
  | i :: is =>
      have := Pool.decidableRespects h ok P is
      inferInstanceAs (Decidable (P.Respects h ok is ∧ (P.schedule h is).2.Permits h ok i))

/-- A schedule is a run. -/
theorem Pool.run_schedule (h : Handler S σ) (env : σ → σ → Prop)
    (ok : Pool ι S σ α → Event ι S → Prop) (P : Pool ι S σ α) :
    ∀ is : List ι, P.Respects h ok is →
      Run h env ok P (P.schedule h is).1 (P.schedule h is).2
  | [], _ => .nil
  | i :: is, hok => by
      have ih := Pool.run_schedule h env ok P is hok.1
      have hlast := hok.2
      rw [Pool.schedule]
      generalize P.schedule h is = res at ih hlast
      obtain ⟨tr, Q⟩ := res
      unfold Pool.Permits at hlast
      unfold Pool.turn
      cases hc : Q.prog i with
      | ret a => simpa only [hc] using ih
      | call c k =>
          simp only [hc] at hlast ⊢
          exact .step ih (.call hc) fun ev hev => by cases hev; exact hlast

/-- A run without conditions. -/
theorem Pool.respects_true (h : Handler S σ) (P : Pool ι S σ α) :
    ∀ is : List ι, P.Respects h (fun _ _ => True) is
  | [] => trivial
  | i :: is => by
      refine ⟨P.respects_true h is, ?_⟩
      unfold Pool.Permits
      split <;> trivial

end Calls
