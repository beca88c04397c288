import TeeDist.Lib.Pool

/-!
# Calls that travel

In a pool (`Lib.Pool`) a call is atomic.  Here it travels on the connection of its caller to
the party that carries it out: it is asked, carried out, and answered, and other calls come in
between.  A connection can break.  The caller then gives up, its call returns a failure, and
nothing more is asked on the connection; a call that is still on its way may be carried out
after that, or never.

`Remote.Run.carried_once` says that a call is carried out at most once, and once if it is
answered.  `Remote.Run.pool` says that as long as no connection breaks, the programs cannot
tell this from a pool: each call takes effect at one moment between the question and the
answer.
-/

namespace Calls

/-- What is under way on a connection.  The calls of a program are numbered. -/
inductive Flight (S : Signature) where
  | idle
  /-- A call was asked and not yet carried out. -/
  | asked (n : Nat) (c : S.Call)
  /-- It was carried out, and the answer is on its way. -/
  | done (n : Nat) (c : S.Call) (r : S.Reply c)
  /-- The connection is broken, and the call may still be carried out. -/
  | late (n : Nat) (c : S.Call)
  /-- The connection is broken. -/
  | gone

/-- What is left of a connection when its caller gives up. -/
def Flight.drop {S : Signature} : Flight S → Flight S
  | .asked n c => .late n c
  | .late n c => .late n c
  | _ => .gone

/-- The call that may still be carried out. -/
def Flight.pending {S : Signature} : Flight S → Option (Nat × S.Call)
  | .asked n c => some (n, c)
  | .late n c => some (n, c)
  | _ => none

/-- No call of the caller is under way. -/
def Flight.Quiet {S : Signature} : Flight S → Prop
  | .asked _ _ => False
  | .done _ _ _ => False
  | _ => True

/-- A shared state, the programs at work on it, and their connections. -/
structure Remote (ι κ : Type) (S : Signature) (σ α : Type) where
  shared : σ
  /-- What each program has left to do.  It goes on when a call returns. -/
  prog : ι → Prog S α
  /-- What is under way on each connection of each program. -/
  flight : ι × κ → Flight S
  /-- How many calls each program has asked. -/
  made : ι → Nat

/-- What happens to a call. -/
inductive Remote.Event (ι : Type) (S : Signature) where
  | asked (i : ι) (n : Nat) (c : S.Call)
  | carried (i : ι) (n : Nat) (c : S.Call) (r : S.Reply c)
  | answered (i : ι) (n : Nat) (c : S.Call) (r : S.Reply c)
  | failed (i : ι) (c : S.Call)

variable {ι κ : Type} {S : Signature} {σ α : Type}

section Steps

variable [DecidableEq ι] [DecidableEq κ]

/-- One step.  `via` is the connection that a call travels on, and `fails` is what it returns if
the caller gives up, which happens only if `faulty` holds. -/
inductive Remote.Step (h : Handler S σ) (env : σ → σ → Prop) (via : S.Call → κ)
    (fails : (c : S.Call) → S.Reply c) (faulty : Prop) :
    Remote ι κ S σ α → Option (Remote.Event ι S) → Remote ι κ S σ α → Prop where
  | ask {R : Remote ι κ S σ α} {i : ι} {c : S.Call} {k : S.Reply c → Prog S α} :
      R.prog i = .call c k → R.flight (i, via c) = .idle →
      Step h env via fails faulty R (some (.asked i (R.made i) c))
        { R with
          flight := Function.update R.flight (i, via c) (.asked (R.made i) c)
          made := Function.update R.made i (R.made i + 1) }
  | carry {R : Remote ι κ S σ α} {i : ι} {j : κ} {n : Nat} {c : S.Call} :
      R.flight (i, j) = .asked n c →
      Step h env via fails faulty R (some (.carried i n c (h c R.shared).1))
        { R with
          shared := (h c R.shared).2
          flight := Function.update R.flight (i, j) (.done n c (h c R.shared).1) }
  | answer {R : Remote ι κ S σ α} {i : ι} {n : Nat} {c : S.Call} {k : S.Reply c → Prog S α}
      {r : S.Reply c} :
      R.prog i = .call c k → R.flight (i, via c) = .done n c r →
      Step h env via fails faulty R (some (.answered i n c r))
        { R with
          prog := Function.update R.prog i (k r)
          flight := Function.update R.flight (i, via c) .idle }
  | fail {R : Remote ι κ S σ α} {i : ι} {c : S.Call} {k : S.Reply c → Prog S α} : faulty →
      R.prog i = .call c k →
      Step h env via fails faulty R (some (.failed i c))
        { R with
          prog := Function.update R.prog i (k (fails c))
          flight := Function.update R.flight (i, via c) (R.flight (i, via c)).drop }
  | late {R : Remote ι κ S σ α} {i : ι} {j : κ} {n : Nat} {c : S.Call} :
      R.flight (i, j) = .late n c →
      Step h env via fails faulty R (some (.carried i n c (h c R.shared).1))
        { R with
          shared := (h c R.shared).2
          flight := Function.update R.flight (i, j) .gone }
  | env {R : Remote ι κ S σ α} {s : σ} : env R.shared s →
      Step h env via fails faulty R none { R with shared := s }

/-- Steps from `P` to `Q` with their events, the last one first. -/
inductive Remote.Run (h : Handler S σ) (env : σ → σ → Prop) (via : S.Call → κ)
    (fails : (c : S.Call) → S.Reply c) (faulty : Prop) (P : Remote ι κ S σ α) :
    List (Option (Remote.Event ι S)) → Remote ι κ S σ α → Prop where
  | nil : Run h env via fails faulty P [] P
  | step {tr : List (Option (Remote.Event ι S))} {Q R : Remote ι κ S σ α}
      {e : Option (Remote.Event ι S)} :
      Run h env via fails faulty P tr Q → Remote.Step h env via fails faulty Q e R →
      Run h env via fails faulty P (e :: tr) R

end Steps

/-- Before the first call. -/
def Remote.init (s : σ) (p : ι → Prog S α) : Remote ι κ S σ α :=
  ⟨s, p, fun _ => .idle, fun _ => 0⟩

/-- The numbers of the calls that were carried out. -/
def Remote.carriedCalls : List (Option (Remote.Event ι S)) → List (ι × Nat)
  | [] => []
  | some (.carried i n _ _) :: tr => (i, n) :: carriedCalls tr
  | _ :: tr => carriedCalls tr

@[simp] theorem Flight.pending_drop (f : Flight S) : f.drop.pending = f.pending := by
  cases f <;> rfl

theorem Flight.drop_ne_done (f : Flight S) (n : Nat) (c : S.Call) (r : S.Reply c) :
    f.drop ≠ .done n c r := by
  cases f <;> exact nofun

theorem Remote.mem_carriedCalls (i : ι) (n : Nat) :
    ∀ tr : List (Option (Remote.Event ι S)),
      (i, n) ∈ carriedCalls tr ↔ ∃ c r, some (.carried i n c r) ∈ tr
  | [] => by simp [carriedCalls]
  | none :: tr => by simp [carriedCalls, mem_carriedCalls i n tr]
  | some e :: tr => by
      have ih := mem_carriedCalls i n tr
      cases e with
      | carried i' n' c' r' =>
          rw [carriedCalls, List.mem_cons, ih]
          constructor
          · rintro (heq | ⟨c, r, hm⟩)
            · cases heq
              exact ⟨c', r', List.mem_cons_self⟩
            · exact ⟨c, r, List.mem_cons_of_mem _ hm⟩
          · rintro ⟨c, r, hm⟩
            rcases List.mem_cons.mp hm with heq | hm
            · cases heq
              exact .inl rfl
            · exact .inr ⟨c, r, hm⟩
      | asked i' n' c' => simp [carriedCalls, ih]
      | answered i' n' c' r' => simp [carriedCalls, ih]
      | failed i' c' => simp [carriedCalls, ih]

section Run

variable [DecidableEq ι] [DecidableEq κ] {h : Handler S σ} {env : σ → σ → Prop} {via : S.Call → κ}
  {fails : (c : S.Call) → S.Reply c} {faulty : Prop}

/-! ## At most once -/

/-- The calls that may still be carried out were not, and no two connections carry the same
one. -/
structure Remote.Fresh (tr : List (Option (Remote.Event ι S))) (R : Remote ι κ S σ α) : Prop where
  pending : ∀ i j n c, (R.flight (i, j)).pending = some (n, c) →
    n < R.made i ∧ (i, n) ∉ carriedCalls tr ∧ some (.asked i n c) ∈ tr
  single : ∀ i j j' n c c', (R.flight (i, j)).pending = some (n, c) →
    (R.flight (i, j')).pending = some (n, c') → j = j'
  done : ∀ i j n c r, R.flight (i, j) = .done n c r → some (.carried i n c r) ∈ tr
  carried : ∀ i n, (i, n) ∈ carriedCalls tr → n < R.made i

/-- What a run says about its calls. -/
structure Remote.Once (tr : List (Option (Remote.Event ι S))) : Prop where
  /-- No call is carried out twice. -/
  nodup : (carriedCalls tr).Nodup
  /-- A call that is carried out was asked. -/
  asked : ∀ i n c r, some (.carried i n c r) ∈ tr → some (.asked i n c) ∈ tr
  /-- A call that is answered was carried out, and the answer is its reply. -/
  answered : ∀ i n c r, some (.answered i n c r) ∈ tr → some (.carried i n c r) ∈ tr

variable {tr : List (Option (Remote.Event ι S))} {R : Remote ι κ S σ α}

/-- A call is carried out and is no longer pending. -/
theorem Remote.Fresh.carry (hR : R.Fresh tr) (hO : Once tr) {i : ι} {j : κ} {n : Nat}
    {c : S.Call} (hp : (R.flight (i, j)).pending = some (n, c)) (r : S.Reply c) {f : Flight S}
    (hf : f.pending = none) (hdone : ∀ n' c' r', f = .done n' c' r' →
      Event.carried i n' c' r' = Event.carried i n c r) {s : σ} :
    ({ R with shared := s, flight := Function.update R.flight (i, j) f } : Remote ι κ S σ α).Fresh
        (some (.carried i n c r) :: tr) ∧ Once (some (Event.carried i n c r) :: tr) := by
  obtain ⟨hlt, hnew, hasked⟩ := hR.pending i j n c hp
  have hmem : ∀ {e : Option (Remote.Event ι S)}, e ∈ tr → e ∈ some (Event.carried i n c r) :: tr :=
    fun he => List.mem_cons_of_mem _ he
  have hother : ∀ {i' j' n' c'}, (Function.update R.flight (i, j) f (i', j')).pending = some (n', c') →
      (i', j') ≠ (i, j) ∧ (R.flight (i', j')).pending = some (n', c') := by
    intro i' j' n' c' hp'
    by_cases heq : (i', j') = (i, j)
    · rw [heq, Function.update_self, hf] at hp'
      cases hp'
    · rw [Function.update_of_ne heq] at hp'
      exact ⟨heq, hp'⟩
  refine ⟨⟨fun i' j' n' c' hp' => ?_, fun i' j' j'' n' c' c'' hp' hp'' => ?_,
    fun i' j' n' c' r' hd => ?_, fun i' n' hm => ?_⟩, ⟨?_, fun i' n' c' r' hm => ?_,
    fun i' n' c' r' hm => ?_⟩⟩
  · obtain ⟨hne, hold⟩ := hother hp'
    obtain ⟨hlt', hnew', hasked'⟩ := hR.pending i' j' n' c' hold
    refine ⟨hlt', ?_, hmem hasked'⟩
    rw [carriedCalls, List.mem_cons, not_or]
    refine ⟨fun heq => ?_, hnew'⟩
    obtain ⟨hi, hn⟩ := Prod.mk.inj heq
    subst hi hn
    exact hne (congrArg (Prod.mk _) (hR.single _ _ _ _ _ _ hold hp))
  · exact hR.single i' j' j'' n' c' c'' (hother hp').2 (hother hp'').2
  · by_cases heq : (i', j') = (i, j)
    · cases heq
      have hd : Function.update R.flight (i, j) f (i, j) = .done n' c' r' := hd
      rw [Function.update_self] at hd
      rw [hdone n' c' r' hd]
      exact List.mem_cons_self
    · have hd : Function.update R.flight (i, j) f (i', j') = .done n' c' r' := hd
      rw [Function.update_of_ne heq] at hd
      exact hmem (hR.done i' j' n' c' r' hd)
  · rcases List.mem_cons.mp hm with heq | hm
    · cases heq
      exact hlt
    · exact hR.carried i' n' hm
  · exact List.nodup_cons.mpr ⟨hnew, hO.nodup⟩
  · rcases List.mem_cons.mp hm with heq | hm
    · cases heq
      exact hmem hasked
    · exact hmem (hO.asked i' n' c' r' hm)
  · rcases List.mem_cons.mp hm with heq | hm
    · cases heq
    · exact hmem (hO.answered i' n' c' r' hm)

/-- A step that carries out no call and adds none to those that are pending. -/
theorem Remote.Fresh.settle (hR : R.Fresh tr) {e : Option (Remote.Event ι S)}
    (he : carriedCalls (e :: tr) = carriedCalls tr) (p : ι × κ) {f : Flight S}
    (hf : f.pending = none ∨ f.pending = (R.flight p).pending)
    (hdone : ∀ n c r, f ≠ .done n c r) {s : σ} {q : ι → Prog S α} :
    (⟨s, q, Function.update R.flight p f, R.made⟩ : Remote ι κ S σ α).Fresh (e :: tr) := by
  have hother : ∀ {p' n' c'}, (Function.update R.flight p f p').pending = some (n', c') →
      (R.flight p').pending = some (n', c') := by
    intro p' n' c' hp'
    by_cases heq : p' = p
    · subst heq
      rw [Function.update_self] at hp'
      rcases hf with hf | hf
      · rw [hf] at hp'
        cases hp'
      · rwa [← hf]
    · rwa [Function.update_of_ne heq] at hp'
  refine ⟨fun i j n c hp => ?_, fun i j j' n c c' hp hp' => ?_, fun i j n c r hd => ?_, ?_⟩
  · rw [he]
    obtain ⟨hlt, hnew, hasked⟩ := hR.pending i j n c (hother hp)
    exact ⟨hlt, hnew, List.mem_cons_of_mem _ hasked⟩
  · exact hR.single i j j' n c c' (hother hp) (hother hp')
  · have hd : Function.update R.flight p f (i, j) = .done n c r := hd
    by_cases heq : (i, j) = p
    · rw [heq, Function.update_self] at hd
      exact absurd hd (hdone n c r)
    · rw [Function.update_of_ne heq] at hd
      exact List.mem_cons_of_mem _ (hR.done i j n c r hd)
  · rw [he]
    exact hR.carried

/-- The next call of a program has a number of its own. -/
theorem Remote.Fresh.ask (hR : R.Fresh tr) (i : ι) (j : κ) (c : S.Call) :
    ({ R with
        flight := Function.update R.flight (i, j) (.asked (R.made i) c)
        made := Function.update R.made i (R.made i + 1) } : Remote ι κ S σ α).Fresh
      (some (.asked i (R.made i) c) :: tr) := by
  have hgrow : ∀ i', R.made i' ≤ Function.update R.made i (R.made i + 1) i' := by
    intro i'
    by_cases hi : i' = i
    · subst hi
      rw [Function.update_self]
      exact Nat.le_succ _
    · exact Nat.le_of_eq (Function.update_of_ne hi ..).symm
  have hcases : ∀ {p' n' c'},
      (Function.update R.flight (i, j) (.asked (R.made i) c) p').pending = some (n', c') →
        (p' = (i, j) ∧ n' = R.made i ∧ c' = c) ∨
          (p' ≠ (i, j) ∧ (R.flight p').pending = some (n', c')) := by
    intro p' n' c' hp'
    by_cases heq : p' = (i, j)
    · rw [heq, Function.update_self] at hp'
      obtain ⟨hn, hc⟩ := Prod.mk.inj (Option.some.inj hp')
      exact .inl ⟨heq, hn.symm, hc.symm⟩
    · rw [Function.update_of_ne heq] at hp'
      exact .inr ⟨heq, hp'⟩
  refine ⟨fun i' j' n' c' hp => ?_, fun i' j' j'' n' c' c'' hp hp' => ?_,
    fun i' j' n' c' r' hd => ?_, fun i' n' hm => ?_⟩
  · obtain ⟨heq, rfl, rfl⟩ | ⟨_, hp⟩ := hcases hp
    · cases heq
      refine ⟨?_, fun hm => absurd (hR.carried _ _ hm) (Nat.lt_irrefl _), List.mem_cons_self⟩
      have hmade : Function.update R.made i (R.made i + 1) i = R.made i + 1 :=
        Function.update_self ..
      exact Nat.lt_of_lt_of_eq (Nat.lt_succ_self _) hmade.symm
    · obtain ⟨hlt, hnew, hasked⟩ := hR.pending i' j' n' c' hp
      exact ⟨Nat.lt_of_lt_of_le hlt (hgrow i'), hnew, List.mem_cons_of_mem _ hasked⟩
  · -- an old call has a smaller number
    obtain ⟨heq, rfl, _⟩ | ⟨_, hp⟩ := hcases hp
    · obtain ⟨heq', _, _⟩ | ⟨_, hp'⟩ := hcases hp'
      · cases heq
        cases heq'
        rfl
      · cases heq
        exact absurd (hR.pending _ _ _ _ hp').1 (Nat.lt_irrefl _)
    · obtain ⟨heq', rfl, _⟩ | ⟨_, hp'⟩ := hcases hp'
      · cases heq'
        exact absurd (hR.pending _ _ _ _ hp).1 (Nat.lt_irrefl _)
      · exact hR.single i' j' j'' n' c' c'' hp hp'
  · have hd : Function.update R.flight (i, j) (.asked (R.made i) c) (i', j') = .done n' c' r' := hd
    by_cases heq : (i', j') = (i, j)
    · rw [heq, Function.update_self] at hd
      cases hd
    · rw [Function.update_of_ne heq] at hd
      exact List.mem_cons_of_mem _ (hR.done i' j' n' c' r' hd)
  · exact Nat.lt_of_lt_of_le (hR.carried i' n' hm) (hgrow i')

omit [DecidableEq ι] in
/-- A step that carries out and answers no call says nothing new about calls. -/
theorem Remote.Once.cons (hO : Once tr) {e : Option (Remote.Event ι S)}
    (he : carriedCalls (e :: tr) = carriedCalls tr)
    (hanswer : ∀ i n c r, e = some (.answered i n c r) → some (.carried i n c r) ∈ tr) :
    Once (e :: tr) := by
  refine ⟨he.symm ▸ hO.nodup, fun i n c r hm => ?_, fun i n c r hm => ?_⟩
  · rcases List.mem_cons.mp hm with heq | hm
    · rw [← heq, carriedCalls] at he
      exact absurd he (List.cons_ne_self _ _)
    · exact List.mem_cons_of_mem _ (hO.asked i n c r hm)
  · rcases List.mem_cons.mp hm with heq | hm
    · exact List.mem_cons_of_mem _ (hanswer i n c r heq.symm)
    · exact List.mem_cons_of_mem _ (hO.answered i n c r hm)

/-- What one step keeps. -/
theorem Remote.Fresh.step (hR : R.Fresh tr) (hO : Once tr) {e : Option (Remote.Event ι S)}
    {R' : Remote ι κ S σ α} (hs : Remote.Step h env via fails faulty R e R') :
    R'.Fresh (e :: tr) ∧ Once (e :: tr) := by
  cases hs with
  | ask hc hidle => exact ⟨hR.ask _ _ _, hO.cons rfl nofun⟩
  | @carry i j n c hf =>
      have hp : (R.flight (i, j)).pending = some (n, c) := by rw [hf]; rfl
      exact hR.carry hO hp _ rfl (fun n' c' r' heq => by cases heq; rfl)
  | @answer i n c k r hc hf =>
      refine ⟨hR.settle (f := .idle) rfl _ (.inl rfl) nofun, hO.cons rfl fun i' n' c' r' heq => ?_⟩
      cases heq
      exact hR.done _ _ _ _ _ hf
  | @fail i c k hfaulty hc =>
      exact ⟨hR.settle rfl _ (.inr (Flight.pending_drop _)) (Flight.drop_ne_done _),
        hO.cons rfl nofun⟩
  | @late i j n c hf =>
      have hp : (R.flight (i, j)).pending = some (n, c) := by rw [hf]; rfl
      exact hR.carry hO hp _ (f := .gone) rfl nofun
  | env he =>
      refine ⟨⟨fun i j n c hp => ?_, hR.single, fun i j n c r hd => ?_, hR.carried⟩,
        hO.cons rfl nofun⟩
      · obtain ⟨hlt, hnew, hasked⟩ := hR.pending i j n c hp
        exact ⟨hlt, hnew, List.mem_cons_of_mem _ hasked⟩
      · exact List.mem_cons_of_mem _ (hR.done i j n c r hd)

/-- In every run a call is carried out at most once, and once if it is answered; its answer is
what it was carried out with. -/
theorem Remote.Run.carried_once {s : σ} {p : ι → Prog S α}
    (hr : Remote.Run h env via fails faulty (.init s p : Remote ι κ S σ α) tr R) : Once tr := by
  have key : R.Fresh tr ∧ Once tr := by
    induction hr with
    | nil => exact ⟨⟨nofun, nofun, nofun, nofun⟩, ⟨List.nodup_nil, nofun, nofun⟩⟩
    | step _ hs ih => exact ih.1.step ih.2 hs
  exact key.2

/-! ## Unbroken connections -/

omit [DecidableEq ι] [DecidableEq κ] in
/-- Where the program `i` is, and the program of a pool that is ahead of it: there a call has
taken effect and returned as soon as it is carried out. -/
inductive Remote.Stage (via : S.Call → κ) (R : Remote ι κ S σ α) (i : ι) : Prog S α → Prop where
  | idle : (∀ j, R.flight (i, j) = .idle) → Stage via R i (R.prog i)
  | asked {n : Nat} {c : S.Call} {k : S.Reply c → Prog S α} : R.prog i = .call c k →
      R.flight (i, via c) = .asked n c → (∀ j, j ≠ via c → R.flight (i, j) = .idle) →
      Stage via R i (.call c k)
  | done {n : Nat} {c : S.Call} {k : S.Reply c → Prog S α} {r : S.Reply c} :
      R.prog i = .call c k → R.flight (i, via c) = .done n c r →
      (∀ j, j ≠ via c → R.flight (i, j) = .idle) → Stage via R i (k r)

omit [DecidableEq ι] [DecidableEq κ] in
theorem Remote.Stage.congr {R' : Remote ι κ S σ α} {i : ι} {p : Prog S α}
    (h : R.Stage via i p) (hprog : R'.prog i = R.prog i)
    (hflight : ∀ j, R'.flight (i, j) = R.flight (i, j)) : R'.Stage via i p := by
  cases h with
  | idle hidle =>
      rw [← hprog]
      exact .idle fun j => (hflight j).trans (hidle j)
  | asked hc hf hrest =>
      exact .asked (hprog.trans hc) ((hflight _).trans hf) fun j hj => (hflight j).trans (hrest j hj)
  | done hc hf hrest =>
      exact .done (hprog.trans hc) ((hflight _).trans hf) fun j hj => (hflight j).trans (hrest j hj)

/-- Another program of the system is where it was. -/
theorem Remote.Stage.other {i i' : ι} {p : Prog S α} (h : R.Stage via i' p) (hi : i' ≠ i)
    (s : σ) (q : Prog S α) (j : κ) (f : Flight S) (m : ι → Nat) :
    (⟨s, Function.update R.prog i q, Function.update R.flight (i, j) f, m⟩ :
      Remote ι κ S σ α).Stage via i' p :=
  h.congr (Function.update_of_ne hi ..)
    fun _ => Function.update_of_ne (fun heq => hi (Prod.mk.inj heq).1) ..

section Stage

variable {i : ι} {j : κ} {n : Nat} {c : S.Call} {q : Prog S α}

omit [DecidableEq ι] [DecidableEq κ] in
/-- Between two calls. -/
theorem Remote.Stage.of_all_idle (h : R.Stage via i q) (hidle : ∀ j, R.flight (i, j) = .idle) :
    q = R.prog i := by
  cases h with
  | idle => rfl
  | asked _ hf _ =>
      rw [hidle] at hf
      cases hf
  | done _ hf _ =>
      rw [hidle] at hf
      cases hf

omit [DecidableEq ι] [DecidableEq κ] in
/-- A call that has not been asked. -/
theorem Remote.Stage.of_idle {k : S.Reply c → Prog S α} (h : R.Stage via i q)
    (hc : R.prog i = .call c k) (hidle : R.flight (i, via c) = .idle) :
    q = .call c k ∧ ∀ j, R.flight (i, j) = .idle := by
  cases h with
  | idle hall => exact ⟨hc, hall⟩
  | asked hc' hf _ =>
      cases hc.symm.trans hc'
      rw [hidle] at hf
      cases hf
  | done hc' hf _ =>
      cases hc.symm.trans hc'
      rw [hidle] at hf
      cases hf

omit [DecidableEq ι] [DecidableEq κ] in
/-- Only one connection of a program is in use. -/
theorem Remote.Stage.used {n' : Nat} {c' : S.Call} {f : Flight S}
    (hf : R.flight (i, via c') = f) (hrest : ∀ j, j ≠ via c' → R.flight (i, j) = .idle)
    (hj : R.flight (i, j) = .asked n' c ∨ (∃ r, R.flight (i, j) = .done n' c r) ∨
      R.flight (i, j) = .late n' c) : j = via c' ∧ R.flight (i, j) = f := by
  have heq : j = via c' := by
    by_contra hne
    rw [hrest j hne] at hj
    obtain hj | ⟨_, hj⟩ | hj := hj <;> cases hj
  exact ⟨heq, heq ▸ hf⟩

omit [DecidableEq ι] [DecidableEq κ] in
/-- A call that is on its way. -/
theorem Remote.Stage.of_asked (h : R.Stage via i q) (hf : R.flight (i, j) = .asked n c) :
    ∃ k, q = .call c k ∧ R.prog i = .call c k ∧ j = via c ∧
      ∀ j', j' ≠ j → R.flight (i, j') = .idle := by
  cases h with
  | idle hall =>
      rw [hall j] at hf
      cases hf
  | asked hc' hf' hrest =>
      obtain ⟨rfl, heq⟩ := Remote.Stage.used hf' hrest (.inl hf)
      cases hf.symm.trans heq
      exact ⟨_, rfl, hc', rfl, hrest⟩
  | done hc' hf' hrest =>
      obtain ⟨rfl, heq⟩ := Remote.Stage.used hf' hrest (.inl hf)
      cases hf.symm.trans heq

omit [DecidableEq ι] [DecidableEq κ] in
/-- An answer that is on its way. -/
theorem Remote.Stage.of_done {r : S.Reply c} (h : R.Stage via i q)
    (hf : R.flight (i, j) = .done n c r) :
    ∃ k, q = k r ∧ R.prog i = .call c k ∧ j = via c ∧
      ∀ j', j' ≠ j → R.flight (i, j') = .idle := by
  cases h with
  | idle hall =>
      rw [hall j] at hf
      cases hf
  | asked hc' hf' hrest =>
      obtain ⟨rfl, heq⟩ := Remote.Stage.used hf' hrest (.inr (.inl ⟨r, hf⟩))
      cases hf.symm.trans heq
  | done hc' hf' hrest =>
      obtain ⟨rfl, heq⟩ := Remote.Stage.used hf' hrest (.inr (.inl ⟨r, hf⟩))
      cases hf.symm.trans heq
      exact ⟨_, rfl, hc', rfl, hrest⟩

omit [DecidableEq ι] [DecidableEq κ] in
/-- No connection is broken. -/
theorem Remote.Stage.not_late (h : R.Stage via i q) : R.flight (i, j) ≠ .late n c := by
  intro hf
  cases h with
  | idle hall =>
      rw [hall j] at hf
      cases hf
  | asked hc' hf' hrest =>
      obtain ⟨rfl, heq⟩ := Remote.Stage.used hf' hrest (.inr (.inr hf))
      cases hf.symm.trans heq
  | done hc' hf' hrest =>
      obtain ⟨rfl, heq⟩ := Remote.Stage.used hf' hrest (.inr (.inr hf))
      cases hf.symm.trans heq

end Stage

/-- What a run without faults keeps: the shared state is that of a pool, and each of its programs
is as far as the call under way allows. -/
theorem Remote.Run.pool {s : σ} {p : ι → Prog S α}
    (hr : Remote.Run h env via fails False (.init s p : Remote ι κ S σ α) tr R) :
    ∃ tr' q, Calls.Run h env (fun _ _ => True) ⟨s, p⟩ tr' ⟨R.shared, q⟩ ∧
      ∀ i, R.Stage via i (q i) := by
  induction hr with
  | nil => exact ⟨[], p, .nil, fun i => .idle fun _ => rfl⟩
  | @step tr Q R e _ hs ih =>
      obtain ⟨tr', q, hpool, hstage⟩ := ih
      cases hs with
      | @ask i c k hc hidle =>
          refine ⟨tr', q, hpool, fun i' => ?_⟩
          by_cases hi : i' = i
          · subst hi
            obtain ⟨hq, hall⟩ := (hstage i').of_idle hc hidle
            rw [hq]
            refine .asked hc (Function.update_self ..) fun j hj => ?_
            exact (Function.update_of_ne (fun heq => hj (Prod.mk.inj heq).2) ..).trans (hall j)
          · exact (hstage i').congr rfl
              fun _ => Function.update_of_ne (fun heq => hi (Prod.mk.inj heq).1) ..
      | @carry i j n c hf =>
          obtain ⟨k, hq, hc, rfl, hrest⟩ := (hstage i).of_asked hf
          refine ⟨_, _, .step hpool (.call hq) fun _ _ => trivial, fun i' => ?_⟩
          by_cases hi : i' = i
          · subst hi
            rw [Function.update_self]
            refine .done hc (Function.update_self ..) fun j hj => ?_
            exact (Function.update_of_ne (fun heq => hj (Prod.mk.inj heq).2) ..).trans (hrest j hj)
          · rw [Function.update_of_ne hi]
            exact (hstage i').congr rfl
              fun _ => Function.update_of_ne (fun heq => hi (Prod.mk.inj heq).1) ..
      | @answer i n c k r hc hf =>
          obtain ⟨k', hq, hc', _, hrest⟩ := (hstage i).of_done hf
          cases hc.symm.trans hc'
          refine ⟨tr', q, hpool, fun i' => ?_⟩
          by_cases hi : i' = i
          · subst hi
            have hidle : ∀ j, Function.update Q.flight (i', via c) .idle (i', j) = .idle := by
              intro j
              by_cases hj : j = via c
              · rw [hj, Function.update_self]
              · rw [Function.update_of_ne fun heq => hj (Prod.mk.inj heq).2]
                exact hrest j hj
            have hprog : Function.update Q.prog i' (k r) i' = q i' :=
              (Function.update_self ..).trans hq.symm
            rw [← hprog]
            exact .idle hidle
          · exact (hstage i').other hi _ _ _ _ _
      | fail hfaulty => exact hfaulty.elim
      | late hf => exact absurd hf (hstage _).not_late
      | env he =>
          exact ⟨none :: tr', q, .step hpool (.env he) fun _ _ => trivial,
            fun i => (hstage i).congr rfl fun _ => rfl⟩

end Run

end Calls
