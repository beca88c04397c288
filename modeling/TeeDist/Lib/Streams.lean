import TeeDist.Lib.Prog
import Mathlib.Data.Prod.Lex
import Mathlib.Logic.Relation
import Mathlib.Order.WellFounded

/-!
# Conversations over a pair of byte streams

Two parties talk over two reliable streams, one in each direction.  Their programs send
blocks and wait for blocks of a known length.  A block goes through in pieces: a party that
sends or receives stays in a loop of system calls, each of which transfers some of the
bytes, or is interrupted by a signal.  `Party.turn` is one turn of that loop.

The rule of this module is about parties that take rounds: the client sends a request and
receives a reply, the server receives the request and sends the reply.  `Round` describes a
round by what the two programs do with whole blocks.  `Conversation.rounds_between` says
that the pieces do not matter: whenever the client is between two programs, both streams are
empty and the two memories are those that whole rounds lead to.  `Conversation.rounds_lead`
says that the conversation does get to its end.
-/

namespace Calls

/-- Send a block, or receive one of a given length. -/
inductive SockCall (β : Type) where
  | sendAll (bs : List β)
  | recvAll (n : Nat)

/-- A party learns whether its block was sent, and the block that was received, if one was. -/
def Sock (β : Type) : Signature where
  Call := SockCall β
  Reply
    | .sendAll _ => Bool
    | .recvAll _ => Option (List β)

variable {β μ ν : Type}

/-! ## Parties -/

/-- Where a party is.  It runs one program after the other, and `μ` is what it remembers in
between. -/
inductive Party (β μ : Type) where
  /-- Between two programs. -/
  | between (m : μ)
  /-- In the loop that sends a block, with these bytes left. -/
  | sending (rest : List β) (k : Bool → Prog (Sock β) μ)
  /-- In the loop that receives a block: the bytes left, and those that have come. -/
  | receiving (n : Nat) (got : List β) (k : Option (List β) → Prog (Sock β) μ)

/-- Go on with a program up to its next system call.  An empty block needs none. -/
def Party.enter : Prog (Sock β) μ → Party β μ
  | .ret m => .between m
  | .call (.sendAll []) k => Party.enter (k true)
  | .call (.sendAll (b :: bs)) k => .sending (b :: bs) k
  | .call (.recvAll 0) k => Party.enter (k (some []))
  | .call (.recvAll (n + 1)) k => .receiving (n + 1) [] k

theorem Party.enter_sendAll {bs : List β} (k : Bool → Prog (Sock β) μ) (h : bs ≠ []) :
    Party.enter (.call (.sendAll bs) k) = .sending bs k := by
  cases bs with
  | nil => exact absurd rfl h
  | cons b bs => rfl

theorem Party.enter_recvAll {n : Nat} (k : Option (List β) → Prog (Sock β) μ) (h : 0 < n) :
    Party.enter (.call (.recvAll n) k) = .receiving n [] k := by
  cases n with
  | zero => cases h
  | succ n => rfl

/-- What a system call comes back with. -/
inductive SysResult (β : Type) where
  /-- Some bytes went through. -/
  | moved (bs : List β)
  /-- A signal came first. -/
  | interrupted
  /-- Any other error. -/
  | failed

/-- One turn of a loop.  It ends when all bytes went through, or when a call fails; receiving no
bytes at all counts as a failure, for the stream is closed then. -/
def Party.turn : Party β μ → SysResult β → Party β μ
  | .between m, _ => .between m
  | .sending rest k, .moved bs =>
      if rest.length ≤ bs.length then Party.enter (k true)
      else .sending (rest.drop bs.length) k
  | .sending rest k, .interrupted => .sending rest k
  | .sending _ k, .failed => Party.enter (k false)
  | .receiving n got k, .moved bs =>
      if bs.length = 0 then Party.enter (k none)
      else if n ≤ bs.length then Party.enter (k (some (got ++ bs)))
      else .receiving (n - bs.length) (got ++ bs) k
  | .receiving n got k, .interrupted => .receiving n got k
  | .receiving _ _ k, .failed => Party.enter (k none)

/-- An interrupted call is made again. -/
theorem Party.turn_interrupted (x : Party β μ) : x.turn .interrupted = x := by
  cases x <;> rfl

/-- `Move start cap l (x, out, inc) (x', out', inc')`: one move of a party between its outgoing
and its incoming stream.  A stream holds at most `cap` bytes and does not fail.  The label says
whether the move was one, or only an interruption. -/
inductive Move (start : μ → Option (Prog (Sock β) μ)) (cap : Nat) :
    Bool → Party β μ × List β × List β → Party β μ × List β × List β → Prop where
  | start {m : μ} {p : Prog (Sock β) μ} {out inc : List β} : start m = some p →
      Move start cap true (.between m, out, inc) (.enter p, out, inc)
  | send {rest : List β} {k : Bool → Prog (Sock β) μ} {out inc : List β} {j : Nat} :
      0 < j → j ≤ rest.length → out.length + j ≤ cap →
      Move start cap true (.sending rest k, out, inc)
        ((Party.sending rest k).turn (.moved (rest.take j)), out ++ rest.take j, inc)
  | recv {n : Nat} {got : List β} {k : Option (List β) → Prog (Sock β) μ} {out inc : List β}
      {j : Nat} : 0 < j → j ≤ n → j ≤ inc.length →
      Move start cap true (.receiving n got k, out, inc)
        ((Party.receiving n got k).turn (.moved (inc.take j)), out, inc.drop j)
  | interrupted {x : Party β μ} {out inc : List β} :
      Move start cap false (x, out, inc) (x.turn .interrupted, out, inc)

/-! ## Whole blocks -/

/-- The program sends the bytes `us` and is `p'` then. -/
inductive Prog.Offers {α : Type} : Prog (Sock β) α → List β → Prog (Sock β) α → Prop where
  | nil {p : Prog (Sock β) α} : Offers p [] p
  | send {bs us : List β} {k : Bool → Prog (Sock β) α} {p' : Prog (Sock β) α} :
      Offers (k true) us p' → Offers (.call (.sendAll bs) k) (bs ++ us) p'

/-- The program receives the bytes `vs` and is `p'` then. -/
inductive Prog.Takes {α : Type} : Prog (Sock β) α → List β → Prog (Sock β) α → Prop where
  | nil {p : Prog (Sock β) α} : Takes p [] p
  | recv {bs vs : List β} {k : Option (List β) → Prog (Sock β) α} {p' : Prog (Sock β) α} :
      Takes (k (some bs)) vs p' → Takes (.call (.recvAll bs.length) k) (bs ++ vs) p'

/-- The rule for a block whose length is known. -/
theorem Prog.Takes.block {α : Type} {bs vs : List β} {n : Nat}
    {k : Option (List β) → Prog (Sock β) α} {p' : Prog (Sock β) α} (hn : bs.length = n)
    (h : (k (some bs)).Takes vs p') : Prog.Takes (.call (.recvAll n) k) (bs ++ vs) p' := by
  subst hn
  exact .recv h

theorem Prog.Offers.last {α : Type} {bs : List β} {k : Bool → Prog (Sock β) α} :
    Prog.Offers (.call (.sendAll bs) k) bs (k true) := by
  have h : Prog.Offers (.call (.sendAll bs) k) (bs ++ []) (k true) := .send .nil
  rwa [List.append_nil] at h

theorem Prog.Takes.last {α : Type} {bs : List β} {n : Nat}
    {k : Option (List β) → Prog (Sock β) α} (hn : bs.length = n) :
    Prog.Takes (.call (.recvAll n) k) bs (k (some bs)) := by
  have h : Prog.Takes (.call (.recvAll n) k) (bs ++ []) (k (some bs)) := .block hn .nil
  rwa [List.append_nil] at h

/-- The party has the bytes `us` to send, and its program is `p'` then. -/
def Party.Offers (x : Party β μ) (us : List β) (p' : Prog (Sock β) μ) : Prop :=
  (us = [] ∧ x = .enter p') ∨
    ∃ rest k us', x = .sending rest k ∧ rest ≠ [] ∧ us = rest ++ us' ∧ (k true).Offers us' p'

/-- The party is to receive the bytes `vs`, and its program is `p'` then. -/
def Party.Takes (x : Party β μ) (vs : List β) (p' : Prog (Sock β) μ) : Prop :=
  (vs = [] ∧ x = .enter p') ∨
    ∃ ws got k vs', x = .receiving ws.length got k ∧ ws ≠ [] ∧ vs = ws ++ vs' ∧
      (k (some (got ++ ws))).Takes vs' p'

theorem Party.enter_offers {p p' : Prog (Sock β) μ} {us : List β} (h : p.Offers us p') :
    (Party.enter p).Offers us p' := by
  induction h with
  | nil => exact .inl ⟨rfl, rfl⟩
  | @send bs us k p' hk ih =>
      cases bs with
      | nil => exact ih
      | cons b bs => exact .inr ⟨b :: bs, k, us, rfl, List.cons_ne_nil _ _, rfl, hk⟩

theorem Party.enter_takes {p p' : Prog (Sock β) μ} {vs : List β} (h : p.Takes vs p') :
    (Party.enter p).Takes vs p' := by
  induction h with
  | nil => exact .inl ⟨rfl, rfl⟩
  | @recv bs vs k p' hk ih =>
      cases bs with
      | nil => exact ih
      | cons b bs => exact .inr ⟨b :: bs, [], k, vs, rfl, List.cons_ne_nil _ _, rfl, hk⟩

/-- Sending a piece. -/
theorem Party.Offers.sent {rest : List β} {k : Bool → Prog (Sock β) μ} {us : List β}
    {p' : Prog (Sock β) μ} (h : (Party.sending rest k).Offers us p') (hrest : us ≠ []) {j : Nat}
    (hj : j ≤ rest.length) : ∃ us', us = rest.take j ++ us' ∧
      ((Party.sending rest k).turn (.moved (rest.take j))).Offers us' p' := by
  obtain ⟨rfl, _⟩ | ⟨rest', k', us', heq, _, rfl, hk⟩ := h
  · exact absurd rfl hrest
  cases heq
  refine ⟨rest.drop j ++ us', by rw [← List.append_assoc, List.take_append_drop], ?_⟩
  rw [Party.turn, List.length_take_of_le hj]
  split
  next hend =>
    rw [List.drop_of_length_le hend]
    exact Party.enter_offers hk
  next hmore =>
    refine .inr ⟨_, k, us', rfl, fun hnil => hmore ?_, rfl, hk⟩
    exact List.drop_eq_nil_iff.mp hnil

/-- Receiving a piece. -/
theorem Party.Takes.received {n : Nat} {got : List β} {k : Option (List β) → Prog (Sock β) μ}
    {bs vs : List β} {p' : Prog (Sock β) μ} (h : (Party.receiving n got k).Takes (bs ++ vs) p')
    (hpos : 0 < bs.length) (hn : bs.length ≤ n) :
    ((Party.receiving n got k).turn (.moved bs)).Takes vs p' := by
  obtain ⟨hnil, _⟩ | ⟨ws, got', k', vs', heq, _, hvs, hk⟩ := h
  · simp only [List.append_eq_nil_iff] at hnil
    rw [hnil.1] at hpos
    cases hpos
  cases heq
  obtain ⟨zs, rfl⟩ : ∃ zs, ws = bs ++ zs := by
    obtain ⟨zs, hzs, _⟩ | ⟨zs, hzs, _⟩ := List.append_eq_append_iff.mp hvs
    · exact ⟨zs, hzs⟩
    · refine ⟨[], ?_⟩
      have : zs = [] := by
        rw [hzs, List.length_append] at hn
        exact List.eq_nil_of_length_eq_zero (by omega)
      rw [hzs, this, List.append_nil, List.append_nil]
  rw [List.append_assoc, List.append_cancel_left_eq] at hvs
  subst hvs
  rw [Party.turn, if_neg (by omega)]
  split
  next hend =>
    rw [List.length_append] at hend
    obtain rfl : zs = [] := List.eq_nil_of_length_eq_zero (by omega)
    rw [List.append_nil] at hk
    exact Party.enter_takes hk
  next hmore =>
    refine .inr ⟨zs, got ++ bs, k, vs', ?_, ?_, rfl, ?_⟩
    · rw [List.length_append, Nat.add_sub_cancel_left]
    · rintro rfl
      rw [List.append_nil] at hmore
      exact hmore (Nat.le_refl _)
    · rwa [List.append_assoc]

/-- A party that has something left to receive is receiving. -/
theorem Party.Takes.receiving {x : Party β μ} {vs : List β} {p' : Prog (Sock β) μ}
    (h : x.Takes vs p') (hvs : vs ≠ []) : ∃ n got k, x = .receiving n got k ∧ 0 < n := by
  obtain ⟨rfl, _⟩ | ⟨ws, got, k, _, rfl, hws, _, _⟩ := h
  · exact absurd rfl hvs
  · exact ⟨ws.length, got, k, rfl, List.length_pos_iff.mpr hws⟩

/-- A party that has something left to send is sending. -/
theorem Party.Offers.sending {x : Party β μ} {us : List β} {p' : Prog (Sock β) μ}
    (h : x.Offers us p') (hus : us ≠ []) : ∃ rest k, x = .sending rest k ∧ 0 < rest.length := by
  obtain ⟨rfl, _⟩ | ⟨rest, k, _, rfl, hrest, _, _⟩ := h
  · exact absurd rfl hus
  · exact ⟨rest, k, rfl, List.length_pos_iff.mpr hrest⟩

/-! ## Conversations -/

/-- The two parties, and what is on its way to each of them. -/
structure Conversation (β μ ν : Type) where
  client : Party β μ
  server : Party β ν
  toServer : List β
  toClient : List β

/-- One move of one of the parties. -/
inductive Conversation.Step (startC : μ → Option (Prog (Sock β) μ))
    (startS : ν → Option (Prog (Sock β) ν)) (cap : Nat) :
    Bool → Conversation β μ ν → Conversation β μ ν → Prop where
  | client {l : Bool} {x x' : Party β μ} {y : Party β ν} {out inc out' inc' : List β} :
      Move startC cap l (x, out, inc) (x', out', inc') →
      Step startC startS cap l ⟨x, y, out, inc⟩ ⟨x', y, out', inc'⟩
  | server {l : Bool} {x : Party β μ} {y y' : Party β ν} {out inc out' inc' : List β} :
      Move startS cap l (y, out, inc) (y', out', inc') →
      Step startC startS cap l ⟨x, y, inc, out⟩ ⟨x, y', inc', out'⟩

/-- Any number of moves and interruptions. -/
def Conversation.Run (startC : μ → Option (Prog (Sock β) μ))
    (startS : ν → Option (Prog (Sock β) ν)) (cap : Nat) :
    Conversation β μ ν → Conversation β μ ν → Prop :=
  Relation.ReflTransGen fun c c' => ∃ l, Conversation.Step startC startS cap l c c'

/-- `LeadsTo next goal s`: however the steps from `s` go, `goal` is reached. -/
inductive LeadsTo {σ : Type} (next : σ → σ → Prop) (goal : σ → Prop) : σ → Prop where
  | here {s : σ} : goal s → LeadsTo next goal s
  | step {s : σ} : (∃ t, next s t) → (∀ t, next s t → LeadsTo next goal t) → LeadsTo next goal s

theorem LeadsTo.mono {σ : Type} {next : σ → σ → Prop} {goal goal' : σ → Prop}
    (hgoal : ∀ s, goal s → goal' s) {s : σ} (h : LeadsTo next goal s) : LeadsTo next goal' s := by
  induction h with
  | here hs => exact .here (hgoal _ hs)
  | step hnext _ ih => exact .step hnext ih

/-- Where moves lead to, there is a run to. -/
theorem LeadsTo.run {startC : μ → Option (Prog (Sock β) μ)} {startS : ν → Option (Prog (Sock β) ν)}
    {cap : Nat} {goal : Conversation β μ ν → Prop} {c : Conversation β μ ν}
    (h : LeadsTo (Conversation.Step startC startS cap true) goal c) :
    ∃ c', Conversation.Run startC startS cap c c' ∧ goal c' := by
  induction h with
  | here hc => exact ⟨_, .refl, hc⟩
  | step hnext _ ih =>
      obtain ⟨c₁, hstep⟩ := hnext
      obtain ⟨c', hrun, hgoal⟩ := ih c₁ hstep
      exact ⟨c', .head ⟨true, hstep⟩ hrun, hgoal⟩

/-- The conversation before the first move. -/
def Conversation.init (m : μ) (s : ν) : Conversation β μ ν := ⟨.between m, .between s, [], []⟩

/-- A round in whole blocks: the client's program sends `us` and receives `vs`, the server's
receives `us` and sends `vs`. -/
structure Round (startC : μ → Option (Prog (Sock β) μ)) (startS : ν → Option (Prog (Sock β) ν))
    (m : μ) (s : ν) (us vs : List β) (m' : μ) (s' : ν) : Prop where
  ask : ∃ p p₁, startC m = some p ∧ p.Offers us p₁ ∧ p₁.Takes vs (.ret m')
  answer : ∃ q q₁, startS s = some q ∧ q.Takes us q₁ ∧ q₁.Offers vs (.ret s')
  ask_ne : us ≠ []
  answer_ne : vs ≠ []

/-- A program that starts by waiting for bytes. -/
def Prog.Listens {α : Type} (p : Prog (Sock β) α) : Prop :=
  ∃ n k, p = .call (.recvAll (n + 1)) k

/-- The server is between two programs, or waits for the first bytes of the next. -/
def Party.Poised (start : ν → Option (Prog (Sock β) ν)) (y : Party β ν) (s : ν) : Prop :=
  y = .between s ∨ ∃ q, start s = some q ∧ y = .enter q

/-- 1 if the party is between two programs. -/
def Party.waiting : Party β μ → Nat
  | .between _ => 1
  | _ => 0

theorem Party.waiting_le (x : Party β μ) : x.waiting ≤ 1 := by
  cases x <;> simp [Party.waiting]

section Rounds

variable {startC : μ → Option (Prog (Sock β) μ)} {startS : ν → Option (Prog (Sock β) ν)}
  {cap : Nat} {R : μ → ν → Prop} {rank : μ → Nat}

/-- The states of a conversation in rounds, `R` relating the memories after each round.  The two
numbers fall with every move: the first one counts the rounds that are left, the second one the
bytes that are left in a half of a round. -/
inductive Conversation.Inv (startS : ν → Option (Prog (Sock β) ν)) (R : μ → ν → Prop)
    (rank : μ → Nat) : Nat → Nat → Conversation β μ ν → Prop where
  /-- Between two rounds. -/
  | rest {m : μ} {s : ν} {y : Party β ν} : R m s → y.Poised startS s →
      Inv startS R rank (3 * rank m) y.waiting ⟨.between m, y, [], []⟩
  /-- The request is being sent. -/
  | asking {x : Party β μ} {y : Party β ν} {us vs toServer : List β} {p₁ : Prog (Sock β) μ}
      {q₁ : Prog (Sock β) ν} {m' : μ} {s' : ν} : R m' s' → x.Offers us p₁ →
      (y.Takes (toServer ++ us) q₁ ∨
        ∃ s q, y = .between s ∧ startS s = some q ∧ q.Takes (toServer ++ us) q₁) →
      toServer ++ us ≠ [] → p₁.Takes vs (.ret m') → q₁.Offers vs (.ret s') → vs ≠ [] →
      Inv startS R rank (3 * rank m' + 2) (2 * us.length + toServer.length + y.waiting)
        ⟨x, y, toServer, []⟩
  /-- The reply is being sent. -/
  | answering {x : Party β μ} {y : Party β ν} {vs toClient : List β} {m' : μ} {s' : ν} : R m' s' →
      (y.Offers vs (.ret s') ∨ (vs = [] ∧ y.Poised startS s')) →
      x.Takes (toClient ++ vs) (.ret m') → toClient ++ vs ≠ [] →
      Inv startS R rank (3 * rank m' + 1) (3 * vs.length + toClient.length + y.waiting)
        ⟨x, y, [], toClient⟩

/-- The numbers are lower than `a` and `b`, the first one counting more. -/
def Conversation.Lower (startS : ν → Option (Prog (Sock β) ν)) (R : μ → ν → Prop) (rank : μ → Nat)
    (a b : Nat) (c : Conversation β μ ν) : Prop :=
  ∃ a' b', (a' < a ∨ a' = a ∧ b' < b) ∧ c.Inv startS R rank a' b'

variable {x : Party β μ} {y : Party β ν} {us vs toServer toClient : List β} {m' : μ} {s' : ν} {b : Nat}

/-- A server between two programs is poised. -/
theorem Party.Offers.poised (h : y.Offers [] (.ret s')) : y.Poised startS s' := by
  obtain ⟨_, rfl⟩ | ⟨rest, k, us', _, hrest, hnil, _⟩ := h
  · exact .inl rfl
  · exact absurd (List.append_eq_nil_iff.mp hnil.symm).1 hrest

/-- The reply is on its way, or the round is over. -/
theorem Conversation.Lower.answering (hR : R m' s')
    (hy : y.Offers vs (.ret s') ∨ (vs = [] ∧ y.Poised startS s'))
    (hx : x.Takes (toClient ++ vs) (.ret m'))
    (hb : 3 * vs.length + toClient.length + y.waiting < b) :
    Conversation.Lower startS R rank (3 * rank m' + 1) b ⟨x, y, [], toClient⟩ := by
  by_cases hnil : toClient ++ vs = []
  · obtain ⟨rfl, rfl⟩ := List.append_eq_nil_iff.mp hnil
    have hpoised : y.Poised startS s' := hy.elim Party.Offers.poised fun h => h.2
    obtain ⟨_, rfl⟩ | ⟨ws, _, _, _, _, hws, hnil, _⟩ := hx
    · exact ⟨_, _, .inl (Nat.lt_succ_self _), .rest hR hpoised⟩
    · exact absurd (List.append_eq_nil_iff.mp hnil.symm).1 hws
  · exact ⟨_, _, .inr ⟨rfl, hb⟩, .answering hR hy hx hnil⟩

/-- The request is on its way, or all of it has come. -/
theorem Conversation.Lower.asking {p₁ : Prog (Sock β) μ} {q₁ : Prog (Sock β) ν} (hR : R m' s')
    (hx : x.Offers us p₁) (hy : y.Takes (toServer ++ us) q₁) (hp₁ : p₁.Takes vs (.ret m'))
    (hq₁ : q₁.Offers vs (.ret s')) (hvs : vs ≠ [])
    (hb : toServer ++ us ≠ [] → 2 * us.length + toServer.length + y.waiting < b) :
    Conversation.Lower startS R rank (3 * rank m' + 2) b ⟨x, y, toServer, []⟩ := by
  by_cases hnil : toServer ++ us = []
  · obtain ⟨rfl, rfl⟩ := List.append_eq_nil_iff.mp hnil
    obtain ⟨_, rfl⟩ | ⟨_, _, _, _, hrest, hnil, _⟩ := hx
    · obtain ⟨_, rfl⟩ | ⟨_, _, _, _, _, hws, hnil, _⟩ := hy
      · have hanswering : Conversation.Lower startS R rank (3 * rank m' + 1) _
            ⟨.enter p₁, .enter q₁, [], []⟩ :=
          .answering hR (.inl (Party.enter_offers hq₁)) (Party.enter_takes hp₁) (Nat.lt_succ_self _)
        obtain ⟨a', b', hlt, hinv⟩ := hanswering
        exact ⟨a', b', .inl (by omega), hinv⟩
      · exact absurd (List.append_eq_nil_iff.mp hnil.symm).1 hws
    · exact absurd (List.append_eq_nil_iff.mp hnil.symm).1 hrest
  · exact ⟨_, _, .inr ⟨rfl, hb hnil⟩, .asking hR hx (.inl hy) hnil hp₁ hq₁ hvs⟩

/-- A listening program waits. -/
theorem Prog.Listens.enter {q : Prog (Sock β) ν} (h : q.Listens) :
    ∃ n k, Party.enter q = .receiving (n + 1) [] k := by
  obtain ⟨n, k, rfl⟩ := h
  exact ⟨n, k, rfl⟩

variable (hlisten : ∀ s q, startS s = some q → q.Listens)
include hlisten

/-- A poised server can only start its next program, or wait. -/
theorem Party.Poised.cases {s : ν} (h : y.Poised startS s) :
    y = .between s ∨ ∃ q n k, startS s = some q ∧ y = .enter q ∧ y = .receiving (n + 1) [] k := by
  obtain rfl | ⟨q, hq, rfl⟩ := h
  · exact .inl rfl
  · obtain ⟨n, k, hk⟩ := (hlisten s q hq).enter
    exact .inr ⟨q, n, k, hq, rfl, hk⟩

theorem Party.Poised.not_sending {s : ν} {rest : List β} {k : Bool → Prog (Sock β) ν} :
    ¬ (Party.sending rest k).Poised startS s := by
  intro h
  obtain heq | ⟨_, _, _, _, _, heq⟩ := h.cases hlisten
  · cases heq
  · cases heq

variable (hround : ∀ m s, R m s → startC m = none ∨
  ∃ us vs m' s', Round startC startS m s us vs m' s' ∧ R m' s' ∧ rank m' < rank m)
include hround

omit hlisten in
/-- A move of the client. -/
theorem Conversation.Inv.client_move {a b : Nat} {x' : Party β μ} {toServer' toClient' : List β}
    (h : Conversation.Inv startS R rank a b ⟨x, y, toServer, toClient⟩)
    (hmove : Move startC cap true (x, toServer, toClient) (x', toServer', toClient')) :
    Conversation.Lower startS R rank a b ⟨x', y, toServer', toClient'⟩ := by
  cases h with
  | @rest m s _ hR hy =>
      cases hmove with
      | @start _ p _ _ hp =>
          obtain hnone | ⟨us, vs, m', s', round, hR', hrank⟩ := hround m s hR
          · rw [hp] at hnone
            cases hnone
          obtain ⟨p', p₁, hp', hoffers, htakes⟩ := round.ask
          obtain ⟨q, q₁, hq, hqtakes, hqoffers⟩ := round.answer
          obtain rfl := Option.some.inj (hp.symm.trans hp')
          refine ⟨_, _, .inl ?_, .asking hR' (Party.enter_offers hoffers) ?_ round.ask_ne htakes
            hqoffers round.answer_ne⟩
          · omega
          · obtain rfl | ⟨q', hq', rfl⟩ := hy
            · exact .inr ⟨s, q, rfl, hq, hqtakes⟩
            · obtain rfl := Option.some.inj (hq.symm.trans hq')
              exact .inl (Party.enter_takes hqtakes)
  | @asking _ _ us vs _ p₁ q₁ m' s' hR hx hy hne hp₁ hq₁ hvs =>
      have hwait : us = [] → ∃ n got k, x = .receiving n got k := by
        rintro rfl
        obtain ⟨_, rfl⟩ | ⟨_, _, _, _, hrest, hnil, _⟩ := hx
        · obtain ⟨n, got, k, hk, _⟩ := (Party.enter_takes hp₁).receiving hvs
          exact ⟨n, got, k, hk⟩
        · exact absurd (List.append_eq_nil_iff.mp hnil.symm).1 hrest
      have hus : (∀ n got k, x ≠ .receiving n got k) → us ≠ [] := by
        intro hno hnil
        obtain ⟨n, got, k, hk⟩ := hwait hnil
        exact hno n got k hk
      cases hmove with
      | start =>
          obtain ⟨_, _, heq, _⟩ := hx.sending (hus (by nofun))
          cases heq
      | @send rest k _ _ j hpos hj hcap =>
          obtain ⟨us', rfl, hsent⟩ := hx.sent (hus (by nofun)) hj
          rw [← List.append_assoc] at hy hne
          refine ⟨_, _, .inr ⟨rfl, ?_⟩, .asking hR hsent hy hne hp₁ hq₁ hvs⟩
          simp only [List.length_append, List.length_take_of_le hj]
          omega
      | recv hpos hj hinc => exact absurd hinc (Nat.not_le.mpr hpos)
  | @answering _ _ vs _ m' s' hR hy hx hne =>
      obtain ⟨n, got, k, rfl, hn⟩ := hx.receiving hne
      cases hmove with
      | @recv _ _ _ _ _ j hpos hj hinc =>
          rw [← List.take_append_drop j toClient, List.append_assoc] at hx
          have hlen := List.length_take_of_le hinc
          refine .answering hR hy (hx.received (by omega) (by omega)) ?_
          rw [List.length_drop]
          omega

omit hround in
/-- A move of the server. -/
theorem Conversation.Inv.server_move {a b : Nat} {y' : Party β ν} {toServer' toClient' : List β}
    (h : Conversation.Inv startS R rank a b ⟨x, y, toServer, toClient⟩)
    (hmove : Move startS cap true (y, toClient, toServer) (y', toClient', toServer')) :
    Conversation.Lower startS R rank a b ⟨x, y', toServer', toClient'⟩ := by
  have hstart : ∀ {s q}, startS s = some q → (Party.enter q).waiting = 0 := by
    intro s q hq
    obtain ⟨n, k, hk⟩ := (hlisten s q hq).enter
    rw [hk]
    rfl
  cases h with
  | @rest m s _ hR hy =>
      obtain rfl | ⟨q, n, k, hq, _, rfl⟩ := hy.cases hlisten
      · cases hmove with
        | @start _ q _ _ hq =>
            refine ⟨_, _, .inr ⟨rfl, ?_⟩, .rest hR (.inr ⟨q, hq, rfl⟩)⟩
            rw [hstart hq]
            exact Nat.one_pos
      · cases hmove with
        | recv hpos hj hinc => exact absurd hinc (Nat.not_le.mpr hpos)
  | @asking _ _ us vs _ p₁ q₁ m' s' hR hx hy hne hp₁ hq₁ hvs =>
      obtain hy | ⟨s, q, rfl, hq, htakes⟩ := hy
      · obtain ⟨n, got, k, rfl, hn⟩ := hy.receiving hne
        cases hmove with
        | @recv _ _ _ _ _ j hpos hj hinc =>
            rw [← List.take_append_drop j toServer, List.append_assoc] at hy
            have hlen := List.length_take_of_le hinc
            have hy' := hy.received (by omega) (by omega)
            refine .asking hR hx hy' hp₁ hq₁ hvs fun hmore => ?_
            obtain ⟨_, _, _, heq, _⟩ := hy'.receiving hmore
            rw [heq, List.length_drop]
            simp only [Party.waiting]
            omega
      · cases hmove with
        | @start _ q' _ _ hq' =>
            obtain rfl := Option.some.inj (hq.symm.trans hq')
            refine .asking hR hx (Party.enter_takes htakes) hp₁ hq₁ hvs fun _ => ?_
            rw [hstart hq]
            exact Nat.lt_succ_self _
  | @answering _ _ vs _ m' s' hR hy hx hne =>
      cases hmove with
      | @start s q _ _ hq =>
          obtain ⟨rfl, rfl⟩ : vs = [] ∧ s = s' := by
            obtain (⟨rfl, heq⟩ | ⟨_, _, _, heq, _⟩) | ⟨rfl, hpoised⟩ := hy
            · cases heq
              exact ⟨rfl, rfl⟩
            · cases heq
            · obtain heq | ⟨_, _, _, _, _, heq⟩ := hpoised.cases hlisten
              · cases heq
                exact ⟨rfl, rfl⟩
              · cases heq
          refine .answering hR (.inr ⟨rfl, .inr ⟨q, hq, rfl⟩⟩) hx ?_
          rw [hstart hq]
          exact Nat.lt_succ_self _
      | @send rest k _ _ j hpos hj hcap =>
          obtain ⟨hoffers, hvs⟩ : (Party.sending rest k).Offers vs (.ret s') ∧ vs ≠ [] := by
            obtain hoffers | ⟨rfl, hpoised⟩ := hy
            · refine ⟨hoffers, ?_⟩
              rintro rfl
              exact Party.Poised.not_sending hlisten hoffers.poised
            · exact absurd hpoised (Party.Poised.not_sending hlisten)
          obtain ⟨vs', rfl, hsent⟩ := hoffers.sent hvs hj
          rw [← List.append_assoc] at hx
          refine .answering hR (.inl hsent) hx ?_
          have hle := Party.waiting_le ((Party.sending rest k).turn (.moved (rest.take j)))
          simp only [List.length_append, List.length_take_of_le hj]
          omega
      | recv hpos hj hinc => exact absurd hinc (Nat.not_le.mpr hpos)

/-- A move lowers the numbers. -/
theorem Conversation.Inv.step {a b : Nat} {c c' : Conversation β μ ν}
    (h : c.Inv startS R rank a b) (hstep : Conversation.Step startC startS cap true c c') :
    c'.Lower startS R rank a b := by
  cases hstep with
  | client hmove => exact h.client_move hround hmove
  | server hmove => exact h.server_move hlisten hmove

omit hlisten hround in
/-- An interruption changes nothing. -/
theorem Conversation.Step.interrupted {c c' : Conversation β μ ν}
    (hstep : Conversation.Step startC startS cap false c c') : c' = c := by
  cases hstep with
  | client hmove =>
      cases hmove with
      | interrupted => rw [Party.turn_interrupted]
  | server hmove =>
      cases hmove with
      | interrupted => rw [Party.turn_interrupted]

/-- Every run keeps to the rounds. -/
theorem Conversation.Run.inv {a b : Nat} {c c' : Conversation β μ ν} (h : c.Inv startS R rank a b)
    (hrun : Conversation.Run startC startS cap c c') : ∃ a' b', c'.Inv startS R rank a' b' := by
  induction hrun with
  | refl => exact ⟨a, b, h⟩
  | tail _ hstep ih =>
      obtain ⟨a', b', hinv⟩ := ih
      obtain ⟨l, hstep⟩ := hstep
      cases l with
      | true =>
          obtain ⟨a'', b'', _, hinv'⟩ := hinv.step hlisten hround hstep
          exact ⟨a'', b'', hinv'⟩
      | false =>
          rw [hstep.interrupted]
          exact ⟨a', b', hinv⟩

/-- Between two programs of the client both streams are empty, and the memories are related. -/
theorem Conversation.rounds_between {m₀ m : μ} {s₀ : ν} {c : Conversation β μ ν} (hR : R m₀ s₀)
    (hrun : Conversation.Run startC startS cap (.init m₀ s₀) c) (hc : c.client = .between m) :
    c.toServer = [] ∧ c.toClient = [] ∧ ∃ s, c.server.Poised startS s ∧ R m s := by
  obtain ⟨a, b, hinv⟩ := hrun.inv hlisten hround (.rest hR (.inl rfl))
  cases hinv with
  | @rest _ s _ hR hy =>
      cases hc
      exact ⟨rfl, rfl, s, hy, hR⟩
  | asking hR hx hy hne hp₁ hq₁ hvs =>
      obtain ⟨rfl, rfl⟩ | ⟨_, _, _, rfl, _⟩ := hx
      · obtain ⟨_, _, _, heq, _⟩ := (Party.enter_takes hp₁).receiving hvs
        rw [heq] at hc
        cases hc
      · cases hc
  | answering hR hy hx hne =>
      obtain ⟨_, _, _, rfl, _⟩ := hx.receiving hne
      cases hc

omit hlisten hround in
/-- As long as the client has a program to run, one of the parties can move. -/
theorem Conversation.Inv.progress (hcap : 0 < cap) {a b : Nat} {c : Conversation β μ ν}
    (h : c.Inv startS R rank a b) :
    (∃ m, c.client = .between m ∧ startC m = none) ∨
      ∃ c', Conversation.Step startC startS cap true c c' := by
  cases h with
  | @rest m s y hR hy =>
      cases hm : startC m with
      | none => exact .inl ⟨m, rfl, hm⟩
      | some p => exact .inr ⟨_, .client (.start hm)⟩
  | @asking x y us vs toServer p₁ q₁ m' s' hR hx hy hne hp₁ hq₁ hvs =>
      right
      obtain hy | ⟨s, q, rfl, hq, _⟩ := hy
      · obtain ⟨n, got, k, rfl, hn⟩ := hy.receiving hne
        cases toServer with
        | nil =>
            obtain ⟨rest, k', rfl, hrest⟩ := hx.sending hne
            exact ⟨_, .client (.send Nat.one_pos hrest (show 0 + 1 ≤ cap by omega))⟩
        | cons => exact ⟨_, .server (.recv Nat.one_pos hn (Nat.succ_pos _))⟩
      · exact ⟨_, .server (.start hq)⟩
  | @answering x y vs toClient m' s' hR hy hx hne =>
      right
      obtain ⟨n, got, k, rfl, hn⟩ := hx.receiving hne
      cases toClient with
      | nil =>
          obtain hoffers | ⟨rfl, _⟩ := hy
          · obtain ⟨rest, k', rfl, hrest⟩ := hoffers.sending hne
            exact ⟨_, .server (.send Nat.one_pos hrest (show 0 + 1 ≤ cap by omega))⟩
          · exact absurd rfl hne
      | cons => exact ⟨_, .client (.recv Nat.one_pos hn (Nat.succ_pos _))⟩

/-- The numbers cannot fall forever. -/
theorem Conversation.Inv.leads (hcap : 0 < cap) {a b : Nat} {c : Conversation β μ ν}
    (h : c.Inv startS R rank a b) :
    LeadsTo (Conversation.Step startC startS cap true)
      (fun c => ∃ m, c.client = .between m ∧ startC m = none) c := by
  obtain hdone | hmove := h.progress hcap
  · exact .here hdone
  · refine .step hmove fun c' hstep => ?_
    obtain ⟨a', b', hlt, hinv⟩ := h.step hlisten hround hstep
    exact Conversation.Inv.leads hcap hinv
termination_by (a, b)
decreasing_by
  simp only [Prod.lex_def]
  exact hlt

/-- However the bytes are cut, the client gets to the end of its programs. -/
theorem Conversation.rounds_lead (hcap : 0 < cap) {m₀ : μ} {s₀ : ν} (hR : R m₀ s₀) :
    LeadsTo (Conversation.Step startC startS cap true)
      (fun c => ∃ m, c.client = .between m ∧ startC m = none) (.init m₀ s₀) :=
  Conversation.Inv.leads hlisten hround hcap (.rest hR (.inl rfl))

end Rounds

/-! ## A party and any peer

The peer may be faulty or hostile: it sends some bytes, whatever the party says, and closes the
stream.  What the party stores of them is kept block by block, for a loop that fails has stored
what came before.
-/

/-- `x.Hears inc rs`: the system calls of `x` can come back with `rs` when the bytes `inc` are sent
to it.  A call moves no more bytes than it was asked to, and receives none only at the end of the
stream; any call can be interrupted or fail. -/
inductive Party.Hears : Party β μ → List β → List (SysResult β) → Prop where
  | nil {x : Party β μ} {inc : List β} : Hears x inc []
  | interrupted {x : Party β μ} {inc : List β} {rs : List (SysResult β)} :
      Hears (x.turn .interrupted) inc rs → Hears x inc (.interrupted :: rs)
  | failed {x : Party β μ} {inc : List β} {rs : List (SysResult β)} :
      Hears (x.turn .failed) inc rs → Hears x inc (.failed :: rs)
  | sent {rest : List β} {k : Bool → Prog (Sock β) μ} {inc : List β} {rs : List (SysResult β)}
      {j : Nat} : j ≤ rest.length →
      Hears ((Party.sending rest k).turn (.moved (rest.take j))) inc rs →
      Hears (.sending rest k) inc (.moved (rest.take j) :: rs)
  | received {n : Nat} {got bs : List β} {k : Option (List β) → Prog (Sock β) μ} {inc : List β}
      {rs : List (SysResult β)} : 0 < bs.length → bs.length ≤ n →
      Hears ((Party.receiving n got k).turn (.moved bs)) inc rs →
      Hears (.receiving n got k) (bs ++ inc) (.moved bs :: rs)
  | ended {n : Nat} {got : List β} {k : Option (List β) → Prog (Sock β) μ}
      {rs : List (SysResult β)} : Hears ((Party.receiving n got k).turn (.moved [])) [] rs →
      Hears (.receiving n got k) [] (.moved [] :: rs)

/-- Where a party is after some system calls. -/
def Party.after (x : Party β μ) (rs : List (SysResult β)) : Party β μ := rs.foldl Party.turn x

/-- The block that a turn ends, with the bytes that have come for it. -/
def Party.ends : Party β μ → SysResult β → List (List β)
  | .receiving n got _, .moved bs =>
      if bs.length = 0 then [got] else if n ≤ bs.length then [got ++ bs] else []
  | .receiving _ got _, .failed => [got]
  | _, _ => []

/-- The block a party is waiting for, with the bytes that have come. -/
def Party.awaits : Party β μ → List (List β)
  | .receiving _ got _ => [got]
  | _ => []

/-- What is stored of each block that a party waits for, in order. -/
def Party.stored (x : Party β μ) : List (SysResult β) → List (List β)
  | [] => x.awaits
  | r :: rs => x.ends r ++ (x.turn r).stored rs

@[simp] theorem Party.after_cons (x : Party β μ) (r : SysResult β) (rs : List (SysResult β)) :
    x.after (r :: rs) = (x.turn r).after rs := rfl

/-- Nothing has come for a block when its loop begins. -/
theorem Party.enter_awaits (p : Prog (Sock β) μ) : (Party.enter p).awaits.flatten = [] := by
  induction p with
  | ret m => rfl
  | call c k ih =>
      cases c with
      | sendAll bs =>
          cases bs with
          | nil => exact ih true
          | cons b bs => rfl
      | recvAll n =>
          cases n with
          | zero => exact ih (some [])
          | succ n => rfl

/-- A party between two programs makes no calls of its own. -/
theorem Party.between_idle (m : μ) (rs : List (SysResult β)) :
    (Party.between m).after rs = .between m ∧ (Party.between m).stored rs = [] := by
  induction rs with
  | nil => exact ⟨rfl, rfl⟩
  | cons r rs ih => exact ih

section Turns

variable {n : Nat} {bs : List β} {k : Option (List β) → Prog (Sock β) μ}

/-- The bytes that were left of a block have come. -/
theorem Party.turn_whole (hpos : 0 < bs.length) (h : n ≤ bs.length) (got : List β)
    (k : Option (List β) → Prog (Sock β) μ) :
    (Party.receiving n got k).turn (.moved bs) = .enter (k (some (got ++ bs))) ∧
      (Party.receiving n got k).ends (.moved bs) = [got ++ bs] := by
  have hne : bs.length ≠ 0 := by omega
  simp only [Party.turn, Party.ends, if_neg hne, if_pos h, and_self]

/-- Some of the bytes that were left of a block have come. -/
theorem Party.turn_part (hpos : 0 < bs.length) (h : ¬ n ≤ bs.length) (got : List β)
    (k : Option (List β) → Prog (Sock β) μ) :
    (Party.receiving n got k).turn (.moved bs) = .receiving (n - bs.length) (got ++ bs) k ∧
      (Party.receiving n got k).ends (.moved bs) = [] := by
  have hne : bs.length ≠ 0 := by omega
  simp only [Party.turn, Party.ends, if_neg hne, if_neg h, and_self]

/-- A whole block is received in one piece. -/
theorem Party.Hears.receive {inc : List β} {rs : List (SysResult β)} (hpos : 0 < bs.length)
    (h : (Party.enter (k (some bs))).Hears inc rs) :
    (Party.receiving bs.length [] k).Hears (bs ++ inc) (.moved bs :: rs) ∧
      (Party.receiving bs.length [] k).stored (.moved bs :: rs) =
        bs :: (Party.enter (k (some bs))).stored rs ∧
      (Party.receiving bs.length [] k).after (.moved bs :: rs) =
        (Party.enter (k (some bs))).after rs := by
  obtain ⟨hturn, hends⟩ := Party.turn_whole hpos (Nat.le_refl _) [] k
  refine ⟨.received hpos (Nat.le_refl _) (hturn ▸ h), ?_, ?_⟩
  · rw [Party.stored, hends, hturn]
    rfl
  · rw [Party.after_cons, hturn]
    rfl

/-- One piece of a block is received. -/
theorem Party.Hears.piece (hpos : 0 < bs.length) (hle : bs.length ≤ n) (got : List β)
    (k : Option (List β) → Prog (Sock β) μ) (inc : List β) :
    (Party.receiving n got k).Hears (bs ++ inc) [.moved bs] ∧
      ((Party.receiving n got k).stored [.moved bs]).flatten = got ++ bs := by
  refine ⟨.received hpos hle .nil, ?_⟩
  by_cases hend : n ≤ bs.length
  · obtain ⟨hturn, hends⟩ := Party.turn_whole hpos hend got k
    rw [Party.stored, hends, hturn, Party.stored, List.flatten_append, Party.enter_awaits]
    simp only [List.flatten_singleton, List.append_nil]
  · obtain ⟨hturn, hends⟩ := Party.turn_part hpos hend got k
    rw [Party.stored, hends, hturn]
    exact List.flatten_singleton

end Turns

/-- A whole block is sent in one piece. -/
theorem Party.Hears.send {inc : List β} {k : Bool → Prog (Sock β) μ} {rs : List (SysResult β)}
    (h : (Party.enter (k true)).Hears inc rs) (rest : List β) :
    (Party.sending rest k).Hears inc (.moved rest :: rs) ∧
      (Party.sending rest k).stored (.moved rest :: rs) = (Party.enter (k true)).stored rs ∧
      (Party.sending rest k).after (.moved rest :: rs) = (Party.enter (k true)).after rs := by
  have hturn : (Party.sending rest k).turn (.moved rest) = .enter (k true) :=
    if_pos (Nat.le_refl _)
  have hsent : (Party.sending rest k).Hears inc (.moved (rest.take rest.length) :: rs) := by
    refine .sent (Nat.le_refl _) ?_
    rwa [List.take_length, hturn]
  rw [List.take_length] at hsent
  refine ⟨hsent, ?_, ?_⟩
  · rw [Party.stored, hturn]
    rfl
  · rw [Party.after_cons, hturn]

/-- A loop that sends is left with its result, or goes on for ever. -/
theorem Party.Hears.sending_cases {rest : List β} {k : Bool → Prog (Sock β) μ} {inc : List β}
    {rs : List (SysResult β)} (h : (Party.sending rest k).Hears inc rs) :
    ((Party.sending rest k).stored rs = [] ∧
        ∃ rest', (Party.sending rest k).after rs = .sending rest' k) ∨
      ∃ sent rs', (Party.enter (k sent)).Hears inc rs' ∧
        (Party.sending rest k).stored rs = (Party.enter (k sent)).stored rs' ∧
        (Party.sending rest k).after rs = (Party.enter (k sent)).after rs' := by
  generalize hx : Party.sending rest k = x at h
  induction h generalizing rest with
  | nil =>
      subst hx
      exact .inl ⟨rfl, rest, rfl⟩
  | interrupted _ ih =>
      subst hx
      exact ih rfl
  | @failed _ _ rs h _ =>
      subst hx
      exact .inr ⟨false, rs, h, rfl, rfl⟩
  | @sent rest k _ rs j hj h ih =>
      cases hx
      have hturn : (Party.sending rest k).turn (.moved (rest.take j)) =
          if rest.length ≤ j then Party.enter (k true) else .sending (rest.drop j) k := by
        rw [Party.turn, List.length_take_of_le hj]
      simp only [Party.stored, Party.after_cons, Party.ends, List.nil_append]
      by_cases hend : rest.length ≤ j
      · rw [if_pos hend] at hturn
        rw [hturn] at h ⊢
        exact .inr ⟨true, rs, h, rfl, rfl⟩
      · rw [if_neg hend] at hturn
        exact ih hturn.symm
  | received _ _ _ _ => cases hx
  | ended _ _ => cases hx

/-- A loop that receives stores the bytes of the stream in order, and no more than it waits for.
It is left with the whole block, or early and without one. -/
theorem Party.Hears.receiving_cases {n : Nat} {got : List β}
    {k : Option (List β) → Prog (Sock β) μ} {inc : List β} {rs : List (SysResult β)}
    (h : (Party.receiving n got k).Hears inc rs) (hn : 0 < n) :
    (∃ bs, bs <+: inc ∧ bs.length < n ∧ (Party.receiving n got k).stored rs = [got ++ bs] ∧
        ∃ n', (Party.receiving n got k).after rs = .receiving n' (got ++ bs) k) ∨
      (∃ bs rs', bs <+: inc ∧ bs.length < n ∧
        (Party.receiving n got k).stored rs = (got ++ bs) :: (Party.enter (k none)).stored rs' ∧
        (Party.receiving n got k).after rs = (Party.enter (k none)).after rs') ∨
      ∃ bs inc' rs', inc = bs ++ inc' ∧ bs.length = n ∧
        (Party.enter (k (some (got ++ bs)))).Hears inc' rs' ∧
        (Party.receiving n got k).stored rs =
          (got ++ bs) :: (Party.enter (k (some (got ++ bs)))).stored rs' ∧
        (Party.receiving n got k).after rs = (Party.enter (k (some (got ++ bs)))).after rs' := by
  generalize hx : Party.receiving n got k = x at h
  induction h generalizing n got with
  | @nil _ inc =>
      subst hx
      refine .inl ⟨[], List.nil_prefix, hn, ?_, n, ?_⟩
      · rw [List.append_nil]
        rfl
      · rw [List.append_nil]
        rfl
  | interrupted _ ih =>
      subst hx
      exact ih hn rfl
  | @failed _ inc rs _ _ =>
      subst hx
      refine .inr (.inl ⟨[], rs, List.nil_prefix, hn, ?_, rfl⟩)
      rw [List.append_nil]
      rfl
  | sent _ _ _ => cases hx
  | @received n got bs k inc rs hpos hle h ih =>
      cases hx
      by_cases hend : n ≤ bs.length
      · obtain ⟨hturn, hends⟩ := Party.turn_whole hpos hend got k
        refine .inr (.inr ⟨bs, inc, rs, rfl, by omega, hturn ▸ h, ?_, ?_⟩)
        · rw [Party.stored, hends, hturn]
          rfl
        · rw [Party.after_cons, hturn]
      · obtain ⟨hturn, hends⟩ := Party.turn_part hpos hend got k
        rw [Party.stored, hends, Party.after_cons, List.nil_append]
        obtain ⟨cs, hpre, hlt, hstored, n', hafter⟩ | ⟨cs, rs', hpre, hlt, hstored, hafter⟩ |
            ⟨cs, inc', rs', rfl, hlen, hrest, hstored, hafter⟩ := ih (by omega) hturn.symm
        · rw [List.append_assoc] at hstored hafter
          refine .inl ⟨bs ++ cs, (List.prefix_append_right_inj bs).mpr hpre, ?_, hstored, n', hafter⟩
          rw [List.length_append]
          omega
        · rw [List.append_assoc] at hstored
          refine .inr (.inl ⟨bs ++ cs, rs', (List.prefix_append_right_inj bs).mpr hpre, ?_,
            hstored, hafter⟩)
          rw [List.length_append]
          omega
        · rw [List.append_assoc] at hrest hstored hafter
          refine .inr (.inr ⟨bs ++ cs, inc', rs', (List.append_assoc ..).symm, ?_, hrest,
            hstored, hafter⟩)
          rw [List.length_append]
          omega
  | @ended _ _ _ rs _ _ =>
      cases hx
      refine .inr (.inl ⟨[], rs, List.nil_prefix, hn, ?_, rfl⟩)
      rw [List.append_nil]
      rfl

end Calls
