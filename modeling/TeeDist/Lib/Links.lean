import TeeDist.Lib.Remote
import TeeDist.Lib.Streams

/-!
# Calls over many connections

Clients make their calls over pairs of byte streams, one pair between each client and each
server (`Lib.Streams`).  A call sends a request and waits for the reply.  The server collects
the request, changes the shared state in one atomic section, and sends the reply.  The shared
state belongs to all connections, and every stream moves at its own pace.

A connection can fail at either end.  An end that has failed stays so: its later system calls
fail too, and only a sender may believe for a while that its bytes go somewhere.  To send on a
connection that has failed may also be the end of the process, of a client or of a server with all
of its connections.

`Service.Correct` is about one call on one connection, in whole blocks.  From it follows that
the whole system behaves as `Remote` does, `Links.Run.remote`: calls that travel, each of them
carried out at one moment, and at most once.
-/

namespace Calls

variable {β μ ν : Type}

/-! ## Failures -/

/-- After a failure the program ends in `dead`, all of its system calls failing.  Only a send may
seem to succeed. -/
def Prog.Frail {α : Type} (dead : α → Prop) : Prog (Sock β) α → Prop
  | .ret a => dead a
  | .call (.sendAll _) k => ∀ sent, (k sent).Frail dead
  | .call (.recvAll n) k => (k none).Frail dead ∧ (n = 0 → (k (some [])).Frail dead)

/-- A failure at any of its system calls leads the program to `dead`. -/
def Prog.Brittle {α : Type} (dead : α → Prop) : Prog (Sock β) α → Prop
  | .ret _ => True
  | .call (.sendAll _) k => (k false).Frail dead ∧ (k true).Brittle dead
  | .call (.recvAll _) k => (k none).Frail dead ∧ ∀ bs, (k (some bs)).Brittle dead

/-- A program that goes on with a function of its result. -/
theorem Prog.Brittle.bind_ret {α γ : Type} {a : α} (f : α → γ) {p : Prog (Sock β) α}
    (h : p.Brittle (· = a)) : (p.bind fun x => .ret (f x)).Brittle (· = f a) := by
  have hfrail : ∀ {p : Prog (Sock β) α}, p.Frail (· = a) →
      (p.bind fun x => .ret (f x)).Frail (· = f a) := by
    intro p hp
    induction p with
    | ret x => exact congrArg f hp
    | call c k ih =>
        cases c with
        | sendAll bs => exact fun sent => ih sent (hp sent)
        | recvAll n => exact ⟨ih none hp.1, fun hn => ih (some []) (hp.2 hn)⟩
  induction p with
  | ret x => trivial
  | call c k ih =>
      cases c with
      | sendAll bs => exact ⟨hfrail h.1, ih true h.2⟩
      | recvAll n => exact ⟨hfrail h.1, fun bs => ih (some bs) (h.2 bs)⟩

/-- The same for a party, which may be in the middle of a block. -/
def Party.Frail (dead : μ → Prop) : Party β μ → Prop
  | .between m => dead m
  | .sending _ k => ∀ sent, (k sent).Frail dead
  | .receiving _ _ k => (k none).Frail dead

def Party.Brittle (dead : μ → Prop) : Party β μ → Prop
  | .between _ => True
  | .sending _ k => (k false).Frail dead ∧ (k true).Brittle dead
  | .receiving _ _ k => (k none).Frail dead ∧ ∀ bs, (k (some bs)).Brittle dead

/-- The party is in a loop of system calls. -/
def Party.Calling : Party β μ → Prop
  | .between _ => False
  | _ => True

/-- The party is in the loop that sends a block. -/
def Party.Sending : Party β μ → Prop
  | .sending _ _ => True
  | _ => False

section Failures

variable {dead : μ → Prop} {x x' : Party β μ} {p : Prog (Sock β) μ}

theorem Party.enter_frail (h : p.Frail dead) : (Party.enter p).Frail dead := by
  induction p with
  | ret m => exact h
  | call c k ih =>
      cases c with
      | sendAll bs =>
          cases bs with
          | nil => exact ih true (h true)
          | cons b bs => exact h
      | recvAll n =>
          cases n with
          | zero => exact ih (some []) (h.2 rfl)
          | succ n => exact h.1

theorem Party.enter_brittle (h : p.Brittle dead) : (Party.enter p).Brittle dead := by
  induction p with
  | ret m => trivial
  | call c k ih =>
      cases c with
      | sendAll bs =>
          cases bs with
          | nil => exact ih true h.2
          | cons b bs => exact h
      | recvAll n =>
          cases n with
          | zero => exact ih (some []) (h.2 [])
          | succ n => exact h

/-- A failure. -/
theorem Party.Brittle.failed (h : x.Brittle dead) (hx : x.Calling) :
    (x.turn .failed).Frail dead := by
  cases x with
  | between m => exact hx.elim
  | sending rest k => exact Party.enter_frail h.1
  | receiving n got k => exact Party.enter_frail h.1

/-- Another one. -/
theorem Party.Frail.failed (h : x.Frail dead) : (x.turn .failed).Frail dead := by
  cases x with
  | between m => exact h
  | sending rest k => exact Party.enter_frail (h false)
  | receiving n got k => exact Party.enter_frail h

/-- Bytes that go nowhere. -/
theorem Party.Frail.dropped {rest : List β} {k : Bool → Prog (Sock β) μ}
    (h : (Party.sending rest k).Frail dead) :
    ((Party.sending rest k).turn (.moved rest)).Frail dead := by
  rw [Party.turn, if_pos (Nat.le_refl _)]
  exact Party.enter_frail (h true)

/-- A move between two streams. -/
theorem Move.brittle {cap : Nat} {l : Bool} {out inc out' inc' : List β}
    (h : Move (fun _ => none) cap l (x, out, inc) (x', out', inc')) (hx : x.Brittle dead) :
    x'.Brittle dead := by
  cases h with
  | start hm => cases hm
  | send hpos hj hcap =>
      rw [Party.turn]
      split
      · exact Party.enter_brittle hx.2
      · exact hx
  | recv hpos hj hinc =>
      have hlen := List.length_take_of_le hinc
      rw [Party.turn, if_neg (by omega)]
      split
      · exact Party.enter_brittle (hx.2 _)
      · exact hx
  | interrupted =>
      rw [Party.turn_interrupted]
      exact hx

end Failures

/-! ## Whole blocks of a program and what follows it -/

theorem Prog.Offers.bind {α γ : Type} {f : α → Prog (Sock β) γ} {p p' : Prog (Sock β) α}
    {us : List β} (h : p.Offers us p') : (p.bind f).Offers us (p'.bind f) := by
  induction h with
  | nil => exact .nil
  | send _ ih => exact .send ih

theorem Prog.Takes.bind {α γ : Type} {f : α → Prog (Sock β) γ} {p p' : Prog (Sock β) α}
    {vs : List β} (h : p.Takes vs p') : (p.bind f).Takes vs (p'.bind f) := by
  induction h with
  | nil => exact .nil
  | recv _ ih => exact .recv ih

/-- A party that has sent all goes on with its program. -/
theorem Party.Offers.done {x : Party β μ} {p : Prog (Sock β) μ} (h : x.Offers [] p) :
    x = .enter p := by
  obtain ⟨_, rfl⟩ | ⟨_, _, _, _, hrest, hnil, _⟩ := h
  · rfl
  · exact absurd (List.append_eq_nil_iff.mp hnil.symm).1 hrest

theorem Party.Takes.done {x : Party β μ} {p : Prog (Sock β) μ} (h : x.Takes [] p) :
    x = .enter p := by
  obtain ⟨_, rfl⟩ | ⟨_, _, _, _, _, hws, hnil, _⟩ := h
  · rfl
  · exact absurd (List.append_eq_nil_iff.mp hnil.symm).1 hws

/-! ## The system -/

/-- How calls are made over streams, and served. -/
structure Service (ι κ β ν σ : Type) (S : Signature) where
  /-- The server that a call is for. -/
  via : S.Call → κ
  /-- What a client does to make a call. -/
  ask : ι → (c : S.Call) → Prog (Sock β) (S.Reply c)
  /-- What a server does next on one of its connections. -/
  serve : ν → Option (Prog (Sock β) ν)
  /-- Its atomic sections: what a server and the shared state may become. -/
  act : κ → ν → σ → ν → σ → Prop

/-- A connection, seen from its server. -/
@[ext] structure Link (β ν : Type) where
  server : Party β ν
  toServer : List β
  toClient : List β
  /-- The client's end has failed. -/
  lost : Bool
  /-- The server's end has failed. -/
  deaf : Bool

/-- A step of the server. -/
inductive Link.Turn (serve : ν → Option (Prog (Sock β) ν)) (cap : Nat) (faulty : Prop) :
    Link β ν → Link β ν → Prop where
  | start {L : Link β ν} {n : ν} {q : Prog (Sock β) ν} : L.server = .between n →
      serve n = some q → Turn serve cap faulty L { L with server := .enter q }
  | move {L : Link β ν} {l : Bool} {y : Party β ν} {out inc : List β} : L.deaf = false →
      Move (fun _ => none) cap l (L.server, L.toClient, L.toServer) (y, out, inc) →
      Turn serve cap faulty L { L with server := y, toServer := inc, toClient := out }
  | fail {L : Link β ν} : faulty → L.server.Calling →
      Turn serve cap faulty L { L with server := L.server.turn .failed, deaf := true }
  | drop {L : Link β ν} {rest : List β} {k : Bool → Prog (Sock β) ν} : L.deaf = true →
      L.server = .sending rest k →
      Turn serve cap faulty L { L with server := L.server.turn (.moved rest) }

/-- The clients, their connections to all servers, and the shared state. -/
structure Links (ι κ β ν : Type) (S : Signature) (σ α : Type) where
  shared : σ
  /-- A client remembers what it has left to do. -/
  client : ι → Party β (Prog S α)
  /-- The connection that a client used last. -/
  on : ι → κ
  link : ι × κ → Link β ν
  /-- The clients whose processes have ended. -/
  killed : ι → Bool
  /-- The servers whose processes have ended. -/
  crashed : κ → Bool

variable {ι κ : Type} {S : Signature} {σ α : Type}

/-- What a client does for its next call. -/
def Service.call (sv : Service ι κ β ν σ S) (i : ι) (c : S.Call) (k : S.Reply c → Prog S α) :
    Prog (Sock β) (Prog S α) :=
  (sv.ask i c).bind fun r => .ret (k r)

/-- Only some of the atomic sections. -/
def Service.only (sv : Service ι κ β ν σ S) (ok : κ → ν → Prop) : Service ι κ β ν σ S :=
  { sv with act := fun j n s n' s' => ok j n ∧ sv.act j n s n' s' }

/-- One step of the system.  A process that has ended takes no more steps. -/
inductive Links.Step [DecidableEq ι] [DecidableEq κ] (sv : Service ι κ β ν σ S) (cap : Nat)
    (env : σ → σ → Prop) (faulty : Prop) :
    Links ι κ β ν S σ α → Links ι κ β ν S σ α → Prop where
  | ask {N : Links ι κ β ν S σ α} {i : ι} {c : S.Call} {k : S.Reply c → Prog S α} :
      N.killed i = false → N.client i = .between (.call c k) →
      Step sv cap env faulty N
        { N with
          client := Function.update N.client i (.enter (sv.call i c k))
          on := Function.update N.on i (sv.via c) }
  | client {N : Links ι κ β ν S σ α} {i : ι} {l : Bool} {x : Party β (Prog S α)}
      {out inc : List β} : N.killed i = false → (N.link (i, N.on i)).lost = false →
      Move (fun _ => none) cap l
        (N.client i, (N.link (i, N.on i)).toServer, (N.link (i, N.on i)).toClient)
        (x, out, inc) →
      Step sv cap env faulty N
        { N with
          client := Function.update N.client i x
          link := Function.update N.link (i, N.on i)
            { N.link (i, N.on i) with toServer := out, toClient := inc } }
  | fail {N : Links ι κ β ν S σ α} {i : ι} : N.killed i = false → faulty →
      (N.client i).Calling →
      Step sv cap env faulty N
        { N with
          client := Function.update N.client i ((N.client i).turn .failed)
          link := Function.update N.link (i, N.on i) { N.link (i, N.on i) with lost := true } }
  | kill {N : Links ι κ β ν S σ α} {i : ι} : faulty → (N.client i).Sending →
      Step sv cap env faulty N { N with killed := Function.update N.killed i true }
  | server {N : Links ι κ β ν S σ α} {p : ι × κ} {L : Link β ν} : N.crashed p.2 = false →
      (N.link p).Turn sv.serve cap faulty L →
      Step sv cap env faulty N { N with link := Function.update N.link p L }
  | crash {N : Links ι κ β ν S σ α} {i : ι} {j : κ} : faulty → (N.link (i, j)).server.Sending →
      Step sv cap env faulty N { N with crashed := Function.update N.crashed j true }
  | act {N : Links ι κ β ν S σ α} {i : ι} {j : κ} {n n' : ν} {s : σ} : N.crashed j = false →
      (N.link (i, j)).server = .between n → sv.act j n N.shared n' s →
      Step sv cap env faulty N
        { N with
          shared := s
          link := Function.update N.link (i, j) { N.link (i, j) with server := .between n' } }
  | env {N : Links ι κ β ν S σ α} {s : σ} : env N.shared s →
      Step sv cap env faulty N { N with shared := s }

/-- After an atomic section of the server `j` for the client `i`. -/
def Links.acted [DecidableEq ι] [DecidableEq κ] (N : Links ι κ β ν S σ α) (i : ι) (j : κ) (n' : ν)
    (s : σ) : Links ι κ β ν S σ α :=
  { N with
    shared := s
    link := Function.update N.link (i, j) { N.link (i, j) with server := .between n' } }

/-- Any number of steps. -/
def Links.Run [DecidableEq ι] [DecidableEq κ] (sv : Service ι κ β ν σ S) (cap : Nat)
    (env : σ → σ → Prop) (faulty : Prop) :
    Links ι κ β ν S σ α → Links ι κ β ν S σ α → Prop :=
  Relation.ReflTransGen (Links.Step sv cap env faulty)

/-- Every client before its first call, and every server ready on every connection. -/
def Links.init (s : σ) (p : ι → Prog S α) (on : ι → κ) (ready : ι × κ → ν) :
    Links ι κ β ν S σ α :=
  ⟨s, fun i => .between (p i), on, fun q => ⟨.between (ready q), [], [], false, false⟩,
    fun _ => false, fun _ => false⟩

/-! ## One call -/

section Service

variable (sv : Service ι κ β ν σ S) (h : Handler S σ) (Ready : ν → Prop)

/-- What a server remembers after an atomic section: it sends `vs`, and is ready again. -/
structure Service.Replies (n : ν) (vs : List β) : Prop where
  sends : ∃ q n', sv.serve n = some q ∧ q.Offers vs (.ret n') ∧ Ready n'
  still : ∀ j s n' s', ¬ sv.act j n s n' s'
  more : vs ≠ []

/-- A server that has collected a request carries out the call, and the client's program `p`,
which waits for the reply, returns what the call does. -/
structure Service.Carries (c : S.Call) (p : Prog (Sock β) (S.Reply c)) (n : ν) : Prop where
  waits : sv.serve n = none
  can : ∀ s, ∃ n' s', sv.act (sv.via c) n s n' s'
  acts : ∀ s n' s', sv.act (sv.via c) n s n' s' → s' = (h c s).2 ∧
    ∃ vs, sv.Replies Ready n' vs ∧ p.Takes vs (.ret (h c s).1)

/-- The service makes and serves calls as `h` does, one call on one connection.  After a failure
a client returns `fails`, and a server ends in a state in which it changes nothing. -/
structure Service.Correct (fails : (c : S.Call) → S.Reply c) (Dead : ν → Prop) : Prop where
  asks : ∀ i c, ∃ us p, (sv.ask i c).Offers us p ∧ us ≠ [] ∧ p.Listens ∧
    ∀ n, Ready n → ∃ q n', sv.serve n = some q ∧ q.Takes us (.ret n') ∧ sv.Carries h Ready c p n'
  listens : ∀ n q, Ready n → sv.serve n = some q → q.Listens
  still : ∀ n, Ready n → ∀ j s n' s', ¬ sv.act j n s n' s'
  gives_up : ∀ i c, (sv.ask i c).Brittle (· = fails c)
  breaks : ∀ n q, sv.serve n = some q → q.Brittle Dead
  dead_serve : ∀ n q, Dead n → sv.serve n = some q → q.Frail Dead
  dead_act : ∀ j n s n' s', Dead n → sv.act j n s n' s' → s' = s ∧ Dead n'

end Service

/-! ## The server's end -/

section Server

variable {sv : Service ι κ β ν σ S} {h : Handler S σ} {fails : (c : S.Call) → S.Reply c}
  {Ready Dead : ν → Prop} {cap : Nat} {faulty : Prop} {L L' : Link β ν} {c : S.Call}
  {p : Prog (Sock β) (S.Reply c)} {us vs : List β}

/-- The server's end has failed. -/
def Link.Down (Dead : ν → Prop) (L : Link β ν) : Prop := L.deaf = true ∧ L.server.Frail Dead

/-- The server is collecting the request of a call, or has all of it and is about to carry it out.
The bytes `us` are still to be sent. -/
structure Link.Collects (sv : Service ι κ β ν σ S) (h : Handler S σ) (Ready Dead : ν → Prop)
    (c : S.Call) (p : Prog (Sock β) (S.Reply c)) (us : List β) (L : Link β ν) : Prop where
  up : L.deaf = false
  brittle : L.server.Brittle Dead
  takes : ∃ n, sv.Carries h Ready c p n ∧ (L.server.Takes (L.toServer ++ us) (.ret n) ∨
    ∃ n₀ q, Ready n₀ ∧ L.server = .between n₀ ∧ sv.serve n₀ = some q ∧
      q.Takes (L.toServer ++ us) (.ret n))

/-- The server has the bytes `vs` of a reply to send, and is ready again then. -/
structure Link.Sends (sv : Service ι κ β ν σ S) (Ready Dead : ν → Prop) (vs : List β)
    (L : Link β ν) : Prop where
  up : L.deaf = false
  brittle : L.server.Brittle Dead
  heard : L.toServer = []
  offers : (∃ n, L.server = .between n ∧ sv.Replies Ready n vs) ∨
    (∃ n, Ready n ∧ L.server.Offers vs (.ret n)) ∨
    vs = [] ∧ ∃ n, Ready n ∧ L.server.Poised sv.serve n

/-- Collecting, or down. -/
def Link.Hears (sv : Service ι κ β ν σ S) (h : Handler S σ) (Ready Dead : ν → Prop) (c : S.Call)
    (p : Prog (Sock β) (S.Reply c)) (us : List β) (L : Link β ν) : Prop :=
  L.Down Dead ∨ L.Collects sv h Ready Dead c p us

/-- Sending, or down. -/
def Link.Says (sv : Service ι κ β ν σ S) (Ready Dead : ν → Prop) (vs : List β) (L : Link β ν) :
    Prop :=
  L.Down Dead ∨ L.Sends sv Ready Dead vs

/-- A server that has sent all is poised. -/
theorem Link.Sends.poised (hL : L.Sends sv Ready Dead []) :
    ∃ n, Ready n ∧ L.server.Poised sv.serve n := by
  obtain ⟨n, _, hn⟩ | ⟨n, hn, hoffers⟩ | ⟨_, hpoised⟩ := hL.offers
  · exact absurd rfl hn.more
  · exact ⟨n, hn, .inl hoffers.done⟩
  · exact hpoised

/-- A call begins at a server that is poised. -/
theorem Link.Says.hears (hL : L.Says sv Ready Dead [])
    (hp : ∀ n, Ready n → ∃ q n', sv.serve n = some q ∧ q.Takes us (.ret n') ∧
      sv.Carries h Ready c p n') : L.Hears sv h Ready Dead c p us := by
  obtain hdown | hL := hL
  · exact .inl hdown
  obtain ⟨n, hn, hpoised⟩ := hL.poised
  obtain ⟨q, n', hq, htakes, hcarries⟩ := hp n hn
  refine .inr ⟨hL.up, hL.brittle, n', hcarries, ?_⟩
  rw [hL.heard, List.nil_append]
  obtain hy | ⟨q', hq', hy⟩ := hpoised
  · exact .inr ⟨n, q, hn, hy, hq, htakes⟩
  · cases hq.symm.trans hq'
    rw [hy]
    exact .inl (Party.enter_takes htakes)

/-- A poised server can only start its next program, or wait. -/
theorem Party.Poised.cases_at {start : ν → Option (Prog (Sock β) ν)} {y : Party β ν} {n : ν}
    (h : y.Poised start n) (hlisten : ∀ q, start n = some q → q.Listens) :
    y = .between n ∨ ∃ q m k, start n = some q ∧ y = .enter q ∧ y = .receiving (m + 1) [] k := by
  obtain rfl | ⟨q, hq, rfl⟩ := h
  · exact .inl rfl
  · obtain ⟨m, k, hk⟩ := (hlisten q hq).enter
    exact .inr ⟨q, m, k, hq, rfl, hk⟩

/-- A step of a server that is down. -/
theorem Link.Down.turn (hsv : sv.Correct h Ready fails Dead) (hL : L.Down Dead)
    (ht : L.Turn sv.serve cap faulty L') : L'.Down Dead ∧ L'.toClient = L.toClient := by
  obtain ⟨hdeaf, hfrail⟩ := hL
  cases ht with
  | start hn hq =>
      rw [hn] at hfrail
      exact ⟨⟨hdeaf, Party.enter_frail (hsv.dead_serve _ _ hfrail hq)⟩, rfl⟩
  | move hup => exact absurd (hup.symm.trans hdeaf) nofun
  | fail _ _ => exact ⟨⟨rfl, hfrail.failed⟩, rfl⟩
  | drop _ hs =>
      rw [hs] at hfrail
      exact ⟨⟨hdeaf, show Party.Frail _ (L.server.turn _) by rw [hs]; exact hfrail.dropped⟩, rfl⟩

/-- A party that is to receive some bytes receives them, or is between two programs. -/
theorem Party.Takes.cases {x : Party β μ} {n : μ} (hx : x.Takes vs (.ret n)) :
    (vs = [] ∧ x = .between n) ∨ ∃ m got k, x = .receiving m got k ∧ vs ≠ [] := by
  obtain ⟨rfl, rfl⟩ | ⟨ws, got, k, vs', rfl, hws, rfl, _⟩ := hx
  · exact .inl ⟨rfl, rfl⟩
  · exact .inr ⟨_, _, _, rfl, fun hnil => hws (List.append_eq_nil_iff.mp hnil).1⟩

/-- A step of a server that is collecting a request. -/
theorem Link.Collects.turn (hsv : sv.Correct h Ready fails Dead)
    (hL : L.Collects sv h Ready Dead c p us) (ht : L.Turn sv.serve cap faulty L') :
    L'.Hears sv h Ready Dead c p us ∧ L'.toClient = L.toClient := by
  obtain ⟨hup, hbrittle, n, hcarries, htakes⟩ := hL
  cases ht with
  | @start m q hm hq =>
      refine ⟨.inr ⟨hup, Party.enter_brittle (hsv.breaks _ _ hq), n, hcarries, ?_⟩, rfl⟩
      obtain htakes | ⟨n₀, q', hn₀, hy, hq', htakes⟩ := htakes
      · obtain ⟨_, hy⟩ | ⟨_, _, _, hy, _⟩ := htakes.cases
        · cases hm.symm.trans hy
          rw [hcarries.waits] at hq
          cases hq
        · cases hm.symm.trans hy
      · cases hm.symm.trans hy
        cases hq.symm.trans hq'
        exact .inl (Party.enter_takes htakes)
  | @move l y out inc hdeaf hmove =>
      have hbrittle' : y.Brittle Dead := hmove.brittle hbrittle
      generalize hserver : L.server = z at hmove
      rw [hserver] at htakes
      cases hmove with
      | start hm => cases hm
      | send hpos hj hcap =>
          obtain htakes | ⟨_, _, _, hy, _⟩ := htakes
          · obtain ⟨_, hy⟩ | ⟨_, _, _, hy, _⟩ := htakes.cases <;> cases hy
          · cases hy
      | @recv m got k _ _ j hpos hj hinc =>
          refine ⟨.inr ⟨hup, hbrittle', n, hcarries, .inl ?_⟩, rfl⟩
          obtain htakes | ⟨_, _, _, hy, _⟩ := htakes
          · have hlen := List.length_take_of_le hinc
            rw [← List.take_append_drop j L.toServer, List.append_assoc] at htakes
            exact htakes.received (by omega) (by omega)
          · cases hy
      | interrupted =>
          refine ⟨.inr ⟨hup, hbrittle', n, hcarries, ?_⟩, rfl⟩
          rw [Party.turn_interrupted]
          exact htakes
  | fail _ hcalling => exact ⟨.inl ⟨rfl, hbrittle.failed hcalling⟩, rfl⟩
  | drop hdeaf hs => exact absurd (hup.symm.trans hdeaf) nofun

/-- A step of a server that is sending a reply. -/
theorem Link.Sends.turn (hsv : sv.Correct h Ready fails Dead) (hL : L.Sends sv Ready Dead vs)
    (ht : L.Turn sv.serve cap faulty L') :
    ∃ sent vs', vs = sent ++ vs' ∧ L'.toClient = L.toClient ++ sent ∧
      L'.Says sv Ready Dead vs' := by
  have hkept : ∀ {L' : Link β ν}, L'.toClient = L.toClient → L'.Says sv Ready Dead vs →
      ∃ sent vs', vs = sent ++ vs' ∧ L'.toClient = L.toClient ++ sent ∧ L'.Says sv Ready Dead vs' :=
    fun hclient hsaid => ⟨[], vs, rfl, by rw [hclient, List.append_nil], hsaid⟩
  obtain ⟨hup, hbrittle, hheard, hoffers⟩ := hL
  cases ht with
  | @start m q hm hq =>
      refine hkept rfl (.inr ⟨hup, Party.enter_brittle (hsv.breaks _ _ hq), hheard, ?_⟩)
      obtain ⟨n, hn, hreplies⟩ | ⟨n, hn, hoffers⟩ | ⟨rfl, n, hn, hpoised⟩ := hoffers
      · cases hm.symm.trans hn
        obtain ⟨q', n', hq', hoffers, hn'⟩ := hreplies.sends
        cases hq.symm.trans hq'
        exact .inr (.inl ⟨n', hn', Party.enter_offers hoffers⟩)
      · obtain ⟨rfl, hy⟩ | ⟨_, _, _, hy, _⟩ := hoffers
        · cases hm.symm.trans hy
          exact .inr (.inr ⟨rfl, m, hn, .inr ⟨q, hq, rfl⟩⟩)
        · cases hm.symm.trans hy
      · obtain hy | ⟨_, _, _, _, _, hy⟩ := hpoised.cases_at fun q hq => hsv.listens n q hn hq
        · cases hm.symm.trans hy
          exact .inr (.inr ⟨rfl, m, hn, .inr ⟨q, hq, rfl⟩⟩)
        · cases hm.symm.trans hy
  | @move l y out inc hdeaf hmove =>
      have hbrittle' : y.Brittle Dead := hmove.brittle hbrittle
      generalize hserver : L.server = z at hmove
      rw [hserver] at hoffers
      cases hmove with
      | start hm => cases hm
      | @send rest k _ _ j hpos hj hcap =>
          obtain ⟨_, hy, _⟩ | ⟨n, hn, hoffers⟩ | ⟨_, n, hn, hpoised⟩ := hoffers
          · cases hy
          · have hvs : vs ≠ [] := by
              rintro rfl
              cases hoffers.done
            obtain ⟨vs', rfl, hsent⟩ := hoffers.sent hvs hj
            exact ⟨_, vs', rfl, rfl, .inr ⟨hup, hbrittle', hheard, .inr (.inl ⟨n, hn, hsent⟩)⟩⟩
          · obtain hy | ⟨_, _, _, _, _, hy⟩ := hpoised.cases_at fun q hq => hsv.listens n q hn hq
            · cases hy
            · cases hy
      | @recv m got k _ _ j hpos hj hinc =>
          rw [hheard] at hinc
          exact absurd hinc (Nat.not_le.mpr hpos)
      | interrupted =>
          refine hkept rfl (.inr ⟨hup, hbrittle', hheard, ?_⟩)
          rw [Party.turn_interrupted]
          exact hoffers
  | fail _ hcalling => exact hkept rfl (.inl ⟨rfl, hbrittle.failed hcalling⟩)
  | drop hdeaf hs => exact absurd (hup.symm.trans hdeaf) nofun

/-- The same two facts with a server that may be down. -/
theorem Link.Hears.turn (hsv : sv.Correct h Ready fails Dead)
    (hL : L.Hears sv h Ready Dead c p us) (ht : L.Turn sv.serve cap faulty L') :
    L'.Hears sv h Ready Dead c p us ∧ L'.toClient = L.toClient := by
  obtain hdown | hL := hL
  · exact ⟨.inl (hdown.turn hsv ht).1, (hdown.turn hsv ht).2⟩
  · exact hL.turn hsv ht

theorem Link.Says.turn (hsv : sv.Correct h Ready fails Dead) (hL : L.Says sv Ready Dead vs)
    (ht : L.Turn sv.serve cap faulty L') :
    ∃ sent vs', vs = sent ++ vs' ∧ L'.toClient = L.toClient ++ sent ∧
      L'.Says sv Ready Dead vs' := by
  obtain hdown | hL := hL
  · exact ⟨[], vs, rfl, by rw [(hdown.turn hsv ht).2, List.append_nil], .inl (hdown.turn hsv ht).1⟩
  · exact hL.turn hsv ht

/-- A step of the server does not touch the client's end. -/
theorem Link.Turn.lost (ht : L.Turn sv.serve cap faulty L') : L'.lost = L.lost := by
  cases ht <;> rfl

/-- The server's end does not depend on what is on its way to the client. -/
theorem Link.Says.client_side (hL : L.Says sv Ready Dead vs) (inc : List β) (lost : Bool) :
    ({ L with toClient := inc, lost := lost } : Link β ν).Says sv Ready Dead vs := by
  obtain hdown | hL := hL
  · exact .inl hdown
  · exact .inr ⟨hL.up, hL.brittle, hL.heard, hL.offers⟩

theorem Link.Hears.client_side (hL : L.Hears sv h Ready Dead c p us) (inc : List β) (lost : Bool) :
    ({ L with toClient := inc, lost := lost } : Link β ν).Hears sv h Ready Dead c p us := by
  obtain hdown | hL := hL
  · exact .inl hdown
  · exact .inr ⟨hL.up, hL.brittle, hL.takes⟩

/-- Some of the bytes of a request are on their way. -/
theorem Link.Hears.sent {bs : List β} (hL : L.Hears sv h Ready Dead c p (bs ++ us)) :
    ({ L with toServer := L.toServer ++ bs } : Link β ν).Hears sv h Ready Dead c p us := by
  obtain hdown | ⟨hup, hbrittle, n, hcarries, htakes⟩ := hL
  · exact .inl hdown
  · rw [← List.append_assoc] at htakes
    exact .inr ⟨hup, hbrittle, n, hcarries, htakes⟩

variable {j : κ} {n n' : ν} {s s' : σ}

/-- An atomic section of a server that is down changes nothing. -/
theorem Link.Down.act (hsv : sv.Correct h Ready fails Dead) (hL : L.Down Dead)
    (hn : L.server = .between n) (ha : sv.act j n s n' s') :
    s' = s ∧ ({ L with server := .between n' } : Link β ν).Down Dead := by
  obtain ⟨hdeaf, hfrail⟩ := hL
  rw [hn] at hfrail
  obtain ⟨hs, hdead⟩ := hsv.dead_act _ _ _ _ _ hfrail ha
  exact ⟨hs, hdeaf, hdead⟩

/-- The atomic section of a server that has all of a request carries out the call. -/
theorem Link.Collects.act (hsv : sv.Correct h Ready fails Dead)
    (hL : L.Collects sv h Ready Dead c p us) (hn : L.server = .between n)
    (ha : sv.act (sv.via c) n s n' s') :
    s' = (h c s).2 ∧ us = [] ∧ ∃ vs, vs ≠ [] ∧ p.Takes vs (.ret (h c s).1) ∧
      ({ L with server := .between n' } : Link β ν).Says sv Ready Dead vs := by
  obtain ⟨hup, _, m, hcarries, htakes | ⟨n₀, _, hn₀, hy, _⟩⟩ := hL
  · obtain ⟨hnil, hy⟩ | ⟨_, _, _, hy, _⟩ := htakes.cases
    · cases hn.symm.trans hy
      obtain ⟨hheard, rfl⟩ := List.append_eq_nil_iff.mp hnil
      obtain ⟨hs, vs, hreplies, hvs⟩ := hcarries.acts _ _ _ ha
      exact ⟨hs, rfl, vs, hreplies.more, hvs, .inr ⟨hup, trivial, hheard, .inl ⟨n', rfl, hreplies⟩⟩⟩
    · cases hn.symm.trans hy
  · cases hn.symm.trans hy
    exact absurd ha (hsv.still _ hn₀ _ _ _ _)

/-- A server that is sending a reply has no atomic section. -/
theorem Link.Sends.act (hsv : sv.Correct h Ready fails Dead) (hL : L.Sends sv Ready Dead vs)
    (hn : L.server = .between n) : ¬ sv.act j n s n' s' := by
  obtain ⟨m, hy, hreplies⟩ | ⟨m, hm, hoffers⟩ | ⟨_, m, hm, hpoised⟩ := hL.offers
  · cases hn.symm.trans hy
    exact hreplies.still _ _ _ _
  · obtain ⟨_, hy⟩ | ⟨_, _, _, hy, _⟩ := hoffers
    · cases hn.symm.trans hy
      exact hsv.still _ hm _ _ _ _
    · cases hn.symm.trans hy
  · obtain hy | ⟨_, _, _, _, _, hy⟩ := hpoised.cases_at fun q hq => hsv.listens m q hm hq
    · cases hn.symm.trans hy
      exact hsv.still _ hm _ _ _ _
    · cases hn.symm.trans hy

end Server

/-! ## The client's end -/

/-- Where a client is that is at `x`, with the connection `L` to the server `on` in use, and what
travels: it has `p` left to do, and `F` is under way on its connections. -/
inductive Links.Seat (sv : Service ι κ β ν σ S) (h : Handler S σ)
    (fails : (c : S.Call) → S.Reply c) (Ready Dead : ν → Prop) (x : Party β (Prog S α)) (on : κ)
    (L : Link β ν) (p : Prog S α) (F : κ → Flight S) : Prop where
  /-- Between two calls. -/
  | rest : x = .between p → (∀ j, (F j).Quiet) → Seat sv h fails Ready Dead x on L p F
  /-- Sending a request, or waiting for the reply. -/
  | asking {n : Nat} {c : S.Call} {k : S.Reply c → Prog S α} {us : List β}
      {q : Prog (Sock β) (S.Reply c)} : p = .call c k → on = sv.via c → F on = .asked n c →
      (∀ j, j ≠ on → (F j).Quiet) → L.lost = false → L.toClient = [] →
      x.Brittle (· = k (fails c)) → x.Offers us (q.bind fun r => .ret (k r)) → q.Listens →
      L.Hears sv h Ready Dead c q us → Seat sv h fails Ready Dead x on L p F
  /-- Receiving the reply. -/
  | answering {n : Nat} {c : S.Call} {k : S.Reply c → Prog S α} {r : S.Reply c} {vs : List β} :
      p = .call c k → on = sv.via c → F on = .done n c r → (∀ j, j ≠ on → (F j).Quiet) →
      L.lost = false → x.Brittle (· = k (fails c)) → x.Takes (L.toClient ++ vs) (.ret (k r)) →
      L.toClient ++ vs ≠ [] → L.Says sv Ready Dead vs → Seat sv h fails Ready Dead x on L p F
  /-- At the first system call of a call, on a connection that has failed. -/
  | doomed {c : S.Call} {k : S.Reply c → Prog S α} : p = .call c k → on = sv.via c →
      (∀ j, (F j).Quiet) → L.lost = true → x.Brittle (· = k (fails c)) → x.Calling →
      Seat sv h fails Ready Dead x on L p F
  /-- After a failure. -/
  | failing : (∀ j, (F j).Quiet) → L.lost = true → x.Frail (· = p) →
      Seat sv h fails Ready Dead x on L p F

/-- The connection to the server `j` while its client makes no call on it. -/
def Link.AtRest (sv : Service ι κ β ν σ S) (h : Handler S σ) (Ready Dead : ν → Prop) (j : κ)
    (L : Link β ν) : Flight S → Prop
  | .idle => L.lost = false ∧ L.toClient = [] ∧ L.Says sv Ready Dead []
  | .late _ c => L.lost = true ∧ j = sv.via c ∧ ∃ q us, L.Hears sv h Ready Dead c q us
  | .gone => L.lost = true ∧ ∃ vs, L.Says sv Ready Dead vs
  | _ => True

section Client

variable {sv : Service ι κ β ν σ S} {h : Handler S σ} {fails : (c : S.Call) → S.Reply c}
  {Ready Dead : ν → Prop} {cap : Nat} {faulty : Prop} {L L' : Link β ν} {on j : κ}
  {x : Party β (Prog S α)} {p : Prog S α} {F : κ → Flight S} {f : Flight S}

/-- A step of the server leaves a connection at rest. -/
theorem Link.AtRest.turn (hsv : sv.Correct h Ready fails Dead)
    (hL : L.AtRest sv h Ready Dead j f) (ht : L.Turn sv.serve cap faulty L') :
    L'.AtRest sv h Ready Dead j f := by
  cases f with
  | idle =>
      obtain ⟨hlost, hclient, hsaid⟩ := hL
      obtain ⟨sent, vs, hnil, hclient', hsaid'⟩ := hsaid.turn hsv ht
      obtain ⟨rfl, rfl⟩ := List.append_eq_nil_iff.mp hnil.symm
      exact ⟨ht.lost.trans hlost, by rw [hclient', hclient, List.nil_append], hsaid'⟩
  | late n c =>
      obtain ⟨hlost, hj, q, us, hears⟩ := hL
      exact ⟨ht.lost.trans hlost, hj, q, us, (hears.turn hsv ht).1⟩
  | gone =>
      obtain ⟨hlost, vs, hsaid⟩ := hL
      obtain ⟨_, vs', _, _, hsaid'⟩ := hsaid.turn hsv ht
      exact ⟨ht.lost.trans hlost, vs', hsaid'⟩
  | asked n c => trivial
  | done n c r => trivial

/-- A step of the server leaves the client where it is. -/
theorem Links.Seat.turn (hsv : sv.Correct h Ready fails Dead)
    (hs : Links.Seat sv h fails Ready Dead x on L p F) (ht : L.Turn sv.serve cap faulty L') :
    Links.Seat sv h fails Ready Dead x on L' p F := by
  cases hs with
  | rest hx hquiet => exact .rest hx hquiet
  | asking hp hon hF hquiet hlost hclient hbrittle hoffers hlistens hears =>
      obtain ⟨hears', hclient'⟩ := hears.turn hsv ht
      exact .asking hp hon hF hquiet (ht.lost.trans hlost) (hclient'.trans hclient) hbrittle hoffers
        hlistens hears'
  | answering hp hon hF hquiet hlost hbrittle htakes hne hsaid =>
      obtain ⟨sent, vs', rfl, hclient', hsaid'⟩ := hsaid.turn hsv ht
      rw [← List.append_assoc, ← hclient'] at htakes hne
      exact .answering hp hon hF hquiet (ht.lost.trans hlost) hbrittle htakes hne hsaid'
  | doomed hp hon hquiet hlost hbrittle hcalling =>
      exact .doomed hp hon hquiet (ht.lost.trans hlost) hbrittle hcalling
  | failing hquiet hlost hfrail => exact .failing hquiet (ht.lost.trans hlost) hfrail

/-- A program that waits goes on waiting if something follows it. -/
theorem Prog.Listens.bind {α γ : Type} {q : Prog (Sock β) α} (hq : q.Listens)
    (g : α → Prog (Sock β) γ) : (q.bind g).Listens := by
  obtain ⟨n, k, rfl⟩ := hq
  exact ⟨n, fun bs => (k bs).bind g, rfl⟩

/-- A client that is sending its request, or waits for the reply. -/
theorem Party.Offers.asking {us : List β} {q : Prog (Sock β) (Prog S α)} (hx : x.Offers us q)
    (hq : q.Listens) : (us ≠ [] ∧ ∃ rest k, x = .sending rest k) ∨
      us = [] ∧ ∃ n k, x = .receiving (n + 1) [] k := by
  obtain ⟨rfl, rfl⟩ | ⟨rest, k, us', rfl, hrest, rfl, _⟩ := hx
  · exact .inr ⟨rfl, hq.enter⟩
  · exact .inl ⟨fun hnil => hrest (List.append_eq_nil_iff.mp hnil).1, rest, k, rfl⟩

/-- A client between two programs is between two calls. -/
theorem Links.Seat.between {m : Prog S α}
    (hs : Links.Seat sv h fails Ready Dead (.between m) on L p F) : p = m ∧ ∀ j, (F j).Quiet := by
  cases hs with
  | rest hx hquiet =>
      cases hx
      exact ⟨rfl, hquiet⟩
  | asking hp hon hF hquiet hlost hclient hbrittle hoffers hlistens hears =>
      obtain ⟨_, _, _, hx⟩ | ⟨_, _, _, hx⟩ := hoffers.asking (hlistens.bind _) <;> cases hx
  | answering hp hon hF hquiet hlost hbrittle htakes hne hsaid =>
      obtain ⟨_, _, _, hx, _⟩ := htakes.receiving hne
      cases hx
  | doomed hp hon hquiet hlost hbrittle hcalling => exact hcalling.elim
  | failing hquiet hlost hfrail => exact ⟨hfrail.symm, hquiet⟩

/-- A move of a client.  It receives the end of a reply, or is where it was. -/
theorem Links.Seat.move {l : Bool} {x' : Party β (Prog S α)} {out inc : List β}
    (hs : Links.Seat sv h fails Ready Dead x on L p F) (hup : L.lost = false)
    (hmove : Move (fun _ => none) cap l (x, L.toServer, L.toClient) (x', out, inc)) :
    (Links.Seat sv h fails Ready Dead x' on { L with toServer := out, toClient := inc } p F ∧
        (L.AtRest sv h Ready Dead on (F on) →
          ({ L with toServer := out, toClient := inc } : Link β ν).AtRest sv h Ready Dead on
            (F on))) ∨
      ∃ n c k r, p = .call c k ∧ on = sv.via c ∧ F on = .done n c r ∧ x' = .between (k r) ∧
        (∀ j, j ≠ on → (F j).Quiet) ∧
        ({ L with toServer := out, toClient := inc } : Link β ν).AtRest sv h Ready Dead on .idle := by
  cases hs with
  | rest hx hquiet =>
      subst hx
      cases hmove with
      | start hm => cases hm
      | interrupted => exact .inl ⟨.rest rfl hquiet, id⟩
  | @asking n c k us q hp hon hF hquiet hlost hclient hbrittle hoffers hlistens hears =>
      have hbrittle' := hmove.brittle hbrittle
      rw [hF]
      refine .inl ⟨?_, fun _ => trivial⟩
      obtain ⟨hus, rest, k', rfl⟩ | ⟨rfl, m, k', rfl⟩ := hoffers.asking (hlistens.bind _)
      · cases hmove with
        | @send _ _ _ _ i hpos hi hcap =>
            obtain ⟨us', rfl, hsent⟩ := hoffers.sent hus hi
            exact .asking hp hon hF hquiet hlost hclient hbrittle' hsent hlistens hears.sent
        | interrupted =>
            exact .asking hp hon hF hquiet hlost hclient hbrittle' hoffers hlistens hears
      · cases hmove with
        | recv hpos hi hinc =>
            rw [hclient] at hinc
            exact absurd hinc (Nat.not_le.mpr hpos)
        | interrupted =>
            exact .asking hp hon hF hquiet hlost hclient hbrittle' hoffers hlistens hears
  | @answering n c k r vs hp hon hF hquiet hlost hbrittle htakes hne hsaid =>
      have hbrittle' := hmove.brittle hbrittle
      obtain ⟨m, got, k', rfl, hm⟩ := htakes.receiving hne
      cases hmove with
      | @recv _ _ _ _ _ i hpos hi hinc =>
          have hlen := List.length_take_of_le hinc
          rw [← List.take_append_drop i L.toClient, List.append_assoc] at htakes
          have htakes' := htakes.received (by omega) (by omega)
          by_cases hnil : L.toClient.drop i ++ vs = []
          · obtain ⟨hdrop, rfl⟩ := List.append_eq_nil_iff.mp hnil
            rw [hnil] at htakes'
            exact .inr ⟨n, c, k, r, hp, hon, hF, htakes'.done, hquiet, hlost, hdrop,
              hsaid.client_side _ _⟩
          · rw [hF]
            exact .inl ⟨.answering hp hon hF hquiet hlost hbrittle' htakes' hnil
              (hsaid.client_side _ _), fun _ => trivial⟩
      | interrupted =>
          rw [hF]
          exact .inl ⟨.answering hp hon hF hquiet hlost hbrittle' htakes hne hsaid,
            fun _ => trivial⟩
  | doomed hp hon hquiet hlost hbrittle hcalling => exact absurd (hup.symm.trans hlost) nofun
  | failing hquiet hlost hfrail => exact absurd (hup.symm.trans hlost) nofun

/-- A client's end fails: its call fails, or has failed. -/
theorem Links.Seat.fail (hs : Links.Seat sv h fails Ready Dead x on L p F)
    (hL : L.AtRest sv h Ready Dead on (F on)) (hx : x.Calling) :
    (L.lost = true ∧ Links.Seat sv h fails Ready Dead (x.turn .failed) on L p F) ∨
      ∃ c k, p = .call c k ∧ on = sv.via c ∧ (∀ j, j ≠ on → (F j).Quiet) ∧ (F on).drop.Quiet ∧
        (x.turn .failed).Frail (· = k (fails c)) ∧
        ({ L with lost := true } : Link β ν).AtRest sv h Ready Dead on (F on).drop := by
  cases hs with
  | rest heq hquiet =>
      subst heq
      exact hx.elim
  | @asking n c k us q hp hon hF hquiet hlost hclient hbrittle hoffers hlistens hears =>
      refine .inr ⟨c, k, hp, hon, hquiet, ?_, hbrittle.failed hx, ?_⟩
      · rw [hF]
        trivial
      · rw [hF]
        exact ⟨rfl, hon, q, us, hears.client_side _ _⟩
  | @answering n c k r vs hp hon hF hquiet hlost hbrittle htakes hne hsaid =>
      refine .inr ⟨c, k, hp, hon, hquiet, ?_, hbrittle.failed hx, ?_⟩
      · rw [hF]
        trivial
      · rw [hF]
        exact ⟨rfl, vs, hsaid.client_side _ _⟩
  | @doomed c k hp hon hquiet hlost hbrittle _ =>
      have hsame : ({ L with lost := true } : Link β ν) = L := by rw [← hlost]
      refine .inr ⟨c, k, hp, hon, fun j _ => hquiet j, ?_, hbrittle.failed hx, ?_⟩
      · cases F on <;> trivial
      · rw [hsame]
        have hq := hquiet on
        cases hF : F on with
        | idle =>
            rw [hF] at hL
            exact absurd (hL.1.symm.trans hlost) nofun
        | late n c => rwa [hF] at hL
        | gone => rwa [hF] at hL
        | asked n c => rw [hF] at hq; exact hq.elim
        | done n c r => rw [hF] at hq; exact hq.elim
  | failing hquiet hlost hfrail => exact .inl ⟨hlost, .failing hquiet hlost hfrail.failed⟩

/-- An atomic section on a connection that its client does not use. -/
theorem Link.AtRest.act {n n' : ν} {s s' : σ} (hsv : sv.Correct h Ready fails Dead)
    (hL : L.AtRest sv h Ready Dead j f) (hf : f.Quiet) (hn : L.server = .between n)
    (ha : sv.act j n s n' s') :
    (s' = s ∧ ({ L with server := .between n' } : Link β ν).AtRest sv h Ready Dead j f) ∨
      ∃ m c, f = .late m c ∧ s' = (h c s).2 ∧
        ({ L with server := .between n' } : Link β ν).AtRest sv h Ready Dead j .gone := by
  have hsaid : ∀ {vs}, L.Says sv Ready Dead vs →
      s' = s ∧ ({ L with server := .between n' } : Link β ν).Down Dead := by
    rintro vs (hdown | hsends)
    · exact hdown.act hsv hn ha
    · exact absurd ha (hsends.act hsv hn)
  cases f with
  | idle =>
      obtain ⟨hlost, hclient, hidle⟩ := hL
      obtain ⟨hs, hdown⟩ := hsaid hidle
      exact .inl ⟨hs, hlost, hclient, .inl hdown⟩
  | gone =>
      obtain ⟨hlost, vs, hgone⟩ := hL
      obtain ⟨hs, hdown⟩ := hsaid hgone
      exact .inl ⟨hs, hlost, vs, .inl hdown⟩
  | late m c =>
      obtain ⟨hlost, rfl, q, us, hdown | hcollects⟩ := hL
      · obtain ⟨hs, hdown⟩ := hdown.act hsv hn ha
        exact .inl ⟨hs, hlost, rfl, q, us, .inl hdown⟩
      · obtain ⟨hs, _, vs, _, _, hsaid'⟩ := hcollects.act hsv hn ha
        exact .inr ⟨m, c, rfl, hs, hlost, vs, hsaid'⟩
  | asked m c => exact hf.elim
  | done m c r => exact hf.elim

/-- An atomic section on the connection of a call carries out the call. -/
theorem Links.Seat.act [DecidableEq κ] {n n' : ν} {s s' : σ} (hsv : sv.Correct h Ready fails Dead)
    (hs : Links.Seat sv h fails Ready Dead x on L p F) (hF : ¬ (F on).Quiet)
    (hn : L.server = .between n) (ha : sv.act on n s n' s') :
    (s' = s ∧ Links.Seat sv h fails Ready Dead x on { L with server := .between n' } p F) ∨
      ∃ m c, F on = .asked m c ∧ s' = (h c s).2 ∧
        Links.Seat sv h fails Ready Dead x on { L with server := .between n' } p
          (Function.update F on (.done m c (h c s).1)) := by
  cases hs with
  | rest hx hquiet => exact absurd (hquiet on) hF
  | @asking m c k us q hp hon hF' hquiet hlost hclient hbrittle hoffers hlistens hears =>
      subst hon
      obtain hdown | hcollects := hears
      · obtain ⟨hsame, hdown'⟩ := hdown.act hsv hn ha
        exact .inl ⟨hsame, .asking hp rfl hF' hquiet hlost hclient hbrittle hoffers hlistens
          (.inl hdown')⟩
      · obtain ⟨hs', rfl, vs, hvs, htakes, hsaid⟩ := hcollects.act hsv hn ha
        refine .inr ⟨m, c, hF', hs', .answering hp rfl (Function.update_self ..) (fun j hj => ?_)
          hlost hbrittle ?_ ?_ hsaid⟩
        · rw [Function.update_of_ne hj]
          exact hquiet j hj
        · rw [hoffers.done, hclient]
          exact Party.enter_takes htakes.bind
        · rwa [hclient]
  | @answering m c k r vs hp hon hF' hquiet hlost hbrittle htakes hne hsaid =>
      obtain hdown | hsends := hsaid
      · obtain ⟨hsame, hdown'⟩ := hdown.act hsv hn ha
        exact .inl ⟨hsame, .answering hp hon hF' hquiet hlost hbrittle htakes hne (.inl hdown')⟩
      · exact absurd ha (hsends.act hsv hn)
  | doomed hp hon hquiet hlost hbrittle hcalling => exact absurd (hquiet on) hF
  | failing hquiet hlost hfrail => exact absurd (hquiet on) hF

/-- Without a call under way only the state of the client's end matters. -/
theorem Links.Seat.of_quiet (hs : Links.Seat sv h fails Ready Dead x on L p F)
    (hF : (F on).Quiet) (hlost : L'.lost = L.lost) :
    Links.Seat sv h fails Ready Dead x on L' p F := by
  cases hs with
  | rest hx hquiet => exact .rest hx hquiet
  | asking hp hon hF' =>
      rw [hF'] at hF
      exact hF.elim
  | answering hp hon hF' =>
      rw [hF'] at hF
      exact hF.elim
  | doomed hp hon hquiet hl hbrittle hcalling =>
      exact .doomed hp hon hquiet (hlost.trans hl) hbrittle hcalling
  | failing hquiet hl hfrail => exact .failing hquiet (hlost.trans hl) hfrail

/-- Only the connection in use carries a call. -/
theorem Links.Seat.busy (hs : Links.Seat sv h fails Ready Dead x on L p F) (hj : ¬ (F j).Quiet) :
    j = on := by
  by_contra hne
  cases hs with
  | rest hx hquiet => exact hj (hquiet j)
  | asking _ _ _ hquiet => exact hj (hquiet j hne)
  | answering _ _ _ hquiet => exact hj (hquiet j hne)
  | doomed _ _ hquiet => exact hj (hquiet j)
  | failing hquiet => exact hj (hquiet j)

/-- What becomes of a call that nobody waits for does not matter. -/
theorem Links.Seat.settle [DecidableEq κ] (hs : Links.Seat sv h fails Ready Dead x on L p F)
    (hj : (F j).Quiet) (hf : f.Quiet) :
    Links.Seat sv h fails Ready Dead x on L p (Function.update F j f) := by
  have hquiet : ∀ j', (F j').Quiet → (Function.update F j f j').Quiet := by
    intro j' hj'
    by_cases heq : j' = j
    · rw [heq, Function.update_self]
      exact hf
    · rwa [Function.update_of_ne heq]
  have hbusy : ¬ (F on).Quiet → Function.update F j f on = F on := by
    intro hon
    refine Function.update_of_ne ?_ ..
    rintro rfl
    exact hon hj
  cases hs with
  | rest hx hall => exact .rest hx fun j' => hquiet j' (hall j')
  | asking hp hon hF hrest hlost hclient hbrittle hoffers hlistens hears =>
      have hsame := hbusy (by rw [hF]; exact id)
      exact .asking hp hon (hsame.trans hF) (fun j' hj' => hquiet j' (hrest j' hj')) hlost hclient
        hbrittle hoffers hlistens hears
  | answering hp hon hF hrest hlost hbrittle htakes hne hsaid =>
      have hsame := hbusy (by rw [hF]; exact id)
      exact .answering hp hon (hsame.trans hF) (fun j' hj' => hquiet j' (hrest j' hj')) hlost
        hbrittle htakes hne hsaid
  | doomed hp hon hall hlost hbrittle hcalling =>
      exact .doomed hp hon (fun j' => hquiet j' (hall j')) hlost hbrittle hcalling
  | failing hall hlost hfrail => exact .failing (fun j' => hquiet j' (hall j')) hlost hfrail

/-- The first step of a call. -/
theorem Links.Seat.ask (hsv : sv.Correct h Ready fails Dead) (i : ι) {c : S.Call}
    (k : S.Reply c → Prog S α) {F : κ → Flight S} (hF : ∀ j, (F j).Quiet) {L : Link β ν}
    (hL : L.AtRest sv h Ready Dead (sv.via c) (F (sv.via c))) :
    (F (sv.via c) = .idle ∧ ∀ m F', F' (sv.via c) = .asked m c →
        (∀ j, j ≠ sv.via c → F' j = F j) → Links.Seat sv h fails Ready Dead
          (.enter (sv.call i c k)) (sv.via c) L (.call c k) F') ∨
      Links.Seat sv h fails Ready Dead (.enter (sv.call i c k)) (sv.via c) L (.call c k) F := by
  obtain ⟨us, q, hoffers, hus, hlistens, hready⟩ := hsv.asks i c
  have hoffers' : (Party.enter (sv.call i c k)).Offers us (q.bind fun r => .ret (k r)) :=
    Party.enter_offers hoffers.bind
  have hbrittle : (Party.enter (sv.call i c k)).Brittle (· = k (fails c)) :=
    Party.enter_brittle ((hsv.gives_up i c).bind_ret k)
  have hcalling : (Party.enter (sv.call i c k)).Calling := by
    obtain ⟨_, _, hx, _⟩ := hoffers'.sending hus
    rw [hx]
    trivial
  have hdoomed : L.lost = true → Links.Seat sv h fails Ready Dead (.enter (sv.call i c k))
      (sv.via c) L (.call c k) F := fun hlost => .doomed rfl rfl hF hlost hbrittle hcalling
  have hquiet := hF (sv.via c)
  cases hvia : F (sv.via c) with
  | idle =>
      rw [hvia] at hL
      refine .inl ⟨rfl, fun m F' hm hrest => .asking rfl rfl hm (fun j hj => ?_) hL.1 hL.2.1
        hbrittle hoffers' hlistens (hL.2.2.hears hready)⟩
      rw [hrest j hj]
      exact hF j
  | late n c' =>
      rw [hvia] at hL
      exact .inr (hdoomed hL.1)
  | gone =>
      rw [hvia] at hL
      exact .inr (hdoomed hL.1)
  | asked n c' =>
      rw [hvia] at hquiet
      exact hquiet.elim
  | done n c' r =>
      rw [hvia] at hquiet
      exact hquiet.elim

end Client

/-! ## The system and the calls that travel -/

section System

variable [DecidableEq ι] [DecidableEq κ] {sv : Service ι κ β ν σ S} {h : Handler S σ}
  {fails : (c : S.Call) → S.Reply c} {Ready Dead : ν → Prop} {cap : Nat} {faulty : Prop}
  {env : σ → σ → Prop} {N N' : Links ι κ β ν S σ α} {R R' : Remote ι κ S σ α}

/-- The clients, connections and servers are where the calls that travel say. -/
structure Links.Inv (sv : Service ι κ β ν σ S) (h : Handler S σ) (fails : (c : S.Call) → S.Reply c)
    (Ready Dead : ν → Prop) (N : Links ι κ β ν S σ α) (R : Remote ι κ S σ α) : Prop where
  shared : R.shared = N.shared
  seat : ∀ i, Links.Seat sv h fails Ready Dead (N.client i) (N.on i) (N.link (i, N.on i))
    (R.prog i) fun j => R.flight (i, j)
  rest : ∀ i j, (N.link (i, j)).AtRest sv h Ready Dead j (R.flight (i, j))

omit [DecidableEq ι] [DecidableEq κ] in
/-- Only one client and its connections have changed. -/
theorem Links.Inv.local (hI : N.Inv sv h fails Ready Dead R) (i : ι)
    (hshared : R'.shared = N'.shared)
    (hother : ∀ i', i' ≠ i → N'.client i' = N.client i' ∧ N'.on i' = N.on i' ∧
      R'.prog i' = R.prog i' ∧ ∀ j, N'.link (i', j) = N.link (i', j) ∧
        R'.flight (i', j) = R.flight (i', j))
    (hseat : Links.Seat sv h fails Ready Dead (N'.client i) (N'.on i) (N'.link (i, N'.on i))
      (R'.prog i) fun j => R'.flight (i, j))
    (hrest : ∀ j, (N'.link (i, j)).AtRest sv h Ready Dead j (R'.flight (i, j))) :
    N'.Inv sv h fails Ready Dead R' := by
  refine ⟨hshared, fun i' => ?_, fun i' j => ?_⟩
  · by_cases hi : i' = i
    · subst hi
      exact hseat
    · obtain ⟨hclient, hon, hprog, hlinks⟩ := hother i' hi
      have hflight : (fun j => R'.flight (i', j)) = fun j => R.flight (i', j) :=
        funext fun j => (hlinks j).2
      rw [hclient, hon, hprog, hflight, (hlinks _).1]
      exact hI.seat i'
  · by_cases hi : i' = i
    · subst hi
      exact hrest j
    · obtain ⟨_, _, _, hlinks⟩ := hother i' hi
      rw [(hlinks j).1, (hlinks j).2]
      exact hI.rest i' j

/-- One step of the calls that travel, or none. -/
def Remote.Follows (h : Handler S σ) (env : σ → σ → Prop) (via : S.Call → κ)
    (fails : (c : S.Call) → S.Reply c) (faulty : Prop) (R R' : Remote ι κ S σ α) : Prop :=
  R' = R ∨ ∃ e, Remote.Step h env via fails faulty R e R'

/-- The values of an updated function in one row. -/
theorem update_row {δ : Type} (f : ι × κ → δ) (i : ι) (j : κ) (v : δ) :
    (fun j' => Function.update f (i, j) v (i, j')) = Function.update (fun j' => f (i, j')) j v := by
  funext j'
  by_cases hj : j' = j
  · subst hj
    rw [Function.update_self, Function.update_self]
  · rw [Function.update_of_ne hj, Function.update_of_ne fun heq => hj (Prod.mk.inj heq).2]

theorem update_other_row {δ : Type} (f : ι × κ → δ) {i i' : ι} (hi : i' ≠ i) (j j' : κ) (v : δ) :
    Function.update f (i, j) v (i', j') = f (i', j') :=
  Function.update_of_ne (fun heq => hi (Prod.mk.inj heq).1) ..

/-- A client begins a call. -/
theorem Links.Inv.ask (hsv : sv.Correct h Ready fails Dead) (hI : N.Inv sv h fails Ready Dead R)
    {i : ι} {c : S.Call} {k : S.Reply c → Prog S α} (hc : N.client i = .between (.call c k)) :
    ∃ R', R.Follows h env sv.via fails faulty R' ∧ Links.Inv sv h fails Ready Dead
      { N with
        client := Function.update N.client i (.enter (sv.call i c k))
        on := Function.update N.on i (sv.via c) } R' := by
  have hseat := hI.seat i
  rw [hc] at hseat
  obtain ⟨hp, hquiet⟩ := hseat.between
  have hfirst := Links.Seat.ask hsv i k hquiet (hI.rest i (sv.via c))
  have hon : ∀ i', i' ≠ i → Function.update N.on i (sv.via c) i' = N.on i' :=
    fun i' hi => Function.update_of_ne hi ..
  obtain ⟨hidle, hfirst⟩ | hfirst := hfirst
  · refine ⟨_, .inr ⟨_, .ask hp hidle⟩, hI.local i hI.shared (fun i' hi => ?_) ?_ fun j => ?_⟩
    · exact ⟨Function.update_of_ne hi .., hon i' hi, rfl, fun j => ⟨rfl, update_other_row _ hi ..⟩⟩
    · simp only [Function.update_self, update_row, hp]
      exact hfirst (R.made i) _ (Function.update_self ..) fun j hj => Function.update_of_ne hj ..
    · by_cases hj : j = sv.via c
      · subst hj
        simp only [Function.update_self]
        trivial
      · have hkeep : Function.update R.flight (i, sv.via c) (.asked (R.made i) c) (i, j) =
            R.flight (i, j) := Function.update_of_ne (fun heq => hj (Prod.mk.inj heq).2) ..
        simp only [hkeep]
        exact hI.rest i j
  · refine ⟨R, .inl rfl, hI.local i hI.shared (fun i' hi => ?_) ?_ fun j => hI.rest i j⟩
    · exact ⟨Function.update_of_ne hi .., hon i' hi, rfl, fun j => ⟨rfl, rfl⟩⟩
    · simp only [Function.update_self, hp]
      exact hfirst

/-- A client moves. -/
theorem Links.Inv.client (hI : N.Inv sv h fails Ready Dead R) {i : ι} {l : Bool}
    {x : Party β (Prog S α)} {out inc : List β} (hup : (N.link (i, N.on i)).lost = false)
    (hmove : Move (fun _ => none) cap l
      (N.client i, (N.link (i, N.on i)).toServer, (N.link (i, N.on i)).toClient) (x, out, inc)) :
    ∃ R', R.Follows h env sv.via fails faulty R' ∧ Links.Inv sv h fails Ready Dead
      { N with
        client := Function.update N.client i x
        link := Function.update N.link (i, N.on i)
          { N.link (i, N.on i) with toServer := out, toClient := inc } } R' := by
  obtain ⟨hseat, hrest⟩ | ⟨n, c, k, r, hp, hon, hF, rfl, hquiet, hidle⟩ :=
    (hI.seat i).move hup hmove
  · refine ⟨R, .inl rfl, hI.local i hI.shared (fun i' hi => ?_) ?_ fun j => ?_⟩
    · exact ⟨Function.update_of_ne hi .., rfl, rfl, fun j => ⟨update_other_row _ hi .., rfl⟩⟩
    · simp only [Function.update_self]
      exact hseat
    · by_cases hj : j = N.on i
      · subst hj
        simp only [Function.update_self]
        exact hrest (hI.rest i _)
      · simp only [Function.update_of_ne fun heq => hj (Prod.mk.inj heq).2]
        exact hI.rest i j
  · have hanswer : Remote.Step h env sv.via fails faulty R _ _ := .answer hp (hon ▸ hF)
    refine ⟨_, .inr ⟨_, hanswer⟩, hI.local i hI.shared (fun i' hi => ?_) ?_ fun j => ?_⟩
    · exact ⟨Function.update_of_ne hi .., rfl, Function.update_of_ne hi ..,
        fun j => ⟨update_other_row _ hi .., update_other_row _ hi ..⟩⟩
    · simp only [Function.update_self, update_row, ← hon]
      refine .rest rfl fun j => ?_
      by_cases hj : j = N.on i
      · rw [hj, Function.update_self]
        trivial
      · rw [Function.update_of_ne hj]
        exact hquiet j hj
    · simp only [← hon]
      by_cases hj : j = N.on i
      · subst hj
        simp only [Function.update_self]
        exact hidle
      · simp only [Function.update_of_ne fun heq => hj (Prod.mk.inj heq).2]
        exact hI.rest i j

/-- A client's end fails. -/
theorem Links.Inv.fail (hI : N.Inv sv h fails Ready Dead R) {i : ι} (hfaulty : faulty)
    (hx : (N.client i).Calling) :
    ∃ R', R.Follows h env sv.via fails faulty R' ∧ Links.Inv sv h fails Ready Dead
      { N with
        client := Function.update N.client i ((N.client i).turn .failed)
        link := Function.update N.link (i, N.on i) { N.link (i, N.on i) with lost := true } } R' := by
  obtain ⟨hlost, hseat⟩ | ⟨c, k, hp, hon, hquiet, hdrop, hfrail, hrest⟩ :=
    (hI.seat i).fail (hI.rest i _) hx
  · have hsame : ({ N.link (i, N.on i) with lost := true } : Link β ν) = N.link (i, N.on i) := by
      rw [← hlost]
    rw [hsame, Function.update_eq_self]
    refine ⟨R, .inl rfl, hI.local i hI.shared (fun i' hi => ?_) ?_ (hI.rest i)⟩
    · exact ⟨Function.update_of_ne hi .., rfl, rfl, fun j => ⟨rfl, rfl⟩⟩
    · simp only [Function.update_self]
      exact hseat
  · have hfail : Remote.Step h env sv.via fails faulty R _ _ := .fail hfaulty hp
    refine ⟨_, .inr ⟨_, hfail⟩, hI.local i hI.shared (fun i' hi => ?_) ?_ fun j => ?_⟩
    · exact ⟨Function.update_of_ne hi .., rfl, Function.update_of_ne hi ..,
        fun j => ⟨update_other_row _ hi .., update_other_row _ hi ..⟩⟩
    · simp only [Function.update_self, update_row, ← hon]
      refine .failing (fun j => ?_) rfl hfrail
      by_cases hj : j = N.on i
      · rw [hj, Function.update_self]
        exact hdrop
      · rw [Function.update_of_ne hj]
        exact hquiet j hj
    · simp only [← hon]
      by_cases hj : j = N.on i
      · subst hj
        simp only [Function.update_self]
        exact hrest
      · simp only [Function.update_of_ne fun heq => hj (Prod.mk.inj heq).2]
        exact hI.rest i j

/-- A server takes a step. -/
theorem Links.Inv.server (hsv : sv.Correct h Ready fails Dead)
    (hI : N.Inv sv h fails Ready Dead R) {i : ι} {j : κ} {L : Link β ν}
    (ht : (N.link (i, j)).Turn sv.serve cap faulty L) :
    Links.Inv sv h fails Ready Dead { N with link := Function.update N.link (i, j) L } R := by
  refine hI.local i hI.shared (fun i' hi => ⟨rfl, rfl, rfl, fun j' =>
    ⟨update_other_row _ hi .., rfl⟩⟩) ?_ fun j' => ?_
  · by_cases hj : N.on i = j
    · subst hj
      simp only [Function.update_self]
      exact (hI.seat i).turn hsv ht
    · simp only [Function.update_of_ne fun heq => hj (Prod.mk.inj heq).2]
      exact hI.seat i
  · by_cases hj : j' = j
    · subst hj
      simp only [Function.update_self]
      exact (hI.rest i _).turn hsv ht
    · simp only [Function.update_of_ne fun heq => hj (Prod.mk.inj heq).2]
      exact hI.rest i j'

/-- A server's atomic section. -/
theorem Links.Inv.act (hsv : sv.Correct h Ready fails Dead) (hI : N.Inv sv h fails Ready Dead R)
    {i : ι} {j : κ} {n n' : ν} {s : σ} (hn : (N.link (i, j)).server = .between n)
    (ha : sv.act j n N.shared n' s) :
    ∃ R', R.Follows h env sv.via fails faulty R' ∧ Links.Inv sv h fails Ready Dead
      { N with
        shared := s
        link := Function.update N.link (i, j) { N.link (i, j) with server := .between n' } } R' := by
  have hlink : ∀ F, (F j : Flight S).Quiet →
      Links.Seat sv h fails Ready Dead (N.client i) (N.on i) (N.link (i, N.on i)) (R.prog i) F →
      Links.Seat sv h fails Ready Dead (N.client i) (N.on i)
        (Function.update N.link (i, j) { N.link (i, j) with server := .between n' } (i, N.on i))
        (R.prog i) F := by
    intro F hF hs
    by_cases hj : N.on i = j
    · subst hj
      simp only [Function.update_self]
      exact hs.of_quiet hF rfl
    · rwa [Function.update_of_ne fun heq => hj (Prod.mk.inj heq).2]
  have hrow : ∀ (f : Flight S) j', j' ≠ j → Function.update R.flight (i, j) f (i, j') =
      R.flight (i, j') := fun f j' hj => Function.update_of_ne (fun heq => hj (Prod.mk.inj heq).2) ..
  have hlinks : ∀ (L : Link β ν) j', j' ≠ j → Function.update N.link (i, j) L (i, j') =
      N.link (i, j') := fun L j' hj => Function.update_of_ne (fun heq => hj (Prod.mk.inj heq).2) ..
  by_cases hF : (R.flight (i, j)).Quiet
  · obtain ⟨rfl, hrest⟩ | ⟨m, c, hlate, rfl, hrest⟩ := (hI.rest i j).act hsv hF hn ha
    · refine ⟨R, .inl rfl, hI.local i hI.shared (fun i' hi => ⟨rfl, rfl, rfl, fun j' =>
        ⟨update_other_row _ hi .., rfl⟩⟩) (hlink _ hF (hI.seat i)) fun j' => ?_⟩
      by_cases hj : j' = j
      · subst hj
        simp only [Function.update_self]
        exact hrest
      · simp only [hlinks _ j' hj]
        exact hI.rest i j'
    · have hstep : Remote.Step h env sv.via fails faulty R _ _ := .late hlate
      refine ⟨_, .inr ⟨_, hstep⟩, hI.local i (by rw [hI.shared]) (fun i' hi => ⟨rfl, rfl, rfl,
        fun j' => ⟨update_other_row _ hi .., update_other_row _ hi ..⟩⟩) ?_ fun j' => ?_⟩
      · simp only [update_row]
        refine hlink _ ?_ ((hI.seat i).settle hF trivial)
        rw [Function.update_self]
        trivial
      · by_cases hj : j' = j
        · subst hj
          simp only [Function.update_self]
          exact hrest
        · simp only [hlinks _ j' hj, hrow _ j' hj]
          exact hI.rest i j'
  · obtain rfl : j = N.on i := (hI.seat i).busy hF
    have hbusy : ∀ {L : Link β ν} {f : Flight S}, ¬ f.Quiet →
        L.AtRest sv h Ready Dead (N.on i) f := by
      intro L f hf
      cases f with
      | asked m c => trivial
      | done m c r => trivial
      | idle => exact absurd trivial hf
      | late m c => exact absurd trivial hf
      | gone => exact absurd trivial hf
    obtain ⟨rfl, hseat⟩ | ⟨m, c, hasked, rfl, hseat⟩ := (hI.seat i).act hsv hF hn ha
    · refine ⟨R, .inl rfl, hI.local i hI.shared (fun i' hi => ⟨rfl, rfl, rfl, fun j' =>
        ⟨update_other_row _ hi .., rfl⟩⟩) ?_ fun j' => ?_⟩
      · simp only [Function.update_self]
        exact hseat
      · by_cases hj : j' = N.on i
        · subst hj
          exact hbusy hF
        · simp only [hlinks _ j' hj]
          exact hI.rest i j'
    · have hstep : Remote.Step h env sv.via fails faulty R _ _ := .carry hasked
      refine ⟨_, .inr ⟨_, hstep⟩, hI.local i (by rw [hI.shared]) (fun i' hi => ⟨rfl, rfl, rfl,
        fun j' => ⟨update_other_row _ hi .., update_other_row _ hi ..⟩⟩) ?_ fun j' => ?_⟩
      · simp only [Function.update_self, update_row, hI.shared]
        exact hseat
      · by_cases hj : j' = N.on i
        · subst hj
          simp only [Function.update_self]
          trivial
        · simp only [hlinks _ j' hj, hrow _ j' hj]
          exact hI.rest i j'

/-- One step. -/
theorem Links.Inv.step (hsv : sv.Correct h Ready fails Dead) (hI : N.Inv sv h fails Ready Dead R)
    (hs : Links.Step sv cap env faulty N N') :
    ∃ R', R.Follows h env sv.via fails faulty R' ∧ N'.Inv sv h fails Ready Dead R' := by
  cases hs with
  | ask _ hc => exact hI.ask hsv hc
  | client _ hup hmove => exact hI.client hup hmove
  | fail _ hfaulty hx => exact hI.fail hfaulty hx
  | kill _ _ => exact ⟨R, .inl rfl, hI.shared, hI.seat, hI.rest⟩
  | server _ ht => exact ⟨R, .inl rfl, hI.server hsv ht⟩
  | crash _ _ => exact ⟨R, .inl rfl, hI.shared, hI.seat, hI.rest⟩
  | act _ hn ha => exact hI.act hsv hn ha
  | env he =>
      refine ⟨_, .inr ⟨_, .env (hI.shared ▸ he)⟩, rfl, hI.seat, hI.rest⟩

/-- Every run of the system is one of calls that travel. -/
theorem Links.Run.remote (hsv : sv.Correct h Ready fails Dead) {s : σ} {p : ι → Prog S α}
    {on : ι → κ} {ready : ι × κ → ν} (hready : ∀ q, Ready (ready q))
    (hr : Links.Run sv cap env faulty (.init s p on ready) N) :
    ∃ tr R, Remote.Run h env sv.via fails faulty (.init s p) tr R ∧
      N.Inv sv h fails Ready Dead R := by
  induction hr with
  | refl =>
      refine ⟨[], _, .nil, rfl, fun i => .rest rfl fun _ => trivial, fun i j => ⟨rfl, rfl, .inr ?_⟩⟩
      exact ⟨rfl, trivial, rfl, .inr (.inr ⟨rfl, _, hready (i, j), .inl rfl⟩)⟩
  | tail _ hs ih =>
      obtain ⟨tr, R, hrun, hI⟩ := ih
      obtain ⟨R', rfl | ⟨e, hstep⟩, hI'⟩ := hI.step hsv hs
      · exact ⟨tr, R', hrun, hI'⟩
      · exact ⟨e :: tr, R', .step hrun hstep, hI'⟩

omit [DecidableEq ι] [DecidableEq κ] in
/-- A client between two programs has as much left to do as its calls say. -/
theorem Links.Inv.between (hI : N.Inv sv h fails Ready Dead R) {i : ι} {m : Prog S α}
    (hi : N.client i = .between m) : R.prog i = m ∧ ∀ j, (R.flight (i, j)).Quiet := by
  have hseat := hI.seat i
  rw [hi] at hseat
  exact hseat.between

/-! ## Connections that do not fail -/

/-- Between two calls, on a connection that has not failed. -/
def Link.Rested (sv : Service ι κ β ν σ S) (Ready : ν → Prop) (L : Link β ν) : Prop :=
  ∃ n y, Ready n ∧ y.Poised sv.serve n ∧ L = ⟨y, [], [], false, false⟩

/-- Neither end of a connection has failed. -/
def Link.Up (L : Link β ν) : Prop := L.lost = false ∧ L.deaf = false

/-- Without faults no end fails. -/
theorem Links.Step.up (hN : ∀ p, (N.link p).Up) (hs : Links.Step sv cap env False N N') :
    ∀ p, (N'.link p).Up := by
  have hupdate : ∀ (q : ι × κ) {L : Link β ν}, L.Up → ∀ p, (Function.update N.link q L p).Up := by
    intro q L hL p
    by_cases hp : p = q
    · rw [hp, Function.update_self]
      exact hL
    · rw [Function.update_of_ne hp]
      exact hN p
  cases hs with
  | ask _ hc => exact hN
  | client _ hup hmove => exact hupdate _ (hN _)
  | fail _ hfaulty => exact hfaulty.elim
  | kill hfaulty => exact hfaulty.elim
  | @server p L _ ht =>
      refine hupdate _ ?_
      cases ht with
      | start hn hq => exact hN p
      | move hup hmove => exact hN p
      | fail hfaulty => exact hfaulty.elim
      | drop hdeaf hs => exact absurd ((hN p).2.symm.trans hdeaf) nofun
  | crash hfaulty => exact hfaulty.elim
  | act _ hn ha => exact hupdate _ (hN _)
  | env he => exact hN

theorem Links.Run.up {s : σ} {p : ι → Prog S α} {on : ι → κ} {ready : ι × κ → ν}
    (hr : Links.Run sv cap env False (.init s p on ready) N) : ∀ q, (N.link q).Up := by
  induction hr with
  | refl => exact fun _ => ⟨rfl, rfl⟩
  | tail _ hs ih => exact hs.up ih

/-- Without faults the programs run as in a pool: between two calls of a client nothing is on its
way on its connections, and what it has left to do is what it has left in the pool. -/
theorem Links.Run.pool (hsv : sv.Correct h Ready fails Dead) {s : σ} {p : ι → Prog S α}
    {on : ι → κ} {ready : ι × κ → ν} (hready : ∀ q, Ready (ready q))
    (hr : Links.Run sv cap env False (.init s p on ready) N) :
    ∃ tr q, Calls.Run h env (fun _ _ => True) ⟨s, p⟩ tr ⟨N.shared, q⟩ ∧
      ∀ i m, N.client i = .between m → q i = m ∧ ∀ j, (N.link (i, j)).Rested sv Ready := by
  obtain ⟨tr, R, hrun, hI⟩ := hr.remote hsv hready
  obtain ⟨tr', q, hpool, hstage⟩ := hrun.pool
  rw [hI.shared] at hpool
  refine ⟨tr', q, hpool, fun i m hi => ?_⟩
  obtain ⟨hprog, hquiet⟩ := hI.between hi
  have hidle : ∀ j, R.flight (i, j) = .idle := by
    intro j
    have hrest := hI.rest i j
    have hup := (hr.up (i, j)).1
    have hq := hquiet j
    cases hF : R.flight (i, j) with
    | idle => rfl
    | late n c =>
        rw [hF] at hrest
        exact absurd (hup.symm.trans hrest.1) nofun
    | gone =>
        rw [hF] at hrest
        exact absurd (hup.symm.trans hrest.1) nofun
    | asked n c =>
        rw [hF] at hq
        exact hq.elim
    | done n c r =>
        rw [hF] at hq
        exact hq.elim
  refine ⟨((hstage i).of_all_idle hidle).trans hprog, fun j => ?_⟩
  have hrest := hI.rest i j
  rw [hidle j] at hrest
  obtain ⟨_, hclient, hdown | hsends⟩ := hrest
  · exact absurd ((hr.up (i, j)).2.symm.trans hdown.1) nofun
  · obtain ⟨n, hn, hpoised⟩ := hsends.poised
    exact ⟨n, _, hn, hpoised, Link.ext rfl hsends.heard hclient (hr.up (i, j)).1 hsends.up⟩

/-! ## A client by itself -/

/-- The process of a client and those of all servers are there. -/
structure Links.Alive (N : Links ι κ β ν S σ α) (i : ι) : Prop where
  client : N.killed i = false
  servers : ∀ j, N.crashed j = false

/-- Without faults no process ends. -/
theorem Links.Run.alive {s : σ} {p : ι → Prog S α} {on : ι → κ} {ready : ι × κ → ν}
    (hr : Links.Run sv cap env False (.init s p on ready) N) (i : ι) : N.Alive i := by
  induction hr with
  | refl => exact ⟨rfl, fun _ => rfl⟩
  | tail _ hs ih =>
      cases hs with
      | ask _ _ => exact ⟨ih.client, ih.servers⟩
      | client _ _ _ => exact ⟨ih.client, ih.servers⟩
      | fail _ hfaulty => exact hfaulty.elim
      | kill hfaulty => exact hfaulty.elim
      | server _ _ => exact ⟨ih.client, ih.servers⟩
      | crash hfaulty => exact hfaulty.elim
      | act _ _ _ => exact ⟨ih.client, ih.servers⟩
      | env _ => exact ⟨ih.client, ih.servers⟩

/-- A client between two programs, nothing on its way on its connections, and all processes
there. -/
structure Links.Paused (sv : Service ι κ β ν σ S) (Ready : ν → Prop) (i : ι) (m : Prog S α)
    (N : Links ι κ β ν S σ α) : Prop where
  client : N.client i = .between m
  rested : ∀ j, (N.link (i, j)).Rested sv Ready
  alive : N.Alive i

/-- The other clients and their connections are as they were. -/
def Links.Spares (i : ι) (N N' : Links ι κ β ν S σ α) : Prop :=
  ∀ i', i' ≠ i → N'.client i' = N.client i' ∧ ∀ j, N'.link (i', j) = N.link (i', j)

omit [DecidableEq ι] [DecidableEq κ] in
theorem Links.Spares.trans {i : ι} {N₁ N₂ N₃ : Links ι κ β ν S σ α} (h₁ : Links.Spares i N₁ N₂)
    (h₂ : Links.Spares i N₂ N₃) : Links.Spares i N₁ N₃ := by
  intro i' hi'
  exact ⟨((h₂ i' hi').1).trans (h₁ i' hi').1, fun j => ((h₂ i' hi').2 j).trans ((h₁ i' hi').2 j)⟩

/-- What the system does with some of the atomic sections and left to itself. -/
theorem Links.Step.of_only {ok : κ → ν → Prop}
    (hs : Links.Step (sv.only ok) cap (fun _ _ => False) False N N') :
    Links.Step sv cap env faulty N N' := by
  cases hs with
  | ask hlive hc => exact .ask hlive hc
  | client hlive hup hmove => exact .client hlive hup hmove
  | fail _ hfaulty => exact hfaulty.elim
  | kill hfaulty => exact hfaulty.elim
  | server hlive ht =>
      refine .server hlive ?_
      cases ht with
      | start hn hq => exact .start hn hq
      | move hup hmove => exact .move hup hmove
      | fail hfaulty => exact hfaulty.elim
      | drop hdeaf hs => exact .drop hdeaf hs
  | crash hfaulty => exact hfaulty.elim
  | act hlive hn ha => exact .act hlive hn ha.2
  | env he => exact he.elim

/-- A server waits until it may take its atomic section. -/
theorem Links.Step.waits {ok : κ → ν → Prop} {i : ι} {j : κ} {n : ν}
    (hn : (N.link (i, j)).server = .between n) (hserve : sv.serve n = none) (hok : ¬ ok j n)
    (hs : Links.Step (sv.only ok) cap (fun _ _ => False) False N N') :
    (N'.link (i, j)).server = .between n := by
  have hupdate : ∀ (q : ι × κ) (L : Link β ν),
      (q = (i, j) → L.server = .between n) →
      (Function.update N.link q L (i, j)).server = .between n := by
    intro q L hL
    by_cases hq : q = (i, j)
    · rw [hq, Function.update_self]
      exact hL hq
    · rw [Function.update_of_ne fun he => hq he.symm]
      exact hn
  cases hs with
  | ask _ hc => exact hn
  | client _ hup hmove =>
      refine hupdate _ _ fun hq => ?_
      rw [hq]
      exact hn
  | fail _ hfaulty => exact hfaulty.elim
  | kill hfaulty => exact hfaulty.elim
  | @server q L _ ht =>
      refine hupdate _ _ fun hq => ?_
      subst hq
      cases ht with
      | start hm hq =>
          cases hn.symm.trans hm
          rw [show (sv.only ok).serve n = none from hserve] at hq
          cases hq
      | move hup hmove =>
          rw [hn] at hmove
          cases hmove with
          | start hm => cases hm
          | interrupted => rfl
      | fail hfaulty => exact hfaulty.elim
      | drop hdeaf hs => cases hn.symm.trans hs
  | crash hfaulty => exact hfaulty.elim
  | @act i' j' m n' s _ hm ha =>
      refine hupdate _ _ fun hq => ?_
      obtain ⟨rfl, rfl⟩ := Prod.mk.inj hq
      cases hn.symm.trans hm
      exact absurd ha.1 hok
  | env he => exact he.elim

/-- Another state of a client and of the connection it uses. -/
def Links.put (N : Links ι κ β ν S σ α) (i : ι) (x : Party β (Prog S α)) (L : Link β ν) :
    Links ι κ β ν S σ α :=
  { N with
    client := Function.update N.client i x
    link := Function.update N.link (i, N.on i) L }

/-- The client `i` uses the connection to `j` from now on. -/
def Links.using (N : Links ι κ β ν S σ α) (i : ι) (j : κ) : Links ι κ β ν S σ α :=
  { N with on := Function.update N.on i j }

/-- Another shared state. -/
def Links.sharing (N : Links ι κ β ν S σ α) (s : σ) : Links ι κ β ν S σ α := { N with shared := s }

theorem Links.put_put (N : Links ι κ β ν S σ α) (i : ι) (x x' : Party β (Prog S α))
    (L L' : Link β ν) : (N.put i x L).put i x' L' = N.put i x' L' := by
  simp only [Links.put, Function.update_idem]

omit [DecidableEq κ] in
@[simp] theorem Links.using_on (N : Links ι κ β ν S σ α) (i : ι) (j : κ) : (N.using i j).on i = j :=
  Function.update_self ..

@[simp] theorem Links.put_client (N : Links ι κ β ν S σ α) (i : ι) (x : Party β (Prog S α))
    (L : Link β ν) : (N.put i x L).client i = x := Function.update_self ..

@[simp] theorem Links.put_link (N : Links ι κ β ν S σ α) (i : ι) (x : Party β (Prog S α))
    (L : Link β ν) : (N.put i x L).link (i, N.on i) = L := Function.update_self ..

section Put

variable {i : ι} {x x' : Party β (Prog S α)} {L L' : Link β ν}

theorem Links.Step.put_client {l : Bool} {out inc : List β} (hlive : N.Alive i)
    (hup : L.lost = false)
    (hmove : Move (fun _ => none) cap l (x, L.toServer, L.toClient) (x', out, inc)) :
    Links.Step sv cap env faulty (N.put i x L)
      (N.put i x' { L with toServer := out, toClient := inc }) := by
  have hlink : (N.put i x L).link (i, (N.put i x L).on i) = L := Function.update_self ..
  have hclient : (N.put i x L).client i = x := Function.update_self ..
  have hstep : Links.Step sv cap env faulty (N.put i x L) _ :=
    .client hlive.client (by rw [hlink]; exact hup) (by rw [hlink, hclient]; exact hmove)
  rw [hlink] at hstep
  rw [← N.put_put i x x' L]
  exact hstep

theorem Links.Step.put_server (hlive : N.Alive i) (ht : L.Turn sv.serve cap faulty L') :
    Links.Step sv cap env faulty (N.put i x L) (N.put i x L') := by
  have hlink : (N.put i x L).link (i, N.on i) = L := Function.update_self ..
  have hstep : Links.Step sv cap env faulty (N.put i x L) _ :=
    .server (hlive.servers _) (by rw [hlink]; exact ht)
  simpa only [Links.put, Function.update_idem] using hstep

/-- An atomic section on the connection that a client uses. -/
theorem Links.put_acted (N : Links ι κ β ν S σ α) (i : ι) (x : Party β (Prog S α)) (L : Link β ν)
    (n' : ν) (s : σ) :
    (N.put i x L).acted i (N.on i) n' s =
      (N.sharing s).put i x { L with server := .between n' } := by
  simp only [Links.acted, Links.put, Links.sharing, Function.update_self, Function.update_idem]

theorem Links.Step.put_act {n n' : ν} {s : σ} (hlive : N.Alive i) (hn : L.server = .between n)
    (ha : sv.act (N.on i) n N.shared n' s) :
    Links.Step sv cap env faulty (N.put i x L)
      ((N.sharing s).put i x { L with server := .between n' }) := by
  rw [← Links.put_acted]
  exact .act (hlive.servers _) (by rw [Links.put_link]; exact hn) ha

variable {us vs : List β} {n : ν}

/-- A client sends a request, byte by byte, and the server collects it. -/
theorem Links.Run.request (hcap : 0 < cap) (hlive : N.Alive i) {q : Prog (Sock β) (Prog S α)}
    {q' : Prog (Sock β) ν} {y : Party β ν} (hx : x.Offers us q) (hy : y.Takes us q') :
    Links.Run sv cap env faulty (N.put i x ⟨y, [], [], false, false⟩)
      (N.put i (.enter q) ⟨.enter q', [], [], false, false⟩) := by
  induction hlen : us.length generalizing us x y with
  | zero =>
      obtain rfl := List.eq_nil_of_length_eq_zero hlen
      rw [hx.done, hy.done]
      exact .refl
  | succ m ih =>
      have hus : us ≠ [] := List.ne_nil_of_length_pos (by omega)
      obtain ⟨rest, k, rfl, hrest⟩ := hx.sending hus
      obtain ⟨m', got, k', rfl, hm'⟩ := hy.receiving hus
      obtain ⟨us', rfl, hsent⟩ := hx.sent hus hrest
      have hone := List.length_take_of_le hrest
      have hsend : Links.Step sv cap env faulty
          (N.put i (.sending rest k) ⟨.receiving m' got k', [], [], false, false⟩)
          (N.put i ((Party.sending rest k).turn (.moved (rest.take 1)))
            ⟨.receiving m' got k', rest.take 1, [], false, false⟩) :=
        .put_client hlive rfl (.send Nat.one_pos hrest (show 0 + 1 ≤ cap by omega))
      have hrecv : Links.Step sv cap env faulty
          (N.put i ((Party.sending rest k).turn (.moved (rest.take 1)))
            ⟨.receiving m' got k', rest.take 1, [], false, false⟩) _ :=
        .put_server hlive (.move rfl (.recv Nat.one_pos hm' (Nat.le_of_eq hone.symm)))
      have htake : (rest.take 1).take 1 = rest.take 1 := by rw [List.take_take, Nat.min_self]
      have hdrop : (rest.take 1).drop 1 = [] := by rw [List.drop_take]; rfl
      simp only [htake, hdrop] at hrecv
      have hreceived := hy.received (by omega) (by omega)
      refine .head hsend (.head hrecv (ih hsent hreceived ?_))
      rw [List.length_append] at hlen
      omega

/-- A server sends a reply, byte by byte, and the client receives it. -/
theorem Links.Run.reply (hcap : 0 < cap) (hlive : N.Alive i) {q : Prog (Sock β) (Prog S α)}
    {q' : Prog (Sock β) ν} {y : Party β ν} (hx : x.Takes vs q) (hy : y.Offers vs q') :
    Links.Run sv cap env faulty (N.put i x ⟨y, [], [], false, false⟩)
      (N.put i (.enter q) ⟨.enter q', [], [], false, false⟩) := by
  induction hlen : vs.length generalizing vs x y with
  | zero =>
      obtain rfl := List.eq_nil_of_length_eq_zero hlen
      rw [hx.done, hy.done]
      exact .refl
  | succ m ih =>
      have hvs : vs ≠ [] := List.ne_nil_of_length_pos (by omega)
      obtain ⟨rest, k, rfl, hrest⟩ := hy.sending hvs
      obtain ⟨m', got, k', rfl, hm'⟩ := hx.receiving hvs
      obtain ⟨vs', rfl, hsent⟩ := hy.sent hvs hrest
      have hone := List.length_take_of_le hrest
      have hsend : Links.Step sv cap env faulty
          (N.put i (.receiving m' got k') ⟨.sending rest k, [], [], false, false⟩)
          (N.put i (.receiving m' got k') ⟨(Party.sending rest k).turn (.moved (rest.take 1)), [],
            rest.take 1, false, false⟩) :=
        .put_server hlive (.move rfl (.send Nat.one_pos hrest (show 0 + 1 ≤ cap by omega)))
      have hrecv : Links.Step sv cap env faulty
          (N.put i (.receiving m' got k') ⟨(Party.sending rest k).turn (.moved (rest.take 1)), [],
            rest.take 1, false, false⟩) _ :=
        .put_client hlive rfl (.recv Nat.one_pos hm' (Nat.le_of_eq hone.symm))
      have htake : (rest.take 1).take 1 = rest.take 1 := by rw [List.take_take, Nat.min_self]
      have hdrop : (rest.take 1).drop 1 = [] := by rw [List.drop_take]; rfl
      simp only [htake, hdrop] at hrecv
      have hreceived := hx.received (by omega) (by omega)
      refine .head hsend (.head hrecv (ih hreceived hsent ?_))
      rw [List.length_append] at hlen
      omega

variable {c : S.Call} {k : S.Reply c → Prog S α} {p : Prog (Sock β) (S.Reply c)}

/-- A call on a connection that is at rest, up to its atomic section: the request is sent, and the
server collects it. -/
theorem Links.Run.collect (hcap : 0 < cap) (hlive : N.Alive i) {q : Prog (Sock β) ν} {n n₁ : ν}
    {y : Party β ν} (hc : N.client i = .between (.call c k))
    (hlink : N.link (i, sv.via c) = ⟨y, [], [], false, false⟩) (hpoised : y.Poised sv.serve n)
    (hoffers : (sv.ask i c).Offers us p) (hq : sv.serve n = some q) (htakes : q.Takes us (.ret n₁)) :
    Links.Run sv cap env faulty N
      ((N.using i (sv.via c)).put i (.enter (p.bind fun r => .ret (k r)))
        ⟨.between n₁, [], [], false, false⟩) := by
  have hlive' : (N.using i (sv.via c)).Alive i := ⟨hlive.client, hlive.servers⟩
  have hask : Links.Step sv cap env faulty N
      ((N.using i (sv.via c)).put i (.enter (sv.call i c k)) ⟨y, [], [], false, false⟩) := by
    have hstep : Links.Step sv cap env faulty N _ := .ask hlive.client hc
    rw [Links.put, Links.using_on, ← hlink, Links.using, Function.update_eq_self]
    exact hstep
  have hstart : Links.Run sv cap env faulty
      ((N.using i (sv.via c)).put i (.enter (sv.call i c k)) ⟨y, [], [], false, false⟩)
      ((N.using i (sv.via c)).put i (.enter (sv.call i c k)) ⟨.enter q, [], [], false, false⟩) := by
    obtain rfl | ⟨q', hq', rfl⟩ := hpoised
    · exact .single (.put_server hlive' (.start rfl hq))
    · cases hq.symm.trans hq'
      exact .refl
  exact (hstart.head hask).trans
    (Links.Run.request hcap hlive' (Party.enter_offers hoffers.bind) (Party.enter_takes htakes))

/-- The rest of a call: the reply is sent, and the client receives it. -/
theorem Links.Run.answer (hcap : 0 < cap) (hlive : N.Alive i) {r : S.Reply c} {q : Prog (Sock β) ν}
    {n n₁ : ν} (hq : sv.serve n = some q) (hoffers : q.Offers vs (.ret n₁))
    (htakes : p.Takes vs (.ret r)) :
    Links.Run sv cap env faulty
      (N.put i (.enter (p.bind fun r => .ret (k r))) ⟨.between n, [], [], false, false⟩)
      (N.put i (.between (k r)) ⟨.between n₁, [], [], false, false⟩) := by
  have hstart : Links.Step sv cap env faulty
      (N.put i (.enter (p.bind fun r => .ret (k r))) ⟨.between n, [], [], false, false⟩)
      (N.put i (.enter (p.bind fun r => .ret (k r))) ⟨.enter q, [], [], false, false⟩) :=
    .put_server hlive (.start rfl hq)
  have hreply : Links.Run sv cap env faulty
      (N.put i (.enter (p.bind fun r => .ret (k r))) ⟨.enter q, [], [], false, false⟩)
      (N.put i (.between (k r)) ⟨.between n₁, [], [], false, false⟩) :=
    Links.Run.reply hcap hlive (Party.enter_takes htakes.bind) (Party.enter_offers hoffers)
  exact hreply.head hstart

/-- The connections of a client after a call. -/
theorem Links.put_rested {n : ν} (hn : Ready n)
    (hrested : ∀ j, j ≠ N.on i → (N.link (i, j)).Rested sv Ready) (j : κ) :
    ((N.put i x ⟨.between n, [], [], false, false⟩).link (i, j)).Rested sv Ready := by
  by_cases hj : j = N.on i
  · subst hj
    rw [Links.put_link]
    exact ⟨n, .between n, hn, .inl rfl, rfl⟩
  · have hkept : (N.put i x ⟨.between n, [], [], false, false⟩).link (i, j) = N.link (i, j) :=
      Function.update_of_ne (fun heq => hj (Prod.mk.inj heq).2) ..
    rw [hkept]
    exact hrested j hj

/-- The other clients. -/
theorem Links.put_other {i' : ι} (hi : i' ≠ i) :
    (N.put i x L).client i' = N.client i' ∧ ∀ j, (N.put i x L).link (i', j) = N.link (i', j) :=
  ⟨Function.update_of_ne hi .., fun _ => update_other_row _ hi ..⟩

end Put

end System

end Calls
