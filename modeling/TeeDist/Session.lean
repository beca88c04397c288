import TeeDist.Lib.Streams
import TeeDist.Server

/-!
# Sessions over TCP

`transport_tcp.c`: the calls of a compute node on a session, and the loop of a memory node
that serves it, as programs over a pair of byte streams (`Lib.Streams`).  The loops of
`td_send_all` and `td_recv_all` are those of `Party.turn`.

A session call does what the section on the region does when it is called directly:
`tcp_refines_direct`, for every sequence of calls and however the streams cut the bytes.
-/

namespace TeeDist

open Bytes Calls

/-- `td_send_all`: whether it succeeded. -/
def sendAll (bs : List UInt8) : Prog (Sock UInt8) Bool := .call (.sendAll bs) .ret

/-- `td_recv_all`. -/
def recvAll (n : Nat) : Prog (Sock UInt8) (Option (List UInt8)) := .call (.recvAll n) .ret

/-! ## The compute node -/

/-- `td_session_t`, as far as the calls read it. -/
structure TcpSession where
  /-- `transport_profile != NULL`. -/
  profiling : Bool
  /-- `endpoint.node_id`. -/
  nodeId : Int

/-- The end of `td_tcp_exchange`: the bytes after the response, if the caller has a buffer for
them. -/
def tcpReplyData (wanted : Bool) (response : WireMsg) :
    Prog (Sock UInt8) (Option (WireMsg × List UInt8)) := do
  if wanted && 0 < response.length.toNat then
    match ← recvAll response.length.toNat with
    | none => return none
    | some data => return some (response, data)
  else return some (response, [])

/-- The second half of `td_tcp_exchange`: the response and what follows it. -/
def tcpReply (wanted : Bool) : Prog (Sock UInt8) (Option (WireMsg × List UInt8)) := do
  match ← recvAll wireBytes with
  | none => return none
  | some bs => tcpReplyData wanted (WireMsg.ofBytes bs)

/-- `td_tcp_exchange`. -/
def tcpExchange (request : WireMsg) (payload : Option (List UInt8)) (wanted : Bool) :
    Prog (Sock UInt8) (Option (WireMsg × List UInt8)) := do
  if ← sendAll request.toBytes then
    match payload with
    | none => tcpReply wanted
    | some bs =>
        if 0 < request.length.toNat then
          if ← sendAll bs then tcpReply wanted else return none
        else tcpReply wanted
  else return none

/-- The fields all requests set. -/
def TcpSession.request (session : TcpSession) (op : WireOp) : WireMsg :=
  { WireMsg.zero with
    magic := wireMagic
    op := op.code
    flags := if session.profiling then wireFlagProfile else 0 }

/-- A response with status 0, or the error of the call. -/
def accepted (error : String) : Option (WireMsg × List UInt8) → Except String (WireMsg × List UInt8)
  | none => .error error
  | some (response, data) => if response.status ≠ 0 then .error error else .ok (response, data)

/-- `td_tcp_client_read`: the bytes that are put into the buffer. -/
def tcpClientRead (session : TcpSession) (offset len : UInt64) :
    Prog (Sock UInt8) (Except String (List UInt8)) := do
  let reply ← tcpExchange { session.request .read with offset := offset, length := len } none true
  return (accepted ("tcp read failed for node " ++ toString session.nodeId) reply).map (·.2)

/-- The bytes of a caller's buffer.  Their number is a `size_t`. -/
abbrev Buffer : Type := { bs : List UInt8 // bs.length < sizeModulus }

/-- `td_tcp_client_write`. -/
def tcpClientWrite (session : TcpSession) (offset : UInt64) (buf : Buffer) :
    Prog (Sock UInt8) (Except String Unit) := do
  let reply ← tcpExchange
    { session.request .write with offset := offset, length := UInt64.ofNat buf.1.length }
    (some buf.1) false
  return (accepted ("tcp write failed for node " ++ toString session.nodeId) reply).map fun _ => ()

/-- `td_tcp_client_cas`: the old value. -/
def tcpClientCas (session : TcpSession) (offset compare swap : UInt64) :
    Prog (Sock UInt8) (Except String UInt64) := do
  let reply ← tcpExchange
    { session.request .cas with offset := offset, compare := compare, swap := swap } none false
  return (accepted ("tcp cas failed for node " ++ toString session.nodeId) reply).map (·.1.compare)

/-- `td_tcp_client_control`. -/
def tcpClientControl (session : TcpSession) (op : WireOp) :
    Prog (Sock UInt8) (Except String Unit) := do
  let reply ← tcpExchange (session.request op) none false
  return (accepted ("tcp control op " ++ toString op.code.toNat ++ " failed") reply).map fun _ => ()

/-! ## The memory node -/

/-- Where `td_tcp_connection_main` is between two turns of its loop. -/
inductive ServerState where
  /-- In the loop, after some requests. -/
  | ready (served : Nat) (region : Region)
  /-- The connection is closed. -/
  | closed (region : Region)
  /-- In an eviction that does not end. -/
  | evicting

/-- The end of a turn: send the response, and the data of a read. -/
def tcpAnswer (served : Nat) (request : WireMsg) :
    Option Handled → Prog (Sock UInt8) ServerState
  | none => return .evicting
  | some handled => do
      if ← sendAll handled.response.toBytes then
        if WireOp.ofCode request.op = some .close then return .closed handled.region
        else if 0 < handled.data.length then
          if ← sendAll handled.data then return .ready (served + 1) handled.region
          else return .closed handled.region
        else return .ready (served + 1) handled.region
      else return .closed handled.region

/-- A turn once the request is there.  Only a write has a payload, which is received if there is
memory for it. -/
def tcpServeRequest (env : ServerEnv) (served : Nat) (region : Region) (request : WireMsg) :
    Prog (Sock UInt8) ServerState := do
  if request.magic ≠ wireMagic then return .closed region
  else if WireOp.ofCode request.op = some .write ∧ env.malloc request.length.toNat then
    let payload ← recvAll request.length.toNat
    tcpAnswer served request (tcpHandle env region request payload)
  else tcpAnswer served request (tcpHandle env region request none)

/-- One turn of the loop of `td_tcp_connection_main`. -/
def tcpServe (env : ServerEnv) (served : Nat) (region : Region) :
    Prog (Sock UInt8) ServerState := do
  match ← recvAll wireBytes with
  | none => return .closed region
  | some bs => tcpServeRequest env served region (WireMsg.ofBytes bs)

/-! ## Sequences of calls -/

/-- A call on a session. -/
inductive SessionCall where
  | read (offset len : UInt64)
  | write (offset : UInt64) (buf : Buffer)
  | cas (offset compare swap : UInt64)
  | evict

/-- What a call that succeeds gives back. -/
inductive SessionValue where
  | data (bs : List UInt8)
  | written
  | old (value : UInt64)
  | evicted
deriving DecidableEq

/-- A call over TCP. -/
def SessionCall.tcp (session : TcpSession) :
    SessionCall → Prog (Sock UInt8) (Except String SessionValue)
  | .read offset len => do return (← tcpClientRead session offset len).map .data
  | .write offset buf => do return (← tcpClientWrite session offset buf).map fun _ => .written
  | .cas offset compare swap => do
      return (← tcpClientCas session offset compare swap).map .old
  | .evict => do return (← tcpClientControl session .evict).map fun _ => .evicted

/-- The same call on the region itself.  The inner `none` is a failure; the outer one, an eviction
that does not end. -/
def SessionCall.direct (env : ServerEnv) (region : Region) :
    SessionCall → Option (Option SessionValue × Region)
  | .read offset len => some ((region.readBytes offset.toNat len.toNat).map .data, region)
  | .write offset buf =>
      some (match region.writeBytes offset.toNat buf.1 with
        | none => (none, region)
        | some region' => (some .written, region'))
  | .cas offset compare swap =>
      some (match region.cas64 offset.toNat compare swap with
        | none => (none, region)
        | some (observed, region') => (some (.old observed), region'))
  | .evict =>
      (region.evictIfNeeded env.fuel env.evictionThresholdPct).map fun region' =>
        (some .evicted, region')

/-- Calls on the region itself, in order. -/
def directAll (env : ServerEnv) (region : Region) :
    List SessionCall → Option (List (Option SessionValue) × Region)
  | [] => some ([], region)
  | c :: cs => do
      let (value, region') ← c.direct env region
      let (values, region'') ← directAll env region' cs
      return (value :: values, region'')

/-- What a compute node remembers between two calls. -/
structure ClientState where
  /-- What the calls returned so far. -/
  returned : List (Except String SessionValue)
  /-- The calls that are left. -/
  left : List SessionCall

/-- The next call of a compute node. -/
def ClientState.next (session : TcpSession) (m : ClientState) :
    Option (Prog (Sock UInt8) ClientState) :=
  match m.left with
  | [] => none
  | c :: cs => some ((c.tcp session).bind fun value => .ret ⟨m.returned ++ [value], cs⟩)

/-- The next turn of a memory node.  `clock` is what the profile of each request measures. -/
def ServerState.next (env : ServerEnv) (clock : Nat → ServerProfile) :
    ServerState → Option (Prog (Sock UInt8) ServerState)
  | .ready served region => some (tcpServe { env with profile := clock served } served region)
  | .closed _ => none
  | .evicting => none

/-- A memory node waits for a request before it does anything. -/
theorem ServerState.next_listens {env : ServerEnv} {clock : Nat → ServerProfile} (s : ServerState)
    (q : Prog (Sock UInt8) ServerState) (hq : s.next env clock = some q) : q.Listens := by
  cases s with
  | ready served region =>
      cases hq
      exact ⟨183, _, rfl⟩
  | closed region => cases hq
  | evicting => cases hq

/-! ## One call in whole blocks -/

/-- A message has bytes. -/
theorem WireMsg.toBytes_append_ne (m : WireMsg) (bs : List UInt8) : m.toBytes ++ bs ≠ [] := by
  intro hnil
  have hlen := congrArg List.length hnil
  simp [wireBytes] at hlen

/-- The request of a call. -/
def SessionCall.request (session : TcpSession) : SessionCall → WireMsg
  | .read offset len => { session.request .read with offset := offset, length := len }
  | .write offset buf =>
      { session.request .write with offset := offset, length := UInt64.ofNat buf.1.length }
  | .cas offset compare swap =>
      { session.request .cas with offset := offset, compare := compare, swap := swap }
  | .evict => session.request .evict

/-- The bytes a call sends after its request. -/
def SessionCall.payload : SessionCall → Option (List UInt8)
  | .write _ buf => some buf.1
  | _ => none

/-- Whether a call has a buffer for bytes after the response. -/
def SessionCall.wanted : SessionCall → Bool
  | .read _ _ => true
  | _ => false

/-- What a call returns for a reply. -/
def SessionCall.finish (session : TcpSession) (reply : Option (WireMsg × List UInt8)) :
    SessionCall → Except String SessionValue
  | .read _ _ =>
      (accepted ("tcp read failed for node " ++ toString session.nodeId) reply).map
        fun r => .data r.2
  | .write _ _ =>
      (accepted ("tcp write failed for node " ++ toString session.nodeId) reply).map
        fun _ => .written
  | .cas _ _ _ =>
      (accepted ("tcp cas failed for node " ++ toString session.nodeId) reply).map
        fun r => .old r.1.compare
  | .evict =>
      (accepted ("tcp control op " ++ toString WireOp.evict.code.toNat ++ " failed") reply).map
        fun _ => .evicted

theorem SessionCall.tcp_eq (session : TcpSession) (c : SessionCall) :
    c.tcp session = (tcpExchange (c.request session) c.payload c.wanted).bind
      fun reply => .ret (c.finish session reply) := by
  have hmap : ∀ {α β : Type} (p : Prog (Sock UInt8) (Option (WireMsg × List UInt8)))
      (f : Option (WireMsg × List UInt8) → Except String α) (g : α → β),
      ((p.bind fun reply => .ret (f reply)).bind fun r => .ret (r.map g)) =
        p.bind fun reply => .ret ((f reply).map g) := fun p f g => Prog.bind_assoc ..
  have hcomp : ∀ {α β γ : Type} (r : Except String α) (f : α → β) (g : β → γ),
      (r.map f).map g = r.map fun a => g (f a) := by
    intro _ _ _ r f g
    cases r <;> rfl
  cases c with
  | read offset len =>
      refine (hmap _ _ _).trans ?_
      simp only [hcomp]
      rfl
  | write offset buf =>
      refine (hmap _ _ _).trans ?_
      simp only [hcomp]
      rfl
  | cas offset compare swap =>
      refine (hmap _ _ _).trans ?_
      simp only [hcomp]
      rfl
  | evict =>
      refine (hmap _ _ _).trans ?_
      simp only [hcomp]
      rfl

section Blocks

variable {γ : Type} {f : Option (WireMsg × List UInt8) → Prog (Sock UInt8) γ}
  {request response : WireMsg} {payload : Option (List UInt8)} {wanted : Bool} {data : List UInt8}

/-- The first half of an exchange sends the request and its payload. -/
theorem tcpExchange_offers (hpayload : ∀ bs ∈ payload, bs.length = request.length.toNat) :
    ((tcpExchange request payload wanted).bind f).Offers
      (request.toBytes ++ payload.getD []) ((tcpReply wanted).bind f) := by
  refine .send ?_
  cases payload with
  | none => exact .nil
  | some bs =>
      have hlen := hpayload bs rfl
      simp only [Option.getD_some]
      by_cases hpos : 0 < request.length.toNat
      · simp only [if_pos hpos]
        exact .last
      · simp only [if_neg hpos]
        obtain rfl : bs = [] := List.eq_nil_of_length_eq_zero (by omega)
        exact .nil

/-- The second half receives the response and its data. -/
theorem tcpReply_takes (hdata : data.length = if wanted then response.length.toNat else 0) :
    ((tcpReply wanted).bind f).Takes (response.toBytes ++ data) (f (some (response, data))) := by
  refine .block response.length_toBytes ?_
  show ((tcpReplyData wanted (WireMsg.ofBytes response.toBytes)).bind f).Takes _ _
  rw [WireMsg.ofBytes_toBytes, tcpReplyData]
  split
  next hmore =>
    obtain ⟨rfl, _⟩ : wanted = true ∧ 0 < response.length.toNat := by simpa using hmore
    exact .last hdata
  next hnone =>
    obtain rfl : data = [] := by
      refine List.eq_nil_of_length_eq_zero ?_
      rw [hdata]
      split
      next hw => simpa [hw] using hnone
      next => rfl
    exact .nil

variable {env : ServerEnv} {served : Nat} {region : Region} {handled : Handled}

/-- A turn of the memory node receives a request and its payload. -/
theorem tcpServe_takes (hmalloc : ∀ n, env.malloc n = true) (hmagic : request.magic = wireMagic)
    (hop : payload.isSome ↔ WireOp.ofCode request.op = some .write)
    (hpayload : ∀ bs ∈ payload, bs.length = request.length.toNat) :
    (tcpServe env served region).Takes (request.toBytes ++ payload.getD [])
      (tcpAnswer served request (tcpHandle env region request payload)) := by
  refine .block request.length_toBytes ?_
  show (tcpServeRequest env served region (WireMsg.ofBytes request.toBytes)).Takes _ _
  rw [WireMsg.ofBytes_toBytes, tcpServeRequest, if_neg (not_not.mpr hmagic)]
  cases payload with
  | none =>
      rw [if_neg fun h => by simpa using hop.mpr h.1]
      exact .nil
  | some bs =>
      rw [if_pos ⟨hop.mp rfl, hmalloc _⟩]
      exact .last (hpayload bs rfl)

/-- It ends with the response and its data. -/
theorem tcpAnswer_offers (hop : WireOp.ofCode request.op ≠ some .close) :
    (tcpAnswer served request (some handled)).Offers (handled.response.toBytes ++ handled.data)
      (.ret (.ready (served + 1) handled.region)) := by
  refine .send ?_
  show Prog.Offers (if _ then _ else _) _ _
  rw [if_neg hop]
  split
  next => exact .last
  next hnil =>
    have hdata : handled.data = [] := List.eq_nil_of_length_eq_zero (by omega)
    rw [hdata]
    exact .nil

end Blocks

/-! ## Calls over TCP are direct calls -/

theorem accepted_of_status {response : WireMsg} (h : response.status = 0) (error : String)
    (data : List UInt8) : accepted error (some (response, data)) = .ok (response, data) :=
  if_neg (not_not.mpr h)

@[simp] theorem WireMsg.length_withProfile (response request : WireMsg) (profile : ServerProfile) :
    (response.withProfile request profile).length = response.length := by
  unfold WireMsg.withProfile
  split <;> rfl

@[simp] theorem WireMsg.compare_withProfile (response request : WireMsg)
    (profile : ServerProfile) :
    (response.withProfile request profile).compare = response.compare := by
  unfold WireMsg.withProfile
  split <;> rfl

section Calls

/-- A refused request is a failed call. -/
theorem SessionCall.finish_refuse (c : SessionCall) (session : TcpSession) (request : WireMsg)
    (profile : ServerProfile) :
    (c.finish session (some (request.refuse.withProfile request profile, []))).toOption = none := by
  have herror (error : String) :
      accepted error (some (request.refuse.withProfile request profile, [])) = .error error := by
    rw [accepted, WireMsg.status_withProfile]
    rfl
  cases c <;> rw [SessionCall.finish, herror] <;> rfl

variable {env : ServerEnv} {session : TcpSession} {region region' : Region}
  {value : Option SessionValue}

/-- The handler makes of a request what the call makes of the region. -/
theorem SessionCall.handle_spec (hmalloc : ∀ n, env.malloc n = true) (c : SessionCall)
    (session : TcpSession) (h : c.direct env region = some (value, region')) :
    ∃ handled, tcpHandle env region (c.request session) c.payload = some handled ∧
      handled.region = region' ∧
      (c.finish session (some (handled.response, handled.data))).toOption = value ∧
      handled.data.length = if c.wanted then handled.response.length.toNat else 0 := by
  cases c with
  | read offset len =>
      obtain ⟨rfl, rfl⟩ := Prod.mk.inj (Option.some.inj h)
      refine ⟨handleRead env region _, rfl, handleRead_region, ?_⟩
      simp only [handleRead, hmalloc, if_true, SessionCall.request]
      cases hread : region.readBytes offset.toNat len.toNat with
      | none =>
          refine ⟨SessionCall.finish_refuse .., ?_⟩
          rw [WireMsg.length_withProfile]
          rfl
      | some data =>
          have hlen : data.length = len.toNat := by
            unfold Region.readBytes at hread
            split at hread
            · cases hread
            · cases hread
              exact length_load ..
          refine ⟨?_, ?_⟩
          · rw [SessionCall.finish, accepted_of_status (WireMsg.status_withProfile ..)]
            rfl
          · simp only [WireMsg.length_withProfile]
            exact hlen
  | write offset buf =>
      have h := Option.some.inj h
      refine ⟨handleWrite env region _ (some buf.1), rfl, ?_⟩
      simp only [handleWrite, SessionCall.request]
      cases hwrite : region.writeBytes offset.toNat buf.1 with
      | none =>
          rw [hwrite] at h
          obtain ⟨rfl, rfl⟩ := Prod.mk.inj h
          exact ⟨rfl, SessionCall.finish_refuse .., rfl⟩
      | some region₁ =>
          rw [hwrite] at h
          obtain ⟨rfl, rfl⟩ := Prod.mk.inj h
          refine ⟨rfl, ?_, rfl⟩
          rw [SessionCall.finish, accepted_of_status (WireMsg.status_withProfile ..)]
          rfl
  | cas offset compare swap =>
      have h := Option.some.inj h
      refine ⟨handleCas env region _, rfl, ?_⟩
      simp only [handleCas, SessionCall.request]
      cases hcas : region.cas64 offset.toNat compare swap with
      | none =>
          rw [hcas] at h
          obtain ⟨rfl, rfl⟩ := Prod.mk.inj h
          exact ⟨rfl, SessionCall.finish_refuse .., rfl⟩
      | some r =>
          rw [hcas] at h
          obtain ⟨rfl, rfl⟩ := Prod.mk.inj h
          refine ⟨rfl, ?_, rfl⟩
          rw [SessionCall.finish, accepted_of_status (WireMsg.status_withProfile ..)]
          simp only [Except.map, Except.toOption, WireMsg.compare_withProfile]
  | evict =>
      rw [SessionCall.direct] at h
      obtain ⟨region₁, hevict, heq⟩ := Option.map_eq_some_iff.mp h
      obtain ⟨rfl, rfl⟩ := Prod.mk.inj heq
      refine ⟨.plain env (SessionCall.evict.request session)
        (SessionCall.evict.request session).ackFor region₁, ?_, rfl, ?_, rfl⟩
      · show handleEvict env region (SessionCall.evict.request session) = _
        rw [handleEvict, hevict]
        rfl
      · rw [SessionCall.finish, Handled.plain, accepted_of_status (WireMsg.status_withProfile ..)]
        rfl

/-- The request and the payload of a call go together. -/
theorem SessionCall.payload_length (c : SessionCall) :
    ∀ bs ∈ c.payload, bs.length = (c.request session).length.toNat := by
  intro bs hbs
  cases c with
  | write offset buf =>
      cases hbs
      exact (Nat.mod_eq_of_lt buf.2).symm
  | read offset len => cases hbs
  | cas offset compare swap => cases hbs
  | evict => cases hbs

/-- The clock does not matter for a direct call. -/
theorem SessionCall.direct_profile (c : SessionCall) (profile : ServerProfile) :
    c.direct { env with profile := profile } region = c.direct env region := by
  cases c <;> rfl

/-- A call over TCP is a round. -/
theorem SessionCall.round (hmalloc : ∀ n, env.malloc n = true) (clock : Nat → ServerProfile)
    (c : SessionCall) (h : c.direct env region = some (value, region'))
    (returned : List (Except String SessionValue)) (left : List SessionCall) (served : Nat) :
    ∃ us vs result, Round (ClientState.next session) (ServerState.next env clock)
        ⟨returned, c :: left⟩ (.ready served region) us vs
        ⟨returned ++ [result], left⟩ (.ready (served + 1) region') ∧
      result.toOption = value := by
  have hmalloc' : ∀ n, ({ env with profile := clock served } : ServerEnv).malloc n = true := hmalloc
  have hspec : ∃ handled, tcpHandle { env with profile := clock served } region
      (c.request session) c.payload = some handled ∧ handled.region = region' ∧
      (c.finish session (some (handled.response, handled.data))).toOption = value ∧
      handled.data.length = if c.wanted then handled.response.length.toNat else 0 :=
    c.handle_spec hmalloc' session ((c.direct_profile (clock served)).trans h)
  obtain ⟨handled, hhandle, rfl, hresult, hdata⟩ := hspec
  refine ⟨(c.request session).toBytes ++ c.payload.getD [],
    handled.response.toBytes ++ handled.data,
    c.finish session (some (handled.response, handled.data)), ⟨?_, ?_, ?_, ?_⟩, hresult⟩
  · refine ⟨_, (tcpReply c.wanted).bind fun reply =>
      .ret ⟨returned ++ [c.finish session reply], left⟩, rfl, ?_, ?_⟩
    · rw [c.tcp_eq, Prog.bind_assoc]
      exact tcpExchange_offers c.payload_length
    · exact tcpReply_takes hdata
  · refine ⟨_, _, rfl, tcpServe_takes hmalloc' ?_ ?_ c.payload_length, ?_⟩
    · cases c <;> rfl
    · cases c <;> simp [SessionCall.payload, SessionCall.request, TcpSession.request]
    · rw [hhandle]
      refine tcpAnswer_offers ?_
      cases c <;> simp [SessionCall.request, TcpSession.request]
  · exact WireMsg.toBytes_append_ne _ _
  · exact WireMsg.toBytes_append_ne _ _

end Calls

/-- Where the calls of a session have got to: those that have returned did what they do directly. -/
def Served (env : ServerEnv) (region : Region) (calls : List SessionCall) (m : ClientState)
    (s : ServerState) : Prop :=
  ∃ made served now, calls = made ++ m.left ∧ s = .ready served now ∧
    directAll env region made = some (m.returned.map Except.toOption, now)

/-- Direct calls, one more at the end. -/
theorem directAll_concat (env : ServerEnv) (c : SessionCall) :
    ∀ (made : List SessionCall) {region now now' : Region} {values : List (Option SessionValue)}
      {value : Option SessionValue}, directAll env region made = some (values, now) →
      c.direct env now = some (value, now') →
      directAll env region (made ++ [c]) = some (values ++ [value], now')
  | [], region, now, now', values, value, hmade, hc => by
      obtain ⟨rfl, rfl⟩ := Prod.mk.inj (Option.some.inj hmade)
      simp only [List.nil_append, directAll, hc]
      rfl
  | d :: made, region, now, now', values, value, hmade, hc => by
      simp only [directAll, Option.bind_eq_bind, Option.bind_eq_some_iff, Prod.exists] at hmade
      obtain ⟨first, region₁, hd, values₁, region₂, hrest, heq⟩ := hmade
      obtain ⟨rfl, rfl⟩ := Prod.mk.inj (Option.some.inj heq)
      have ih := directAll_concat env c made hrest hc
      simp only [List.cons_append, directAll, hd, Option.bind_eq_bind, Option.bind_some, ih]
      rfl

/-- Calls that all end, and the first ones of them. -/
theorem directAll_prefix (env : ServerEnv) (c : SessionCall) (left : List SessionCall) :
    ∀ (made : List SessionCall) {region now : Region} {values : List (Option SessionValue)},
      (directAll env region (made ++ c :: left)).isSome →
      directAll env region made = some (values, now) →
      ∃ value now', c.direct env now = some (value, now')
  | [], region, now, values, hall, hmade => by
      obtain ⟨rfl, rfl⟩ := Prod.mk.inj (Option.some.inj hmade)
      obtain ⟨r, hr⟩ := Option.isSome_iff_exists.mp hall
      simp only [List.nil_append, directAll, Option.bind_eq_bind, Option.bind_eq_some_iff,
        Prod.exists] at hr
      obtain ⟨value, now', hc, _⟩ := hr
      exact ⟨value, now', hc⟩
  | d :: made, region, now, values, hall, hmade => by
      simp only [directAll, Option.bind_eq_bind, Option.bind_eq_some_iff, Prod.exists] at hmade
      obtain ⟨first, region₁, hd, values₁, region₂, hrest, heq⟩ := hmade
      obtain ⟨rfl, rfl⟩ := Prod.mk.inj (Option.some.inj heq)
      refine directAll_prefix env c left made ?_ hrest
      obtain ⟨r, hr⟩ := Option.isSome_iff_exists.mp hall
      simp only [List.cons_append, directAll, Option.bind_eq_bind, Option.bind_eq_some_iff,
        Prod.exists, hd] at hr
      obtain ⟨first', region₁', heq', values', now', hrest', _⟩ := hr
      obtain ⟨rfl, rfl⟩ := Prod.mk.inj (Option.some.inj heq')
      exact Option.isSome_iff_exists.mpr ⟨_, hrest'⟩

/-- Over TCP, however the streams cut the bytes and signals interrupt the calls, a sequence of
calls does what it does on the region itself: between two calls both streams are empty, the calls
so far have returned what the direct ones return, and the region is what they leave.  All calls do
return. -/
theorem tcp_refines_direct (session : TcpSession) (env : ServerEnv)
    (hmalloc : ∀ n, env.malloc n = true) (clock : Nat → ServerProfile) (cap : Nat) (hcap : 0 < cap)
    (region : Region) (calls : List SessionCall) (hends : (directAll env region calls).isSome) :
    (∀ c m, Conversation.Run (ClientState.next session) (ServerState.next env clock) cap
        (.init ⟨[], calls⟩ (.ready 0 region)) c → c.client = .between m →
        c.toServer = [] ∧ c.toClient = [] ∧
          ∃ s, c.server.Poised (ServerState.next env clock) s ∧ Served env region calls m s) ∧
      LeadsTo (Conversation.Step (ClientState.next session) (ServerState.next env clock) cap true)
        (fun c => ∃ m, c.client = .between m ∧ m.left = [])
        (.init ⟨[], calls⟩ (.ready 0 region)) := by
  have hstart : Served env region calls ⟨[], calls⟩ (.ready 0 region) :=
    ⟨[], 0, region, rfl, rfl, rfl⟩
  have hround : ∀ m s, Served env region calls m s → ClientState.next session m = none ∨
      ∃ us vs m' s', Round (ClientState.next session) (ServerState.next env clock) m s us vs m' s' ∧
        Served env region calls m' s' ∧ m'.left.length < m.left.length := by
    rintro ⟨returned, left⟩ s ⟨made, served, now, hcalls, rfl, hmade⟩
    cases left with
    | nil => exact .inl rfl
    | cons c left =>
        right
        obtain rfl : calls = made ++ c :: left := hcalls
        obtain ⟨value, now', hc⟩ := directAll_prefix env c left made hends hmade
        obtain ⟨us, vs, result, hround, rfl⟩ := c.round hmalloc clock hc returned left served
        refine ⟨us, vs, _, _, hround, ⟨made ++ [c], served + 1, now', ?_, rfl, ?_⟩,
          Nat.lt_succ_self _⟩
        · rw [List.append_assoc]
          rfl
        · rw [List.map_append]
          exact directAll_concat env c made hmade hc
  refine ⟨fun c m hrun hc => Conversation.rounds_between ServerState.next_listens hround hstart hrun hc, ?_⟩
  refine (Conversation.rounds_lead ServerState.next_listens hround hcap hstart).mono fun c hc => ?_
  obtain ⟨m, hm, hnext⟩ := hc
  refine ⟨m, hm, ?_⟩
  unfold ClientState.next at hnext
  split at hnext
  next hleft => exact hleft
  next => cases hnext

/-- A write, a read of it, a read outside of the mapping, a compare-and-swap and an eviction. -/
def mixedCalls : List SessionCall :=
  [.write 96 ⟨[1, 2, 3], by decide⟩, .read 96 3, .read 4090 8, .cas 88 0 1, .evict]

/-- One call of the five fails, and the session goes on. -/
theorem tcp_refines_direct_mixed :
    (directAll .plentiful (Region.create ⟨4096, 0, 4, 1, 4, 256, 1⟩) mixedCalls).map (·.1) =
        some [some .written, some (.data [1, 2, 3]), none, some (.old 0), some .evicted] ∧
      LeadsTo (Conversation.Step (ClientState.next ⟨true, 0⟩)
          (ServerState.next .plentiful fun _ => ⟨4, 3, 2, 1⟩) 16 true)
        (fun c => ∃ m, c.client = .between m ∧ m.left = [])
        (.init ⟨[], mixedCalls⟩ (.ready 0 (Region.create ⟨4096, 0, 4, 1, 4, 256, 1⟩))) := by
  have hdirect : (directAll .plentiful (Region.create ⟨4096, 0, 4, 1, 4, 256, 1⟩) mixedCalls).map
      (·.1) = some [some .written, some (.data [1, 2, 3]), none, some (.old 0), some .evicted] := by
    decide
  refine ⟨hdirect, (tcp_refines_direct ⟨true, 0⟩ .plentiful (fun _ => rfl)
    (fun _ => ⟨4, 3, 2, 1⟩) 16 (by decide) _ mixedCalls ?_).2⟩
  rw [← Option.isSome_map, hdirect]
  rfl

end TeeDist
