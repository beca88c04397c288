import TeeDist.Lib.Links
import TeeDist.Epochs
import TeeDist.Faults
import TeeDist.Session

/-!
# Connection threads

Each session has a thread of `td_tcp_connection_main` at its memory node, and the regions belong to
all threads.  A turn of that loop is cut where the region is locked: the thread has collected a
request, carries it out under the lock, and sends the response (`tcpServe_eq`).  A thread that is
asked to evict answers when the eviction is over, whose steps are those of `Evicts`.

`sessionService` has all compute nodes with all of their sessions at once, for calls of any kind
that are made on sessions (`OnSessions`).  It is correct: each call is a request that is carried out
in one section, and its response (`sessionService_correct`).
-/

namespace TeeDist

open Bytes Calls

/-! ## A connection thread, cut at the lock -/

/-- Where `td_tcp_connection_main` is between two of its parts. -/
inductive Conn where
  /-- In the loop, after some requests. -/
  | ready (served : Nat)
  /-- It has collected a request. -/
  | received (served : Nat) (request : WireMsg) (payload : Option (List UInt8))
  /-- It has carried out a request. -/
  | answering (served : Nat) (request : WireMsg) (handled : Handled)
  /-- The connection is closed. -/
  | closed

/-- The end of a request whose head is there. -/
def tcpReceivePayload (malloc : Nat → Bool) (served : Nat) (request : WireMsg) :
    Prog (Sock UInt8) Conn := do
  if request.magic ≠ wireMagic then return .closed
  else if WireOp.ofCode request.op = some .write ∧ malloc request.length.toNat then
    let payload ← recvAll request.length.toNat
    return .received served request payload
  else return .received served request none

/-- Collect a request. -/
def tcpReceive (malloc : Nat → Bool) (served : Nat) : Prog (Sock UInt8) Conn := do
  match ← recvAll wireBytes with
  | none => return .closed
  | some bs => tcpReceivePayload malloc served (WireMsg.ofBytes bs)

/-- Where the thread is at the end of a turn. -/
def Conn.after : ServerState → Conn
  | .ready served _ => .ready served
  | .closed _ => .closed
  | .evicting => .closed

/-- What the thread does outside of the lock. -/
def Conn.next (malloc : Nat → Bool) : Conn → Option (Prog (Sock UInt8) Conn)
  | .ready served => some (tcpReceive malloc served)
  | .answering served request handled =>
      some ((tcpAnswer served request (some handled)).bind fun s => .ret (Conn.after s))
  | .received _ _ _ => none
  | .closed => none

/-- The thread has been asked to evict. -/
def Conn.Evicts : Conn → Prop
  | .received _ request _ => WireOp.ofCode request.op = some .evict
  | _ => False

/-- What the thread does under the lock of its region.  The clock may measure anything.  The steps
of an eviction come before the section that makes the response to its request. -/
inductive Conn.Act (env : Nat → ServerEnv) (mn : Nat) :
    Conn → (Nat → Region) → Conn → (Nat → Region) → Prop where
  | handle {served : Nat} {request : WireMsg} {payload : Option (List UInt8)} {handled : Handled}
      {rs : Nat → Region} (profile : ServerProfile) :
      WireOp.ofCode request.op ≠ some .evict →
      tcpHandle { env mn with profile := profile } (rs mn) request payload = some handled →
      Act env mn (.received served request payload) rs (.answering served request handled)
        (Function.update rs mn handled.region)
  | evicted {served : Nat} {request : WireMsg} {payload : Option (List UInt8)}
      {rs : Nat → Region} (profile : ServerProfile) :
      WireOp.ofCode request.op = some .evict →
      Act env mn (.received served request payload) rs (.answering served request
        (.plain { env mn with profile := profile } request request.ackFor (rs mn))) rs

/-- A turn of `td_tcp_connection_main` is these parts, one after the other. -/
theorem tcpServe_eq (env : ServerEnv) (served : Nat) (region : Region) :
    tcpServe env served region = (tcpReceive env.malloc served).bind fun
      | .received _ request payload =>
          tcpAnswer served request (tcpHandle env region request payload)
      | _ => .ret (.closed region) := by
  refine congrArg (Prog.call (S := Sock UInt8) (.recvAll wireBytes)) (funext fun r => ?_)
  cases r with
  | none => rfl
  | some bs =>
      show tcpServeRequest env served region (WireMsg.ofBytes bs) =
        (tcpReceivePayload env.malloc served (WireMsg.ofBytes bs)).bind _
      unfold tcpServeRequest tcpReceivePayload
      split
      · rfl
      · split <;> rfl

/-! ## Calls on slots as calls of a session -/

/-- The bytes of a slot behind its guard epoch. -/
def Slot.body (s : Slot) : Buffer := ⟨s.toBytes.drop bodyOffset, by
  rw [List.length_drop, Slot.length_toBytes]
  decide⟩

/-- A call on a slot as `cluster.c` makes it on a session. -/
def Call.onSession (header : Nat → RegionHeader) : Call → SessionCall
  | .readRegion a =>
      .read (UInt64.ofNat (slotOffsetForIndex (header a.mn) a.kind a.idx)) (UInt64.ofNat slotBytes)
  | .writeRegion a body =>
      .write (UInt64.ofNat (slotOffsetForIndex (header a.mn) a.kind a.idx + bodyOffset)) body.body
  | .cas64 a compare swap =>
      .cas (UInt64.ofNat (slotOffsetForIndex (header a.mn) a.kind a.idx)) compare swap

/-- What the call returns to `cluster.c`. -/
def Call.returned : (c : Call) → Option SessionValue → c.Reply
  | .readRegion _, some (.data bs) => some (Slot.ofBytes bs)
  | .writeRegion _ _, some .written => some ()
  | .cas64 _ _ _, some (.old observed) => some observed
  | .readRegion _, _ => none
  | .writeRegion _ _, _ => none
  | .cas64 _ _ _, _ => none

/-- What a session call does to a region at once.  An eviction leaves its work to others. -/
def SessionCall.atOnce (region : Region) : SessionCall → Option SessionValue × Region
  | .read offset len => ((region.readBytes offset.toNat len.toNat).map .data, region)
  | .write offset buf =>
      match region.writeBytes offset.toNat buf.1 with
      | none => (none, region)
      | some region' => (some .written, region')
  | .cas offset compare swap =>
      match region.cas64 offset.toNat compare swap with
      | none => (none, region)
      | some (observed, region') => (some (.old observed), region')
  | .evict => (some .evicted, region)

theorem SessionCall.direct_eq (env : ServerEnv) (region : Region) {c : SessionCall}
    (hc : c ≠ .evict) : c.direct env region = some (c.atOnce region) := by
  cases c with
  | read offset len => rfl
  | write offset buf => rfl
  | cas offset compare swap => rfl
  | evict => exact absurd rfl hc

/-- How the calls of a signature are made on sessions. -/
structure OnSessions (S : Signature) where
  /-- The memory node that a call is for. -/
  mn : S.Call → Nat
  made : S.Call → SessionCall
  /-- What a call returns. -/
  returned : (c : S.Call) → Except String SessionValue → S.Reply c
  /-- What it returns if its session fails. -/
  fails : (c : S.Call) → S.Reply c

/-- A call over TCP. -/
def OnSessions.tcp {S : Signature} (O : OnSessions S) (session : Nat → TcpSession) (c : S.Call) :
    Prog (Sock UInt8) (S.Reply c) := do
  let value ← (O.made c).tcp (session (O.mn c))
  return O.returned c value

/-- The calls do on the regions what a handler says. -/
structure OnSessions.Does {S : Signature} (O : OnSessions S) (h : Handler S (Nat → Region)) :
    Prop where
  does : ∀ c rs result, result.toOption = ((O.made c).atOnce (rs (O.mn c))).1 →
    h c rs = (O.returned c result, Function.update rs (O.mn c) ((O.made c).atOnce (rs (O.mn c))).2)
  failed : ∀ c session, O.returned c ((O.made c).finish session none) = O.fails c

/-- A call that evicts returns at once, as far as the handler is concerned. -/
theorem OnSessions.Does.evict {S : Signature} {O : OnSessions S} {h : Handler S (Nat → Region)}
    (hO : O.Does h) {c : S.Call} (hc : O.made c = .evict) (rs : Nat → Region) :
    h c rs = (O.returned c (.ok .evicted), rs) := by
  rw [hO.does c rs (.ok .evicted) (by rw [hc]; rfl), hc]
  simp only [SessionCall.atOnce, Function.update_eq_self]

/-- A call changes the region of its memory node alone. -/
theorem OnSessions.Does.other {S : Signature} {O : OnSessions S} {h : Handler S (Nat → Region)}
    (hO : O.Does h) (c : S.Call) (rs : Nat → Region) {mn : Nat} (hmn : mn ≠ O.mn c) :
    (h c rs).2 mn = rs mn := by
  obtain ⟨result, hresult⟩ : ∃ result : Except String SessionValue,
      result.toOption = ((O.made c).atOnce (rs (O.mn c))).1 := by
    cases ((O.made c).atOnce (rs (O.mn c))).1 with
    | none => exact ⟨.error "", rfl⟩
    | some value => exact ⟨.ok value, rfl⟩
  rw [hO.does c rs result hresult]
  exact Function.update_of_ne hmn ..

/-- Calls of two kinds. -/
def OnSessions.sum {S T : Signature} (O : OnSessions S) (O' : OnSessions T) : OnSessions (S.sum T) where
  mn := Sum.elim O.mn O'.mn
  made := Sum.elim O.made O'.made
  returned
    | .inl c => O.returned c
    | .inr c => O'.returned c
  fails
    | .inl c => O.fails c
    | .inr c => O'.fails c

theorem OnSessions.Does.sum {S T : Signature} {O : OnSessions S} {O' : OnSessions T}
    {h : Handler S (Nat → Region)} {h' : Handler T (Nat → Region)} (hO : O.Does h) (hO' : O'.Does h') :
    (O.sum O').Does (h.sum h') where
  does c rs result hresult := by
    cases c with
    | inl c => exact hO.does c rs result hresult
    | inr c => exact hO'.does c rs result hresult
  failed c session := by
    cases c with
    | inl c => exact hO.failed c session
    | inr c => exact hO'.failed c session

/-- The calls on slots. -/
def netCalls (header : Nat → RegionHeader) : OnSessions Net where
  mn c := c.addr.mn
  made := Call.onSession header
  returned c result := c.returned result.toOption
  fails := Call.failed

/-- Made on the region itself, a call on a slot is the call of `regionHandler`. -/
theorem netCalls_does (header : Nat → RegionHeader) :
    (netCalls header).Does (regionHandler header) where
  does c rs result hresult := by
    have hword : ∀ n, (UInt64.ofNat n).toNat = n % sizeModulus := fun n => UInt64.toNat_ofNat'
    have hoffset : ∀ a : Addr, slotOffsetForIndex (header a.mn) a.kind a.idx % sizeModulus =
        slotOffsetForIndex (header a.mn) a.kind a.idx := fun a => Nat.mod_mod ..
    have hslot : slotBytes % sizeModulus = slotBytes := rfl
    simp only [netCalls, hresult]
    cases c with
    | readRegion a =>
        simp only [Call.onSession, SessionCall.atOnce, hword, hoffset, hslot, regionHandler,
          Call.addr, Function.update_eq_self]
        cases (rs a.mn).readBytes (slotOffsetForIndex (header a.mn) a.kind a.idx) slotBytes <;> rfl
    | writeRegion a body =>
        simp only [Call.onSession, SessionCall.atOnce, hword, regionHandler, Call.addr, Slot.body]
        cases (rs a.mn).writeBytes ((slotOffsetForIndex (header a.mn) a.kind a.idx + bodyOffset) %
            sizeModulus) (body.toBytes.drop bodyOffset) with
        | none => exact Prod.ext rfl (Function.update_eq_self ..).symm
        | some r => rfl
    | cas64 a compare swap =>
        simp only [Call.onSession, SessionCall.atOnce, hword, hoffset, regionHandler, Call.addr]
        cases (rs a.mn).cas64 (slotOffsetForIndex (header a.mn) a.kind a.idx) compare swap with
        | none => exact Prod.ext rfl (Function.update_eq_self ..).symm
        | some r => rfl
  failed c session := by
    cases c <;> rfl

/-- None of them evicts. -/
theorem netCalls_slots (header : Nat → RegionHeader) {α : Type} (m : Prog Net α) :
    m.Within fun c => (netCalls header).made c ≠ .evict := by
  induction m with
  | ret a => trivial
  | call c k ih => exact ⟨by cases c <;> exact nofun, ih⟩

/-- `control` of a session, with `TD_WIRE_EVICT`.  The call names the session. -/
abbrev Control : Signature := ⟨Nat, fun _ => Except String Unit⟩

def controlCalls : OnSessions Control where
  mn session := session
  made _ := .evict
  returned _ result := result.map fun _ => ()
  fails _ := .error ("tcp control op " ++ toString WireOp.evict.code.toNat ++ " failed")

/-- An eviction is requested, and that is all: what it does is up to others. -/
def Control.done {σ : Type} : Handler Control σ := fun _ s => (.ok (), s)

theorem controlCalls_does : controlCalls.Does Control.done where
  does mn rs result hresult := by
    cases result with
    | error e => cases hresult
    | ok value =>
        refine Prod.ext rfl ?_
        exact (Function.update_eq_self ..).symm
  failed _ _ := rfl

/-! ## The service -/

/-- Calls made on sessions, and served over TCP.  The memory nodes differ in their regions only. -/
def sessionService {ι : Type} {S : Signature} (O : OnSessions S) (env : ServerEnv)
    (session : ι → Nat → TcpSession) : Service ι Nat UInt8 Conn (Nat → Region) S where
  via := O.mn
  ask i c := O.tcp (session i) c
  serve n := n.next env.malloc
  act := Conn.Act fun _ => env

/-- The calls on slots, made and served over TCP. -/
def tcpService {ι : Type} (env : ServerEnv) (session : ι → Nat → TcpSession)
    (header : Nat → RegionHeader) : Service ι Nat UInt8 Conn (Nat → Region) Net :=
  sessionService (netCalls header) env session

/-- The thread waits for a request. -/
def Conn.Ready : Conn → Prop
  | .ready _ => True
  | _ => False

/-- The thread will not change its region: all that it could still carry out is a write whose bytes
did not come. -/
def Conn.Dead : Conn → Prop
  | .received _ request payload => WireOp.ofCode request.op = some .write ∧ payload = none
  | _ => True

section Service

variable {S : Signature} {O : OnSessions S} {h : Handler S (Nat → Region)} {env : ServerEnv}
  {session : Nat → TcpSession} {request : WireMsg} {payload : Option (List UInt8)} {served : Nat}

theorem OnSessions.tcp_eq (c : S.Call) : O.tcp session c =
    (tcpExchange ((O.made c).request (session (O.mn c))) (O.made c).payload (O.made c).wanted).bind
      fun reply => .ret (O.returned c ((O.made c).finish (session (O.mn c)) reply)) := by
  refine (congrArg (fun p => Prog.bind p _) (SessionCall.tcp_eq _ _)).trans ?_
  exact Prog.bind_assoc ..

/-- The thread receives a request and its payload. -/
theorem tcpReceive_takes (hmalloc : ∀ n, env.malloc n = true) (hmagic : request.magic = wireMagic)
    (hop : payload.isSome ↔ WireOp.ofCode request.op = some .write)
    (hpayload : ∀ bs ∈ payload, bs.length = request.length.toNat) :
    (tcpReceive env.malloc served).Takes (request.toBytes ++ payload.getD [])
      (.ret (.received served request payload)) := by
  refine .block request.length_toBytes ?_
  show (tcpReceivePayload env.malloc served (WireMsg.ofBytes request.toBytes)).Takes _ _
  rw [WireMsg.ofBytes_toBytes, tcpReceivePayload, if_neg (not_not.mpr hmagic)]
  cases payload with
  | none =>
      rw [if_neg fun h => by simpa using hop.mpr h.1]
      exact .nil
  | some bs =>
      rw [if_pos ⟨hop.mp rfl, hmalloc _⟩]
      exact .last (hpayload bs rfl)

/-- An exchange that fails comes back without a response. -/
theorem tcpExchange_brittle (wanted : Bool) :
    (tcpExchange request payload wanted).Brittle (· = none) := by
  have hreply : (tcpReply wanted).Brittle (· = none) := by
    refine ⟨rfl, fun bs => ?_⟩
    show (tcpReplyData wanted (WireMsg.ofBytes bs)).Brittle _
    unfold tcpReplyData
    split
    · exact ⟨rfl, fun _ => trivial⟩
    · trivial
  refine ⟨rfl, ?_⟩
  cases payload with
  | none => exact hreply
  | some bs =>
      show Prog.Brittle _ (if _ then _ else _)
      split
      · exact ⟨rfl, hreply⟩
      · exact hreply

/-- A failure while a request is collected closes the connection, or leaves a write without its
bytes. -/
theorem tcpReceive_brittle (malloc : Nat → Bool) :
    (tcpReceive malloc served).Brittle Conn.Dead ∧ (tcpReceive malloc served).Frail Conn.Dead := by
  refine ⟨⟨trivial, fun bs => ?_⟩, trivial, nofun⟩
  show (tcpReceivePayload malloc served (WireMsg.ofBytes bs)).Brittle _
  unfold tcpReceivePayload
  split
  · trivial
  · split
    next hwrite => exact ⟨⟨hwrite.1, rfl⟩, fun _ => trivial⟩
    next => trivial

/-- Whatever happens while a response is sent, the thread is done with the request. -/
theorem tcpAnswer_brittle (handled : Handled) :
    ((tcpAnswer served request (some handled)).bind fun s => .ret (Conn.after s)).Brittle
        Conn.Dead ∧
      ((tcpAnswer served request (some handled)).bind fun s => .ret (Conn.after s)).Frail
        Conn.Dead := by
  refine ⟨⟨trivial, ?_⟩, fun sent => ?_⟩
  · show ((ite _ _ _ : Prog (Sock UInt8) ServerState).bind _).Brittle _
    split
    · trivial
    · split
      · exact ⟨trivial, trivial⟩
      · trivial
  · cases sent with
    | false => trivial
    | true =>
        show ((ite _ _ _ : Prog (Sock UInt8) ServerState).bind _).Frail _
        split
        · trivial
        · split
          · intro sent
            cases sent <;> trivial
          · trivial

/-- The bytes of a request. -/
def OnSessions.requestBytes (O : OnSessions S) (session : Nat → TcpSession) (c : S.Call) :
    List UInt8 :=
  ((O.made c).request (session (O.mn c))).toBytes ++ (O.made c).payload.getD []

/-- The compute node waits for a response. -/
def OnSessions.awaitReply (O : OnSessions S) (session : Nat → TcpSession) (c : S.Call) :
    Prog (Sock UInt8) (S.Reply c) :=
  (tcpReply (O.made c).wanted).bind fun reply =>
    .ret (O.returned c ((O.made c).finish (session (O.mn c)) reply))

/-- A request that has been collected. -/
def OnSessions.collected (O : OnSessions S) (session : Nat → TcpSession) (served : Nat)
    (c : S.Call) : Conn :=
  .received served ((O.made c).request (session (O.mn c))) (O.made c).payload

/-- The thread is asked to evict by a call that evicts. -/
theorem OnSessions.collected_evicts (c : S.Call) :
    (O.collected session served c).Evicts ↔ O.made c = .evict := by
  unfold OnSessions.collected Conn.Evicts
  cases O.made c <;> simp [SessionCall.request, TcpSession.request]

/-- A section, and what the compute node makes of its response. -/
theorem SessionCall.act_spec (hmalloc : ∀ n, env.malloc n = true) (c : SessionCall)
    {session : TcpSession} {mn : Nat} {rs rs' : Nat → Region} {n' : Conn}
    (hact : Conn.Act (fun _ => env) mn (.received served (c.request session) c.payload) rs n' rs') :
    rs' = Function.update rs mn (c.atOnce (rs mn)).2 ∧ ∃ handled,
      n' = .answering served (c.request session) handled ∧
        (c.finish session (some (handled.response, handled.data))).toOption = (c.atOnce (rs mn)).1 ∧
        handled.data.length = if c.wanted then handled.response.length.toNat else 0 := by
  cases hact with
  | @handle _ _ _ handled _ profile hop hhandle =>
      have hc : c ≠ .evict := by
        rintro rfl
        exact hop (by simp [SessionCall.request, TcpSession.request])
      have hmalloc' : ∀ n, ({ env with profile := profile } : ServerEnv).malloc n = true := hmalloc
      have hdirect : c.direct { env with profile := profile } (rs mn) =
          some ((c.atOnce (rs mn)).1, (c.atOnce (rs mn)).2) := c.direct_eq _ (rs mn) hc
      obtain ⟨handled', hhandle', hregion, hvalue, hdata⟩ := c.handle_spec hmalloc' session hdirect
      cases hhandle.symm.trans hhandle'
      exact ⟨by rw [hregion], handled, rfl, hvalue, hdata⟩
  | evicted profile hop =>
      obtain rfl : c = .evict := by
        cases c <;> simp [SessionCall.request, TcpSession.request] at hop ⊢
      refine ⟨(Function.update_eq_self ..).symm, _, rfl, ?_, rfl⟩
      rw [SessionCall.finish, Handled.plain, accepted_of_status (WireMsg.status_withProfile ..)]
      rfl

/-- There is a section for every request. -/
theorem SessionCall.exists_act (hmalloc : ∀ n, env.malloc n = true) (c : SessionCall)
    (session : TcpSession) (served mn : Nat) (rs : Nat → Region) :
    ∃ n' rs', Conn.Act (fun _ => env) mn (.received served (c.request session) c.payload) rs n'
      rs' := by
  by_cases hc : c = .evict
  · subst hc
    exact ⟨_, _, .evicted env.profile (by simp [SessionCall.request, TcpSession.request])⟩
  · obtain ⟨handled, hhandle, _⟩ := c.handle_spec hmalloc session
      (c.direct_eq env (rs mn) hc)
    refine ⟨_, _, .handle env.profile ?_ hhandle⟩
    cases c <;> simp [SessionCall.request, TcpSession.request] at hc ⊢

/-- A thread that has collected the request of a call carries it out. -/
theorem sessionService_carries {ι : Type} (sessions : ι → Nat → TcpSession) (hO : O.Does h)
    (hmalloc : ∀ n, env.malloc n = true) (session : Nat → TcpSession) (c : S.Call) :
    (sessionService O env sessions).Carries h Conn.Ready c (O.awaitReply session c)
      (O.collected session served c) := by
  refine ⟨rfl, fun rs => (O.made c).exists_act hmalloc .., fun rs n' rs' hact => ?_⟩
  obtain ⟨hrs, handled, rfl, hvalue, hdata⟩ := (O.made c).act_spec hmalloc hact
  rw [hO.does c rs _ hvalue]
  refine ⟨hrs, handled.response.toBytes ++ handled.data, ⟨⟨_, .ready (served + 1), rfl, ?_,
    trivial⟩, (fun _ _ _ _ hact => nomatch hact), ?_⟩, tcpReply_takes hdata⟩
  · refine (tcpAnswer_offers ?_).bind
    cases O.made c <;> simp [SessionCall.request, TcpSession.request]
  · exact WireMsg.toBytes_append_ne _ _

/-- A call sends its request, and a thread that is ready collects it. -/
theorem sessionService_collects (served : Nat) (hmalloc : ∀ n, env.malloc n = true) (c : S.Call) :
    (O.tcp session c).Offers (O.requestBytes session c) (O.awaitReply session c) ∧
      (tcpReceive env.malloc served).Takes (O.requestBytes session c)
        (.ret (O.collected session served c)) := by
  constructor
  · rw [OnSessions.tcp_eq]
    exact tcpExchange_offers (O.made c).payload_length
  · refine tcpReceive_takes hmalloc ?_ ?_ (O.made c).payload_length
    · cases O.made c <;> rfl
    · cases O.made c <;> simp [SessionCall.payload, SessionCall.request, TcpSession.request]

/-- Over TCP the calls are those of the handler, one call on one session. -/
theorem sessionService_correct {ι : Type} {session : ι → Nat → TcpSession} (hO : O.Does h)
    (hmalloc : ∀ n, env.malloc n = true) :
    (sessionService O env session).Correct h Conn.Ready O.fails Conn.Dead where
  asks i c := by
    refine ⟨O.requestBytes (session i) c, O.awaitReply (session i) c,
      (sessionService_collects 0 hmalloc c).1, WireMsg.toBytes_append_ne _ _,
      ⟨183, _, rfl⟩, fun n hn => ?_⟩
    cases n with
    | ready served =>
        exact ⟨_, O.collected (session i) served c, rfl, (sessionService_collects served hmalloc c).2,
          sessionService_carries session hO hmalloc (session i) c⟩
    | received _ _ _ => exact hn.elim
    | answering _ _ _ => exact hn.elim
    | closed => exact hn.elim
  listens n q hn hq := by
    cases n with
    | ready served =>
        cases hq
        exact ⟨183, _, rfl⟩
    | received _ _ _ => exact hn.elim
    | answering _ _ _ => exact hn.elim
    | closed => exact hn.elim
  still n hn mn rs n' rs' hact := by
    cases hact with
    | handle _ _ _ => exact hn
    | evicted _ _ => exact hn
  gives_up i c := by
    show (O.tcp (session i) c).Brittle _
    rw [OnSessions.tcp_eq, ← hO.failed c (session i (O.mn c))]
    exact (tcpExchange_brittle _).bind_ret fun reply =>
      O.returned c ((O.made c).finish (session i (O.mn c)) reply)
  breaks n q hq := by
    cases n with
    | ready served =>
        cases hq
        exact (tcpReceive_brittle _).1
    | answering served request handled =>
        cases hq
        exact (tcpAnswer_brittle handled).1
    | received _ _ _ => cases hq
    | closed => cases hq
  dead_serve n q hn hq := by
    cases n with
    | ready served =>
        cases hq
        exact (tcpReceive_brittle _).2
    | answering served request handled =>
        cases hq
        exact (tcpAnswer_brittle handled).2
    | received _ _ _ => cases hq
    | closed => cases hq
  dead_act mn n rs n' rs' hn hact := by
    cases hact with
    | @handle _ request payload handled _ profile hop' hh =>
        obtain ⟨hop, rfl⟩ := hn
        simp only [tcpHandle, hop, handleWrite, Option.some.injEq] at hh
        subst hh
        exact ⟨Function.update_eq_self .., trivial⟩
    | evicted _ hop' =>
        obtain ⟨hop, _⟩ := hn
        cases hop.symm.trans hop'

/-- So are the calls on slots. -/
theorem tcpService_correct {ι : Type} {session : ι → Nat → TcpSession}
    {header : Nat → RegionHeader} (hmalloc : ∀ n, env.malloc n = true) :
    (tcpService env session header).Correct (regionHandler header) Conn.Ready Call.failed
      Conn.Dead :=
  sessionService_correct (netCalls_does header) hmalloc

end Service

end TeeDist
