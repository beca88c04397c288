import TeeDist.Lifecycle
import TeeDist.Session

/-!
# The handshake over TCP

The first request on a connection is `TD_WIRE_HELLO`.  Its response brings the header of the region,
from which a compute node computes where the slots are.  However the streams cut the bytes, the
session that `td_tcp_client_connect` returns has the header of the memory node's region
(`hello_header`).
-/

namespace TeeDist

open Bytes Calls CText

/-- The request of `td_tcp_client_connect`. -/
def helloRequest : WireMsg := { WireMsg.zero with magic := wireMagic, op := WireOp.hello.code }

/-- The exchange of `td_tcp_client_connect`, once. -/
def helloNext : Option (Option WireMsg) → Option (Prog (Sock UInt8) (Option (Option WireMsg)))
  | none => some do
      let reply ← tcpExchange helloRequest none false
      return some (reply.map Prod.fst)
  | some _ => none

section Hello

variable {env : ServerEnv} {clock : Nat → ServerProfile} {cap served : Nat} {region : Region}

/-- What the memory node answers. -/
def helloHandled (env : ServerEnv) (region : Region) : Handled :=
  .plain env helloRequest { helloRequest.ackFor with header := region.header } region

theorem helloHandled_status : (helloHandled env region).response.status = 0 :=
  WireMsg.status_withProfile ..

theorem helloHandled_header : (helloHandled env region).response.header = region.header := by
  unfold helloHandled Handled.plain WireMsg.withProfile
  split <;> rfl

/-- The handshake is a round. -/
theorem hello_round :
    Round helloNext (ServerState.next env clock) none (.ready served region) helloRequest.toBytes
      (helloHandled { env with profile := clock served } region).response.toBytes
      (some (some (helloHandled { env with profile := clock served } region).response))
      (.ready (served + 1) region) := by
  generalize henv : ({ env with profile := clock served } : ServerEnv) = env'
  let finish : Option (WireMsg × List UInt8) → Prog (Sock UInt8) (Option (Option WireMsg)) :=
    fun reply => .ret (some (reply.map Prod.fst))
  have hask : ((tcpExchange helloRequest none false).bind finish).Offers (helloRequest.toBytes ++ [])
      ((tcpReply false).bind finish) := tcpExchange_offers fun bs hbs => by cases hbs
  have hhear : ((tcpReply false).bind finish).Takes
      ((helloHandled env' region).response.toBytes ++ [])
      (.ret (some (some (helloHandled env' region).response))) := tcpReply_takes rfl
  have hserve : (tcpServe env' served region).Takes (helloRequest.toBytes ++ [])
      (tcpAnswer served helloRequest (some (helloHandled env' region))) := by
    have hmagic : helloRequest.magic = wireMagic := rfl
    refine .block helloRequest.length_toBytes ?_
    show (tcpServeRequest env' served region (WireMsg.ofBytes helloRequest.toBytes)).Takes _ _
    rw [WireMsg.ofBytes_toBytes, tcpServeRequest, if_neg (not_not.mpr hmagic),
      if_neg fun h => by simpa [helloRequest] using h.1]
    exact .nil
  have hanswer : (tcpAnswer served helloRequest (some (helloHandled env' region))).Offers
      ((helloHandled env' region).response.toBytes ++ []) (.ret (.ready (served + 1) region)) :=
    tcpAnswer_offers (by simp [helloRequest])
  rw [List.append_nil] at hask hhear hserve hanswer
  have hne : ∀ m : WireMsg, m.toBytes ≠ [] := by
    intro m
    have h := m.toBytes_append_ne []
    rwa [List.append_nil] at h
  subst henv
  exact ⟨⟨_, _, rfl, hask, hhear⟩, ⟨_, _, rfl, hserve, hanswer⟩, hne _, hne _⟩

/-- What the two sides have after the handshake. -/
def Greeted (region : Region) (served : Nat) (m : Option (Option WireMsg)) (s : ServerState) : Prop :=
  match m with
  | none => s = .ready served region
  | some reply => s = .ready (served + 1) region ∧
      ∃ response, reply = some response ∧ response.status = 0 ∧ response.header = region.header

end Hello

/-- A connection to a memory node over TCP, however the streams cut the bytes and signals interrupt
the calls.  The handshake comes to its end; then the streams are empty, the memory node waits for the
next request with its region as it was, and `td_tcp_client_connect` returns a session that has the
header of this region. -/
theorem hello_header (env : ServerEnv) (clock : Nat → ServerProfile) (cap : Nat) (hcap : 0 < cap)
    (region : Region) :
    (∀ c reply, Conversation.Run helloNext (ServerState.next env clock) cap
        (.init none (.ready 0 region)) c → c.client = .between (some reply) →
        c.toServer = [] ∧ c.toClient = [] ∧
          c.server.Poised (ServerState.next env clock) (.ready 1 region) ∧
          ∀ e fd impl, ∃ session, (tcpGreet e fd impl).Answers [⟨.hello [(.socket, some fd)], reply⟩]
            (.ok session) ∧ session.header = region.header) ∧
      LeadsTo (Conversation.Step helloNext (ServerState.next env clock) cap true)
        (fun c => ∃ reply, c.client = .between (some reply)) (.init none (.ready 0 region)) := by
  have hround : ∀ m s, Greeted region 0 m s → helloNext m = none ∨
      ∃ us vs m' s', Round helloNext (ServerState.next env clock) m s us vs m' s' ∧
        Greeted region 0 m' s' ∧ (if m'.isSome then 0 else 1) < (if m.isSome then 0 else 1) := by
    rintro m s hm
    cases m with
    | some reply => exact .inl rfl
    | none =>
        obtain rfl : s = .ready 0 region := hm
        exact .inr ⟨_, _, _, _, hello_round,
          ⟨rfl, _, rfl, helloHandled_status, helloHandled_header⟩, by simp⟩
  have hstart : Greeted region 0 none (.ready 0 region) := rfl
  constructor
  · intro c reply hrun hc
    obtain ⟨hserver, hclient, s, hpoised, hs⟩ :=
      Conversation.rounds_between ServerState.next_listens hround hstart hrun hc
    obtain ⟨rfl, response, rfl, hstatus, hheader⟩ := hs
    refine ⟨hserver, hclient, hpoised, fun e fd impl => ⟨.tcp fd impl response, ?_, hheader⟩⟩
    refine .call _ ?_
    show Prog.Answers (if response.status ≠ 0 then _ else _) _ _
    rw [if_neg (not_not.mpr hstatus)]
    exact .ret _
  · refine (Conversation.rounds_lead ServerState.next_listens hround hcap hstart).mono fun c hc => ?_
    obtain ⟨m, hm, hnext⟩ := hc
    cases m with
    | none => cases hnext
    | some reply => exact ⟨reply, hm⟩

/-- Over streams that hold one byte, the handshake ends with a session that has the header of the
region. -/
theorem hello_header_bytewise :
    ∃ c session reply, Conversation.Run helloNext
        (ServerState.next .plentiful fun _ => ⟨4, 3, 2, 1⟩) 1
        (.init none (.ready 0 (Region.create ⟨4096, 0, 4, 1, 4, 256, 1⟩))) c ∧
      c.client = .between (some reply) ∧
        (tcpGreet ⟨ascii "mn0", 7000, 0⟩ 3 4).Answers [⟨.hello [(.socket, some 3)], reply⟩]
          (.ok session) ∧ session.header.primeSlotCount = 4 := by
  obtain ⟨hends, hleads⟩ := hello_header .plentiful (fun _ => ⟨4, 3, 2, 1⟩) 1 (by decide)
    (Region.create ⟨4096, 0, 4, 1, 4, 256, 1⟩)
  obtain ⟨c, hrun, reply, hc⟩ := hleads.run
  obtain ⟨_, _, _, hsession⟩ := hends c reply hrun hc
  obtain ⟨session, hgreet, hheader⟩ := hsession ⟨ascii "mn0", 7000, 0⟩ 3 4
  refine ⟨c, session, reply, hrun, hc, hgreet, ?_⟩
  rw [hheader]
  rfl

end TeeDist
