import TeeDist.Server

/-!
# Control messages over RDMA

`transport_rdma.c`: the calls of a compute node that go through the memory node's processor
(`td_rdma_client_cas` and `td_rdma_client_control`), and the loop that answers them.  Each
side has one completion queue for what it sent and what it received, and one buffer for the
next message.

The verbs layer is the environment: it delivers messages into posted buffers and puts
completions into the queues, in any order between sends and receives.  `td_rdma_send_control`
takes completions until it finds that of its send and throws away the others.  So a message
is lost when it completes first (`response_dropped`).  Nothing is lost as long as each send
completes before the next message does (`rdma_nothing_dropped`).
-/

namespace TeeDist

/-! ## The verbs layer -/

/-- `struct ibv_wc`, by its `opcode`.  A receive carries the message it is about. -/
inductive Wc where
  | send
  | recv (msg : WireMsg)
deriving DecidableEq

/-- One side of a connection: `td_rdma_impl_t`, and what the verbs layer has under way for it. -/
structure Port where
  /-- The completion queue, the oldest entry first. -/
  cq : List Wc
  /-- Sends that have not completed. -/
  sends : Nat
  /-- Messages received, whose completions are still to come. -/
  recvs : List WireMsg
  /-- Receives posted and not used. -/
  posted : Nat
  /-- `recv_msg`. -/
  recvMsg : WireMsg
  /-- Messages on their way. -/
  inbox : List WireMsg
  /-- The messages whose completions were taken from the queue, so far. -/
  taken : List WireMsg
  /-- The messages that were processed, so far. -/
  processed : List WireMsg

/-- `td_rdma_setup_qp`, and the first `td_rdma_post_recv`. -/
def Port.fresh : Port := ⟨[], 0, [], 1, .zero, [], [], []⟩

/-- `ibv_poll_cq` for one completion. -/
def Port.pollCq (port : Port) : Option (Wc × Port) :=
  match port.cq with
  | [] => none
  | .send :: cq => some (.send, { port with cq := cq })
  | .recv msg :: cq => some (.recv msg, { port with cq := cq, taken := port.taken ++ [msg] })

/-- `td_rdma_post_recv`. -/
def Port.postRecv (port : Port) : Port := { port with posted := port.posted + 1 }

/-- `ibv_post_send`, at the sender. -/
def Port.postSend (port : Port) : Port := { port with sends := port.sends + 1 }

/-- A message is sent to this side. -/
def Port.arriving (port : Port) (msg : WireMsg) : Port := { port with inbox := port.inbox ++ [msg] }

/-- A message was dealt with. -/
def Port.process (port : Port) (msg : WireMsg) : Port :=
  { port with processed := port.processed ++ [msg] }

/-- The next message comes in, if a receive is posted for it. -/
def Port.deliver (port : Port) : Port :=
  match port.inbox, port.posted with
  | msg :: inbox, posted + 1 =>
      { port with
        inbox := inbox, posted := posted, recvMsg := msg, recvs := port.recvs ++ [msg] }
  | _, _ => port

/-- The oldest send completes. -/
def Port.completeSend (port : Port) : Port :=
  match port.sends with
  | 0 => port
  | sends + 1 => { port with sends := sends, cq := port.cq ++ [.send] }

/-- The oldest receive completes. -/
def Port.completeRecv (port : Port) : Port :=
  match port.recvs with
  | [] => port
  | msg :: recvs => { port with recvs := recvs, cq := port.cq ++ [.recv msg] }

/-! ## The compute node -/

/-- A call of a compute node. -/
inductive RdmaCall where
  | cas (offset compare swap : UInt64)
  | control (op : WireOp)

/-- The request of a call. -/
def RdmaCall.request (profiling : Bool) (c : RdmaCall) : WireMsg :=
  let request : WireMsg :=
    { WireMsg.zero with magic := wireMagic, flags := if profiling then wireFlagProfile else 0 }
  match c with
  | .cas offset compare swap =>
      { request with op := WireOp.cas.code, offset := offset, compare := compare, swap := swap }
  | .control op => { request with op := op.code }

/-- What a call returns for a response: the old value, of a compare-and-swap. -/
def RdmaCall.finish (response : WireMsg) : RdmaCall → Except String (Option UInt64)
  | .cas _ _ _ =>
      if response.status ≠ 0 then .error "rdma cas control failed" else .ok (some response.compare)
  | .control op =>
      if response.status ≠ 0 then
        .error ("rdma control op " ++ toString op.code.toNat ++ " failed")
      else .ok none

/-- Where a compute node is. -/
inductive RdmaClientPhase where
  /-- Between two calls. -/
  | idle
  /-- In `td_rdma_poll_wc` of `td_rdma_send_control`. -/
  | sending (c : RdmaCall)
  /-- In `td_rdma_poll_wc` of `td_rdma_wait_response`. -/
  | awaiting (c : RdmaCall)
  /-- The completion of a message was taken. -/
  | took (c : RdmaCall) (msg : WireMsg)

/-- A compute node's end of a session. -/
structure RdmaClient where
  phase : RdmaClientPhase
  calls : List RdmaCall
  returned : List (Except String (Option UInt64))
  port : Port

/-! ## The memory node -/

/-- Where `td_rdma_server_conn_main` is. -/
inductive RdmaServerPhase where
  /-- At the top of its loop. -/
  | polling
  /-- The completion of a message was taken. -/
  | took (msg : WireMsg)
  /-- The request is copied. -/
  | handling (request : WireMsg)
  /-- In `td_rdma_poll_wc` of `td_rdma_send_control`, and whether the loop ends then. -/
  | sending (last : Bool)
  /-- After the loop. -/
  | stopped

/-- A memory node's end of a session. -/
structure RdmaServer where
  phase : RdmaServerPhase
  region : Region
  port : Port

/-! ## Sessions -/

/-- Both ends of a session. -/
structure RdmaState where
  client : RdmaClient
  server : RdmaServer

/-- A new session with some calls to make. -/
def RdmaState.init (region : Region) (calls : List RdmaCall) : RdmaState :=
  ⟨⟨.idle, calls, [], .fresh⟩, ⟨.polling, region, .fresh⟩⟩

/-- What the compute node does next.  It polls again if its queue is empty. -/
def RdmaState.clientStep (profiling : Bool) (st : RdmaState) : RdmaState :=
  let client := st.client
  match client.phase with
  | .idle =>
      match client.calls with
      | [] => st
      | c :: calls =>
          ⟨{ client with phase := .sending c, calls := calls, port := client.port.postSend },
            { st.server with port := st.server.port.arriving (c.request profiling) }⟩
  | .sending c =>
      match client.port.pollCq with
      | none => st
      | some (.send, port) => { st with client := { client with phase := .awaiting c, port := port } }
      -- not what is waited for: the completion is gone
      | some (.recv _, port) => { st with client := { client with port := port } }
  | .awaiting c =>
      match client.port.pollCq with
      | none => st
      | some (.send, port) => { st with client := { client with port := port } }
      | some (.recv msg, port) =>
          { st with client := { client with phase := .took c msg, port := port } }
  | .took c _ =>
      { st with client :=
        { client with
          phase := .idle
          returned := client.returned ++ [c.finish client.port.recvMsg]
          port := (client.port.process client.port.recvMsg).postRecv } }

/-- What the memory node does next. -/
def RdmaState.serverStep (env : ServerEnv) (st : RdmaState) : RdmaState :=
  let server := st.server
  match server.phase with
  | .polling =>
      match server.port.pollCq with
      | none => st
      | some (.send, port) => { st with server := { server with port := port } }
      | some (.recv msg, port) =>
          { st with server := { server with phase := .took msg, port := port } }
  | .took _ =>
      { st with server :=
        { server with phase := .handling server.port.recvMsg, port := server.port.postRecv } }
  | .handling request =>
      match rdmaHandle env server.region request with
      | none => st
      | some handled =>
          ⟨{ st.client with port := st.client.port.arriving handled.response },
            { phase := .sending (WireOp.ofCode request.op = some .close)
              region := handled.region
              port := (server.port.process request).postSend }⟩
  | .sending last =>
      match server.port.pollCq with
      | none => st
      | some (.send, port) =>
          { st with server :=
            { server with phase := if last then .stopped else .polling, port := port } }
      -- not what is waited for: the completion is gone
      | some (.recv _, port) => { st with server := { server with port := port } }
  | .stopped => st

/-- The two ends. -/
inductive Side where
  | client
  | server
deriving DecidableEq

/-- The port of an end. -/
def RdmaState.port (st : RdmaState) : Side → Port
  | .client => st.client.port
  | .server => st.server.port

/-- Change the port of an end. -/
def RdmaState.mapPort (st : RdmaState) (f : Port → Port) : Side → RdmaState
  | .client => { st with client := { st.client with port := f st.client.port } }
  | .server => { st with server := { st.server with port := f st.server.port } }

/-- A step of one of the ends, or of the verbs layer for one of them.  A step that is not possible
changes nothing. -/
inductive RdmaAction where
  | client (profiling : Bool)
  | server (env : ServerEnv)
  | deliver (side : Side)
  | completeSend (side : Side)
  | completeRecv (side : Side)

/-- One step. -/
def RdmaState.step (st : RdmaState) : RdmaAction → RdmaState
  | .client profiling => st.clientStep profiling
  | .server env => st.serverStep env
  | .deliver side => st.mapPort Port.deliver side
  | .completeSend side => st.mapPort Port.completeSend side
  | .completeRecv side => st.mapPort Port.completeRecv side

/-- Some steps, the first one first. -/
def RdmaState.run (st : RdmaState) : List RdmaAction → RdmaState
  | [] => st
  | a :: actions => (st.step a).run actions

/-! ## Nothing is dropped -/

/-- The message a compute node is about to process. -/
def RdmaClientPhase.underway : RdmaClientPhase → List WireMsg
  | .took _ msg => [msg]
  | _ => []

/-- The message a memory node is about to answer. -/
def RdmaServerPhase.underway : RdmaServerPhase → List WireMsg
  | .took msg => [msg]
  | .handling request => [request]
  | _ => []

/-- On both sides the messages whose completions were taken are those that were processed, one
time each and in order, and one that is about to be. -/
def RdmaState.NothingDropped (st : RdmaState) : Prop :=
  st.client.port.taken = st.client.port.processed ++ st.client.phase.underway ∧
    st.server.port.taken = st.server.port.processed ++ st.server.phase.underway

instance (st : RdmaState) : Decidable st.NothingDropped :=
  inferInstanceAs (Decidable (_ ∧ _))

/-- A receive does not complete while a send of the same side has not. -/
def RdmaState.InOrder (st : RdmaState) : RdmaAction → Prop
  | .completeRecv side => (st.port side).sends = 0
  | _ => True

/-- All completions of a run are in order. -/
def RdmaState.OrderlyRun : RdmaState → List RdmaAction → Prop
  | _, [] => True
  | st, a :: actions => st.InOrder a ∧ (st.step a).OrderlyRun actions

instance (st : RdmaState) : (a : RdmaAction) → Decidable (st.InOrder a)
  | .completeRecv side => inferInstanceAs (Decidable ((st.port side).sends = 0))
  | .client _ | .server _ | .deliver _ | .completeSend _ => isTrue trivial

instance RdmaState.decidableOrderlyRun :
    (st : RdmaState) → (actions : List RdmaAction) → Decidable (st.OrderlyRun actions)
  | _, [] => isTrue trivial
  | st, a :: actions =>
      have := RdmaState.decidableOrderlyRun (st.step a) actions
      inferInstanceAs (Decidable (st.InOrder a ∧ (st.step a).OrderlyRun actions))

/-! ## Where the messages are -/

/-- Where the one message for a side is. -/
inductive Stage where
  | away
  | coming (msg : WireMsg)
  | received (msg : WireMsg)
  | queued (msg : WireMsg)
  | taken (msg : WireMsg)
  | copied (msg : WireMsg)

namespace Stage

/-- The part of `inbox` that is there for it, and so on for the other parts of a port. -/
def inbox : Stage → List WireMsg
  | .coming msg => [msg]
  | _ => []

def recvs : Stage → List WireMsg
  | .received msg => [msg]
  | _ => []

def queue : Stage → List Wc
  | .queued msg => [.recv msg]
  | _ => []

def posted : Stage → Nat
  | .received _ | .queued _ | .taken _ => 0
  | _ => 1

def buffered : Stage → Option WireMsg
  | .received msg | .queued msg | .taken msg => some msg
  | _ => none

def underway : Stage → List WireMsg
  | .taken msg | .copied msg => [msg]
  | _ => []

/-- After `Port.deliver`. -/
def deliver : Stage → Stage
  | .coming msg => .received msg
  | stage => stage

/-- After `Port.completeRecv`. -/
def complete : Stage → Stage
  | .received msg => .queued msg
  | stage => stage

end Stage

/-- Where the completion of a side's last send is. -/
inductive SendStage where
  | none
  | posted
  | queued
deriving DecidableEq

namespace SendStage

def sends : SendStage → Nat
  | .posted => 1
  | _ => 0

def queue : SendStage → List Wc
  | .queued => [.send]
  | _ => []

/-- After `Port.completeSend`. -/
def complete : SendStage → SendStage
  | .posted => .queued
  | out => out

end SendStage

/-- A port with one message, at some stage, and one send.  The send completes first. -/
structure Port.Holds (stage : Stage) (out : SendStage) (port : Port) : Prop where
  inbox : port.inbox = stage.inbox
  recvs : port.recvs = stage.recvs
  posted : port.posted = stage.posted
  sends : port.sends = out.sends
  cq : port.cq = out.queue ++ stage.queue
  buffer : ∀ msg ∈ stage.buffered, port.recvMsg = msg
  log : port.taken = port.processed ++ stage.underway
  order : out = .posted → stage.queue = []

namespace Port.Holds

variable {port : Port} {stage : Stage} {out : SendStage} {msg : WireMsg}

theorem deliver (h : port.Holds stage out) : port.deliver.Holds stage.deliver out := by
  obtain ⟨hinbox, hrecvs, hposted, hsends, hcq, hbuffer, hlog, horder⟩ := h
  cases stage with
  | coming msg =>
      simp only [Port.deliver, hinbox, hposted, Stage.inbox, Stage.posted]
      exact ⟨rfl, by rw [hrecvs]; rfl, rfl, hsends, hcq, by rintro _ ⟨⟩; rfl, hlog, fun _ => rfl⟩
  | away | received | queued | taken | copied =>
      simp only [Port.deliver, hinbox, Stage.inbox]
      exact ⟨hinbox, hrecvs, hposted, hsends, hcq, hbuffer, hlog, horder⟩

theorem completeSend (h : port.Holds stage out) : port.completeSend.Holds stage out.complete := by
  obtain ⟨hinbox, hrecvs, hposted, hsends, hcq, hbuffer, hlog, horder⟩ := h
  cases out with
  | posted =>
      have hqueue := horder rfl
      simp only [Port.completeSend, hsends, SendStage.sends]
      refine ⟨hinbox, hrecvs, hposted, rfl, ?_, hbuffer, hlog, by nofun⟩
      rw [hcq, hqueue]
      rfl
  | none | queued =>
      simp only [Port.completeSend, hsends, SendStage.sends]
      exact ⟨hinbox, hrecvs, hposted, hsends, hcq, hbuffer, hlog, horder⟩

theorem completeRecv (h : port.Holds stage out) (hout : port.sends = 0) :
    port.completeRecv.Holds stage.complete out := by
  obtain ⟨hinbox, hrecvs, hposted, hsends, hcq, hbuffer, hlog, horder⟩ := h
  have hne : out ≠ .posted := by
    rintro rfl
    rw [hsends] at hout
    cases hout
  cases stage with
  | received msg =>
      simp only [Port.completeRecv, hrecvs, Stage.recvs]
      refine ⟨hinbox, rfl, hposted, hsends, ?_, hbuffer, hlog, fun h => absurd h hne⟩
      rw [hcq]
      exact (List.append_assoc ..)
  | away | coming | queued | taken | copied =>
      simp only [Port.completeRecv, hrecvs, Stage.recvs]
      exact ⟨hinbox, hrecvs, hposted, hsends, hcq, hbuffer, hlog, horder⟩

/-- While its send has not completed, a side finds nothing in its queue. -/
theorem pollCq_posted (h : port.Holds stage .posted) : port.pollCq = none := by
  have hcq : port.cq = [] := by
    rw [h.cq, h.order rfl]
    rfl
  rw [Port.pollCq, hcq]

/-- The completion of the send comes first. -/
theorem pollCq_queued (h : port.Holds stage .queued) :
    ∃ port', port.pollCq = some (.send, port') ∧ port'.Holds stage .none := by
  obtain ⟨hinbox, hrecvs, hposted, hsends, hcq, hbuffer, hlog, _⟩ := h
  refine ⟨{ port with cq := stage.queue }, ?_, ?_⟩
  · rw [Port.pollCq, hcq]
    rfl
  · exact ⟨hinbox, hrecvs, hposted, hsends, rfl, hbuffer, hlog, by nofun⟩

/-- Without a send, a side finds its message when it is there. -/
theorem pollCq_none (h : port.Holds stage .none) :
    port.pollCq = none ∨ ∃ msg port', stage = .queued msg ∧ port.pollCq = some (.recv msg, port') ∧
      port'.Holds (.taken msg) .none := by
  obtain ⟨hinbox, hrecvs, hposted, hsends, hcq, hbuffer, hlog, horder⟩ := h
  cases stage with
  | queued msg =>
      refine .inr ⟨msg, { port with cq := [], taken := port.taken ++ [msg] }, rfl, ?_, ?_⟩
      · rw [Port.pollCq, hcq]
        rfl
      · refine ⟨hinbox, hrecvs, hposted, hsends, rfl, hbuffer, ?_, by nofun⟩
        rw [hlog]
        exact congrArg (· ++ [msg]) (List.append_nil _)
  | away | coming | received | taken | copied =>
      left
      rw [Port.pollCq, hcq]
      rfl

theorem postSend (h : port.Holds .away .none) : port.postSend.Holds .away .posted :=
  ⟨h.inbox, h.recvs, h.posted, by rw [Port.postSend, h.sends]; rfl, h.cq, h.buffer, h.log,
    fun _ => rfl⟩

theorem arriving (h : port.Holds .away out) : (port.arriving msg).Holds (.coming msg) out :=
  ⟨by rw [Port.arriving, h.inbox]; rfl, h.recvs, h.posted, h.sends, h.cq, h.buffer, h.log,
    fun _ => rfl⟩

/-- The compute node copies the response and posts the next receive. -/
theorem finish (h : port.Holds (.taken msg) .none) :
    port.recvMsg = msg ∧ ((port.process port.recvMsg).postRecv).Holds .away .none := by
  have hmsg := h.buffer msg rfl
  refine ⟨hmsg, h.inbox, h.recvs, ?_, h.sends, h.cq, by nofun, ?_, by nofun⟩
  · rw [Port.postRecv, Port.process, h.posted]
    rfl
  · rw [Port.postRecv, Port.process, h.log, hmsg]
    exact (List.append_nil _).symm

/-- The memory node copies the request and posts the next receive. -/
theorem copy (h : port.Holds (.taken msg) .none) :
    port.recvMsg = msg ∧ port.postRecv.Holds (.copied msg) .none := by
  refine ⟨h.buffer msg rfl, h.inbox, h.recvs, ?_, h.sends, h.cq, by nofun, h.log, by nofun⟩
  rw [Port.postRecv, h.posted]
  rfl

/-- The memory node answers the request. -/
theorem answer (h : port.Holds (.copied msg) .none) :
    ((port.process msg).postSend).Holds .away .posted := by
  refine ⟨h.inbox, h.recvs, h.posted, ?_, h.cq, by nofun, ?_, fun _ => rfl⟩
  · rw [Port.postSend, Port.process, h.sends]
    rfl
  · rw [Port.postSend, Port.process, h.log]
    exact (List.append_nil _).symm

end Port.Holds

/-- What the phase of the compute node says about the messages. -/
def RdmaClientPhase.Fits (sc ss : Stage) (oc : SendStage) : RdmaClientPhase → Prop
  | .idle => sc = .away ∧ ss = .away ∧ oc = .none
  | .sending _ => (sc = .away ↔ ss ≠ .away) ∧ sc.underway = [] ∧ oc ≠ .none
  | .awaiting _ => (sc = .away ↔ ss ≠ .away) ∧ sc.underway = [] ∧ oc = .none
  | .took _ msg => sc = .taken msg ∧ ss = .away ∧ oc = .none

/-- What the phase of the memory node says about them. -/
def RdmaServerPhase.Fits (ss : Stage) (os : SendStage) : RdmaServerPhase → Prop
  | .polling => ss.underway = [] ∧ os = .none
  | .took msg => ss = .taken msg ∧ os = .none
  | .handling request => ss = .copied request ∧ os = .none
  | .sending _ => ss.underway = [] ∧ os ≠ .none
  | .stopped => ss.underway = [] ∧ os = .none

/-- One message is under way from the start of a call to its end. -/
structure RdmaState.Holds (st : RdmaState) (sc ss : Stage) (oc os : SendStage) : Prop where
  client : st.client.port.Holds sc oc
  server : st.server.port.Holds ss os
  clientPhase : st.client.phase.Fits sc ss oc
  serverPhase : st.server.phase.Fits ss os

/-- The invariant of orderly runs. -/
def RdmaState.Inv (st : RdmaState) : Prop := ∃ sc ss oc os, st.Holds sc ss oc os

section Steps

variable {st : RdmaState} {sc ss : Stage} {oc os : SendStage}

theorem RdmaState.inv_init (region : Region) (calls : List RdmaCall) :
    (RdmaState.init region calls).Inv := by
  have hport : Port.fresh.Holds .away .none :=
    ⟨rfl, rfl, rfl, rfl, rfl, by nofun, rfl, fun _ => rfl⟩
  exact ⟨.away, .away, .none, .none, hport, hport, ⟨rfl, rfl, rfl⟩, ⟨rfl, rfl⟩⟩

theorem RdmaState.Inv.nothingDropped (h : st.Inv) : st.NothingDropped := by
  obtain ⟨sc, ss, oc, os, hc, hs, hcp, hsp⟩ := h
  refine ⟨?_, ?_⟩
  · rw [hc.log]
    congr 1
    revert hcp
    cases st.client.phase with
    | idle => rintro ⟨rfl, _⟩; rfl
    | sending c => rintro ⟨_, h, _⟩; exact h
    | awaiting c => rintro ⟨_, h, _⟩; exact h
    | took c msg => rintro ⟨rfl, _⟩; rfl
  · rw [hs.log]
    congr 1
    revert hsp
    cases st.server.phase with
    | polling => rintro ⟨h, _⟩; exact h
    | took msg => rintro ⟨rfl, _⟩; rfl
    | handling request => rintro ⟨rfl, _⟩; rfl
    | sending last => rintro ⟨h, _⟩; exact h
    | stopped => rintro ⟨h, _⟩; exact h

/-- A message on its way changes nothing for a memory node that waits. -/
theorem RdmaServerPhase.Fits.coming {phase : RdmaServerPhase} {msg : WireMsg}
    (h : phase.Fits .away os) : phase.Fits (.coming msg) os := by
  cases phase with
  | polling => exact h
  | took msg => cases h.1
  | handling request => cases h.1
  | sending last => exact h
  | stopped => exact h

theorem RdmaState.Inv.clientStep (h : st.Inv) (profiling : Bool) : (st.clientStep profiling).Inv := by
  have hinv := h
  obtain ⟨⟨phase, calls, returned, cport⟩, ⟨sphase, region, sport⟩⟩ := st
  obtain ⟨sc, ss, oc, os, hc, hs, hcp, hsp⟩ := h
  simp only [] at hc hs hcp hsp
  cases phase with
  | idle =>
      obtain ⟨rfl, rfl, rfl⟩ := hcp
      cases calls with
      | nil => exact hinv
      | cons c calls =>
          exact ⟨.away, .coming _, .posted, os, hc.postSend, hs.arriving, ⟨by simp, rfl, nofun⟩,
            RdmaServerPhase.Fits.coming hsp⟩
  | sending c =>
      obtain ⟨hone, hunder, hoc⟩ := hcp
      cases oc with
      | none => exact absurd rfl hoc
      | posted =>
          simp only [RdmaState.clientStep, hc.pollCq_posted]
          exact hinv
      | queued =>
          obtain ⟨port, hpoll, hport⟩ := hc.pollCq_queued
          simp only [RdmaState.clientStep, hpoll]
          exact ⟨sc, ss, .none, os, hport, hs, ⟨hone, hunder, rfl⟩, hsp⟩
  | awaiting c =>
      obtain ⟨hone, hunder, rfl⟩ := hcp
      obtain hpoll | ⟨msg, port, rfl, hpoll, hport⟩ := hc.pollCq_none
      · simp only [RdmaState.clientStep, hpoll]
        exact hinv
      · have hss : ss = .away := by
          by_contra hne
          cases hone.mpr hne
        simp only [RdmaState.clientStep, hpoll]
        exact ⟨.taken msg, ss, .none, os, hport, hs, ⟨rfl, hss, rfl⟩, hsp⟩
  | took c msg =>
      obtain ⟨rfl, rfl, rfl⟩ := hcp
      exact ⟨.away, .away, .none, os, hc.finish.2, hs, ⟨rfl, rfl, rfl⟩, hsp⟩

/-- The phase of the compute node does not depend on where the message is on the other side. -/
theorem RdmaClientPhase.Fits.other {phase : RdmaClientPhase} (h : phase.Fits sc ss oc) {ss' : Stage}
    (haway : ss' = .away ↔ ss = .away) : phase.Fits sc ss' oc := by
  cases phase with
  | idle => exact ⟨h.1, haway.mpr h.2.1, h.2.2⟩
  | sending c => exact ⟨h.1.trans (not_congr haway).symm, h.2⟩
  | awaiting c => exact ⟨h.1.trans (not_congr haway).symm, h.2⟩
  | took c msg => exact ⟨h.1, haway.mpr h.2.1, h.2.2⟩

/-- An answer that goes to the compute node. -/
theorem RdmaClientPhase.Fits.answered {phase : RdmaClientPhase} (h : phase.Fits sc ss oc)
    (hss : ss ≠ .away) (msg : WireMsg) : sc = .away ∧ phase.Fits (.coming msg) .away oc := by
  cases phase with
  | idle => exact absurd h.2.1 hss
  | sending c => exact ⟨h.1.mpr hss, ⟨⟨nofun, fun h => absurd rfl h⟩, rfl, h.2.2⟩⟩
  | awaiting c => exact ⟨h.1.mpr hss, ⟨⟨nofun, fun h => absurd rfl h⟩, rfl, h.2.2⟩⟩
  | took c msg => exact absurd h.2.1 hss

theorem RdmaState.Inv.serverStep (h : st.Inv) (env : ServerEnv) : (st.serverStep env).Inv := by
  have hinv := h
  obtain ⟨⟨phase, calls, returned, cport⟩, ⟨sphase, region, sport⟩⟩ := st
  obtain ⟨sc, ss, oc, os, hc, hs, hcp, hsp⟩ := h
  simp only [] at hc hs hcp hsp
  cases sphase with
  | polling =>
      obtain ⟨hunder, rfl⟩ := hsp
      obtain hpoll | ⟨msg, port, rfl, hpoll, hport⟩ := hs.pollCq_none
      · simp only [RdmaState.serverStep, hpoll]
        exact hinv
      · simp only [RdmaState.serverStep, hpoll]
        exact ⟨sc, .taken msg, oc, .none, hc, hport, hcp.other (by simp), ⟨rfl, rfl⟩⟩
  | took msg =>
      obtain ⟨rfl, rfl⟩ := hsp
      obtain ⟨hmsg, hport⟩ := hs.copy
      exact ⟨sc, .copied msg, oc, .none, hc, hport, hcp.other (by simp), ⟨by rw [hmsg], rfl⟩⟩
  | handling request =>
      obtain ⟨rfl, rfl⟩ := hsp
      cases hhandle : rdmaHandle env region request with
      | none =>
          simp only [RdmaState.serverStep, hhandle]
          exact hinv
      | some handled =>
          obtain ⟨rfl, hcp'⟩ := hcp.answered nofun handled.response
          simp only [RdmaState.serverStep, hhandle]
          exact ⟨.coming handled.response, .away, oc, .posted, hc.arriving, hs.answer, hcp',
            ⟨rfl, nofun⟩⟩
  | sending last =>
      obtain ⟨hunder, hos⟩ := hsp
      cases os with
      | none => exact absurd rfl hos
      | posted =>
          simp only [RdmaState.serverStep, hs.pollCq_posted]
          exact hinv
      | queued =>
          obtain ⟨port, hpoll, hport⟩ := hs.pollCq_queued
          simp only [RdmaState.serverStep, hpoll]
          refine ⟨sc, ss, oc, .none, hc, hport, hcp, ?_⟩
          cases last with
          | true => exact ⟨hunder, rfl⟩
          | false => exact ⟨hunder, rfl⟩
  | stopped => exact hinv

/-- A stage that `deliver` and `complete` lead to stands for the same message. -/
structure Stage.Same (stage stage' : Stage) : Prop where
  away : stage' = .away ↔ stage = .away
  underway : stage'.underway = stage.underway
  held : ∀ msg, (stage = .taken msg → stage' = .taken msg) ∧ (stage = .copied msg → stage' = .copied msg)

theorem Stage.same_deliver (stage : Stage) : stage.Same stage.deliver := by
  cases stage <;> exact ⟨by simp [Stage.deliver], rfl, by simp [Stage.deliver]⟩

theorem Stage.same_complete (stage : Stage) : stage.Same stage.complete := by
  cases stage <;> exact ⟨by simp [Stage.complete], rfl, by simp [Stage.complete]⟩

theorem SendStage.complete_eq_none (out : SendStage) : out.complete = .none ↔ out = .none := by
  cases out <;> simp [SendStage.complete]

theorem RdmaClientPhase.Fits.same {phase : RdmaClientPhase} (h : phase.Fits sc ss oc) {sc' : Stage}
    (hsame : sc.Same sc') {oc' : SendStage} (hout : oc' = .none ↔ oc = .none) :
    phase.Fits sc' ss oc' := by
  cases phase with
  | idle => exact ⟨hsame.away.mpr h.1, h.2.1, hout.mpr h.2.2⟩
  | sending c => exact ⟨hsame.away.trans h.1, hsame.underway.trans h.2.1, mt hout.mp h.2.2⟩
  | awaiting c => exact ⟨hsame.away.trans h.1, hsame.underway.trans h.2.1, hout.mpr h.2.2⟩
  | took c msg => exact ⟨(hsame.held msg).1 h.1, h.2.1, hout.mpr h.2.2⟩

theorem RdmaServerPhase.Fits.same {phase : RdmaServerPhase} (h : phase.Fits ss os) {ss' : Stage}
    (hsame : ss.Same ss') {os' : SendStage} (hout : os' = .none ↔ os = .none) :
    phase.Fits ss' os' := by
  cases phase with
  | polling => exact ⟨hsame.underway.trans h.1, hout.mpr h.2⟩
  | took msg => exact ⟨(hsame.held msg).1 h.1, hout.mpr h.2⟩
  | handling request => exact ⟨(hsame.held request).2 h.1, hout.mpr h.2⟩
  | sending last => exact ⟨hsame.underway.trans h.1, mt hout.mp h.2⟩
  | stopped => exact ⟨hsame.underway.trans h.1, hout.mpr h.2⟩

/-- A step of the verbs layer. -/
theorem RdmaState.Inv.mapPort (h : st.Inv) {f : Port → Port} {side : Side}
    (hf : ∀ stage out, (st.port side).Holds stage out → ∃ stage' out',
      (f (st.port side)).Holds stage' out' ∧ stage.Same stage' ∧ (out' = .none ↔ out = .none)) :
    (st.mapPort f side).Inv := by
  obtain ⟨sc, ss, oc, os, hc, hs, hcp, hsp⟩ := h
  cases side with
  | client =>
      obtain ⟨sc', oc', hc', hsame, hout⟩ := hf sc oc hc
      exact ⟨sc', ss, oc', os, hc', hs, hcp.same hsame hout, hsp⟩
  | server =>
      obtain ⟨ss', os', hs', hsame, hout⟩ := hf ss os hs
      exact ⟨sc, ss', oc, os', hc, hs', hcp.other hsame.away, hsp.same hsame hout⟩

theorem Stage.same_refl (stage : Stage) : stage.Same stage :=
  ⟨Iff.rfl, rfl, fun _ => ⟨id, id⟩⟩

/-- An orderly step keeps the invariant. -/
theorem RdmaState.Inv.step (h : st.Inv) {a : RdmaAction} (horder : st.InOrder a) :
    (st.step a).Inv := by
  cases a with
  | client profiling => exact h.clientStep profiling
  | server env => exact h.serverStep env
  | deliver side =>
      exact h.mapPort fun stage out hp => ⟨_, out, hp.deliver, stage.same_deliver, Iff.rfl⟩
  | completeSend side =>
      exact h.mapPort fun stage out hp =>
        ⟨stage, _, hp.completeSend, stage.same_refl, out.complete_eq_none⟩
  | completeRecv side =>
      exact h.mapPort fun stage out hp =>
        ⟨_, out, hp.completeRecv horder, stage.same_complete, Iff.rfl⟩

theorem RdmaState.Inv.run (h : st.Inv) : ∀ {actions : List RdmaAction}, st.OrderlyRun actions →
    (st.run actions).Inv := by
  intro actions
  induction actions generalizing st with
  | nil => exact fun _ => h
  | cons a actions ih => exact fun horderly => ih (h.step horderly.1) horderly.2

end Steps

/-- In a run in which no message completes before the send that precedes it, no message is
dropped: every one whose completion is taken is processed, once. -/
theorem rdma_nothing_dropped (region : Region) (calls : List RdmaCall) (actions : List RdmaAction)
    (horderly : (RdmaState.init region calls).OrderlyRun actions) :
    ((RdmaState.init region calls).run actions).NothingDropped :=
  ((RdmaState.inv_init region calls).run horderly).nothingDropped

/-- A request is sent, received, and answered. -/
def requestAnswered : List RdmaAction :=
  [.client false, .completeSend .client, .deliver .server, .completeRecv .server,
    .server .plentiful, .server .plentiful, .server .plentiful]

/-- The answer goes back. -/
def answerReturned : List RdmaAction :=
  [.completeSend .server, .deliver .client, .completeRecv .client, .client false, .client false,
    .client false, .server .plentiful]

/-- Two calls whose completions come in order. -/
theorem rdma_nothing_dropped_twice :
    ((RdmaState.init (Region.create ⟨4096, 0, 4, 1, 4, 256, 1⟩)
        [.cas 88 0 1, .control .evict]).run
      (requestAnswered ++ answerReturned ++ requestAnswered ++ answerReturned)).client.returned =
        [.ok (some 0), .ok none] ∧
    ((RdmaState.init (Region.create ⟨4096, 0, 4, 1, 4, 256, 1⟩)
        [.cas 88 0 1, .control .evict]).run
      (requestAnswered ++ answerReturned ++ requestAnswered ++ answerReturned)).NothingDropped :=
  ⟨by decide +kernel, rdma_nothing_dropped _ _ _ (by decide +kernel)⟩

/-- The answer completes before the send of the request: the compute node takes it from the queue
while it looks for the send, and it is gone. -/
theorem response_dropped :
    ¬ ∀ (region : Region) (calls : List RdmaCall) (actions : List RdmaAction),
        ((RdmaState.init region calls).run actions).NothingDropped := by
  intro h
  have := h (Region.create ⟨4096, 0, 4, 1, 4, 256, 1⟩) [.cas 88 0 1]
    [.client false, .deliver .server, .completeRecv .server, .server .plentiful,
      .server .plentiful, .server .plentiful, .deliver .client, .completeRecv .client,
      .client false]
  revert this
  decide

end TeeDist
