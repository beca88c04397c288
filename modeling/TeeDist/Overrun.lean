import TeeDist.Session

/-!
# The buffer of a read

`td_tcp_client_read` takes the number of bytes it puts into the caller's buffer from the
response.  Nothing compares that number with the size of the buffer, so what a read does is up
to the memory node: `client_read_exact_iff` says which replies leave it with what it asked for.
-/

namespace TeeDist

open Bytes Calls

/-- The response at the beginning of a reply. -/
def replyHead (reply : List UInt8) : WireMsg := WireMsg.ofBytes (reply.take wireBytes)

/-- The bytes of a reply after the response. -/
def replyTail (reply : List UInt8) : List UInt8 := reply.drop wireBytes

/-- A compute node that enters `td_tcp_client_read`. -/
def readStart (session : TcpSession) (offset len : UInt64) :
    Party UInt8 (Except String (List UInt8)) :=
  .enter (tcpClientRead session offset len)

/-- What a read has stored into `buf`.  The first block is received into `response`. -/
def intoBuf (session : TcpSession) (offset len : UInt64) (rs : List (SysResult UInt8)) :
    List UInt8 :=
  ((readStart session offset len).stored rs).tail.flatten

/-- `td_tcp_client_read` has returned 0. -/
def ReadReturns (session : TcpSession) (offset len : UInt64) (rs : List (SysResult UInt8)) : Prop :=
  ∃ data, (readStart session offset len).after rs = .between (.ok data)

/-- A read takes what it asked for, whatever its system calls come back with: it stores no more
than `len` bytes, and just `len` bytes if it returns 0. -/
def ReadsExactly (session : TcpSession) (offset len : UInt64) (reply : List UInt8) : Prop :=
  ∀ rs, (readStart session offset len).Hears reply rs →
    (intoBuf session offset len rs).length ≤ len.toNat ∧
      (ReadReturns session offset len rs → (intoBuf session offset len rs).length = len.toNat)

/-- A reply with more bytes than the buffer takes: the response announces them, and they come. -/
def Overruns (len : UInt64) (reply : List UInt8) : Prop :=
  wireBytes ≤ reply.length ∧ len.toNat < (replyHead reply).length.toNat ∧
    len.toNat < (replyTail reply).length

/-- A reply that is accepted with fewer bytes than were asked for. -/
def FallsShort (len : UInt64) (reply : List UInt8) : Prop :=
  wireBytes ≤ reply.length ∧ (replyHead reply).status = 0 ∧
    (replyHead reply).length.toNat < len.toNat ∧
    (replyHead reply).length.toNat ≤ (replyTail reply).length

/-! ## The two halves of a read -/

section Halves

variable {session : TcpSession} {offset len : UInt64} {reply : List UInt8}

/-- What a read returns for the result of its exchange. -/
def readResult (session : TcpSession) (result : Option (WireMsg × List UInt8)) :
    Except String (List UInt8) :=
  (accepted ("tcp read failed for node " ++ toString session.nodeId) result).map (·.2)

/-- A read after it has waited for the data. -/
def onData (session : TcpSession) (response : WireMsg) :
    Option (List UInt8) → Prog (Sock UInt8) (Except String (List UInt8))
  | none => .ret (readResult session none)
  | some bs => .ret (readResult session (some (response, bs)))

/-- A read once the response is there. -/
def awaitData (session : TcpSession) (response : WireMsg) :
    Prog (Sock UInt8) (Except String (List UInt8)) :=
  (tcpReplyData true response).bind fun result => .ret (readResult session result)

/-- A read after it has waited for the response. -/
def onResponse (session : TcpSession) :
    Option (List UInt8) → Prog (Sock UInt8) (Except String (List UInt8))
  | none => .ret (readResult session none)
  | some bs => awaitData session (WireMsg.ofBytes bs)

/-- A read after it has sent its request, or failed to. -/
def onRequest (session : TcpSession) (sent : Bool) :
    Prog (Sock UInt8) (Except String (List UInt8)) :=
  if sent then .call (.recvAll wireBytes) (onResponse session) else .ret (readResult session none)

theorem readStart_eq (session : TcpSession) (offset len : UInt64) :
    readStart session offset len =
      .sending ((SessionCall.read offset len).request session).toBytes (onRequest session) := by
  have hne : ((SessionCall.read offset len).request session).toBytes ≠ [] := by
    intro hnil
    have hlen := ((SessionCall.read offset len).request session).length_toBytes
    rw [hnil] at hlen
    cases hlen
  rw [← Party.enter_sendAll _ hne]
  refine congrArg Party.enter (congrArg (Prog.call _) ?_)
  funext sent
  cases sent with
  | false => rfl
  | true =>
      refine congrArg (Prog.call _) ?_
      funext got
      cases got <;> rfl

theorem enter_onRequest (session : TcpSession) :
    Party.enter (onRequest session true) = .receiving wireBytes [] (onResponse session) := rfl

theorem enter_awaitData {response : WireMsg} (h : 0 < response.length.toNat) :
    Party.enter (awaitData session response) =
      .receiving response.length.toNat [] (onData session response) := by
  rw [← Party.enter_recvAll _ h]
  refine congrArg Party.enter ?_
  unfold awaitData tcpReplyData
  rw [if_pos (by simpa using h)]
  refine congrArg (Prog.call _) ?_
  funext got
  cases got <;> rfl

theorem awaitData_nothing {response : WireMsg} (h : response.length.toNat = 0) :
    awaitData session response = .ret (readResult session (some (response, []))) := by
  unfold awaitData tcpReplyData
  rw [if_neg (by simp [h])]
  rfl

/-- A read is accepted by its status alone. -/
theorem readResult_ok {result : Option (WireMsg × List UInt8)}
    {data : List UInt8} (h : readResult session result = .ok data) :
    ∃ response, result = some (response, data) ∧ response.status = 0 := by
  cases result with
  | none => cases h
  | some r =>
      obtain ⟨response, bs⟩ := r
      by_cases hstatus : response.status = 0
      · rw [readResult, accepted_of_status hstatus] at h
        cases h
        exact ⟨response, rfl, hstatus⟩
      · rw [readResult, accepted, if_pos hstatus] at h
        cases h

/-- What the second half of a read stores. -/
theorem awaitData_stores {response : WireMsg} {inc : List UInt8} {rs : List (SysResult UInt8)}
    (h : (Party.enter (awaitData session response)).Hears inc rs) :
    ((Party.enter (awaitData session response)).stored rs).flatten.length ≤
        min response.length.toNat inc.length ∧
      ∀ data, (Party.enter (awaitData session response)).after rs = .between (.ok data) →
        response.status = 0 ∧ response.length.toNat ≤ inc.length ∧
        ((Party.enter (awaitData session response)).stored rs).flatten.length =
          response.length.toNat := by
  by_cases hlen : response.length.toNat = 0
  · rw [awaitData_nothing hlen]
    obtain ⟨hafter, hstored⟩ := Party.between_idle
      (readResult session (some (response, []))) rs
    simp only [Party.enter, hstored, hafter]
    refine ⟨Nat.zero_le _, fun data hdata => ?_⟩
    obtain ⟨response', hr, hstatus⟩ := readResult_ok (Party.between.inj hdata)
    cases hr
    exact ⟨hstatus, by omega, hlen.symm⟩
  · rw [enter_awaitData (Nat.pos_of_ne_zero hlen)] at h ⊢
    obtain ⟨bs, hpre, hlt, hstored, n', hafter⟩ | ⟨bs, rs', hpre, hlt, hstored, hafter⟩ |
        ⟨bs, inc', rs', rfl, hbs, hrest, hstored, hafter⟩ :=
      h.receiving_cases (Nat.pos_of_ne_zero hlen)
    · have hle := hpre.length_le
      rw [hstored, hafter]
      refine ⟨?_, fun data hdata => by cases hdata⟩
      simp only [List.nil_append, List.flatten_singleton]
      omega
    · have hle := hpre.length_le
      obtain ⟨hend, hnone⟩ := Party.between_idle (readResult session none) rs'
      rw [hstored, hafter]
      simp only [onData, List.nil_append, Party.enter, hend, hnone, List.flatten_singleton]
      refine ⟨by omega, fun data hdata => ?_⟩
      obtain ⟨_, hr, _⟩ := readResult_ok (Party.between.inj hdata)
      cases hr
    · obtain ⟨hend, hnone⟩ :=
        Party.between_idle (readResult session (some (response, bs))) rs'
      rw [hstored, hafter]
      simp only [onData, List.nil_append, Party.enter, hend, hnone, List.flatten_singleton,
        List.length_append]
      refine ⟨by omega, fun data hdata => ?_⟩
      obtain ⟨_, hr, hstatus⟩ := readResult_ok (Party.between.inj hdata)
      cases hr
      exact ⟨hstatus, by omega, hbs⟩

/-- What a read stores: nothing if the response does not come, else some of what follows it, as
much as the response says if the read returns 0. -/
theorem readStart_stores {rs : List (SysResult UInt8)}
    (h : (readStart session offset len).Hears reply rs) :
    (intoBuf session offset len rs = [] ∧ ¬ ReadReturns session offset len rs) ∨
      (wireBytes ≤ reply.length ∧
        (intoBuf session offset len rs).length ≤
          min (replyHead reply).length.toNat (replyTail reply).length ∧
        (ReadReturns session offset len rs → (replyHead reply).status = 0 ∧
          (replyHead reply).length.toNat ≤ (replyTail reply).length ∧
          (intoBuf session offset len rs).length = (replyHead reply).length.toNat)) := by
  unfold intoBuf ReadReturns
  rw [readStart_eq] at h ⊢
  have herror : ∀ rs', ¬ ∃ data, (Party.between (β := UInt8) (readResult session none)).after rs' =
      .between (.ok data) := by
    rintro rs' ⟨data, hdata⟩
    rw [(Party.between_idle _ rs').1] at hdata
    obtain ⟨_, hr, _⟩ := readResult_ok (Party.between.inj hdata)
    cases hr
  obtain ⟨hstored, rest', hafter⟩ | ⟨sent, rs', hsent, hstored, hafter⟩ := h.sending_cases
  · rw [hstored, hafter]
    exact .inl ⟨rfl, fun ⟨data, hdata⟩ => by cases hdata⟩
  rw [hstored, hafter]
  cases sent with
  | false =>
      refine .inl ⟨?_, herror rs'⟩
      show ((Party.between (readResult session none)).stored rs').tail.flatten = []
      rw [(Party.between_idle _ rs').2]
      rfl
  | true =>
      rw [enter_onRequest] at hsent ⊢
      obtain ⟨bs, _, _, hstored, n', hafter⟩ | ⟨bs, rs'', _, _, hstored, hafter⟩ |
          ⟨bs, inc, rs'', rfl, hbs, hrest, hstored, hafter⟩ := hsent.receiving_cases (by decide)
      · rw [hstored, hafter]
        exact .inl ⟨rfl, fun ⟨data, hdata⟩ => by cases hdata⟩
      · rw [hstored, hafter]
        refine .inl ⟨?_, herror rs''⟩
        simp only [onResponse, Party.enter, (Party.between_idle _ rs'').2]
        rfl
      · have hhead : replyHead (bs ++ inc) = WireMsg.ofBytes bs := by
          rw [replyHead, ← hbs, List.take_left]
        have htail : replyTail (bs ++ inc) = inc := by
          rw [replyTail, ← hbs, List.drop_left]
        obtain ⟨hmost, hall⟩ := awaitData_stores hrest
        rw [hstored, hafter, hhead, htail, List.tail_cons, List.length_append]
        exact .inr ⟨by omega, hmost, fun ⟨data, hdata⟩ => hall data hdata⟩

/-- A read whose response has come in one piece. -/
theorem readStart_hears {rs : List (SysResult UInt8)} (session : TcpSession) (offset len : UInt64)
    (hreply : wireBytes ≤ reply.length)
    (h : (Party.enter (awaitData session (replyHead reply))).Hears (replyTail reply) rs) :
    ∃ rs', (readStart session offset len).Hears reply rs' ∧
      intoBuf session offset len rs' =
        ((Party.enter (awaitData session (replyHead reply))).stored rs).flatten ∧
      (readStart session offset len).after rs' =
        (Party.enter (awaitData session (replyHead reply))).after rs := by
  have hbs : (reply.take wireBytes).length = wireBytes := List.length_take_of_le hreply
  have hstep : (Party.enter (onResponse session (some (reply.take wireBytes)))).Hears
      (replyTail reply) rs := h
  obtain ⟨hhears, hstored, hafter⟩ := hstep.receive (by rw [hbs]; decide)
  rw [hbs, ← enter_onRequest] at hhears hstored hafter
  rw [replyTail, List.take_append_drop] at hhears
  obtain ⟨hhears', hstored', hafter'⟩ :=
    hhears.send ((SessionCall.read offset len).request session).toBytes
  rw [← readStart_eq] at hhears' hstored' hafter'
  refine ⟨_, hhears', ?_, hafter'.trans hafter⟩
  rw [intoBuf, hstored', hstored]
  rfl

/-- A read whose data has come in one piece. -/
theorem awaitData_hears (session : TcpSession) {response : WireMsg} {inc : List UInt8} {j : Nat}
    (hj : 0 < j) (hlen : j ≤ response.length.toNat) (hinc : j ≤ inc.length) :
    ∃ rs, (Party.enter (awaitData session response)).Hears inc rs ∧
      ((Party.enter (awaitData session response)).stored rs).flatten = inc.take j ∧
      (j = response.length.toNat → (Party.enter (awaitData session response)).after rs =
        .between (readResult session (some (response, inc.take j)))) := by
  have hbs : (inc.take j).length = j := List.length_take_of_le hinc
  have hpos : 0 < (inc.take j).length := by omega
  rw [enter_awaitData (by omega)]
  obtain ⟨hhears, hstored⟩ :=
    Party.Hears.piece hpos (by omega : _ ≤ response.length.toNat) [] (onData session response)
      (inc.drop j)
  rw [List.take_append_drop] at hhears
  refine ⟨_, hhears, hstored, fun hall => ?_⟩
  rw [Party.after_cons, (Party.turn_whole hpos (by omega) [] (onData session response)).1]
  rfl

/-- A read that is accepted with all bytes that its response announces. -/
theorem awaitData_whole (session : TcpSession) {response : WireMsg} {inc : List UInt8}
    (hstatus : response.status = 0) (hinc : response.length.toNat ≤ inc.length) :
    ∃ rs, (Party.enter (awaitData session response)).Hears inc rs ∧
      ((Party.enter (awaitData session response)).stored rs).flatten =
        inc.take response.length.toNat ∧
      (Party.enter (awaitData session response)).after rs =
        .between (.ok (inc.take response.length.toNat)) := by
  have hok : ∀ data, readResult session (some (response, data)) = .ok data := by
    intro data
    rw [readResult, accepted_of_status hstatus]
    rfl
  by_cases hlen : response.length.toNat = 0
  · rw [awaitData_nothing hlen, hok, hlen]
    exact ⟨[], .nil, rfl, rfl⟩
  · obtain ⟨rs, hrs, hstored, hafter⟩ :=
      awaitData_hears session (Nat.pos_of_ne_zero hlen) (Nat.le_refl _) hinc
    refine ⟨rs, hrs, hstored, ?_⟩
    rw [hafter rfl, hok]

/-- Bytes that come are stored, whatever the size of the buffer. -/
theorem Overruns.not_exact (session : TcpSession) (offset : UInt64) (h : Overruns len reply) :
    ¬ ReadsExactly session offset len reply := by
  intro hexact
  obtain ⟨hreply, hhead, htail⟩ := h
  have hpos : 0 < min (replyHead reply).length.toNat (replyTail reply).length := by omega
  obtain ⟨rs, hrs, hstored, _⟩ :=
    awaitData_hears session hpos (Nat.min_le_left _ _) (Nat.min_le_right _ _)
  obtain ⟨rs', hrs', hinto, _⟩ := readStart_hears session offset len hreply hrs
  have hmost := (hexact rs' hrs').1
  rw [hinto, hstored, List.length_take_of_le (Nat.min_le_right _ _)] at hmost
  omega

/-- A response with status 0 is accepted, whatever its length. -/
theorem FallsShort.not_exact (session : TcpSession) (offset : UInt64) (h : FallsShort len reply) :
    ¬ ReadsExactly session offset len reply := by
  intro hexact
  obtain ⟨hreply, hstatus, hhead, htail⟩ := h
  obtain ⟨rs, hrs, hstored, hafter⟩ := awaitData_whole session hstatus htail
  obtain ⟨rs', hrs', hinto, hafter'⟩ := readStart_hears session offset len hreply hrs
  have hall := (hexact rs' hrs').2 ⟨_, hafter'.trans hafter⟩
  rw [hinto, hstored, List.length_take_of_le htail] at hall
  omega

end Halves

/-- Which replies leave a read with what it asked for: all but those with too many bytes for its
buffer, and those that are accepted with too few. -/
theorem client_read_exact_iff (session : TcpSession) (offset len : UInt64) (reply : List UInt8) :
    ReadsExactly session offset len reply ↔ ¬ Overruns len reply ∧ ¬ FallsShort len reply := by
  constructor
  · intro h
    exact ⟨fun hover => hover.not_exact session offset h,
      fun hshort => hshort.not_exact session offset h⟩
  · rintro ⟨hover, hshort⟩ rs hrs
    obtain ⟨hnil, hfails⟩ | ⟨hreply, hmost, hall⟩ := readStart_stores hrs
    · rw [hnil]
      exact ⟨Nat.zero_le _, fun hreturns => absurd hreturns hfails⟩
    · have hle : (intoBuf session offset len rs).length ≤ len.toNat := by
        by_contra hgt
        exact hover ⟨hreply, by omega, by omega⟩
      refine ⟨hle, fun hreturns => ?_⟩
      obtain ⟨hstatus, htail, heq⟩ := hall hreturns
      by_contra hne
      exact hshort ⟨hreply, hstatus, by omega, htail⟩

/-- A response that announces some bytes, and the bytes. -/
def replyOf (length : UInt64) : List UInt8 :=
  { WireMsg.zero with magic := wireMagic, op := WireOp.ack.code, length := length }.toBytes ++
    List.replicate length.toNat 1

/-- A read of 8 bytes is made to store 16, and is content with none. -/
theorem client_read_overrun :
    ¬ ReadsExactly ⟨false, 0⟩ 96 8 (replyOf 16) ∧ ¬ ReadsExactly ⟨false, 0⟩ 96 8 (replyOf 0) :=
  ⟨Overruns.not_exact _ _ (by unfold Overruns; decide +kernel),
    FallsShort.not_exact _ _ (by unfold FallsShort; decide +kernel)⟩

end TeeDist
