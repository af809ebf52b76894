import Dkmp.Ikcd.OutWorker

/-! # Responses and the requests they are read for

One worker for outgoing requests, its socket and the network. A datagram that
was sent stays in the network for good, so it can be served or delivered late,
twice or never, in any order. Datagrams carry the serial number of the request
they belong to, which neither side of the program sees.
-/

namespace Dkmp.Ikcd

open Machine

inductive OutPhase where
  | trying (attempts : Nat)
  | waiting (attempts : Nat)
  | answered
deriving DecidableEq, Repr

structure Datagram where
  serial : Nat
  packet : Bytes
deriving DecidableEq, Repr

/-- The request at hand, the id it was sent with and the datagram its `rPid` was
read from. -/
structure Current where
  serial : Nat
  request : OutRequest
  id : UInt16
  source : Option Datagram
  phase : OutPhase

/-- The loop over the attempts ends: one of them succeeded or all were made. -/
def Current.leaves (c : Current) : Bool :=
  match c.phase with
  | .trying attempts => ikcMaxAttempts ≤ attempts
  | .waiting _ => false
  | .answered => true

/-- What `ikc_respond_to_kernel` passed on for a request. -/
structure Handed where
  serial : Nat
  id : UInt16
  oPid : UInt32
  rPid : Option UInt32
  source : Option Datagram
deriving DecidableEq, Repr

structure Client where
  threadId : UInt8
  cliaddr : SockaddrIn
  seqNbr : UInt16
  taken : Nat
  current : Option Current
  socket : List Datagram
  requests : List Datagram
  responses : List Datagram
  handed : List Handed

def Client.init (threadId : UInt8) (cliaddr : SockaddrIn) : Client :=
  ⟨threadId, cliaddr, firstSeqNbr, 0, none, [], [], [], []⟩

inductive OutAction where
  | take (request : OutRequest)
  | send
  | timeout
  | receive
  | respond
  | serve (i : Nat) (rPid : UInt32)
  | deliver (i : Nat)

/-- The answer of a remote daemon to a packet; the process it creates is up to it. -/
def remoteResponse (cliaddr : SockaddrIn) (packet : Bytes) (rPid : UInt32) : Exec (Option Bytes) := do
  match ← ikcIncomingRequestCollector cliaddr packet with
  | none => .ok none
  | some r => do
      let response ← ikcrRespondToClient { r with rPid := some rPid }
      .ok (some response.packet)

/-- A step of the worker (`take` to `respond`) or of its surroundings. A timeout
comes only while the socket is empty. -/
def outStep (s : Client) : OutAction → Exec Client
  | .take request =>
      match s.current with
      | some _ => .error .blocked
      | none =>
          let seqNbr := nextSeqNbr s.seqNbr
          .ok { s with
            seqNbr := seqNbr
            taken := s.taken + 1
            current := some
              { serial := s.taken
                request := { request with seqNbr := seqNbr, rPid := none }
                id := 0
                source := none
                phase := .trying 0 } }
  | .send =>
      match s.current with
      | some c =>
          match c.phase with
          | .trying attempts =>
              if attempts < ikcMaxAttempts then do
                match ← ikcrProceedOutgoingRequestSend c.request s.threadId with
                | none => .ok { s with current := some { c with phase := .answered } }
                | some packet =>
                    .ok { s with
                      requests := ⟨c.serial, packet⟩ :: s.requests
                      current := some { c with
                        id := ikcrPackRequestId s.threadId c.request.seqNbr
                        phase := .waiting attempts } }
              else .error .blocked
          | _ => .error .blocked
      | none => .error .blocked
  | .timeout =>
      match s.current, s.socket with
      | some c, [] =>
          match c.phase with
          | .waiting attempts =>
              .ok { s with current := some { c with phase := .trying (attempts + 1) } }
          | _ => .error .blocked
      | _, _ => .error .blocked
  | .receive =>
      match s.current, s.socket with
      | some c, d :: socket =>
          match c.phase with
          | .waiting _ => do
              let request ← ikcrProceedOutgoingRequestReceive c.request d.packet
              .ok { s with
                socket := socket
                current := some { c with
                  request := request, source := some d, phase := .answered } }
          | _ => .error .blocked
      | _, _ => .error .blocked
  | .respond =>
      match s.current with
      | some c =>
          if c.leaves then
            if c.request.req = procCreatReq then
              .ok { s with
                current := none
                handed := ⟨c.serial, c.id, c.request.oPid, c.request.rPid, c.source⟩ :: s.handed }
            else .ok { s with current := none }
          else .error .blocked
      | none => .error .blocked
  | .serve i rPid =>
      match s.requests[i]? with
      | none => .error .blocked
      | some d => do
          match ← remoteResponse s.cliaddr d.packet rPid with
          | none => .ok s
          | some packet => .ok { s with responses := ⟨d.serial, packet⟩ :: s.responses }
  | .deliver i =>
      match s.responses[i]? with
      | none => .error .blocked
      | some d => .ok { s with socket := s.socket ++ [d] }

/-- The network is timely: a request is taken up with an empty socket, a response
is delivered only while its request is at hand, and the last attempt does not
time out. -/
def Timely (s : Client) : OutAction → Prop
  | .take _ => s.socket = []
  | .deliver i => ∀ d, s.responses[i]? = some d → ∃ c, s.current = some c ∧ c.serial = d.serial
  | .timeout => ∀ c attempts, s.current = some c → c.phase = .waiting attempts →
      attempts + 1 < ikcMaxAttempts
  | _ => True

/-! ## The invariant -/

def Client.idOf (s : Client) (serial : Nat) : UInt16 :=
  ikcrPackRequestId s.threadId (seqNbrAt serial)

/-- The pid comes from a response to this very request, under its id. -/
def Matched (responses : List Datagram) (serial : Nat) (id : UInt16) (rPid : Option UInt32)
    (source : Option Datagram) : Prop :=
  ∃ pid, rPid = some pid ∧ source = some ⟨serial, ikcpPackProcCreatResp id pid⟩ ∧
    ⟨serial, ikcpPackProcCreatResp id pid⟩ ∈ responses

def CurrentOk (s : Client) (c : Current) : Prop :=
  match c.phase with
  | .trying attempts => attempts < ikcMaxAttempts ∧ c.request.seqNbr = seqNbrAt c.serial
  | .waiting _ => c.request.seqNbr = seqNbrAt c.serial ∧ c.id = s.idOf c.serial
  | .answered => c.request.req = procCreatReq →
      Matched s.responses c.serial c.id c.request.rPid c.source

structure OutInv (s : Client) : Prop where
  counter : nextSeqNbr s.seqNbr = seqNbrAt s.taken
  requests : ∀ d ∈ s.requests, ∃ r, ikcIncomingRequestCollector s.cliaddr d.packet = .ok (some r) ∧
    r.req = procCreatReq ∧ r.requestNbr = ikcrPackRequestNumber s.cliaddr (s.idOf d.serial)
  responses : ∀ d ∈ s.responses, ∃ pid, d.packet = ikcpPackProcCreatResp (s.idOf d.serial) pid
  socket : ∀ d ∈ s.socket, d ∈ s.responses
  current : ∀ c, s.current = some c → CurrentOk s c ∧ ∀ d ∈ s.socket, d.serial = c.serial
  handed : ∀ h ∈ s.handed, Matched s.responses h.serial h.id h.rPid h.source

theorem outInv_init (threadId : UInt8) (cliaddr : SockaddrIn) :
    OutInv (Client.init threadId cliaddr) where
  counter := rfl
  requests := by simp [Client.init]
  responses := by simp [Client.init]
  socket := by simp [Client.init]
  current := by simp [Client.init]
  handed := by simp [Client.init]

section Steps

variable {s s' : Client}

theorem take_inv {request : OutRequest} (h : OutInv s) (htimely : s.socket = [])
    (hstep : outStep s (.take request) = .ok s') : OutInv s' := by
  simp only [outStep] at hstep
  split at hstep
  · cases hstep
  · rw [← Except.ok.inj hstep]
    refine { h with counter := ?_, current := ?_ }
    · rw [h.counter]
      rfl
    · intro c hc
      cases hc
      refine ⟨⟨by decide, h.counter⟩, ?_⟩
      rw [htimely]
      simp

theorem send_inv (h : OutInv s) (hstep : outStep s .send = .ok s') : OutInv s' := by
  simp only [outStep] at hstep
  split at hstep
  · next c hc =>
    split at hstep
    · next attempts hphase =>
      have hok := (h.current c hc).1
      simp only [CurrentOk, hphase] at hok
      rw [if_pos hok.1] at hstep
      by_cases hreq : c.request.req = procCreatReq
      · obtain ⟨packet, r, hsend, hcollect, harrived⟩ :=
          collector_send hreq s.threadId s.cliaddr
        rw [hsend, ok_bind] at hstep
        rw [← Except.ok.inj hstep]
        refine { h with requests := ?_, current := ?_ }
        · intro d hd
          rcases List.mem_cons.mp hd with rfl | hd
          · exact ⟨r, hcollect, harrived.req, by rw [harrived.requestNbr, hok.2]; rfl⟩
          · exact h.requests d hd
        · intro c' hc'
          cases hc'
          exact ⟨⟨hok.2, by rw [hok.2]; rfl⟩, (h.current c hc).2⟩
      · have hsend : ikcrProceedOutgoingRequestSend c.request s.threadId = .ok none := if_neg hreq
        rw [hsend, ok_bind] at hstep
        rw [← Except.ok.inj hstep]
        refine { h with current := ?_ }
        intro c' hc'
        cases hc'
        exact ⟨fun hcreat => absurd hcreat hreq, (h.current c hc).2⟩
    · cases hstep
  · cases hstep

theorem timeout_inv (h : OutInv s) (htimely : Timely s .timeout)
    (hstep : outStep s .timeout = .ok s') : OutInv s' := by
  simp only [outStep] at hstep
  split at hstep
  · next c hc hempty =>
    split at hstep
    · next attempts hphase =>
      have hok := (h.current c hc).1
      simp only [CurrentOk, hphase] at hok
      rw [← Except.ok.inj hstep]
      refine { h with current := ?_ }
      intro c' hc'
      cases hc'
      exact ⟨⟨htimely c attempts hc hphase, hok.1⟩, (h.current c hc).2⟩
    · cases hstep
  · cases hstep

theorem receive_inv (h : OutInv s) (hstep : outStep s .receive = .ok s') : OutInv s' := by
  simp only [outStep] at hstep
  split at hstep
  · next c d socket hc hsocket =>
    split at hstep
    · next attempts hphase =>
      obtain ⟨hok, hserial⟩ := h.current c hc
      simp only [CurrentOk, hphase] at hok
      have hd : d ∈ s.socket := by rw [hsocket]; exact List.mem_cons_self
      have hrest : ∀ e ∈ socket, e ∈ s.socket := by
        intro e he
        rw [hsocket]
        exact List.mem_cons_of_mem d he
      obtain ⟨pid, hpacket⟩ := h.responses d (h.socket d hd)
      rw [hserial d hd, ← hok.2] at hpacket
      have hrecv : ikcrProceedOutgoingRequestReceive c.request d.packet =
          .ok { c.request with seqNbr := c.id, rPid := some pid } := by
        rw [ikcrProceedOutgoingRequestReceive, hpacket, unpack_packProcCreatResp, ok_bind]
      have hsource : d = ⟨c.serial, ikcpPackProcCreatResp c.id pid⟩ := by
        rw [← hpacket, ← hserial d hd]
      rw [hrecv, ok_bind] at hstep
      rw [← Except.ok.inj hstep]
      refine { h with socket := fun e he => h.socket e (hrest e he), current := ?_ }
      intro c' hc'
      cases hc'
      refine ⟨fun _ => ⟨pid, rfl, congrArg some hsource, ?_⟩, fun e he => hserial e (hrest e he)⟩
      rw [← hsource]
      exact h.socket d hd
    · cases hstep
  · cases hstep

theorem handOver_inv (h : OutInv s) (hstep : outStep s .respond = .ok s') : OutInv s' := by
  simp only [outStep] at hstep
  split at hstep
  · next c hc =>
    split at hstep
    · next hleaves =>
      have hphase : c.phase = .answered := by
        have hok := (h.current c hc).1
        unfold CurrentOk at hok
        unfold Current.leaves at hleaves
        split at hleaves
        · next attempts hphase =>
          rw [hphase] at hok
          exact absurd (of_decide_eq_true hleaves) (Nat.not_le.mpr hok.1)
        · cases hleaves
        · next hphase => exact hphase
      have hok := (h.current c hc).1
      simp only [CurrentOk, hphase] at hok
      split at hstep
      · next hreq =>
        rw [← Except.ok.inj hstep]
        refine { h with current := (by simp), handed := ?_ }
        intro e he
        rcases List.mem_cons.mp he with rfl | he
        · exact hok hreq
        · exact h.handed e he
      · rw [← Except.ok.inj hstep]
        exact { h with current := (by simp) }
    · cases hstep
  · cases hstep

/-- A remote daemon answers under the id of the packet. -/
theorem remoteResponse_eq {cliaddr : SockaddrIn} {packet : Bytes} {rPid : UInt32} {r : IkcRequest}
    {id : UInt16} (hr : ikcIncomingRequestCollector cliaddr packet = .ok (some r))
    (hreq : r.req = procCreatReq) (hnbr : r.requestNbr = ikcrPackRequestNumber cliaddr id) :
    remoteResponse cliaddr packet rPid = .ok (some (ikcpPackProcCreatResp id rPid)) := by
  have hrespond : ikcrRespondToClient { r with rPid := some rPid } =
      .ok ⟨r.cliaddr, ikcpPackProcCreatResp (ikcrUnpackReqId r.requestNbr) rPid⟩ :=
    respondToClient_eq hreq rfl
  have hid : ikcrUnpackReqId r.requestNbr = id := by
    rw [hnbr, unpackReqId_packRequestNumber]
  rw [remoteResponse, hr, ok_bind]
  show (ikcrRespondToClient { r with rPid := some rPid } >>= _) = _
  rw [hrespond, ok_bind, hid]

theorem Matched.mono {responses : List Datagram} (d : Datagram) {serial : Nat} {id : UInt16}
    {rPid : Option UInt32} {source : Option Datagram} (h : Matched responses serial id rPid source) :
    Matched (d :: responses) serial id rPid source := by
  obtain ⟨pid, hpid, hsource, hmem⟩ := h
  exact ⟨pid, hpid, hsource, List.mem_cons_of_mem d hmem⟩

theorem serve_inv {i : Nat} {rPid : UInt32} (h : OutInv s)
    (hstep : outStep s (.serve i rPid) = .ok s') : OutInv s' := by
  simp only [outStep] at hstep
  split at hstep
  · cases hstep
  · next d hd =>
    obtain ⟨r, hcollect, hreq, hnbr⟩ := h.requests d (List.mem_of_getElem? hd)
    rw [remoteResponse_eq hcollect hreq hnbr, ok_bind] at hstep
    rw [← Except.ok.inj hstep]
    refine { h with responses := ?_, socket := ?_, current := ?_, handed := ?_ }
    · intro e he
      rcases List.mem_cons.mp he with rfl | he
      · exact ⟨rPid, rfl⟩
      · exact h.responses e he
    · intro e he
      exact List.mem_cons_of_mem _ (h.socket e he)
    · intro c hc
      obtain ⟨hok, hserial⟩ := h.current c hc
      refine ⟨?_, hserial⟩
      unfold CurrentOk at hok ⊢
      split at hok
      · exact hok
      · exact hok
      · exact fun hcreat => (hok hcreat).mono _
    · intro e he
      exact (h.handed e he).mono _

theorem deliver_inv {i : Nat} (h : OutInv s) (htimely : Timely s (.deliver i))
    (hstep : outStep s (.deliver i) = .ok s') : OutInv s' := by
  simp only [outStep] at hstep
  split at hstep
  · cases hstep
  · next d hd =>
    obtain ⟨c, hc, hserial⟩ := htimely d hd
    rw [← Except.ok.inj hstep]
    refine { h with socket := ?_, current := ?_ }
    · intro e he
      rcases List.mem_append.mp he with he | he
      · exact h.socket e he
      · rw [List.mem_singleton.mp he]
        exact List.mem_of_getElem? hd
    · intro c' hc'
      obtain ⟨hok, hold⟩ := h.current c' hc'
      refine ⟨hok, ?_⟩
      intro e he
      rcases List.mem_append.mp he with he | he
      · exact hold e he
      · have hcc : c = c' := Option.some.inj (hc.symm.trans hc')
        rw [List.mem_singleton.mp he, ← hserial, hcc]

theorem outStep_inv {a : OutAction} (h : OutInv s) (htimely : Timely s a)
    (hstep : outStep s a = .ok s') : OutInv s' := by
  cases a with
  | take request => exact take_inv h htimely hstep
  | send => exact send_inv h hstep
  | timeout => exact timeout_inv h htimely hstep
  | receive => exact receive_inv h hstep
  | respond => exact handOver_inv h hstep
  | serve i rPid => exact serve_inv h hstep
  | deliver i => exact deliver_inv h htimely hstep

end Steps

/-- **Response matching.** On a timely network every pid that is handed to the
kernel was read from a response to that very request, under the id it was sent
with. -/
theorem handed_rPid_matched (threadId : UInt8) (cliaddr : SockaddrIn) (as : List OutAction)
    (s : Client) (hrun : steps outStep as (Client.init threadId cliaddr) = .ok s)
    (htimely : Along outStep Timely as (Client.init threadId cliaddr)) :
    ∀ h ∈ s.handed, ∃ pid, h.rPid = some pid ∧
      h.source = some ⟨h.serial, ikcpPackProcCreatResp h.id pid⟩ ∧
      ⟨h.serial, ikcpPackProcCreatResp h.id pid⟩ ∈ s.responses :=
  (steps_invariant OutInv (fun _ _ _ h hP hstep => outStep_inv h hP hstep) as
    (Client.init threadId cliaddr) s (outInv_init threadId cliaddr) htimely hrun).handed

def twoInTime : List OutAction :=
  [.take plainRequest, .send, .serve 0 76, .deliver 0, .receive, .respond,
    .take plainRequest, .send, .serve 0 77, .deliver 0, .receive, .respond]

theorem timely_twoInTime : Along outStep Timely twoInTime (Client.init 1 firstClient) := by
  refine .cons rfl rfl (.cons trivial rfl (.cons trivial rfl (.cons ?_ rfl (.cons trivial rfl
    (.cons trivial rfl (.cons rfl rfl (.cons trivial rfl (.cons trivial rfl (.cons ?_ rfl
    (.cons trivial rfl (.cons trivial rfl trivial)))))))))))
  · intro d hd
    cases hd
    exact ⟨_, rfl, rfl⟩
  · intro d hd
    cases hd
    exact ⟨_, rfl, rfl⟩

theorem handed_rPid_matched_twoInTime :
    ∃ s, steps outStep twoInTime (Client.init 1 firstClient) = .ok s ∧
      s.handed.map Handed.rPid = [some 77, some 76] ∧
      ∀ h ∈ s.handed, ∃ pid, h.rPid = some pid ∧
        h.source = some ⟨h.serial, ikcpPackProcCreatResp h.id pid⟩ ∧
        ⟨h.serial, ikcpPackProcCreatResp h.id pid⟩ ∈ s.responses := by
  obtain ⟨s, hrun, hpids⟩ : ∃ s, steps outStep twoInTime (Client.init 1 firstClient) = .ok s ∧
      s.handed.map Handed.rPid = [some 77, some 76] := ⟨_, rfl, rfl⟩
  exact ⟨s, hrun, hpids, handed_rPid_matched 1 firstClient twoInTime s hrun timely_twoInTime⟩

def lateAnswer : List OutAction :=
  [.take plainRequest, .send, .timeout, .send, .serve 0 76, .deliver 0, .receive, .respond,
    .serve 1 76, .deliver 0, .take plainRequest, .send, .receive, .respond]

def noAnswer : List OutAction :=
  [.take plainRequest, .send, .timeout, .send, .timeout, .respond]

theorem handed_rPid_not_matched :
    (∃ s h, steps outStep lateAnswer (Client.init 1 firstClient) = .ok s ∧ h ∈ s.handed ∧
      h.serial = 1 ∧ h.id = 0x0401 ∧ h.rPid = some 76 ∧
      h.source = some ⟨0, ikcpPackProcCreatResp 0x0400 76⟩ ∧
      ∀ d ∈ s.responses, d.serial = 0 ∧ ikcpUnpackProcCreatResp d.packet = .ok (0x0400, 76)) ∧
    ∃ s h, steps outStep noAnswer (Client.init 1 firstClient) = .ok s ∧ h ∈ s.handed ∧
      h.rPid = none := by
  constructor
  · refine ⟨_, _, rfl, List.mem_cons_self, rfl, rfl, rfl, rfl, ?_⟩
    decide
  · exact ⟨_, _, rfl, List.mem_cons_self, rfl⟩

end Dkmp.Ikcd
