import Dkmp.Ikcd.Packet

/-! # Requests between two nodes

A client worker numbers its requests; the server recovers the number from the
packet and the sender's address. The two directions of `struct ikc_request` are
two types here, each with the fields its side reads and writes.
-/

namespace Dkmp.Ikcd

open Machine

/-! ## Request ids and request numbers -/

def ikcrPackRequestId (threadId : UInt8) (seqNumber : UInt16) : UInt16 :=
  (threadId.toUInt16 <<< 10) ||| (0x03ff &&& seqNumber)

structure SockaddrIn where
  sinAddr : UInt32
  sinPort : UInt16
deriving DecidableEq, Repr

def ikcrPackRequestNumber (cliaddr : SockaddrIn) (requestId : UInt16) : UInt32 :=
  (cliaddr.sinAddr <<< 16) ||| requestId.toUInt32

def ikcrUnpackReqId (requestNbr : UInt32) : UInt16 := (0x0000ffff &&& requestNbr).toUInt16

def ikcrUnpackHostId (requestNbr : UInt32) : UInt16 := (requestNbr >>> 16).toUInt16

def ikcrUnpackThreadId (requestNbr : UInt32) : UInt8 := ((requestNbr >>> 10) &&& 0x0000003f).toUInt8

def ikcrUnpackSeqNumber (requestNbr : UInt32) : UInt16 := (requestNbr &&& 0x000003ff).toUInt16

/-- Two fields side by side: the shifted one loses what no longer fits. -/
private theorem or_shiftLeft (a b i w : Nat) (hb : b < 2 ^ i) (hw : i ≤ w) :
    (a <<< i) % 2 ^ w ||| b = a % 2 ^ (w - i) * 2 ^ i + b := by
  have hpow : 2 ^ w = 2 ^ (w - i) * 2 ^ i := by rw [← Nat.pow_add, Nat.sub_add_cancel hw]
  have hshift : (a <<< i) % 2 ^ w = (a % 2 ^ (w - i)) <<< i := by
    rw [Nat.shiftLeft_eq, Nat.shiftLeft_eq, hpow, Nat.mul_mod_mul_right]
  rw [hshift, ← Nat.shiftLeft_add_eq_or_of_lt hb, Nat.shiftLeft_eq]

theorem toNat_packRequestId (threadId : UInt8) (seqNumber : UInt16) :
    (ikcrPackRequestId threadId seqNumber).toNat =
      threadId.toNat % 64 * 1024 + seqNumber.toNat % 1024 := by
  have hmask : (0x03ff &&& seqNumber).toNat = seqNumber.toNat % 1024 := by
    rw [UInt16.toNat_and, Nat.and_comm]
    exact Nat.and_two_pow_sub_one_eq_mod _ 10
  have hlt : seqNumber.toNat % 1024 < 2 ^ 10 := Nat.mod_lt _ (by decide)
  rw [ikcrPackRequestId, UInt16.toNat_or, UInt16.toNat_shiftLeft, hmask]
  exact or_shiftLeft threadId.toNat _ 10 16 hlt (by decide)

theorem toNat_packRequestNumber (cliaddr : SockaddrIn) (requestId : UInt16) :
    (ikcrPackRequestNumber cliaddr requestId).toNat =
      cliaddr.sinAddr.toNat % 65536 * 65536 + requestId.toNat := by
  rw [ikcrPackRequestNumber, UInt32.toNat_or, UInt32.toNat_shiftLeft]
  exact or_shiftLeft cliaddr.sinAddr.toNat _ 16 32 requestId.toNat_lt (by decide)

@[simp] theorem unpackReqId_packRequestNumber (cliaddr : SockaddrIn) (requestId : UInt16) :
    ikcrUnpackReqId (ikcrPackRequestNumber cliaddr requestId) = requestId := by
  have hid := requestId.toNat_lt
  apply UInt16.toNat_inj.mp
  rw [ikcrUnpackReqId, UInt32.toNat_toUInt16, UInt32.toNat_and, Nat.and_comm,
    toNat_packRequestNumber]
  rw [show (0x0000ffff : UInt32).toNat = 2 ^ 16 - 1 from rfl, Nat.and_two_pow_sub_one_eq_mod]
  omega

theorem packRequestNumber_inj {cliaddr : SockaddrIn} {id₁ id₂ : UInt16}
    (h : ikcrPackRequestNumber cliaddr id₁ = ikcrPackRequestNumber cliaddr id₂) : id₁ = id₂ := by
  rw [← unpackReqId_packRequestNumber cliaddr id₁, h, unpackReqId_packRequestNumber]

/-- Two ids of one thread agree exactly when the low ten bits of the sequence
numbers do. -/
theorem packRequestId_eq_iff (threadId : UInt8) (seq₁ seq₂ : UInt16) :
    ikcrPackRequestId threadId seq₁ = ikcrPackRequestId threadId seq₂ ↔
      seq₁.toNat % 1024 = seq₂.toNat % 1024 := by
  rw [← UInt16.toNat_inj, toNat_packRequestId, toNat_packRequestId]
  omega

/-! ### Every field is read back

The fields of a request number are the quotients and remainders of its value.
-/

theorem toNat_unpackHostId (requestNbr : UInt32) :
    (ikcrUnpackHostId requestNbr).toNat = requestNbr.toNat / 65536 := by
  have hlt := requestNbr.toNat_lt
  have hshift : (requestNbr >>> 16).toNat = requestNbr.toNat / 65536 := by
    rw [UInt32.toNat_shiftRight]
    exact Nat.shiftRight_eq_div_pow _ 16
  rw [ikcrUnpackHostId, UInt32.toNat_toUInt16, hshift]
  omega

theorem toNat_unpackThreadId (requestNbr : UInt32) :
    (ikcrUnpackThreadId requestNbr).toNat = requestNbr.toNat / 1024 % 64 := by
  have hshift : (requestNbr >>> 10).toNat = requestNbr.toNat / 1024 := by
    rw [UInt32.toNat_shiftRight]
    exact Nat.shiftRight_eq_div_pow _ 10
  have hmask : ((requestNbr >>> 10) &&& 0x0000003f).toNat = requestNbr.toNat / 1024 % 64 := by
    rw [UInt32.toNat_and, hshift]
    exact Nat.and_two_pow_sub_one_eq_mod _ 6
  rw [ikcrUnpackThreadId, UInt32.toNat_toUInt8, hmask]
  omega

theorem toNat_unpackSeqNumber (requestNbr : UInt32) :
    (ikcrUnpackSeqNumber requestNbr).toNat = requestNbr.toNat % 1024 := by
  have hmask : (requestNbr &&& 0x000003ff).toNat = requestNbr.toNat % 1024 := by
    rw [UInt32.toNat_and]
    exact Nat.and_two_pow_sub_one_eq_mod _ 10
  rw [ikcrUnpackSeqNumber, UInt32.toNat_toUInt16, hmask]
  omega

/-- The number of the request a thread sends with a sequence number. -/
def requestNumber (cliaddr : SockaddrIn) (threadId : UInt8) (seqNumber : UInt16) : UInt32 :=
  ikcrPackRequestNumber cliaddr (ikcrPackRequestId threadId seqNumber)

theorem toNat_requestNumber (cliaddr : SockaddrIn) {threadId : UInt8} {seqNumber : UInt16}
    (hthread : threadId.toNat < 64) (hseq : seqNumber.toNat < 1024) :
    (requestNumber cliaddr threadId seqNumber).toNat =
      cliaddr.sinAddr.toNat % 65536 * 65536 + (threadId.toNat * 1024 + seqNumber.toNat) := by
  rw [requestNumber, toNat_packRequestNumber, toNat_packRequestId, Nat.mod_eq_of_lt hthread,
    Nat.mod_eq_of_lt hseq]

structure Unpacks (cliaddr : SockaddrIn) (threadId : UInt8) (seqNumber : UInt16)
    (requestNbr : UInt32) : Prop where
  reqId : ikcrUnpackReqId requestNbr = ikcrPackRequestId threadId seqNumber
  hostId : (ikcrUnpackHostId requestNbr).toNat = cliaddr.sinAddr.toNat % 2 ^ 16
  threadId : ikcrUnpackThreadId requestNbr = threadId
  seqNumber : ikcrUnpackSeqNumber requestNbr = seqNumber

theorem unpacks_requestNumber (cliaddr : SockaddrIn) {threadId : UInt8} {seqNumber : UInt16}
    (hthread : threadId.toNat < 64) (hseq : seqNumber.toNat < 1024) :
    Unpacks cliaddr threadId seqNumber (requestNumber cliaddr threadId seqNumber) := by
  have hnumber := toNat_requestNumber cliaddr hthread hseq
  constructor
  case reqId => exact unpackReqId_packRequestNumber cliaddr _
  case hostId =>
    rw [toNat_unpackHostId, hnumber]
    omega
  case threadId =>
    apply UInt8.toNat_inj.mp
    rw [toNat_unpackThreadId, hnumber]
    omega
  case seqNumber =>
    apply UInt16.toNat_inj.mp
    rw [toNat_unpackSeqNumber, hnumber]
    omega

/-- Two numbers agree only if all their fields do. -/
theorem requestNumber_eq {c₁ c₂ : SockaddrIn} {t₁ t₂ : UInt8} {s₁ s₂ : UInt16}
    (ht₁ : t₁.toNat < 64) (hs₁ : s₁.toNat < 1024) (ht₂ : t₂.toNat < 64) (hs₂ : s₂.toNat < 1024)
    (heq : requestNumber c₁ t₁ s₁ = requestNumber c₂ t₂ s₂) :
    c₁.sinAddr.toNat % 2 ^ 16 = c₂.sinAddr.toNat % 2 ^ 16 ∧ t₁ = t₂ ∧ s₁ = s₂ := by
  have hfirst := unpacks_requestNumber c₁ ht₁ hs₁
  have hsecond := unpacks_requestNumber c₂ ht₂ hs₂
  rw [← heq] at hsecond
  exact ⟨hfirst.hostId.symm.trans hsecond.hostId, hfirst.threadId.symm.trans hsecond.threadId,
    hfirst.seqNumber.symm.trans hsecond.seqNumber⟩

/-- The fields of a number are exactly what it was packed from; within a network
of addresses that share their upper half, numbers identify requests. -/
theorem request_numbers_exact (cliaddr : SockaddrIn) (threadId : UInt8) (seqNumber : UInt16)
    (hthread : threadId.toNat < 64) (hseq : seqNumber.toNat < 1024) :
    let r := ikcrPackRequestNumber cliaddr (ikcrPackRequestId threadId seqNumber)
    Unpacks cliaddr threadId seqNumber r ∧
      ∀ (cliaddr' : SockaddrIn) (threadId' : UInt8) (seqNumber' : UInt16),
        threadId'.toNat < 64 → seqNumber'.toNat < 1024 →
        cliaddr'.sinAddr.toNat / 2 ^ 16 = cliaddr.sinAddr.toNat / 2 ^ 16 →
        (r = ikcrPackRequestNumber cliaddr' (ikcrPackRequestId threadId' seqNumber') ↔
          cliaddr.sinAddr = cliaddr'.sinAddr ∧ threadId = threadId' ∧ seqNumber = seqNumber') := by
  intro r
  refine ⟨unpacks_requestNumber cliaddr hthread hseq, ?_⟩
  intro cliaddr' threadId' seqNumber' hthread' hseq' hnetwork
  constructor
  · intro hnumbers
    obtain ⟨hlow, hthreads, hseqs⟩ := requestNumber_eq hthread hseq hthread' hseq' hnumbers
    refine ⟨?_, hthreads, hseqs⟩
    apply UInt32.toNat_inj.mp
    omega
  · rintro ⟨haddr, rfl, rfl⟩
    show ikcrPackRequestNumber cliaddr _ = ikcrPackRequestNumber cliaddr' _
    rw [ikcrPackRequestNumber, ikcrPackRequestNumber, haddr]

/-- The highest thread and sequence number next to those one lower, from two
hosts of one network. -/
theorem request_numbers_exact_top :
    let r := ikcrPackRequestNumber ⟨0xc0a8ffff, 4710⟩ (ikcrPackRequestId 63 1023)
    Unpacks ⟨0xc0a8ffff, 4710⟩ 63 1023 r ∧
      (r = ikcrPackRequestNumber ⟨0xc0a80001, 4710⟩ (ikcrPackRequestId 62 1022) ↔
        (0xc0a8ffff : UInt32) = 0xc0a80001 ∧ (63 : UInt8) = 62 ∧ (1023 : UInt16) = 1022) :=
  have hexact := request_numbers_exact ⟨0xc0a8ffff, 4710⟩ 63 1023 (by decide) (by decide)
  ⟨hexact.1, hexact.2 ⟨0xc0a80001, 4710⟩ 62 1022 (by decide) (by decide) (by decide)⟩

/-! ## Requests a node receives -/

/-- `struct ikc_request` on the serving side. `rPid` is unassigned until the
request was proceeded. -/
structure IkcRequest where
  cliaddr : SockaddrIn
  requestNbr : UInt32
  hostId : UInt16
  threadId : UInt8
  seqNbr : UInt16
  req : Int
  oNode : Bytes
  oPid : UInt32
  rPid : Option UInt32
  arg0 : Bytes
  arg1 : Bytes
deriving DecidableEq, Repr

/-- `req` of a process creation request. -/
def procCreatReq : Int := 10

/-- The request that is appended to the queue of pending incoming requests. -/
def ikcrQueueProcessCreationRequest (cliaddr : SockaddrIn) (packet : Bytes) : Exec IkcRequest := do
  let p ← ikcpUnpackProcCreatReq packet
  let requestNbr := ikcrPackRequestNumber cliaddr p.seq
  .ok
    { cliaddr := cliaddr
      requestNbr := requestNbr
      hostId := ikcrUnpackHostId requestNbr
      threadId := ikcrUnpackThreadId requestNbr
      seqNbr := ikcrUnpackSeqNumber requestNbr
      req := procCreatReq
      oNode := p.oHostname
      oPid := p.oPid
      rPid := none
      arg0 := p.oFilename
      arg1 := p.oArgv }

/-- What the collector does with one datagram: packets that are too short or of
another version or type are dropped. -/
def ikcIncomingRequestCollector (cliaddr : SockaddrIn) (packet : Bytes) :
    Exec (Option IkcRequest) :=
  match packet with
  | version :: type :: _ =>
      if version ≠ ikcVersion then .ok none
      else if type = ikcProcCreatReq then
        (ikcrQueueProcessCreationRequest cliaddr packet).map some
      else .ok none
  | _ => .ok none

/-- The demo implementation of the process creation. -/
def ikcrProceedIncomingRequest (request : IkcRequest) : IkcRequest :=
  if request.req = procCreatReq then { request with rPid := some 76 } else request

structure Response where
  cliaddr : SockaddrIn
  packet : Bytes
deriving DecidableEq, Repr

/-- Other request types end the daemon. -/
def ikcrRespondToClient (request : IkcRequest) : Exec Response :=
  if request.req = procCreatReq then
    match request.rPid with
    | some rPid =>
        .ok ⟨request.cliaddr, ikcpPackProcCreatResp (ikcrUnpackReqId request.requestNbr) rPid⟩
    | none => .error .uninit
  else .error .exited

theorem respondToClient_eq {request : IkcRequest} {pid : UInt32}
    (hreq : request.req = procCreatReq) (hpid : request.rPid = some pid) :
    ikcrRespondToClient request =
      .ok ⟨request.cliaddr, ikcpPackProcCreatResp (ikcrUnpackReqId request.requestNbr) pid⟩ := by
  rw [ikcrRespondToClient, if_pos hreq, hpid]

/-! ## Requests a node sends -/

/-- `struct ikc_request` on the requesting side; the names fit their buffers.
`rPid` is unassigned until a response was unpacked. -/
structure OutRequest where
  oPid : UInt32
  req : Int
  oNode : CStr
  oNode_lt : oNode.length < ikcMaxNodeLen
  rNode : CStr
  rNode_lt : rNode.length < ikcMaxNodeLen
  seqNbr : UInt16
  rPid : Option UInt32

/-- `rq_argv.arg0` points at `r_node` since the request was fetched. -/
def OutRequest.arg0 (request : OutRequest) : CStr := request.rNode

/-- The packet `ikcr_proceed_outgoing_request` sends; `rq_argv.arg1` is emptied
first, and other request types send nothing. -/
def ikcrProceedOutgoingRequestSend (request : OutRequest) (threadId : UInt8) :
    Exec (Option Bytes) :=
  if request.req = procCreatReq then
    (ikcpPackProcCreatReq (ikcrPackRequestId threadId request.seqNbr) request.oPid request.oNode
      request.arg0 []).map some
  else .ok none

/-- What it does with the datagram it reads: the id of the response replaces the
sequence number. -/
def ikcrProceedOutgoingRequestReceive (request : OutRequest) (packet : Bytes) : Exec OutRequest := do
  let (seqNbr, rPid) ← ikcpUnpackProcCreatResp packet
  .ok { request with seqNbr := seqNbr, rPid := some rPid }

structure Arrived (request : OutRequest) (threadId : UInt8) (cliaddr : SockaddrIn) (r : IkcRequest) :
    Prop where
  req : r.req = procCreatReq
  requestNbr : r.requestNbr =
    ikcrPackRequestNumber cliaddr (ikcrPackRequestId threadId request.seqNbr)
  oPid : r.oPid = request.oPid
  oNode : r.oNode = chars request.oNode
  arg0 : r.arg0 = chars request.arg0

theorem collector_send {request : OutRequest} (hreq : request.req = procCreatReq)
    (threadId : UInt8) (cliaddr : SockaddrIn) :
    ∃ packet r, ikcrProceedOutgoingRequestSend request threadId = .ok (some packet) ∧
      ikcIncomingRequestCollector cliaddr packet = .ok (some r) ∧
      Arrived request threadId cliaddr r := by
  have hhost := request.oNode_lt
  have hfile := request.rNode_lt
  have hlen : 14 + request.oNode.length + request.arg0.length + ([] : CStr).length < 65536 := by
    unfold OutRequest.arg0 ikcMaxNodeLen at *
    simp only [List.length_nil]
    omega
  obtain ⟨packet, hpack, -, hunpack⟩ := unpack_packProcCreatReq
    (ikcrPackRequestId threadId request.seqNbr) request.oPid hhost hlen
  obtain ⟨rest, hrest⟩ := packProcCreatReq_header hpack
  have hsend : ikcrProceedOutgoingRequestSend request threadId = .ok (some packet) := by
    rw [ikcrProceedOutgoingRequestSend, if_pos hreq]
    exact map_of_ok some hpack
  have hcollect : ikcIncomingRequestCollector cliaddr packet =
      (ikcrQueueProcessCreationRequest cliaddr packet).map some := by
    rw [hrest]
    rfl
  rw [ikcrQueueProcessCreationRequest, hunpack, ok_bind] at hcollect
  exact ⟨packet, _, hsend, hcollect, ⟨rfl, rfl, rfl, rfl, rfl⟩⟩

end Dkmp.Ikcd
