import Dkmp.Ikcd.LastRequest
import Dkmp.Ikcd.Network

/-! # Creating processes on other nodes

The threads for outgoing requests of all nodes send to the daemons of the nodes they were
asked for. A datagram can be lost, delayed, repeated and overtaken. No request is executed
twice, and one that was answered was executed, on the node it was meant for.
-/

namespace Dkmp.Ikcd

open Machine

variable {ι κ : Type} [DecidableEq ι] [DecidableEq κ]

def OutAction.own : OutAction → Bool
  | .serve _ _ => false
  | .deliver _ => false
  | _ => true

def InAction.own : InAction → Bool
  | .arrive _ _ => false
  | _ => true

/-- `dest` has the node of each request a thread has taken up. What was sent stays on the
network, in `requests` of the client and in `sent` of the server. -/
structure Exchange (ι κ : Type) where
  client : ι → Client
  server : κ → Server
  dest : ι → List κ

namespace Exchange

def init (threadId : ι → UInt8) (addr : ι → SockaddrIn) : Exchange ι κ :=
  ⟨fun i => .init (threadId i) (addr i), fun _ => .init, fun _ => []⟩

def setClient (s : Exchange ι κ) (i : ι) (c : Client) : Exchange ι κ :=
  { s with client := fun j => if j = i then c else s.client j }

def setServer (s : Exchange ι κ) (k : κ) (server : Server) : Exchange ι κ :=
  { s with server := fun l => if l = k then server else s.server l }

def addDest (s : Exchange ι κ) (i : ι) (k : κ) : Exchange ι κ :=
  { s with dest := fun j => if j = i then s.dest i ++ [k] else s.dest j }

end Exchange

inductive ExchangeAction (ι κ : Type) where
  | worker (i : ι) (a : OutAction)
  | arrive (i : ι) (j : Nat)
  | server (k : κ) (a : InAction)
  | deliver (i : ι) (k : κ) (j : Nat)

def responseSeq (packet : Bytes) : Nat :=
  match ikcpUnpackProcCreatResp packet with
  | .ok (id, _) => id.toNat % 1024
  | .error _ => 0

/-- `gethostbyname` is the parameter `host`. A response is delivered to the socket it was
sent to. -/
def exchangeStep (host : CStr → κ) (s : Exchange ι κ) : ExchangeAction ι κ → Exec (Exchange ι κ)
  | .worker i a =>
      if a.own then do
        let c ← outStep (s.client i) a
        match a with
        | .take request => .ok ((s.setClient i c).addDest i (host request.rNode))
        | _ => .ok (s.setClient i c)
      else .error .blocked
  | .arrive i j =>
      match (s.client i).requests[j]? with
      | none => .error .blocked
      | some d =>
          match (s.dest i)[d.serial]? with
          | none => .error .blocked
          | some k => do
              let server ← inStep (s.server k) (.arrive (s.client i).cliaddr d.packet)
              .ok (s.setServer k server)
  | .server k a =>
      if a.own then do
        let server ← inStep (s.server k) a
        .ok (s.setServer k server)
      else .error .blocked
  | .deliver i k j =>
      match (s.server k).sent[j]? with
      | none => .error .blocked
      | some response =>
          if response.cliaddr = (s.client i).cliaddr then
            let c := s.client i
            .ok (s.setClient i { c with socket := c.socket ++ [⟨responseSeq response.packet, response.packet⟩] })
          else .error .blocked

/-- A thread takes up no more requests than it has numbers, reads only responses to its
request, and no request is worked on by two threads of a server at a time. -/
def Orderly (s : Exchange ι κ) : ExchangeAction ι κ → Prop
  | .worker i (.take _) => (s.client i).taken < 1024
  | .worker i .receive => ∀ c ∈ (s.client i).current, ∀ d ∈ (s.client i).socket.head?,
      (ikcpUnpackProcCreatResp d.packet).map Prod.fst = .ok c.id
  | .server k (.tryRespond w) => Alone (s.server k) (.tryRespond w)
  | _ => True

instance decidableAlone (s : Server) : (a : InAction) → Decidable (Alone s a)
  | .tryRespond w =>
      decidable_of_iff (∀ p ∈ s.worker w, p.1 = .dequeued →
          ∀ v, v ≠ w → windowNbr (s.worker v) ≠ some p.2.requestNbr)
        ⟨fun h r hw => h (.dequeued, r) hw rfl, fun h p hp hstage => h p.2 (by rw [← hstage]; exact hp)⟩
  | .arrive _ _ => isTrue trivial
  | .dequeue _ => isTrue trivial
  | .removeLast _ => isTrue trivial
  | .proceed _ => isTrue trivial
  | .respond _ => isTrue trivial
  | .add _ => isTrue trivial

instance decidableOrderly (s : Exchange ι κ) : (a : ExchangeAction ι κ) → Decidable (Orderly s a)
  | .worker i (.take _) => inferInstanceAs (Decidable ((s.client i).taken < 1024))
  | .worker i .receive => inferInstanceAs (Decidable (∀ c ∈ (s.client i).current, ∀ d ∈ (s.client i).socket.head?,
      (ikcpUnpackProcCreatResp d.packet).map Prod.fst = .ok c.id))
  | .worker _ .send => isTrue trivial
  | .worker _ .timeout => isTrue trivial
  | .worker _ .respond => isTrue trivial
  | .worker _ (.serve _ _) => isTrue trivial
  | .worker _ (.deliver _) => isTrue trivial
  | .arrive _ _ => isTrue trivial
  | .server k (.tryRespond w) => inferInstanceAs (Decidable (Alone (s.server k) (.tryRespond w)))
  | .server _ (.arrive _ _) => isTrue trivial
  | .server _ (.dequeue _) => isTrue trivial
  | .server _ (.removeLast _) => isTrue trivial
  | .server _ (.proceed _) => isTrue trivial
  | .server _ (.respond _) => isTrue trivial
  | .server _ (.add _) => isTrue trivial
  | .deliver _ _ _ => isTrue trivial

/-! ## A server and what it was asked -/

/-- Everything the server works on, has executed and has sent goes back to a request. -/
structure Comes (Asked : UInt32 → SockaddrIn → Prop) (s : Server) : Prop where
  pending : ∀ r ∈ s.pending, Asked r.requestNbr r.cliaddr
  worker : ∀ w stage r, s.worker w = some (stage, r) →
    Asked r.requestNbr r.cliaddr ∧ (stage.done = true → r.requestNbr ∈ s.executed)
  backlog : ∀ rs, Holds s.backlog rs → ∀ n ∈ numbers rs, n ∈ s.executed
  executed : ∀ n ∈ s.executed, ∃ a, Asked n a
  sent : ∀ x ∈ s.sent, ∃ n a pid, Asked n a ∧ n ∈ s.executed ∧
    x = ⟨a, ikcpPackProcCreatResp (ikcrUnpackReqId n) pid⟩

section Server

variable {Asked Asked' : UInt32 → SockaddrIn → Prop} {s s' : Server} {rs : List IkcRequest} {w : Fin 3}

theorem Comes.mono (h : Comes Asked s) (hmono : ∀ n a, Asked n a → Asked' n a) : Comes Asked' s where
  pending := fun r hr => hmono _ _ (h.pending r hr)
  worker := fun w stage r hw => ⟨hmono _ _ (h.worker w stage r hw).1, (h.worker w stage r hw).2⟩
  backlog := h.backlog
  executed := fun n hn => (h.executed n hn).imp fun a ha => hmono n a ha
  sent := fun x hx => by
    obtain ⟨n, a, pid, hasked, hn, hx⟩ := h.sent x hx
    exact ⟨n, a, pid, hmono n a hasked, hn, hx⟩

theorem comes_init : Comes Asked Server.init where
  pending := fun r hr => by cases hr
  worker := fun w stage r hw => by cases hw
  backlog := fun rs hrs => by
    rw [hrs.unique holds_init]
    exact fun n hn => by cases hn
  executed := fun n hn => by cases hn
  sent := fun x hx => by cases hx

theorem Comes.put (h : Comes Asked s) {p : Option (Stage × IkcRequest)}
    (hp : ∀ stage r, p = some (stage, r) →
      Asked r.requestNbr r.cliaddr ∧ (stage.done = true → r.requestNbr ∈ s.executed)) :
    Comes Asked (s.put w p) where
  pending := h.pending
  worker := fun v stage r hv => by
    rw [put_worker] at hv
    by_cases hvw : v = w
    · rw [if_pos hvw] at hv
      exact hp stage r hv
    · rw [if_neg hvw] at hv
      exact h.worker v stage r hv
  backlog := h.backlog
  executed := h.executed
  sent := h.sent

theorem cliaddr_proceed (r : IkcRequest) : (ikcrProceedIncomingRequest r).cliaddr = r.cliaddr := by
  unfold ikcrProceedIncomingRequest
  split
  · rfl
  · rfl

theorem comes_arrive {cliaddr : SockaddrIn} {packet : Bytes} (h : Comes Asked s)
    (hasked : ∀ r, ikcIncomingRequestCollector cliaddr packet = .ok (some r) → Asked r.requestNbr r.cliaddr)
    (hstep : inStep s (.arrive cliaddr packet) = .ok s') : Comes Asked s' ∧ s'.executed = s.executed := by
  simp only [inStep] at hstep
  obtain ⟨request, hcollect, hs'⟩ := bind_eq_ok hstep
  cases request with
  | none =>
      cases hs'
      exact ⟨h, rfl⟩
  | some r =>
      cases hs'
      refine ⟨{ h with pending := fun q hq => ?_ }, rfl⟩
      rcases List.mem_append.mp hq with hq | hq
      · exact h.pending q hq
      · rw [List.mem_singleton.mp hq]
        exact hasked r hcollect

theorem comes_dequeue (h : Comes Asked s) (hstep : inStep s (.dequeue w) = .ok s') :
    Comes Asked s' ∧ s'.executed = s.executed := by
  simp only [inStep] at hstep
  split at hstep
  · cases hstep
    exact ⟨h, rfl⟩
  · next r rest _ hpending =>
    cases hstep
    have hrest : Comes Asked { s with pending := rest } :=
      { h with pending := fun q hq => h.pending q (by rw [hpending]; exact List.mem_cons_of_mem r hq) }
    refine ⟨hrest.put fun stage q hq => ?_, rfl⟩
    cases hq
    exact ⟨h.pending r (by rw [hpending]; exact List.mem_cons_self ..), fun hdone => by cases hdone⟩
  · cases hstep

theorem comes_tryRespond (hinv : InInv s rs) (h : Comes Asked s) (hstep : inStep s (.tryRespond w) = .ok s') :
    Comes Asked s' ∧ s'.executed = s.executed := by
  simp only [inStep] at hstep
  split at hstep
  · next r hw =>
    have hasked := (h.worker w _ r hw).1
    rcases ikcblTryRespondFromBacklog_cases hinv.holds hinv.answered r with
      ⟨-, hmiss⟩ | ⟨rs₁, q, rs₂, bl, pid, hrs, hq, hhit, hholds⟩
    · rw [hmiss, ok_bind] at hstep
      cases hstep
      refine ⟨h.put fun stage q hq => ?_, rfl⟩
      cases hq
      exact ⟨hasked, fun hdone => by cases hdone⟩
    · rw [hhit, ok_bind] at hstep
      cases hstep
      have hexecuted : r.requestNbr ∈ s.executed := by
        refine h.backlog rs hinv.holds _ ?_
        rw [hrs, ← hq]
        simp [numbers]
      have hsent : Comes Asked { s with
          backlog := bl
          sent := ⟨r.cliaddr, ikcpPackProcCreatResp (ikcrUnpackReqId r.requestNbr) pid⟩ :: s.sent } :=
        { h with
          backlog := fun rs' hrs' n hn => by
            rw [hrs'.unique hholds, numbers_readdressed, ← hrs] at hn
            exact h.backlog rs hinv.holds n hn
          sent := fun x hx => by
            rcases List.mem_cons.mp hx with rfl | hx
            · exact ⟨_, _, pid, hasked, hexecuted, rfl⟩
            · exact h.sent x hx }
      exact ⟨hsent.put fun stage q hq => (by cases hq), rfl⟩
  · cases hstep

theorem comes_removeLast (hinv : InInv s rs) (h : Comes Asked s) (hstep : inStep s (.removeLast w) = .ok s') :
    Comes Asked s' ∧ s'.executed = s.executed := by
  simp only [inStep] at hstep
  split at hstep
  · next r hw =>
    have hwin : windowNbr (s.worker w) = some r.requestNbr := by
      rw [hw]
      rfl
    obtain ⟨result, hremove⟩ := ikcblRemoveThreadsLastRequest_absent hinv.holds (hinv.absent w _ hwin)
    rw [hremove, ok_bind] at hstep
    cases hstep
    refine ⟨h.put fun stage q hq => ?_, rfl⟩
    cases hq
    exact ⟨(h.worker w _ r hw).1, fun hdone => by cases hdone⟩
  · cases hstep

theorem comes_proceed (h : Comes Asked s) (hstep : inStep s (.proceed w) = .ok s') :
    Comes Asked s' ∧ ∀ n ∈ s.executed, n ∈ s'.executed := by
  simp only [inStep] at hstep
  split at hstep
  · next r hw =>
    cases hstep
    have hasked := (h.worker w _ r hw).1
    have hold : ∀ n ∈ s.executed, n ∈ r.requestNbr :: s.executed := fun n hn => List.mem_cons_of_mem _ hn
    have hmore : Comes Asked { s with executed := r.requestNbr :: s.executed } :=
      { pending := h.pending
        worker := fun v stage q hv => ⟨(h.worker v stage q hv).1, fun hdone => hold _ ((h.worker v stage q hv).2 hdone)⟩
        backlog := fun rs' hrs' n hn => hold n (h.backlog rs' hrs' n hn)
        executed := fun n hn => by
          rcases List.mem_cons.mp hn with rfl | hn
          · exact ⟨_, hasked⟩
          · exact h.executed n hn
        sent := fun x hx => by
          obtain ⟨n, a, pid, hna, hn, hx⟩ := h.sent x hx
          exact ⟨n, a, pid, hna, hold n hn, hx⟩ }
    refine ⟨hmore.put fun stage q hq => ?_, hold⟩
    cases hq
    rw [requestNbr_proceed, cliaddr_proceed]
    exact ⟨hasked, fun _ => List.mem_cons_self ..⟩
  · cases hstep

theorem comes_respond (hinv : InInv s rs) (h : Comes Asked s) (hstep : inStep s (.respond w) = .ok s') :
    Comes Asked s' ∧ s'.executed = s.executed := by
  simp only [inStep] at hstep
  split at hstep
  · next r hw =>
    obtain ⟨hasked, hdone⟩ := h.worker w _ r hw
    obtain ⟨hreq, pid, hpid⟩ := (hinv.fit w _ _ hw).2 rfl
    rw [respondToClient_eq hreq hpid, ok_bind] at hstep
    cases hstep
    have hsent : Comes Asked { s with
        sent := ⟨r.cliaddr, ikcpPackProcCreatResp (ikcrUnpackReqId r.requestNbr) pid⟩ :: s.sent } :=
      { h with
        sent := fun x hx => by
          rcases List.mem_cons.mp hx with rfl | hx
          · exact ⟨_, _, pid, hasked, hdone rfl, rfl⟩
          · exact h.sent x hx }
    refine ⟨hsent.put fun stage q hq => ?_, rfl⟩
    cases hq
    exact ⟨hasked, fun _ => hdone rfl⟩
  · cases hstep

theorem comes_add (hinv : InInv s rs) (h : Comes Asked s) (hstep : inStep s (.add w) = .ok s') :
    Comes Asked s' ∧ s'.executed = s.executed := by
  simp only [inStep] at hstep
  split at hstep
  · next r hw =>
    obtain ⟨bl, hadd, hholds⟩ := ikcblAddRequest_holds hinv.holds r
    rw [hadd, ok_bind] at hstep
    cases hstep
    have hadded : Comes Asked { s with backlog := bl } :=
      { h with
        backlog := fun rs' hrs' n hn => by
          rw [hrs'.unique hholds, numbers_cons] at hn
          rcases List.mem_cons.mp hn with rfl | hn
          · exact (h.worker w _ r hw).2 rfl
          · exact h.backlog rs hinv.holds n hn }
    exact ⟨hadded.put fun stage q hq => (by cases hq), rfl⟩
  · cases hstep

theorem comes_step {a : InAction} (hinv : InInv s rs) (h : Comes Asked s)
    (hasked : ∀ cliaddr packet r, a = .arrive cliaddr packet →
      ikcIncomingRequestCollector cliaddr packet = .ok (some r) → Asked r.requestNbr r.cliaddr)
    (hstep : inStep s a = .ok s') : Comes Asked s' ∧ ∀ n ∈ s.executed, n ∈ s'.executed := by
  have hsame : (Comes Asked s' ∧ s'.executed = s.executed) → Comes Asked s' ∧ ∀ n ∈ s.executed, n ∈ s'.executed :=
    fun hstay => ⟨hstay.1, fun n hn => by rwa [hstay.2]⟩
  cases a with
  | arrive cliaddr packet => exact hsame (comes_arrive h (fun r hr => hasked cliaddr packet r rfl hr) hstep)
  | dequeue w => exact hsame (comes_dequeue h hstep)
  | tryRespond w => exact hsame (comes_tryRespond hinv h hstep)
  | removeLast w => exact hsame (comes_removeLast hinv h hstep)
  | proceed w => exact comes_proceed h hstep
  | respond w => exact hsame (comes_respond hinv h hstep)
  | add w => exact hsame (comes_add hinv h hstep)

end Server

/-! ## A thread and what was done for it -/

/-- The request at hand, if `taken` were taken up; a pid in it is that of an executed one. -/
structure AtHand (threadId : UInt8) (Done : Nat → Prop) (taken : Nat) (c : Current) : Prop where
  serial : c.serial < taken
  seq : c.phase ≠ .answered → c.request.seqNbr = seqNbrAt c.serial
  id : ∀ n, c.phase = .waiting n → c.id = ikcrPackRequestId threadId (seqNbrAt c.serial)
  done : c.request.rPid.isSome → Done c.serial

structure ThreadInv (threadId : UInt8) (addr : SockaddrIn) (Done : Nat → Prop) (Reply : Bytes → Prop)
    (s : Client) : Prop where
  thread_eq : s.threadId = threadId
  addr_eq : s.cliaddr = addr
  counter : nextSeqNbr s.seqNbr = seqNbrAt s.taken
  requests : ∀ d ∈ s.requests, ∃ r, ikcIncomingRequestCollector addr d.packet = .ok (some r) ∧
    r.requestNbr = numberAt threadId addr d.serial ∧ r.cliaddr = addr
  socket : ∀ d ∈ s.socket, Reply d.packet
  current : ∀ c, s.current = some c → AtHand threadId Done s.taken c
  handed : ∀ h ∈ s.handed, h.rPid.isSome → Done h.serial

section Thread

variable {threadId : UInt8} {addr : SockaddrIn} {Done Done' : Nat → Prop} {Reply Reply' : Bytes → Prop}
  {s s' : Client}

theorem ThreadInv.mono (h : ThreadInv threadId addr Done Reply s) (hdone : ∀ n, Done n → Done' n)
    (hreply : ∀ p, Reply p → Reply' p) : ThreadInv threadId addr Done' Reply' s :=
  { h with
    socket := fun d hd => hreply _ (h.socket d hd)
    current := fun c hc => { h.current c hc with done := fun hsome => hdone _ ((h.current c hc).done hsome) }
    handed := fun e he hsome => hdone _ (h.handed e he hsome) }

theorem threadInv_init (threadId : UInt8) (addr : SockaddrIn) (Done : Nat → Prop) (Reply : Bytes → Prop) :
    ThreadInv threadId addr Done Reply (Client.init threadId addr) where
  thread_eq := rfl
  addr_eq := rfl
  counter := rfl
  requests := fun d hd => by cases hd
  socket := fun d hd => by cases hd
  current := fun c hc => by cases hc
  handed := fun e he => by cases he

theorem cliaddr_collector {cliaddr : SockaddrIn} {packet : Bytes} {r : IkcRequest}
    (h : ikcIncomingRequestCollector cliaddr packet = .ok (some r)) : r.cliaddr = cliaddr := by
  unfold ikcIncomingRequestCollector at h
  split at h
  · split at h
    · cases h
    · split at h
      · cases hp : ikcpUnpackProcCreatReq _ with
        | error f =>
            rw [ikcrQueueProcessCreationRequest, hp] at h
            cases h
        | ok p =>
            rw [ikcrQueueProcessCreationRequest, hp] at h
            cases h
            rfl
      · cases h
  · cases h

theorem collector_sent {request : OutRequest} {packet : Bytes} (addr : SockaddrIn)
    (hsend : ikcrProceedOutgoingRequestSend request threadId = .ok (some packet)) :
    ∃ r, ikcIncomingRequestCollector addr packet = .ok (some r) ∧
      r.requestNbr = ikcrPackRequestNumber addr (ikcrPackRequestId threadId request.seqNbr) ∧ r.cliaddr = addr := by
  by_cases hreq : request.req = procCreatReq
  · obtain ⟨sent, r, hsent, hcollect, harrived⟩ := collector_send hreq threadId addr
    cases hsent.symm.trans hsend
    exact ⟨r, hcollect, harrived.requestNbr, cliaddr_collector hcollect⟩
  · have hnone : ikcrProceedOutgoingRequestSend request threadId = .ok none := if_neg hreq
    cases hnone.symm.trans hsend

theorem threadInv_take (h : ThreadInv threadId addr Done Reply s) {request : OutRequest}
    (hstep : outStep s (.take request) = .ok s') :
    ThreadInv threadId addr Done Reply s' ∧ s'.taken = s.taken + 1 := by
  simp only [outStep] at hstep
  split at hstep
  · cases hstep
  · cases hstep
    refine ⟨{ h with counter := ?_, current := fun c hc => ?_ }, rfl⟩
    · rw [h.counter]
      rfl
    · cases hc
      exact ⟨Nat.lt_succ_self _, fun _ => h.counter, fun n hn => (by cases hn), fun hsome => by cases hsome⟩

theorem threadInv_send (h : ThreadInv threadId addr Done Reply s) (hstep : outStep s .send = .ok s') :
    ThreadInv threadId addr Done Reply s' ∧ s'.taken = s.taken := by
  simp only [outStep] at hstep
  split at hstep
  · next c hc =>
    have hat := h.current c hc
    split at hstep
    · next attempts hphase =>
      have hseq := hat.seq (by rw [hphase]; exact fun hp => by cases hp)
      split at hstep
      · obtain ⟨sent, hsend, hs'⟩ := bind_eq_ok hstep
        cases sent with
        | none =>
            cases hs'
            refine ⟨{ h with current := fun c' hc' => ?_ }, rfl⟩
            cases hc'
            exact ⟨hat.serial, fun hp => absurd rfl hp, fun n hn => (by cases hn), hat.done⟩
        | some packet =>
            cases hs'
            refine ⟨{ h with requests := fun d hd => ?_, current := fun c' hc' => ?_ }, rfl⟩
            · rcases List.mem_cons.mp hd with rfl | hd
              · rw [h.thread_eq] at hsend
                have hsent := collector_sent addr hsend
                rwa [hseq] at hsent
              · exact h.requests d hd
            · cases hc'
              exact ⟨hat.serial, fun _ => hseq, fun n _ => by rw [h.thread_eq, hseq], hat.done⟩
      · cases hstep
    · cases hstep
  · cases hstep

theorem threadInv_timeout (h : ThreadInv threadId addr Done Reply s) (hstep : outStep s .timeout = .ok s') :
    ThreadInv threadId addr Done Reply s' ∧ s'.taken = s.taken := by
  simp only [outStep] at hstep
  split at hstep
  · next c hc hempty =>
    have hat := h.current c hc
    split at hstep
    · next attempts hphase =>
      cases hstep
      refine ⟨{ h with current := fun c' hc' => ?_ }, rfl⟩
      cases hc'
      have hseq := hat.seq (by rw [hphase]; exact fun hp => by cases hp)
      exact ⟨hat.serial, fun _ => hseq, fun n hn => (by cases hn), hat.done⟩
    · cases hstep
  · cases hstep

theorem threadInv_receive (h : ThreadInv threadId addr Done Reply s)
    (hdone : ∀ c d rest, s.current = some c → s.socket = d :: rest → (∃ n, c.phase = .waiting n) → Done c.serial)
    (hstep : outStep s .receive = .ok s') :
    ThreadInv threadId addr Done Reply s' ∧ s'.taken = s.taken := by
  simp only [outStep] at hstep
  split at hstep
  · next c d socket hc hsocket =>
    have hat := h.current c hc
    split at hstep
    · next attempts hphase =>
      obtain ⟨request, -, hs'⟩ := bind_eq_ok hstep
      cases hs'
      refine ⟨{ h with socket := fun e he => ?_, current := fun c' hc' => ?_ }, rfl⟩
      · exact h.socket e (by rw [hsocket]; exact List.mem_cons_of_mem d he)
      · cases hc'
        exact ⟨hat.serial, fun hp => absurd rfl hp, fun n hn => (by cases hn),
          fun _ => hdone c d socket hc hsocket ⟨attempts, hphase⟩⟩
    · cases hstep
  · cases hstep

theorem threadInv_respond (h : ThreadInv threadId addr Done Reply s) (hstep : outStep s .respond = .ok s') :
    ThreadInv threadId addr Done Reply s' ∧ s'.taken = s.taken := by
  simp only [outStep] at hstep
  split at hstep
  · next c hc =>
    split at hstep
    · split at hstep
      · cases hstep
        refine ⟨{ h with current := fun c' hc' => (by cases hc'), handed := fun e he hsome => ?_ }, rfl⟩
        rcases List.mem_cons.mp he with rfl | he
        · exact (h.current c hc).done hsome
        · exact h.handed e he hsome
      · cases hstep
        exact ⟨{ h with current := fun c' hc' => by cases hc' }, rfl⟩
    · cases hstep
  · cases hstep

end Thread

/-! ## The whole system -/

section System

variable (threadId : ι → UInt8) (addr : ι → SockaddrIn)

/-- The number was given to a request for the node, by a thread with that address. -/
def Asked (s : Exchange ι κ) (k : κ) (n : UInt32) (a : SockaddrIn) : Prop :=
  ∃ i serial, (s.dest i)[serial]? = some k ∧ n = numberAt (threadId i) (addr i) serial ∧ a = addr i

def Executed (s : Exchange ι κ) (i : ι) (serial : Nat) : Prop :=
  ∃ k, (s.dest i)[serial]? = some k ∧ numberAt (threadId i) (addr i) serial ∈ (s.server k).executed

/-- A response to an executed request of a thread with the same address. -/
def Reply (s : Exchange ι κ) (i : ι) (packet : Bytes) : Prop :=
  ∃ j serial pid, addr j = addr i ∧ Executed threadId addr s j serial ∧
    packet = ikcpPackProcCreatResp (ikcrPackRequestId (threadId j) (seqNbrAt serial)) pid

structure ExchangeInv (s : Exchange ι κ) : Prop where
  dest : ∀ i, (s.dest i).length = (s.client i).taken
  room : ∀ i, (s.client i).taken ≤ 1024
  client : ∀ i, ThreadInv (threadId i) (addr i) (Executed threadId addr s i) (Reply threadId addr s i) (s.client i)
  server : ∀ k, (∃ rs, InInv (s.server k) rs) ∧ Comes (Asked threadId addr s k) (s.server k)

variable {threadId addr} {host : CStr → κ} {s s' : Exchange ι κ}

structure Exchange.Extends (s s' : Exchange ι κ) : Prop where
  dest : ∀ i, s.dest i <+: s'.dest i
  executed : ∀ k, ∀ n ∈ (s.server k).executed, n ∈ (s'.server k).executed

omit [DecidableEq ι] [DecidableEq κ]

theorem Exchange.Extends.goes (h : s.Extends s') {i : ι} {serial : Nat} {k : κ}
    (hk : (s.dest i)[serial]? = some k) : (s'.dest i)[serial]? = some k := by
  obtain ⟨more, hmore⟩ := h.dest i
  rw [← hmore, List.getElem?_append_left (List.getElem?_eq_some_iff.mp hk).1]
  exact hk

theorem Asked.mono (h : s.Extends s') {k : κ} {n : UInt32} {a : SockaddrIn} (hasked : Asked threadId addr s k n a) :
    Asked threadId addr s' k n a := by
  obtain ⟨i, serial, hk, hn, ha⟩ := hasked
  exact ⟨i, serial, h.goes hk, hn, ha⟩

theorem Executed.mono (h : s.Extends s') {i : ι} {serial : Nat} (hex : Executed threadId addr s i serial) :
    Executed threadId addr s' i serial := by
  obtain ⟨k, hk, hn⟩ := hex
  exact ⟨k, h.goes hk, h.executed k _ hn⟩

theorem Reply.mono (h : s.Extends s') {i : ι} {packet : Bytes} (hreply : Reply threadId addr s i packet) :
    Reply threadId addr s' i packet := by
  obtain ⟨j, serial, pid, ha, hex, hp⟩ := hreply
  exact ⟨j, serial, pid, ha, hex.mono h, hp⟩

theorem exchangeInv_init : ExchangeInv threadId addr (Exchange.init threadId addr : Exchange ι κ) where
  dest := fun _ => rfl
  room := fun _ => Nat.zero_le _
  client := fun i => threadInv_init (threadId i) (addr i) _ _
  server := fun _ => ⟨⟨[], inInv_init⟩, comes_init⟩

theorem setClient_client [DecidableEq ι] (s : Exchange ι κ) (i : ι) (c : Client) (j : ι) :
    (s.setClient i c).client j = if j = i then c else s.client j := rfl

theorem addDest_dest [DecidableEq ι] (s : Exchange ι κ) (i : ι) (k : κ) (j : ι) :
    (s.addDest i k).dest j = if j = i then s.dest i ++ [k] else s.dest j := rfl

theorem ExchangeInv.setClient [DecidableEq ι] (h : ExchangeInv threadId addr s) {i : ι} {c : Client}
    (hc : ThreadInv (threadId i) (addr i) (Executed threadId addr s i) (Reply threadId addr s i) c)
    (htaken : c.taken = (s.client i).taken) : ExchangeInv threadId addr (s.setClient i c) := by
  have htaken' : ∀ j, ((s.setClient i c).client j).taken = (s.client j).taken := by
    intro j
    rw [setClient_client]
    split
    · next hj => rw [hj, htaken]
    · rfl
  refine ⟨fun j => (h.dest j).trans (htaken' j).symm, fun j => (htaken' j).trans_le (h.room j), fun j => ?_, h.server⟩
  rw [setClient_client]
  split
  · next hj =>
    rw [hj]
    exact hc
  · exact h.client j

theorem extends_addDest [DecidableEq ι] (s : Exchange ι κ) (i : ι) (c : Client) (k : κ) :
    s.Extends ((s.setClient i c).addDest i k) where
  dest := fun j => by
    rw [addDest_dest]
    split
    · next hj =>
      rw [hj]
      exact List.prefix_append ..
    · exact List.prefix_refl _
  executed := fun _ _ hn => hn

theorem ExchangeInv.take [DecidableEq ι] (h : ExchangeInv threadId addr s) {i : ι} {c : Client} (k : κ)
    (hc : ThreadInv (threadId i) (addr i) (Executed threadId addr s i) (Reply threadId addr s i) c)
    (htaken : c.taken = (s.client i).taken + 1) (hroom : (s.client i).taken < 1024) :
    ExchangeInv threadId addr ((s.setClient i c).addDest i k) := by
  have hext := extends_addDest s i c k
  have hclient : ∀ j, ((s.setClient i c).addDest i k).client j = if j = i then c else s.client j := fun _ => rfl
  refine ⟨fun j => ?_, fun j => ?_, fun j => ?_, fun l => ⟨(h.server l).1, (h.server l).2.mono fun n a => Asked.mono hext⟩⟩
  · rw [addDest_dest, hclient]
    split
    · rw [List.length_append, htaken]
      exact congrArg (· + 1) (h.dest i)
    · exact h.dest j
  · rw [hclient]
    split
    · rw [htaken]
      exact hroom
    · exact h.room j
  · rw [hclient]
    split
    · next hj =>
      rw [hj]
      exact hc.mono (fun n => Executed.mono hext) fun p => Reply.mono hext
    · exact (h.client j).mono (fun n => Executed.mono hext) fun p => Reply.mono hext

theorem setServer_server [DecidableEq κ] (s : Exchange ι κ) (k : κ) (server : Server) (l : κ) :
    (s.setServer k server).server l = if l = k then server else s.server l := rfl

theorem ExchangeInv.serverStep [DecidableEq κ] (h : ExchangeInv threadId addr s) {k : κ} {a : InAction}
    {server : Server} (halone : Alone (s.server k) a)
    (hasked : ∀ cliaddr packet r, a = .arrive cliaddr packet →
      ikcIncomingRequestCollector cliaddr packet = .ok (some r) → Asked threadId addr s k r.requestNbr r.cliaddr)
    (hstep : inStep (s.server k) a = .ok server) : ExchangeInv threadId addr (s.setServer k server) := by
  obtain ⟨⟨rs, hinv⟩, hcomes⟩ := h.server k
  obtain ⟨hcomes', hmore⟩ := comes_step hinv hcomes hasked hstep
  have hext : s.Extends (s.setServer k server) :=
    { dest := fun i => List.prefix_refl _
      executed := fun l n hn => by
        rw [setServer_server]
        split
        · next hl =>
          rw [hl] at hn
          exact hmore n hn
        · exact hn }
  refine ⟨h.dest, h.room, fun i => (h.client i).mono (fun n => Executed.mono hext) fun p => Reply.mono hext, fun l => ?_⟩
  rw [setServer_server]
  split
  · next hl =>
    rw [hl]
    exact ⟨inStep_inv ⟨rs, hinv⟩ halone hstep, hcomes'.mono fun n a => Asked.mono hext⟩
  · exact ⟨(h.server l).1, (h.server l).2.mono fun n a => Asked.mono hext⟩

/-- Two threads differ in their number or in the part of the address that the request
numbers have. -/
structure Distinct (threadId : ι → UInt8) (addr : ι → SockaddrIn) : Prop where
  thread_lt : ∀ i, (threadId i).toNat < 64
  apart : ∀ i j, (addr i).sinAddr.toNat % 2 ^ 16 = (addr j).sinAddr.toNat % 2 ^ 16 → threadId i = threadId j → i = j

theorem toNat_seqNbrAt_of_lt {serial : Nat} (h : serial < 1024) : (seqNbrAt serial).toNat = serial :=
  toNat_seqNbrAt_of_le (Nat.le_of_lt h)

theorem Distinct.number_inj (hdistinct : Distinct threadId addr) {i j : ι} {m n : Nat} (hm : m < 1024) (hn : n < 1024)
    (h : numberAt (threadId i) (addr i) m = numberAt (threadId j) (addr j) n) : i = j ∧ m = n := by
  obtain ⟨haddr, hthread, hseq⟩ := requestNumber_eq (hdistinct.thread_lt i)
    (by rwa [toNat_seqNbrAt_of_lt hm]) (hdistinct.thread_lt j) (by rwa [toNat_seqNbrAt_of_lt hn]) h
  refine ⟨hdistinct.apart i j haddr hthread, ?_⟩
  rw [← toNat_seqNbrAt_of_lt hm, hseq, toNat_seqNbrAt_of_lt hn]

/-- Threads with one address have different ids. -/
theorem Distinct.id_inj (hdistinct : Distinct threadId addr) {i j : ι} {m n : Nat} (hm : m < 1024) (hn : n < 1024)
    (haddr : addr j = addr i)
    (h : ikcrPackRequestId (threadId j) (seqNbrAt n) = ikcrPackRequestId (threadId i) (seqNbrAt m)) :
    j = i ∧ n = m :=
  hdistinct.number_inj hn hm (by rw [numberAt, numberAt, haddr, h])

theorem ExchangeInv.goes_lt (h : ExchangeInv threadId addr s) {i : ι} {serial : Nat} {k : κ}
    (hk : (s.dest i)[serial]? = some k) : serial < 1024 := by
  have hlt := (List.getElem?_eq_some_iff.mp hk).1
  rw [h.dest i] at hlt
  exact Nat.lt_of_lt_of_le hlt (h.room i)

/-- A response with the id of the request at hand answers it. -/
theorem ExchangeInv.answered (hdistinct : Distinct threadId addr) (h : ExchangeInv threadId addr s) {i : ι}
    {c : Current} {d : Datagram} {rest : List Datagram} (hc : (s.client i).current = some c)
    (hsocket : (s.client i).socket = d :: rest) (hwaiting : ∃ n, c.phase = .waiting n)
    (hid : (ikcpUnpackProcCreatResp d.packet).map Prod.fst = .ok c.id) : Executed threadId addr s i c.serial := by
  obtain ⟨n, hphase⟩ := hwaiting
  have hat := (h.client i).current c hc
  have hd : d ∈ (s.client i).socket := by
    rw [hsocket]
    exact List.mem_cons_self ..
  obtain ⟨j, serial, pid', haddr, hex, hpacket⟩ := (h.client i).socket d hd
  obtain ⟨k, hk, hn⟩ := hex
  rw [hpacket, unpack_packProcCreatResp] at hid
  have hpacked : ikcrPackRequestId (threadId j) (seqNbrAt serial) = c.id := Except.ok.inj hid
  rw [hat.id n hphase] at hpacked
  obtain ⟨hji, hserial⟩ :=
    hdistinct.id_inj (Nat.lt_of_lt_of_le hat.serial (h.room i)) (h.goes_lt hk) haddr hpacked
  rw [← hji, ← hserial]
  exact ⟨k, hk, hn⟩

theorem ExchangeInv.workerStep [DecidableEq ι] [DecidableEq κ] (hdistinct : Distinct threadId addr)
    (h : ExchangeInv threadId addr s) {i : ι} {a : OutAction} (horderly : Orderly s (.worker i a))
    (hstep : exchangeStep host s (.worker i a) = .ok s') : ExchangeInv threadId addr s' := by
  have hthread := h.client i
  simp only [exchangeStep] at hstep
  split at hstep
  · obtain ⟨c, hc, hs'⟩ := bind_eq_ok hstep
    cases a with
    | take request =>
        cases hs'
        obtain ⟨hinv, htaken⟩ := threadInv_take hthread hc
        exact h.take _ hinv htaken horderly
    | send =>
        cases hs'
        obtain ⟨hinv, htaken⟩ := threadInv_send hthread hc
        exact h.setClient hinv htaken
    | timeout =>
        cases hs'
        obtain ⟨hinv, htaken⟩ := threadInv_timeout hthread hc
        exact h.setClient hinv htaken
    | receive =>
        cases hs'
        obtain ⟨hinv, htaken⟩ := threadInv_receive hthread
          (fun c d rest hcur hsocket hwaiting =>
            h.answered hdistinct hcur hsocket hwaiting (horderly c hcur d (by rw [hsocket]; rfl))) hc
        exact h.setClient hinv htaken
    | respond =>
        cases hs'
        obtain ⟨hinv, htaken⟩ := threadInv_respond hthread hc
        exact h.setClient hinv htaken
    | serve j rPid => contradiction
    | deliver j => contradiction
  · cases hstep

theorem ExchangeInv.reply (h : ExchangeInv threadId addr s) {i : ι} {k : κ} {x : Response}
    (hx : x ∈ (s.server k).sent) (haddr : x.cliaddr = addr i) : Reply threadId addr s i x.packet := by
  obtain ⟨n, a, pid, ⟨j, serial, hk, hn, ha⟩, hexecuted, rfl⟩ := (h.server k).2.sent x hx
  rw [hn] at hexecuted
  refine ⟨j, serial, pid, ha.symm.trans haddr, ⟨k, hk, hexecuted⟩, ?_⟩
  rw [hn, numberAt, unpackReqId_packRequestNumber]

theorem ExchangeInv.step [DecidableEq ι] [DecidableEq κ] (hdistinct : Distinct threadId addr)
    (h : ExchangeInv threadId addr s) {a : ExchangeAction ι κ} (horderly : Orderly s a)
    (hstep : exchangeStep host s a = .ok s') : ExchangeInv threadId addr s' := by
  cases a with
  | worker i a => exact h.workerStep hdistinct horderly hstep
  | arrive i j =>
      simp only [exchangeStep] at hstep
      split at hstep
      · cases hstep
      · next d hd =>
        split at hstep
        · cases hstep
        · next k hk =>
          obtain ⟨server, harrive, hs'⟩ := bind_eq_ok hstep
          cases hs'
          have halone : Alone (s.server k) (.arrive (s.client i).cliaddr d.packet) := trivial
          refine h.serverStep halone (fun cliaddr packet r harrived hcollect => ?_) harrive
          cases harrived
          obtain ⟨r', hr', hnbr, haddr⟩ := (h.client i).requests d (List.mem_of_getElem? hd)
          rw [(h.client i).addr_eq, hr'] at hcollect
          cases hcollect
          exact ⟨i, d.serial, hk, hnbr, haddr⟩
  | server k a =>
      simp only [exchangeStep] at hstep
      split at hstep
      · next hown =>
        obtain ⟨server, hserver, hs'⟩ := bind_eq_ok hstep
        cases hs'
        have halone : Alone (s.server k) a := by
          cases a with
          | tryRespond w => exact horderly
          | _ => trivial
        refine h.serverStep halone (fun cliaddr packet r harrived _ => ?_) hserver
        rw [harrived] at hown
        cases hown
      · cases hstep
  | deliver i k j =>
      simp only [exchangeStep] at hstep
      split at hstep
      · cases hstep
      · next x hx =>
        split at hstep
        · next haddr =>
          cases hstep
          have hthread := h.client i
          rw [hthread.addr_eq] at haddr
          refine h.setClient { hthread with socket := fun d hd => ?_ } rfl
          rcases List.mem_append.mp hd with hd | hd
          · exact hthread.socket d hd
          · rw [List.mem_singleton.mp hd]
            exact h.reply (List.mem_of_getElem? hx) haddr
        · cases hstep

/-- In every run of any number of threads and servers, over a network that loses, repeats
and reorders, no server executes a request twice, nothing is executed that was not asked of
this server, and a request that was answered was executed by the server it was for and by no
other. -/
theorem remote_creation_once [DecidableEq ι] [DecidableEq κ] (hdistinct : Distinct threadId addr) (host : CStr → κ)
    (as : List (ExchangeAction ι κ)) (s : Exchange ι κ)
    (hrun : steps (exchangeStep host) as (Exchange.init threadId addr) = .ok s)
    (horderly : Along (exchangeStep host) Orderly as (Exchange.init threadId addr)) :
    (∀ k, (s.server k).executed.Nodup) ∧
      (∀ k n, n ∈ (s.server k).executed →
        ∃ i serial, (s.dest i)[serial]? = some k ∧ n = numberAt (threadId i) (addr i) serial) ∧
      ∀ i, ∀ h ∈ (s.client i).handed, h.rPid.isSome →
        ∃ k, (s.dest i)[h.serial]? = some k ∧
          ∀ l, numberAt (threadId i) (addr i) h.serial ∈ (s.server l).executed ↔ l = k := by
  have hinv : ExchangeInv threadId addr s :=
    steps_invariant (ExchangeInv threadId addr) (fun _ _ _ h ho hstep => h.step hdistinct ho hstep)
      as _ s exchangeInv_init horderly hrun
  have hasked : ∀ k n, n ∈ (s.server k).executed →
      ∃ i serial, (s.dest i)[serial]? = some k ∧ n = numberAt (threadId i) (addr i) serial := by
    intro k n hn
    obtain ⟨a, i, serial, hk, hnumber, -⟩ := (hinv.server k).2.executed n hn
    exact ⟨i, serial, hk, hnumber⟩
  refine ⟨fun k => ?_, hasked, fun i e he hsome => ?_⟩
  · obtain ⟨rs, hserver⟩ := (hinv.server k).1
    exact hserver.nodup
  · obtain ⟨k, hk, hn⟩ := (hinv.client i).handed e he hsome
    refine ⟨k, hk, fun l => ⟨fun hl => ?_, fun hlk => by rwa [hlk]⟩⟩
    obtain ⟨j, serial, hl', hnumber⟩ := hasked l _ hl
    obtain ⟨hij, hserial⟩ := hdistinct.number_inj (hinv.goes_lt hk) (hinv.goes_lt hl') hnumber
    rw [← hij, ← hserial, hk] at hl'
    exact (Option.some.inj hl').symm

end System

/-- The request is sent twice; the second datagram is answered from the backlog. -/
def sentTwice : List (ExchangeAction Unit Unit) :=
  [.worker () (.take plainRequest), .worker () .send, .worker () .timeout, .worker () .send,
    .arrive () 0, .arrive () 1, .server () (.dequeue 0), .server () (.tryRespond 0), .server () (.removeLast 0),
    .server () (.proceed 0), .server () (.respond 0), .server () (.add 0), .server () (.dequeue 1),
    .server () (.tryRespond 1), .deliver () () 0, .worker () .receive, .worker () .respond]

theorem orderly_sentTwice : Along (exchangeStep fun _ => ()) Orderly sentTwice
    (Exchange.init (fun _ => 1) fun _ => firstClient) := by
  decide +kernel

theorem remote_creation_once_sentTwice :
    ∃ s, steps (exchangeStep fun _ => ()) sentTwice (Exchange.init (fun _ => 1) fun _ => firstClient) = .ok s ∧
      (s.client ()).handed.map Handed.rPid = [some 76] ∧ (s.server ()).executed = [0x00010400] ∧
      (s.server ()).executed.Nodup := by
  obtain ⟨s, hrun, hpids, hexecuted⟩ : ∃ s, steps (exchangeStep fun _ => ()) sentTwice
      (Exchange.init (fun _ => 1) fun _ => firstClient) = .ok s ∧
      (s.client ()).handed.map Handed.rPid = [some 76] ∧ (s.server ()).executed = [0x00010400] :=
    ⟨_, rfl, rfl, rfl⟩
  have hdistinct : Distinct (fun _ : Unit => 1) (fun _ => firstClient) := ⟨fun _ => by decide, fun _ _ _ _ => rfl⟩
  exact ⟨s, hrun, hpids, hexecuted,
    (remote_creation_once hdistinct (fun _ => ()) sentTwice s hrun orderly_sentTwice).1 ()⟩

end Dkmp.Ikcd
