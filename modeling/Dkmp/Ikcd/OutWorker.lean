import Dkmp.Ikcd.InWorker

/-! # One client worker and one server worker

A worker of the client sends its requests one after the other; the server has a
single worker, which handles every packet before the next one arrives. The
sequence counter of the client runs through 1025 values but an id keeps only ten
bits of it, and the server never evicts a request, so from the 1025th request on
every one is taken for an old one.
-/

namespace Dkmp.Ikcd

open Machine

def ikcMaxAttempts : Nat := 2

def nextSeqNbr (seqNbr : UInt16) : UInt16 := if seqNbr = 1024 then 0 else seqNbr + 1

def firstSeqNbr : UInt16 := 0xffff

/-! ## The server with a single worker -/

/-- What `ikc_in_request_worker` does with a request that is not in the backlog;
worker 0 is the only one. -/
def executeRequest (s : Server) : Exec Server := do
  let s ← inStep s (.removeLast 0)
  let s ← inStep s (.proceed 0)
  let s ← inStep s (.respond 0)
  inStep s (.add 0)

def ikcInRequestWorker (s : Server) : Exec Server := do
  let s ← inStep s (.dequeue 0)
  let s ← inStep s (.tryRespond 0)
  match s.worker 0 with
  | none => .ok s
  | some _ => executeRequest s

def handle (cliaddr : SockaddrIn) (packet : Bytes) (s : Server) : Exec Server := do
  let s ← inStep s (.arrive cliaddr packet)
  ikcInRequestWorker s

/-- Nothing is queued, only worker 0 may be busy, and the backlog holds `rs`. -/
structure Solo (s : Server) (rs : List IkcRequest) : Prop where
  pending : s.pending = []
  others : ∀ w, w ≠ 0 → s.worker w = none
  holds : Holds s.backlog rs
  answered : ∀ r ∈ rs, Answered r

/-- Between two packets: the backlog has exactly what was executed. -/
def Quiet (s : Server) : Prop :=
  s.worker 0 = none ∧ ∃ rs, Solo s rs ∧ numbers rs = s.executed

theorem quiet_init : Quiet Server.init :=
  ⟨rfl, [], ⟨rfl, fun _ _ => rfl, holds_init, by simp⟩, rfl⟩

@[simp] theorem put_self (s : Server) (w : Fin 3) (p : Option (Stage × IkcRequest)) :
    (s.put w p).worker w = p := by
  rw [put_worker, if_pos rfl]

@[simp] theorem put_backlog (s : Server) (w : Fin 3) (p : Option (Stage × IkcRequest)) :
    (s.put w p).backlog = s.backlog := rfl

theorem Solo.put {s : Server} {rs : List IkcRequest} (h : Solo s rs)
    (p : Option (Stage × IkcRequest)) : Solo (s.put 0 p) rs where
  pending := h.pending
  others := by
    intro w hw
    rw [put_worker, if_neg hw]
    exact h.others w hw
  holds := h.holds
  answered := h.answered

theorem executeRequest_eq {s : Server} {r r' : IkcRequest} {response : Response} {bl : Backlog}
    {result : Int} (hw : s.worker 0 = some (.missed, r))
    (hremove : ikcblRemoveThreadsLastRequest s.backlog r = .ok (s.backlog, result))
    (hproceed : ikcrProceedIncomingRequest r = r')
    (hrespond : ikcrRespondToClient r' = .ok response)
    (hadd : ikcblAddRequest s.backlog r' = .ok bl) :
    executeRequest s = .ok { s with
      backlog := bl
      worker := fun v => if v = 0 then none else s.worker v
      executed := r.requestNbr :: s.executed
      sent := response :: s.sent } := by
  have hworker : ∀ p q : Option (Stage × IkcRequest),
      (fun v : Fin 3 => if v = 0 then q else if v = 0 then p else s.worker v) =
        fun v => if v = 0 then q else s.worker v := by
    intro p q
    funext v
    by_cases hv : v = 0
    · rw [if_pos hv, if_pos hv]
    · rw [if_neg hv, if_neg hv, if_neg hv]
  simp only [executeRequest, inStep, hw, hremove, ok_bind, Server.put, if_pos, hproceed, hrespond,
    hadd, hworker]

theorem executeRequest_solo {s : Server} {rs : List IkcRequest} {r : IkcRequest} (h : Solo s rs)
    (hw : s.worker 0 = some (.missed, r)) (hreq : r.req = procCreatReq)
    (habsent : r.requestNbr ∉ numbers rs) :
    ∃ s', executeRequest s = .ok s' ∧ s'.worker 0 = none ∧
      Solo s' (ikcrProceedIncomingRequest r :: rs) ∧ s'.executed = r.requestNbr :: s.executed := by
  have hr := answered_proceed hreq
  obtain ⟨pid, hpid⟩ := hr.2
  have hrespond := respondToClient_eq hr.1 hpid
  obtain ⟨result, hremove⟩ := ikcblRemoveThreadsLastRequest_absent h.holds habsent
  obtain ⟨bl, hadd, hbl⟩ := ikcblAddRequest_holds h.holds (ikcrProceedIncomingRequest r)
  refine ⟨_, executeRequest_eq hw hremove rfl hrespond hadd, rfl, ⟨h.pending, ?_, hbl, ?_⟩, rfl⟩
  · intro w hne
    exact (if_neg hne).trans (h.others w hne)
  · intro q hq
    rcases List.mem_cons.mp hq with rfl | hq
    · exact hr
    · exact h.answered q hq

/-- What a request does to the backlog `rs`: a number that is not in it is executed and
gets the first element, another one is answered from its element. -/
theorem handle_cases {s : Server} {rs : List IkcRequest} (hidle : s.worker 0 = none)
    (hsolo : Solo s rs) {cliaddr : SockaddrIn} {packet : Bytes} {r : IkcRequest}
    (hr : ikcIncomingRequestCollector cliaddr packet = .ok (some r)) :
    ∃ s' rs', handle cliaddr packet s = .ok s' ∧ s'.worker 0 = none ∧ Solo s' rs' ∧
      ((r.requestNbr ∉ numbers rs ∧ rs' = ikcrProceedIncomingRequest r :: rs ∧
          s'.executed = r.requestNbr :: s.executed) ∨
        ∃ rs₁ q rs₂, rs = rs₁ ++ q :: rs₂ ∧ q.requestNbr = r.requestNbr ∧
          rs' = rs₁ ++ { q with cliaddr := r.cliaddr } :: rs₂ ∧ s'.executed = s.executed) := by
  have hreq := collector_creat hr
  have harrive : inStep s (.arrive cliaddr packet) = .ok { s with pending := [r] } := by
    simp only [inStep, hr, ok_bind, hsolo.pending, List.nil_append]
  have hdequeue : inStep { s with pending := [r] } (.dequeue 0) =
      .ok ({ s with pending := [] }.put 0 (some (.dequeued, r))) := by
    simp only [inStep, hidle]
  have hempty : Solo { s with pending := [] } rs :=
    ⟨rfl, hsolo.others, hsolo.holds, hsolo.answered⟩
  have htaken := hempty.put (some (.dequeued, r))
  rw [handle, harrive, ok_bind, ikcInRequestWorker, hdequeue, ok_bind]
  rcases ikcblTryRespondFromBacklog_cases hsolo.holds hsolo.answered r with
    ⟨habsent, hmiss⟩ | ⟨rs₁, q, rs₂, bl, pid, rfl, hq, hhit, hbl⟩
  · simp only [inStep, put_self, put_backlog, hmiss, ok_bind]
    obtain ⟨s', hexec, hidle', hsolo', hexecuted⟩ :=
      executeRequest_solo (htaken.put (some (.missed, r))) (put_self _ _ _) hreq habsent
    exact ⟨s', _, hexec, hidle', hsolo', .inl ⟨habsent, rfl, hexecuted⟩⟩
  · simp only [inStep, put_self, put_backlog, hhit, ok_bind]
    have hans := answered_readdressed hsolo.answered r.cliaddr
    have hanswered : Solo { ({ s with pending := [] }.put 0 (some (.dequeued, r))) with
        backlog := bl } (rs₁ ++ { q with cliaddr := r.cliaddr } :: rs₂) :=
      ⟨rfl, htaken.others, hbl, hans⟩
    exact ⟨_, _, rfl, rfl, ⟨rfl, (hanswered.put none).others, hbl, hans⟩,
      .inr ⟨rs₁, q, rs₂, rfl, hq, rfl, rfl⟩⟩

/-- A number is executed exactly when it was not executed before. -/
theorem handle_quiet {s : Server} (h : Quiet s) {cliaddr : SockaddrIn} {packet : Bytes}
    {r : IkcRequest} (hr : ikcIncomingRequestCollector cliaddr packet = .ok (some r)) :
    ∃ s', handle cliaddr packet s = .ok s' ∧ Quiet s' ∧
      s'.executed = if r.requestNbr ∈ s.executed then s.executed
        else r.requestNbr :: s.executed := by
  obtain ⟨hidle, rs, hsolo, hnumbers⟩ := h
  obtain ⟨s', rs', hs', hidle', hsolo', hcase⟩ := handle_cases hidle hsolo hr
  refine ⟨s', hs', ⟨hidle', rs', hsolo', ?_⟩, ?_⟩
  · rcases hcase with ⟨-, rfl, hexec⟩ | ⟨rs₁, q, rs₂, rfl, -, rfl, hexec⟩
    · rw [numbers_cons, requestNbr_proceed, hnumbers, hexec]
    · rw [numbers_readdressed, hnumbers, hexec]
  · rcases hcase with ⟨habsent, -, hexec⟩ | ⟨rs₁, q, rs₂, rfl, hq, -, hexec⟩
    · rw [hnumbers] at habsent
      rw [if_neg habsent, hexec]
    · rw [if_pos (by rw [← hnumbers, ← hq]; simp [numbers]), hexec]

/-! ## The client worker -/

/-- The attempts at one request: a further one only after a timeout. -/
def attempts (send : Server → Exec Server) : Nat → List Bool → Server → Exec Server
  | 0, _, s => .ok s
  | _ + 1, [], s => send s
  | k + 1, timedOut :: rest, s => do
      let s ← send s
      if timedOut then attempts send k rest s else .ok s

/-- The requests of one `ikc_out_request_worker`, each with the timeouts it meets,
and how often the server executed while it handled their packets. -/
def ikcOutRequestWorker (threadId : UInt8) (cliaddr : SockaddrIn) :
    UInt16 → Server → List (OutRequest × List Bool) → Exec (List Nat)
  | _, _, [] => .ok []
  | seqNbr, s, (request, timeouts) :: rest => do
      let seqNbr := nextSeqNbr seqNbr
      let request := { request with seqNbr := seqNbr }
      match ← ikcrProceedOutgoingRequestSend request threadId with
      | none => do
          let counts ← ikcOutRequestWorker threadId cliaddr seqNbr s rest
          .ok (0 :: counts)
      | some packet => do
          let s' ← attempts (handle cliaddr packet) ikcMaxAttempts timeouts s
          let counts ← ikcOutRequestWorker threadId cliaddr seqNbr s' rest
          .ok ((s'.executed.length - s.executed.length) :: counts)

/-! ## Which requests are executed -/

def seqNbrAt : Nat → UInt16
  | 0 => nextSeqNbr firstSeqNbr
  | i + 1 => nextSeqNbr (seqNbrAt i)

theorem toNat_nextSeqNbr (seqNbr : UInt16) (h : seqNbr.toNat ≤ 1024) :
    (nextSeqNbr seqNbr).toNat = if seqNbr.toNat = 1024 then 0 else seqNbr.toNat + 1 := by
  have heq : seqNbr = 1024 ↔ seqNbr.toNat = 1024 := UInt16.toNat_inj.symm
  unfold nextSeqNbr
  by_cases hwrap : seqNbr = 1024
  · rw [if_pos hwrap, if_pos (heq.mp hwrap)]
    rfl
  · rw [if_neg hwrap, if_neg (fun hnat => hwrap (heq.mpr hnat)), UInt16.toNat_add]
    have hone : (1 : UInt16).toNat = 1 := rfl
    omega

/-- The counter runs through the 1025 values from 0 to 1024. -/
theorem toNat_seqNbrAt (i : Nat) : (seqNbrAt i).toNat = i % 1025 := by
  induction i with
  | zero => rfl
  | succ i ih =>
      have hlt : i % 1025 < 1025 := Nat.mod_lt _ (by decide)
      rw [seqNbrAt, toNat_nextSeqNbr _ (by omega), ih]
      split
      · omega
      · omega

theorem toNat_seqNbrAt_of_le {i : Nat} (hi : i ≤ 1024) : (seqNbrAt i).toNat = i := by
  rw [toNat_seqNbrAt, Nat.mod_eq_of_lt (by omega)]

def numberAt (threadId : UInt8) (cliaddr : SockaddrIn) (i : Nat) : UInt32 :=
  ikcrPackRequestNumber cliaddr (ikcrPackRequestId threadId (seqNbrAt i))

/-- Numbers repeat exactly when the low ten bits of the counter do. -/
theorem numberAt_eq_iff (threadId : UInt8) (cliaddr : SockaddrIn) (i j : Nat) :
    numberAt threadId cliaddr i = numberAt threadId cliaddr j ↔
      (seqNbrAt i).toNat % 1024 = (seqNbrAt j).toNat % 1024 := by
  rw [← packRequestId_eq_iff threadId]
  constructor
  · exact packRequestNumber_inj
  · intro h
    rw [numberAt, h, numberAt]

/-- **Successive ids.** The ids of a request and of the one after it, and with them the
numbers the server makes of them, differ unless the counter of the first one is 1024:
that value has the low ten bits of the 0 that comes behind it. -/
theorem successive_ids_differ_iff (threadId : UInt8) (n : Nat) :
    (ikcrPackRequestId threadId (seqNbrAt n) ≠ ikcrPackRequestId threadId (seqNbrAt (n + 1)) ∧
      ∀ cliaddr, numberAt threadId cliaddr n ≠ numberAt threadId cliaddr (n + 1)) ↔
    n % 1025 ≠ 1024 := by
  have hlow : (seqNbrAt n).toNat % 1024 = (seqNbrAt (n + 1)).toNat % 1024 ↔ n % 1025 = 1024 := by
    rw [toNat_seqNbrAt, toNat_seqNbrAt]
    omega
  constructor
  · rintro ⟨hid, -⟩ hwrap
    exact hid ((packRequestId_eq_iff threadId _ _).mpr (hlow.mpr hwrap))
  · intro hwrap
    refine ⟨?_, ?_⟩
    · intro hid
      exact hwrap (hlow.mp ((packRequestId_eq_iff threadId _ _).mp hid))
    · intro cliaddr hnumber
      exact hwrap (hlow.mp ((numberAt_eq_iff threadId cliaddr _ _).mp hnumber))

/-- The 1025th request of a worker and the one after it have the same id. -/
theorem successive_ids_equal :
    ¬ ∀ (threadId : UInt8), threadId.toNat < 64 → ∀ n,
      ikcrPackRequestId threadId (seqNbrAt n) ≠ ikcrPackRequestId threadId (seqNbrAt (n + 1)) := by
  intro h
  apply h 1 (by decide) 1024
  rw [packRequestId_eq_iff, toNat_seqNbrAt, toNat_seqNbrAt]

def ExecutedBefore (threadId : UInt8) (cliaddr : SockaddrIn) (i : Nat) (s : Server) : Prop :=
  ∀ n, n ∈ s.executed ↔ ∃ j, j < i ∧ j < 1024 ∧ n = numberAt threadId cliaddr j

/-- A request is new as long as fewer than 1024 came before it. -/
theorem numberAt_new_iff {threadId : UInt8} {cliaddr : SockaddrIn} {i : Nat} {s : Server}
    (h : ExecutedBefore threadId cliaddr i s) :
    numberAt threadId cliaddr i ∉ s.executed ↔ i < 1024 := by
  rw [h]
  constructor
  · intro hnew
    by_contra hge
    have hmod : (seqNbrAt i).toNat % 1024 < 1024 := Nat.mod_lt _ (by decide)
    refine hnew ⟨(seqNbrAt i).toNat % 1024, by omega, hmod, ?_⟩
    rw [numberAt_eq_iff, toNat_seqNbrAt_of_le (Nat.le_of_lt hmod), Nat.mod_mod]
  · intro hi hold
    obtain ⟨j, hj, hj', heq⟩ := hold
    rw [numberAt_eq_iff, toNat_seqNbrAt_of_le (Nat.le_of_lt hi), toNat_seqNbrAt_of_le (Nat.le_of_lt hj')] at heq
    omega

theorem attempts_quiet {cliaddr : SockaddrIn} {packet : Bytes} {r : IkcRequest}
    (hr : ikcIncomingRequestCollector cliaddr packet = .ok (some r)) :
    ∀ (k : Nat) (timeouts : List Bool) (s : Server), Quiet s →
      ∃ s', attempts (handle cliaddr packet) (k + 1) timeouts s = .ok s' ∧ Quiet s' ∧
        s'.executed = if r.requestNbr ∈ s.executed then s.executed
          else r.requestNbr :: s.executed := by
  intro k
  induction k with
  | zero =>
      intro timeouts s hs
      obtain ⟨s', hs', hquiet, hexec⟩ := handle_quiet hs hr
      refine ⟨s', ?_, hquiet, hexec⟩
      cases timeouts with
      | nil => exact hs'
      | cons t rest => cases t <;> simp [attempts, hs']
  | succ k ih =>
      intro timeouts s hs
      obtain ⟨s₁, hs₁, hquiet₁, hexec₁⟩ := handle_quiet hs hr
      cases timeouts with
      | nil => exact ⟨s₁, hs₁, hquiet₁, hexec₁⟩
      | cons t rest =>
          cases t with
          | false => exact ⟨s₁, by simp [attempts, hs₁], hquiet₁, hexec₁⟩
          | true =>
              obtain ⟨s₂, hs₂, hquiet₂, hexec₂⟩ := ih rest s₁ hquiet₁
              have hmem : r.requestNbr ∈ s₁.executed := by
                rw [hexec₁]
                split
                · next hmem => exact hmem
                · exact List.mem_cons_self
              rw [if_pos hmem, hexec₁] at hexec₂
              refine ⟨s₂, ?_, hquiet₂, hexec₂⟩
              rw [attempts, hs₁, ok_bind, if_pos rfl, hs₂]

theorem ExecutedBefore.succ {threadId : UInt8} {cliaddr : SockaddrIn} {i : Nat} {s s' : Server}
    (h : ExecutedBefore threadId cliaddr i s)
    (hexec : s'.executed = if numberAt threadId cliaddr i ∈ s.executed then s.executed
      else numberAt threadId cliaddr i :: s.executed) :
    ExecutedBefore threadId cliaddr (i + 1) s' ∧
      s'.executed.length - s.executed.length = if i < 1024 then 1 else 0 := by
  have hnew := numberAt_new_iff h
  by_cases hi : i < 1024
  · have hfresh := hnew.mpr hi
    rw [if_neg hfresh] at hexec
    rw [if_pos hi, hexec, List.length_cons]
    refine ⟨?_, by omega⟩
    intro n
    rw [hexec, List.mem_cons, h n]
    constructor
    · rintro (rfl | ⟨j, hj, hj', rfl⟩)
      · exact ⟨i, by omega, hi, rfl⟩
      · exact ⟨j, by omega, hj', rfl⟩
    · rintro ⟨j, hj, hj', rfl⟩
      by_cases hji : j = i
      · exact .inl (by rw [hji])
      · exact .inr ⟨j, by omega, hj', rfl⟩
  · have hold : numberAt threadId cliaddr i ∈ s.executed := by
      by_contra hfresh
      exact hi (hnew.mp hfresh)
    rw [if_pos hold] at hexec
    rw [if_neg hi, hexec]
    refine ⟨?_, by omega⟩
    intro n
    rw [hexec, h n]
    constructor
    · rintro ⟨j, hj, hj', rfl⟩
      exact ⟨j, by omega, hj', rfl⟩
    · rintro ⟨j, hj, hj', rfl⟩
      exact ⟨j, by omega, hj', rfl⟩

theorem ikcOutRequestWorker_counts {threadId : UInt8} {cliaddr : SockaddrIn}
    {requests : List (OutRequest × List Bool)} :
    ∀ {i : Nat} {seqNbr : UInt16} {s : Server}, (∀ x ∈ requests, x.1.req = procCreatReq) →
      nextSeqNbr seqNbr = seqNbrAt i → Quiet s → ExecutedBefore threadId cliaddr i s →
      ikcOutRequestWorker threadId cliaddr seqNbr s requests =
        .ok ((List.range' i requests.length).map fun k => if k < 1024 then 1 else 0) := by
  induction requests with
  | nil =>
      intro i seqNbr s _ _ _ _
      rfl
  | cons x requests ih =>
      intro i seqNbr s hreq hseq hquiet hbefore
      obtain ⟨request, timeouts⟩ := x
      have hcreat : request.req = procCreatReq := hreq _ List.mem_cons_self
      obtain ⟨packet, r, hsend, hcollect, harrived⟩ := @collector_send
        { request with seqNbr := nextSeqNbr seqNbr } hcreat threadId cliaddr
      have hnumber : r.requestNbr = numberAt threadId cliaddr i := by
        rw [harrived.requestNbr, numberAt, ← hseq]
      obtain ⟨s', hs', hquiet', hexec⟩ := attempts_quiet hcollect 1 timeouts s hquiet
      rw [hnumber] at hexec
      obtain ⟨hbefore', hcount⟩ := hbefore.succ hexec
      have hrest : ikcOutRequestWorker threadId cliaddr (nextSeqNbr seqNbr) s' requests = _ :=
        ih (fun y hy => hreq y (List.mem_cons_of_mem _ hy)) (by rw [hseq]; rfl) hquiet' hbefore'
      have hattempts : attempts (handle cliaddr packet) ikcMaxAttempts timeouts s = .ok s' := hs'
      simp only [ikcOutRequestWorker, hsend, ok_bind, hattempts, hrest, hcount]
      rfl

theorem executedBefore_init (threadId : UInt8) (cliaddr : SockaddrIn) :
    ExecutedBefore threadId cliaddr 0 Server.init := by
  intro n
  simp [Server.init]

/-- **Every request is executed** exactly once if and only if the worker sends at
most 1024 of them, whatever timeouts make it send some of them again. -/
theorem every_request_executed_iff (threadId : UInt8) (cliaddr : SockaddrIn)
    (requests : List (OutRequest × List Bool)) (hreq : ∀ x ∈ requests, x.1.req = procCreatReq) :
    ∃ counts, ikcOutRequestWorker threadId cliaddr firstSeqNbr Server.init requests = .ok counts ∧
      counts.length = requests.length ∧
      ((∀ c ∈ counts, c = 1) ↔ requests.length ≤ 1024) := by
  refine ⟨_, ikcOutRequestWorker_counts hreq rfl quiet_init (executedBefore_init threadId cliaddr),
    by rw [List.length_map, List.length_range'], ?_⟩
  simp only [List.mem_map, List.mem_range'_1, Nat.zero_add, Nat.zero_le, true_and]
  constructor
  · intro hall
    by_contra hlong
    have hzero := hall 0 ⟨1024, by omega, rfl⟩
    cases hzero
  · rintro hshort c ⟨k, hk, rfl⟩
    rw [if_pos (by omega)]

def plainRequest : OutRequest where
  oPid := 7
  req := procCreatReq
  oNode := []
  oNode_lt := by decide
  rNode := []
  rNode_lt := by decide
  seqNbr := 0
  rPid := none

theorem every_request_executed_iff_two :
    ∃ counts, ikcOutRequestWorker 1 firstClient firstSeqNbr Server.init
        [(plainRequest, [true]), (plainRequest, [])] = .ok counts ∧ counts.length = 2 ∧
      ((∀ c ∈ counts, c = 1) ↔ 2 ≤ 1024) :=
  every_request_executed_iff 1 firstClient [(plainRequest, [true]), (plainRequest, [])] (by
    intro x hx
    simp only [List.mem_cons, List.not_mem_nil, or_false] at hx
    rcases hx with rfl | rfl
    · rfl
    · rfl)

theorem request_1025_answered_from_backlog :
    ∃ counts, ikcOutRequestWorker 1 firstClient firstSeqNbr Server.init
        (List.replicate 1025 (plainRequest, [])) = .ok counts ∧
      counts.length = 1025 ∧ counts[1024]? = some 0 := by
  have hreq : ∀ x ∈ List.replicate 1025 (plainRequest, ([] : List Bool)),
      x.1.req = procCreatReq := by
    intro x hx
    rw [List.eq_of_mem_replicate hx]
    rfl
  refine ⟨_, ikcOutRequestWorker_counts hreq rfl quiet_init (executedBefore_init 1 firstClient),
    ?_, ?_⟩
  · rw [List.length_map, List.length_range', List.length_replicate]
  · rw [List.getElem?_map, List.length_replicate, List.getElem?_range' (by decide)]
    rfl

end Dkmp.Ikcd
