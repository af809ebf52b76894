import Dkmp.Ikcd.Backlog
import Dkmp.Machine.Trace
import Mathlib.Algebra.GroupWithZero.Nat
import Mathlib.Logic.Function.Basic

/-! # The workers for incoming requests

Three workers share the queue of pending requests and the backlog. Each call a
worker makes is one step, so a run is any interleaving of the workers and of the
packets that arrive. A number is looked up in one critical section and added in
another; the invariant says what holds as long as no two workers are between the
two with the same number.
-/

namespace Dkmp.Ikcd

open Machine

instance workers_neZero : NeZero 3 := ⟨by decide⟩

/-- How far a worker got with its request: after each call of the loop body. -/
inductive Stage where
  | dequeued
  | missed
  | cleared
  | proceeded
  | responded
deriving DecidableEq, Repr

/-- Between a failed lookup and the insertion into the backlog. -/
def Stage.window : Stage → Bool
  | .dequeued => false
  | _ => true

/-- The request was executed and is not in the backlog yet. -/
def Stage.done : Stage → Bool
  | .proceeded => true
  | .responded => true
  | _ => false

/-- The daemon's serving side. `executed` and `sent` record what was done, the
latest first. -/
structure Server where
  pending : List IkcRequest
  backlog : Backlog
  worker : Fin 3 → Option (Stage × IkcRequest)
  executed : List UInt32
  sent : List Response

namespace Server

def init : Server := ⟨[], ikcblInitBl, fun _ => none, [], []⟩

def put (s : Server) (w : Fin 3) (p : Option (Stage × IkcRequest)) : Server :=
  { s with worker := fun v => if v = w then p else s.worker v }

end Server

inductive InAction where
  | arrive (cliaddr : SockaddrIn) (packet : Bytes)
  | dequeue (w : Fin 3)
  | tryRespond (w : Fin 3)
  | removeLast (w : Fin 3)
  | proceed (w : Fin 3)
  | respond (w : Fin 3)
  | add (w : Fin 3)
deriving DecidableEq, Repr

/-- One step of the collector or of a worker in `ikc_in_request_worker`. A worker
that finds the queue empty goes back to waiting. -/
def inStep (s : Server) : InAction → Exec Server
  | .arrive cliaddr packet => do
      match ← ikcIncomingRequestCollector cliaddr packet with
      | none => .ok s
      | some r => .ok { s with pending := s.pending ++ [r] }
  | .dequeue w =>
      match s.worker w, s.pending with
      | none, [] => .ok s
      | none, r :: rest => .ok ({ s with pending := rest }.put w (some (.dequeued, r)))
      | some _, _ => .error .blocked
  | .tryRespond w =>
      match s.worker w with
      | some (.dequeued, r) => do
          match ← ikcblTryRespondFromBacklog s.backlog r with
          | (bl, some response) =>
              .ok ({ s with backlog := bl, sent := response :: s.sent }.put w none)
          | (bl, none) => .ok ({ s with backlog := bl }.put w (some (.missed, r)))
      | _ => .error .blocked
  | .removeLast w =>
      match s.worker w with
      | some (.missed, r) => do
          let (bl, _) ← ikcblRemoveThreadsLastRequest s.backlog r
          .ok ({ s with backlog := bl }.put w (some (.cleared, r)))
      | _ => .error .blocked
  | .proceed w =>
      match s.worker w with
      | some (.cleared, r) =>
          .ok ({ s with executed := r.requestNbr :: s.executed }.put w
            (some (.proceeded, ikcrProceedIncomingRequest r)))
      | _ => .error .blocked
  | .respond w =>
      match s.worker w with
      | some (.proceeded, r) => do
          let response ← ikcrRespondToClient r
          .ok ({ s with sent := response :: s.sent }.put w (some (.responded, r)))
      | _ => .error .blocked
  | .add w =>
      match s.worker w with
      | some (.responded, r) => do
          let bl ← ikcblAddRequest s.backlog r
          .ok ({ s with backlog := bl }.put w none)
      | _ => .error .blocked

def windowNbr : Option (Stage × IkcRequest) → Option UInt32
  | some (stage, r) => if stage.window then some r.requestNbr else none
  | none => none

def doneNbr : Option (Stage × IkcRequest) → Option UInt32
  | some (stage, r) => if stage.done then some r.requestNbr else none
  | none => none

/-- A number is looked up only while no other worker is between a failed lookup
of it and its insertion. -/
def Alone (s : Server) : InAction → Prop
  | .tryRespond w => ∀ r, s.worker w = some (.dequeued, r) →
      ∀ v, v ≠ w → windowNbr (s.worker v) ≠ some r.requestNbr
  | _ => True

/-! ## The invariant -/

def Fit (p : Option (Stage × IkcRequest)) : Prop :=
  ∀ stage r, p = some (stage, r) → r.req = procCreatReq ∧ (stage.done = true → Answered r)

/-- The requests `rs` of the backlog, against what was executed and what the
workers hold. -/
structure InInv (s : Server) (rs : List IkcRequest) : Prop where
  holds : Holds s.backlog rs
  answered : ∀ r ∈ rs, Answered r
  queued : ∀ r ∈ s.pending, r.req = procCreatReq
  fit : ∀ w, Fit (s.worker w)
  nodup : s.executed.Nodup
  covered : ∀ n ∈ s.executed, n ∈ numbers rs ∨ ∃ w, doneNbr (s.worker w) = some n
  absent : ∀ w n, windowNbr (s.worker w) = some n → n ∉ numbers rs
  apart : ∀ v w n, windowNbr (s.worker v) = some n → windowNbr (s.worker w) = some n → v = w

theorem inInv_init : InInv Server.init [] where
  holds := holds_init
  answered := by simp
  queued := by simp [Server.init]
  fit := by simp [Server.init, Fit]
  nodup := List.nodup_nil
  covered := by simp [Server.init]
  absent := by simp [Server.init, windowNbr]
  apart := by simp [Server.init, windowNbr]

theorem windowNbr_of_doneNbr {p : Option (Stage × IkcRequest)} {n : UInt32}
    (h : doneNbr p = some n) : windowNbr p = some n := by
  cases p with
  | none => cases h
  | some x =>
      obtain ⟨stage, r⟩ := x
      cases stage with
      | dequeued | missed | cleared => cases h
      | proceeded | responded => exact h

theorem put_worker (s : Server) (w v : Fin 3) (p : Option (Stage × IkcRequest)) :
    (s.put w p).worker v = if v = w then p else s.worker v := rfl

section Steps

variable {s s' : Server} {rs : List IkcRequest} {w : Fin 3}

theorem queueProcessCreationRequest_creat {cliaddr : SockaddrIn} {packet : Bytes} {r : IkcRequest}
    (h : ikcrQueueProcessCreationRequest cliaddr packet = .ok r) : r.req = procCreatReq := by
  obtain ⟨p, -, hr⟩ := bind_eq_ok h
  rw [← Except.ok.inj hr]

theorem collector_creat {cliaddr : SockaddrIn} {packet : Bytes} {r : IkcRequest}
    (h : ikcIncomingRequestCollector cliaddr packet = .ok (some r)) : r.req = procCreatReq := by
  unfold ikcIncomingRequestCollector at h
  split at h
  · split at h
    · cases h
    · split at h
      · cases hq : ikcrQueueProcessCreationRequest cliaddr _ with
        | error f =>
            rw [hq] at h
            cases h
        | ok q =>
            rw [hq] at h
            have hqr : q = r := Option.some.inj (Except.ok.inj h)
            rw [← hqr]
            exact queueProcessCreationRequest_creat hq
      · cases h
  · cases h

theorem arrive_inv {cliaddr : SockaddrIn} {packet : Bytes} (h : InInv s rs)
    (hstep : inStep s (.arrive cliaddr packet) = .ok s') : InInv s' rs := by
  obtain ⟨result, hcol, hs'⟩ := bind_eq_ok hstep
  cases result with
  | none =>
      rw [← Except.ok.inj hs']
      exact h
  | some r =>
      rw [← Except.ok.inj hs']
      have hr := collector_creat hcol
      have hqueued : ∀ q ∈ s.pending ++ [r], q.req = procCreatReq := by
        intro q hq
        rcases List.mem_append.mp hq with hq | hq
        · exact h.queued q hq
        · rw [List.mem_singleton.mp hq, hr]
      exact { h with queued := hqueued }

/-- One worker moves: what it has in the window it had before, or nobody had it;
what it executed it still has. -/
theorem InInv.put {p : Option (Stage × IkcRequest)} (h : InInv s rs) (hfit : Fit p)
    (hwin : ∀ n, windowNbr p = some n → windowNbr (s.worker w) = some n ∨
      (n ∉ numbers rs ∧ ∀ v, v ≠ w → windowNbr (s.worker v) ≠ some n))
    (hdone : ∀ n, doneNbr (s.worker w) = some n → doneNbr p = some n) :
    InInv (s.put w p) rs := by
  have hnew : ∀ n, windowNbr p = some n →
      n ∉ numbers rs ∧ ∀ v, v ≠ w → windowNbr (s.worker v) ≠ some n := by
    intro n hn
    rcases hwin n hn with hold | hnew
    · exact ⟨h.absent w n hold, fun v hv hvn => hv (h.apart v w n hvn hold)⟩
    · exact hnew
  refine ⟨h.holds, h.answered, h.queued, ?_, h.nodup, ?_, ?_, ?_⟩
  · intro v
    by_cases hv : v = w
    · rw [put_worker, if_pos hv]
      exact hfit
    · rw [put_worker, if_neg hv]
      exact h.fit v
  · intro n hn
    rcases h.covered n hn with hmem | ⟨v, hv⟩
    · exact .inl hmem
    · refine .inr ⟨v, ?_⟩
      by_cases hvw : v = w
      · rw [put_worker, if_pos hvw]
        exact hdone n (hvw ▸ hv)
      · rw [put_worker, if_neg hvw, hv]
  · intro v n hv
    by_cases hvw : v = w
    · rw [put_worker, if_pos hvw] at hv
      exact (hnew n hv).1
    · rw [put_worker, if_neg hvw] at hv
      exact h.absent v n hv
  · intro u v n hu hv
    rw [put_worker] at hu hv
    by_cases huw : u = w
    · by_cases hvw : v = w
      · rw [huw, hvw]
      · rw [if_pos huw] at hu
        rw [if_neg hvw] at hv
        exact absurd hv ((hnew n hu).2 v hvw)
    · rw [if_neg huw] at hu
      by_cases hvw : v = w
      · rw [if_pos hvw] at hv
        exact absurd hu ((hnew n hv).2 u huw)
      · rw [if_neg hvw] at hv
        exact h.apart u v n hu hv

theorem dequeue_inv (h : InInv s rs) (hstep : inStep s (.dequeue w) = .ok s') : InInv s' rs := by
  simp only [inStep] at hstep
  split at hstep
  · rw [← Except.ok.inj hstep]
    exact h
  · next r rest hw hq =>
    have hrest : InInv { s with pending := rest } rs :=
      { h with queued := fun q hmem => h.queued q (by rw [hq]; exact List.mem_cons_of_mem r hmem) }
    have hr : r.req = procCreatReq := h.queued r (by rw [hq]; exact List.mem_cons_self)
    rw [← Except.ok.inj hstep]
    apply hrest.put
    · intro stage r' hp
      cases hp
      exact ⟨hr, by simp [Stage.done]⟩
    · simp [windowNbr, Stage.window]
    · simp [hw, doneNbr]
  · cases hstep

/-- The outcome of a lookup: from the backlog if the number is there, into the
window otherwise. -/
theorem tryRespond_cases (h : InInv s rs) {r : IkcRequest}
    (hw : s.worker w = some (.dequeued, r)) :
    (r.requestNbr ∉ numbers rs ∧ inStep s (.tryRespond w) = .ok (s.put w (some (.missed, r)))) ∨
      (r.requestNbr ∈ numbers rs ∧ ∃ bl rs' pid,
        inStep s (.tryRespond w) = .ok ({ s with
          backlog := bl
          sent := ⟨r.cliaddr, ikcpPackProcCreatResp (ikcrUnpackReqId r.requestNbr) pid⟩ :: s.sent
          }.put w none) ∧
        InInv { s with backlog := bl } rs') := by
  rcases ikcblTryRespondFromBacklog_cases h.holds h.answered r with
    ⟨habsent, hmiss⟩ | ⟨rs₁, q, rs₂, bl, pid, rfl, hq, hhit, hholds⟩
  · refine .inl ⟨habsent, ?_⟩
    simp only [inStep, hw, hmiss, ok_bind]
  · have hnumbers := numbers_readdressed rs₁ rs₂ q r.cliaddr
    refine .inr ⟨by rw [← hq]; simp [numbers], bl,
      rs₁ ++ { q with cliaddr := r.cliaddr } :: rs₂, pid, ?_, ?_⟩
    · simp only [inStep, hw, hhit, ok_bind]
    · exact { h with
        holds := hholds
        answered := answered_readdressed h.answered r.cliaddr
        covered := by rw [hnumbers]; exact h.covered
        absent := by rw [hnumbers]; exact h.absent }

theorem tryRespond_inv (h : InInv s rs) (halone : Alone s (.tryRespond w))
    (hstep : inStep s (.tryRespond w) = .ok s') : ∃ rs', InInv s' rs' := by
  have hpoint : ∃ r, s.worker w = some (.dequeued, r) := by
    simp only [inStep] at hstep
    split at hstep
    · next r hw => exact ⟨r, hw⟩
    · cases hstep
  obtain ⟨r, hw⟩ := hpoint
  rcases tryRespond_cases h hw with ⟨habsent, hmiss⟩ | ⟨-, bl, rs', pid, hhit, hinv⟩
  · rw [hmiss] at hstep
    rw [← Except.ok.inj hstep]
    refine ⟨rs, h.put ?_ ?_ ?_⟩
    · intro stage r' hp
      cases hp
      exact ⟨(h.fit w _ _ hw).1, by simp [Stage.done]⟩
    · intro n hn
      cases hn
      exact .inr ⟨habsent, halone r hw⟩
    · simp [hw, doneNbr, Stage.done]
  · rw [hhit] at hstep
    rw [← Except.ok.inj hstep]
    refine ⟨rs', InInv.put { hinv with } ?_ ?_ ?_⟩
    · intro stage r' hp
      cases hp
    · simp [windowNbr]
    · simp [hw, doneNbr, Stage.done]

theorem removeLast_inv (h : InInv s rs) (hstep : inStep s (.removeLast w) = .ok s') :
    InInv s' rs := by
  simp only [inStep] at hstep
  split at hstep
  · next r hw =>
    have hwin : windowNbr (s.worker w) = some r.requestNbr := by rw [hw]; rfl
    obtain ⟨result, hremove⟩ := ikcblRemoveThreadsLastRequest_absent h.holds (h.absent w _ hwin)
    rw [hremove, ok_bind] at hstep
    rw [← Except.ok.inj hstep]
    apply h.put
    · intro stage r' hp
      cases hp
      exact ⟨(h.fit w _ _ hw).1, by simp [Stage.done]⟩
    · intro n hn
      exact .inl (hwin.trans hn)
    · simp [hw, doneNbr, Stage.done]
  · cases hstep

/-- A number in the window of a worker that did not execute it was not executed. -/
theorem InInv.not_executed (h : InInv s rs) {n : UInt32} (hwin : windowNbr (s.worker w) = some n)
    (hdone : doneNbr (s.worker w) = none) : n ∉ s.executed := by
  intro hn
  rcases h.covered n hn with hmem | ⟨v, hv⟩
  · exact h.absent w n hwin hmem
  · have hvw := h.apart v w n (windowNbr_of_doneNbr hv) hwin
    rw [hvw, hdone] at hv
    cases hv

theorem answered_proceed {r : IkcRequest} (hr : r.req = procCreatReq) :
    Answered (ikcrProceedIncomingRequest r) := by
  rw [ikcrProceedIncomingRequest, if_pos hr]
  exact ⟨hr, 76, rfl⟩

theorem requestNbr_proceed (r : IkcRequest) :
    (ikcrProceedIncomingRequest r).requestNbr = r.requestNbr := by
  unfold ikcrProceedIncomingRequest
  split
  · rfl
  · rfl

theorem proceed_inv (h : InInv s rs) (hstep : inStep s (.proceed w) = .ok s') : InInv s' rs := by
  simp only [inStep] at hstep
  split at hstep
  · next r hw =>
    have hwin : windowNbr (s.worker w) = some r.requestNbr := by rw [hw]; rfl
    have hnot : r.requestNbr ∉ s.executed := h.not_executed hwin (by rw [hw]; rfl)
    have hans := answered_proceed (h.fit w _ _ hw).1
    have hp : doneNbr (some (.proceeded, ikcrProceedIncomingRequest r)) = some r.requestNbr :=
      congrArg some (requestNbr_proceed r)
    have hput : InInv (s.put w (some (.proceeded, ikcrProceedIncomingRequest r))) rs := by
      apply h.put
      · intro stage r' hr
        cases hr
        exact ⟨hans.1, fun _ => hans⟩
      · intro n hn
        rw [windowNbr_of_doneNbr hp] at hn
        exact .inl (hwin.trans hn)
      · simp [hw, doneNbr, Stage.done]
    rw [← Except.ok.inj hstep]
    refine { hput with nodup := List.nodup_cons.mpr ⟨hnot, h.nodup⟩, covered := ?_ }
    intro n hn
    rcases List.mem_cons.mp hn with rfl | hn
    · refine .inr ⟨w, ?_⟩
      rw [put_worker, if_pos rfl, hp]
    · exact hput.covered n hn
  · cases hstep

theorem respond_inv (h : InInv s rs) (hstep : inStep s (.respond w) = .ok s') : InInv s' rs := by
  simp only [inStep] at hstep
  split at hstep
  · next r hw =>
    obtain ⟨response, -, hs'⟩ := bind_eq_ok hstep
    have hput : InInv (s.put w (some (.responded, r))) rs := by
      apply h.put
      · intro stage r' hp
        cases hp
        have hans := (h.fit w _ _ hw).2 rfl
        exact ⟨hans.1, fun _ => hans⟩
      · intro n hn
        rw [hw]
        exact .inl hn
      · intro n hn
        rw [hw] at hn
        exact hn
    rw [← Except.ok.inj hs']
    exact { hput with }
  · cases hstep

theorem add_inv (h : InInv s rs) (hstep : inStep s (.add w) = .ok s') : ∃ rs', InInv s' rs' := by
  simp only [inStep] at hstep
  split at hstep
  · next r hw =>
    obtain ⟨bl, hadd, hholds⟩ := ikcblAddRequest_holds h.holds r
    rw [hadd, ok_bind] at hstep
    have hwin : windowNbr (s.worker w) = some r.requestNbr := by rw [hw]; rfl
    rw [← Except.ok.inj hstep]
    refine ⟨r :: rs, hholds, ?_, h.queued, ?_, h.nodup, ?_, ?_, ?_⟩
    · intro q hq
      rcases List.mem_cons.mp hq with rfl | hq
      · exact (h.fit w _ _ hw).2 rfl
      · exact h.answered q hq
    · intro v
      by_cases hvw : v = w
      · rw [put_worker, if_pos hvw]
        intro stage r' hp
        cases hp
      · rw [put_worker, if_neg hvw]
        exact h.fit v
    · intro n hn
      rw [numbers_cons]
      rcases h.covered n hn with hmem | ⟨v, hv⟩
      · exact .inl (List.mem_cons_of_mem _ hmem)
      · by_cases hvw : v = w
        · have hnr := windowNbr_of_doneNbr hv
          rw [hvw, hwin] at hnr
          rw [Option.some.inj hnr]
          exact .inl List.mem_cons_self
        · refine .inr ⟨v, ?_⟩
          rw [put_worker, if_neg hvw]
          exact hv
    · intro v n hv
      by_cases hvw : v = w
      · rw [put_worker, if_pos hvw] at hv
        cases hv
      · rw [put_worker, if_neg hvw] at hv
        rw [numbers_cons, List.mem_cons]
        rintro (rfl | hmem)
        · exact hvw (h.apart v w _ hv hwin)
        · exact h.absent v n hv hmem
    · intro u v n hu hv
      rw [put_worker] at hu hv
      split at hu
      · cases hu
      · split at hv
        · cases hv
        · exact h.apart u v n hu hv
  · cases hstep

theorem inStep_inv {a : InAction} (h : ∃ rs, InInv s rs) (halone : Alone s a)
    (hstep : inStep s a = .ok s') : ∃ rs, InInv s' rs := by
  obtain ⟨rs, h⟩ := h
  cases a with
  | arrive cliaddr packet => exact ⟨rs, arrive_inv h hstep⟩
  | dequeue w => exact ⟨rs, dequeue_inv h hstep⟩
  | tryRespond w => exact tryRespond_inv h halone hstep
  | removeLast w => exact ⟨rs, removeLast_inv h hstep⟩
  | proceed w => exact ⟨rs, proceed_inv h hstep⟩
  | respond w => exact ⟨rs, respond_inv h hstep⟩
  | add w => exact add_inv h hstep

end Steps

theorem inInv_steps {as : List InAction} {s : Server} (hrun : steps inStep as Server.init = .ok s)
    (halone : Along inStep Alone as Server.init) : ∃ rs, InInv s rs :=
  steps_invariant (fun s => ∃ rs, InInv s rs) (fun _ _ _ h hP hstep => inStep_inv h hP hstep)
    as Server.init s ⟨[], inInv_init⟩ halone hrun

/-- **At most once.** In every run in which a number is looked up only while no
other worker is in the window with it, no number is executed twice, and a packet
that brings an executed number again is answered from the backlog. -/
theorem executed_at_most_once (as : List InAction) (s : Server)
    (hrun : steps inStep as Server.init = .ok s) (halone : Along inStep Alone as Server.init) :
    s.executed.Nodup ∧
      ∀ w r, s.worker w = some (.dequeued, r) → r.requestNbr ∈ s.executed →
        Alone s (.tryRespond w) → ∃ s' pid, inStep s (.tryRespond w) = .ok s' ∧
          s'.worker w = none ∧ s'.executed = s.executed ∧
          s'.sent = ⟨r.cliaddr, ikcpPackProcCreatResp (ikcrUnpackReqId r.requestNbr) pid⟩ ::
            s.sent := by
  obtain ⟨rs, h⟩ := inInv_steps hrun halone
  refine ⟨h.nodup, ?_⟩
  intro w r hw hexec hal
  rcases tryRespond_cases h hw with ⟨habsent, -⟩ | ⟨-, bl, rs', pid, hhit, -⟩
  · rcases h.covered _ hexec with hmem | ⟨v, hv⟩
    · exact absurd hmem habsent
    · have hvw : v ≠ w := by
        intro hEq
        rw [hEq, hw] at hv
        cases hv
      exact absurd (windowNbr_of_doneNbr hv) (hal r hw v hvw)
  · refine ⟨_, pid, hhit, ?_, rfl, rfl⟩
    rw [put_worker, if_pos rfl]

def firstRequest : Bytes := [1, 10, 0, 4, 7, 0, 0, 0, 0, 0, 0, 0, 0, 0]

def firstClient : SockaddrIn := ⟨0xc0a80001, 1024⟩

def onePass : List InAction :=
  [.arrive firstClient firstRequest, .dequeue 0, .tryRespond 0, .removeLast 0, .proceed 0,
    .respond 0, .add 0, .arrive firstClient firstRequest, .dequeue 1]

theorem alone_onePass : Along inStep Alone onePass Server.init := by
  refine .cons trivial rfl (.cons trivial rfl (.cons ?_ rfl (.cons trivial rfl (.cons trivial rfl
    (.cons trivial rfl (.cons trivial rfl (.cons trivial rfl (.cons trivial rfl trivial))))))))
  intro r _ v hv
  simp [put_worker, hv, Server.init, windowNbr]

theorem executed_at_most_once_onePass :
    ∃ s, steps inStep onePass Server.init = .ok s ∧ s.executed = [0x00010400] ∧
      s.executed.Nodup ∧ ∃ s' pid, inStep s (.tryRespond 1) = .ok s' ∧
        s'.executed = [0x00010400] ∧
        s'.sent.head? = some ⟨firstClient, ikcpPackProcCreatResp 0x0400 pid⟩ := by
  obtain ⟨s, hrun, hexec, r, hw, hr, hidle⟩ : ∃ s, steps inStep onePass Server.init = .ok s ∧
      s.executed = [0x00010400] ∧ ∃ r, s.worker 1 = some (.dequeued, r) ∧
      (r.requestNbr = 0x00010400 ∧ r.cliaddr = firstClient) ∧
      ∀ v, v ≠ 1 → windowNbr (s.worker v) = none := by
    refine ⟨_, rfl, rfl, _, rfl, ⟨rfl, rfl⟩, ?_⟩
    decide
  have h := executed_at_most_once onePass s hrun alone_onePass
  have hal : Alone s (.tryRespond 1) := by
    intro q _ v hv
    simp [hidle v hv]
  obtain ⟨s', pid, hstep, -, hexec', hsent⟩ := h.2 1 r hw (by rw [hr.1, hexec]; decide) hal
  refine ⟨s, hrun, hexec, h.1, s', pid, hstep, hexec'.trans hexec, ?_⟩
  rw [hsent, hr.1, hr.2]
  rfl

def racingPass : List InAction :=
  [.arrive firstClient firstRequest, .arrive firstClient firstRequest, .dequeue 0, .dequeue 1,
    .tryRespond 0, .tryRespond 1, .removeLast 0, .removeLast 1, .proceed 0, .proceed 1]

theorem executed_twice_by_two_workers :
    ¬ ∀ (as : List InAction) (s : Server), steps inStep as Server.init = .ok s →
      s.executed.Nodup := by
  intro h
  obtain ⟨s, hrun, hexec⟩ : ∃ s, steps inStep racingPass Server.init = .ok s ∧
      s.executed = [0x00010400, 0x00010400] := ⟨_, rfl, rfl⟩
  have hnodup := h racingPass s hrun
  rw [hexec] at hnodup
  revert hnodup
  decide

end Dkmp.Ikcd
