import Dkmp.Ikcd.OutWorker

/-! # The last request of a client thread

Before a worker executes a request it means to drop the last one of the same client
thread from the backlog: `ikcbl_remove_threads_last_request` looks for a request of the
host or of the thread and then removes the number of the new request, which is in the
backlog never at that point. So a client thread has one entry exactly as long as the
server executes a single request of it.
-/

namespace Dkmp.Ikcd

open Machine

def clientThread (nbr : UInt32) : UInt16 × UInt8 := (ikcrUnpackHostId nbr, ikcrUnpackThreadId nbr)

def IkcRequest.thread (r : IkcRequest) : UInt16 × UInt8 := (r.hostId, r.threadId)

/-- A datagram that the collector queues a request for. -/
structure Incoming where
  cliaddr : SockaddrIn
  packet : Bytes
  request : IkcRequest
  collected : ikcIncomingRequestCollector cliaddr packet = .ok (some request)

def handleIncoming (s : Server) (x : Incoming) : Exec Server := handle x.cliaddr x.packet s

/-- The backlogs `rs` and `rs'` before and after a request: every client thread has at
most one entry, which is the request that was executed last for it, and the entries of
the other threads are those from before. -/
structure LastOnly (s s' : Server) (r : IkcRequest) (rs rs' : List IkcRequest) : Prop where
  before : Holds s.backlog rs
  after : Holds s'.backlog rs'
  single : (rs'.map IkcRequest.thread).Nodup
  last : ∀ q ∈ rs', s'.executed.find? (fun n => clientThread n = q.thread) = some q.requestNbr
  added : r.requestNbr ∉ s.executed → ikcrProceedIncomingRequest r ∈ rs'
  others : rs'.filter (fun q => q.thread ≠ r.thread) = rs.filter fun q => q.thread ≠ r.thread

def KeepsLast (s : Server) (x : Incoming) : Prop :=
  ∃ s' rs rs', handleIncoming s x = .ok s' ∧ LastOnly s s' x.request rs rs'

/-- A retransmission, or the first request that is executed for its client thread. -/
def FirstOrAgain (s : Server) (x : Incoming) : Prop :=
  x.request.requestNbr ∈ s.executed ∨ ∀ n ∈ s.executed, clientThread n ≠ x.request.thread

/-! ## The backlog while every thread has one request -/

/-- Between two requests: the backlog `rs` has what was executed, one entry a thread. -/
structure OnePerThread (s : Server) (rs : List IkcRequest) : Prop where
  idle : s.worker 0 = none
  solo : Solo s rs
  executed : numbers rs = s.executed
  numbered : ∀ q ∈ rs, clientThread q.requestNbr = q.thread
  single : (rs.map IkcRequest.thread).Nodup

theorem onePerThread_init : OnePerThread Server.init [] :=
  ⟨rfl, ⟨rfl, fun _ _ => rfl, holds_init, by simp⟩, rfl, by simp, List.nodup_nil⟩

theorem Holds.unique {bl : Backlog} {rs rs' : List IkcRequest} (h : Holds bl rs)
    (h' : Holds bl rs') : rs = rs' := by
  obtain ⟨l, hl, rfl⟩ := h
  obtain ⟨l', hl', rfl⟩ := h'
  rw [hl.linked.unique hl'.linked (hl.head.symm.trans hl'.head)]

theorem Incoming.thread_eq (x : Incoming) : clientThread x.request.requestNbr = x.request.thread := by
  have h := x.collected
  unfold ikcIncomingRequestCollector at h
  split at h
  · split at h
    · cases h
    · split at h
      · cases hp : ikcpUnpackProcCreatReq x.packet with
        | error f =>
            rw [ikcrQueueProcessCreationRequest, hp] at h
            cases h
        | ok p =>
            rw [ikcrQueueProcessCreationRequest, hp] at h
            rw [← Option.some.inj (Except.ok.inj h)]
            rfl
      · cases h
  · cases h

theorem thread_proceed (r : IkcRequest) : (ikcrProceedIncomingRequest r).thread = r.thread := by
  unfold ikcrProceedIncomingRequest
  split
  · rfl
  · rfl

section Entries

variable {rs : List IkcRequest}

/-- With one entry a thread, the number of an entry is the latest of its thread. -/
theorem find?_thread (hnumbered : ∀ q ∈ rs, clientThread q.requestNbr = q.thread)
    (hsingle : (rs.map IkcRequest.thread).Nodup) :
    ∀ q ∈ rs, (numbers rs).find? (fun n => clientThread n = q.thread) = some q.requestNbr := by
  induction rs with
  | nil => simp
  | cons r rs ih =>
      intro q hq
      rw [List.map_cons, List.nodup_cons] at hsingle
      rw [numbers_cons, List.find?_cons, hnumbered r List.mem_cons_self]
      rcases List.mem_cons.mp hq with rfl | hq
      · simp
      · have hne : r.thread ≠ q.thread :=
          fun hEq => hsingle.1 (hEq ▸ List.mem_map_of_mem hq)
        rw [decide_eq_false hne]
        exact ih (fun q hq => hnumbered q (List.mem_cons_of_mem r hq)) hsingle.2 q hq

/-- An entry of a thread is there exactly when a request of it was executed. -/
theorem mem_thread_iff (hnumbered : ∀ q ∈ rs, clientThread q.requestNbr = q.thread)
    (t : UInt16 × UInt8) :
    t ∈ rs.map IkcRequest.thread ↔ ∃ n ∈ numbers rs, clientThread n = t := by
  constructor
  · intro ht
    obtain ⟨q, hq, rfl⟩ := List.mem_map.mp ht
    exact ⟨q.requestNbr, List.mem_map_of_mem hq, hnumbered q hq⟩
  · rintro ⟨n, hn, rfl⟩
    obtain ⟨q, hq, rfl⟩ := List.mem_map.mp hn
    rw [hnumbered q hq]
    exact List.mem_map_of_mem hq

end Entries

/-! ## One request -/

section Step

variable {s : Server} {rs : List IkcRequest} (h : OnePerThread s rs) (x : Incoming)

include h

/-- A retransmission changes the address in the entry it is answered from. -/
theorem OnePerThread.again {s' : Server} {rs₁ rs₂ : List IkcRequest} {q : IkcRequest}
    (hsplit : rs = rs₁ ++ q :: rs₂) (hq : q.requestNbr = x.request.requestNbr)
    (hidle : s'.worker 0 = none)
    (hsolo : Solo s' (rs₁ ++ { q with cliaddr := x.request.cliaddr } :: rs₂))
    (hexec : s'.executed = s.executed) :
    OnePerThread s' (rs₁ ++ { q with cliaddr := x.request.cliaddr } :: rs₂) ∧
      LastOnly s s' x.request rs (rs₁ ++ { q with cliaddr := x.request.cliaddr } :: rs₂) := by
  subst hsplit
  have hnumbers := numbers_readdressed rs₁ rs₂ q x.request.cliaddr
  have hthreads : (rs₁ ++ { q with cliaddr := x.request.cliaddr } :: rs₂).map IkcRequest.thread =
      (rs₁ ++ q :: rs₂).map IkcRequest.thread := by
    simp [IkcRequest.thread]
  have hthread : q.thread = x.request.thread := by
    rw [← h.numbered q (by simp), hq, x.thread_eq]
  have hnumbered : ∀ r ∈ rs₁ ++ { q with cliaddr := x.request.cliaddr } :: rs₂,
      clientThread r.requestNbr = r.thread := by
    intro r hr
    rcases List.mem_append.mp hr with hr | hr
    · exact h.numbered r (List.mem_append_left _ hr)
    · rcases List.mem_cons.mp hr with rfl | hr
      · exact h.numbered q (by simp)
      · exact h.numbered r (by simp [hr])
  have hkept : OnePerThread s' (rs₁ ++ { q with cliaddr := x.request.cliaddr } :: rs₂) :=
    ⟨hidle, hsolo, by rw [hnumbers, h.executed, hexec], hnumbered, hthreads ▸ h.single⟩
  refine ⟨hkept, h.solo.holds, hsolo.holds, hkept.single, ?_, ?_, ?_⟩
  · rw [← hkept.executed]
    exact find?_thread hkept.numbered hkept.single
  · intro hnew
    rw [← h.executed, ← hq] at hnew
    exact absurd (by simp [numbers]) hnew
  · have hown : ({ q with cliaddr := x.request.cliaddr } : IkcRequest).thread = x.request.thread :=
      hthread
    rw [List.filter_append, List.filter_append, List.filter_cons_of_neg (by simp [hown]),
      List.filter_cons_of_neg (by simp [hthread])]

theorem OnePerThread.first {s' : Server} (hnew : x.request.thread ∉ rs.map IkcRequest.thread)
    (hidle : s'.worker 0 = none) (hsolo : Solo s' (ikcrProceedIncomingRequest x.request :: rs))
    (hexec : s'.executed = x.request.requestNbr :: s.executed) :
    OnePerThread s' (ikcrProceedIncomingRequest x.request :: rs) ∧
      LastOnly s s' x.request rs (ikcrProceedIncomingRequest x.request :: rs) := by
  have hkept : OnePerThread s' (ikcrProceedIncomingRequest x.request :: rs) := by
    refine ⟨hidle, hsolo, ?_, ?_, ?_⟩
    · rw [numbers_cons, requestNbr_proceed, h.executed, hexec]
    · intro q hq
      rcases List.mem_cons.mp hq with rfl | hq
      · rw [requestNbr_proceed, thread_proceed, x.thread_eq]
      · exact h.numbered q hq
    · rw [List.map_cons, thread_proceed]
      exact List.nodup_cons.mpr ⟨hnew, h.single⟩
  refine ⟨hkept, h.solo.holds, hsolo.holds, hkept.single, ?_, fun _ => List.mem_cons_self, ?_⟩
  · rw [← hkept.executed]
    exact find?_thread hkept.numbered hkept.single
  · rw [List.filter_cons_of_neg (by simp [thread_proceed])]

/-- A request is handled; it keeps one entry a thread when it is a retransmission or the
first one of its thread, and otherwise its thread has two. -/
theorem OnePerThread.handle :
    ∃ s', handleIncoming s x = .ok s' ∧
      ((FirstOrAgain s x ∧ ∃ rs', OnePerThread s' rs' ∧ LastOnly s s' x.request rs rs') ∨
        (¬ FirstOrAgain s x ∧ ∃ rs', Holds s'.backlog rs' ∧ ¬ (rs'.map IkcRequest.thread).Nodup)) := by
  obtain ⟨s', rs', hs', hidle, hsolo, hcase⟩ := handle_cases h.idle h.solo x.collected
  refine ⟨s', hs', ?_⟩
  rcases hcase with ⟨habsent, rfl, hexec⟩ | ⟨rs₁, q, rs₂, hsplit, hq, rfl, hexec⟩
  · by_cases hthread : x.request.thread ∈ rs.map IkcRequest.thread
    · refine .inr ⟨?_, _, hsolo.holds, ?_⟩
      · rintro (hmem | hall)
        · exact habsent (h.executed ▸ hmem)
        · obtain ⟨n, hn, hnt⟩ := (mem_thread_iff h.numbered _).mp hthread
          exact hall n (h.executed ▸ hn) hnt
      · rw [List.map_cons, thread_proceed, List.nodup_cons]
        exact fun hnodup => hnodup.1 hthread
    · refine .inl ⟨.inr ?_, _, h.first x hthread hidle hsolo hexec⟩
      intro n hn hnt
      exact hthread ((mem_thread_iff h.numbered _).mpr ⟨n, h.executed ▸ hn, hnt⟩)
  · refine .inl ⟨.inl ?_, _, h.again x hsplit hq hidle hsolo hexec⟩
    rw [← h.executed, ← hq, hsplit]
    simp [numbers]

theorem OnePerThread.keepsLast_iff : KeepsLast s x ↔ FirstOrAgain s x := by
  obtain ⟨s', hs', hcase⟩ := h.handle x
  constructor
  · rintro ⟨s₂, rs₁, rs₂, hs₂, hlast⟩
    rw [hs', Except.ok.injEq] at hs₂
    subst hs₂
    rcases hcase with ⟨hfirst, -⟩ | ⟨-, rs', hholds, htwice⟩
    · exact hfirst
    · rw [← hlast.after.unique hholds] at htwice
      exact absurd hlast.single htwice
  · intro hfirst
    rcases hcase with ⟨-, rs', -, hlast⟩ | ⟨hnot, -⟩
    · exact ⟨s', rs, rs', hs', hlast⟩
    · exact absurd hfirst hnot

end Step

/-- **One entry a client thread.** After each request of a sequence that one worker
handles from the empty backlog on, every client thread has at most one entry, which is
its last request, and the others are untouched: exactly when each request is a
retransmission of an executed one or the first of its client thread. -/
theorem keeps_last_request_iff (xs : List Incoming) :
    Along handleIncoming KeepsLast xs Server.init ↔
      Along handleIncoming FirstOrAgain xs Server.init := by
  apply along_iff (fun s => ∃ rs, OnePerThread s rs)
  · rintro s x ⟨rs, h⟩
    exact h.keepsLast_iff x
  · rintro s x s' ⟨rs, h⟩ hfirst hstep
    obtain ⟨s₂, hs₂, hcase⟩ := h.handle x
    rw [hstep, Except.ok.injEq] at hs₂
    subst hs₂
    rcases hcase with ⟨-, rs', hrs', -⟩ | ⟨hnot, -⟩
    · exact ⟨rs', hrs'⟩
    · exact absurd hfirst hnot
  · exact ⟨[], onePerThread_init⟩

def secondRequest : Bytes := [1, 10, 1, 4, 7, 0, 0, 0, 0, 0, 0, 0, 0, 0]

def firstIncoming : Incoming := ⟨firstClient, firstRequest, _, rfl⟩

def secondIncoming : Incoming := ⟨firstClient, secondRequest, _, rfl⟩

/-- Behind the second request of a thread the first one is still in the backlog. -/
theorem second_request_evicts_nothing :
    ¬ ∀ xs : List Incoming, Along handleIncoming KeepsLast xs Server.init := by
  intro hall
  obtain ⟨-, hrest⟩ := hall [firstIncoming, secondIncoming]
  obtain ⟨s, hs, hexec⟩ : ∃ s, handleIncoming Server.init firstIncoming = .ok s ∧
      s.executed = [0x00010400] := ⟨_, rfl, rfl⟩
  obtain ⟨s', hs', hcase⟩ := onePerThread_init.handle firstIncoming
  rw [hs, Except.ok.injEq] at hs'
  subst hs'
  rcases hcase with ⟨-, rs, hkept, -⟩ | ⟨hnot, -⟩
  · have hnumber : secondIncoming.request.requestNbr = 0x00010401 := rfl
    have hsecond := (hkept.keepsLast_iff secondIncoming).mp (hrest s hs).1
    rw [FirstOrAgain, hexec, hnumber, List.mem_singleton] at hsecond
    rcases hsecond with hagain | hfirst
    · exact absurd hagain (by decide)
    · exact hfirst 0x00010400 List.mem_cons_self rfl
  · exact hnot (.inr (by simp [Server.init]))

end Dkmp.Ikcd
