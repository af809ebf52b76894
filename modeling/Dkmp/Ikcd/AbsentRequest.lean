import Dkmp.Ikcd.Queue

/-! # Removing a request that is not queued

Here the mutex of the queue is part of the state, so that a call can be seen to
release it on each of its three ways out. The search runs past the end of the list
when the request is not in it, and reads the element that is not there.
-/

namespace Dkmp.Ikcd

open Machine

/-- `struct ikc_queue_head` with its mutex. -/
structure LockedQueue (ρ : Type) where
  head : QueueHead ρ
  locked : Bool

section LockedQueue

variable {ρ : Type}

/-- `pthread_mutex_lock`; within one run nobody else would release a taken mutex. -/
def LockedQueue.lock (q : LockedQueue ρ) : Exec (LockedQueue ρ) :=
  if q.locked then .error .blocked else .ok { q with locked := true }

def LockedQueue.unlock (q : LockedQueue ρ) : LockedQueue ρ := { q with locked := false }

variable [DecidableEq ρ]

/-- `ikcq_remove_request` with its calls on the mutex. -/
def LockedQueue.ikcqRemoveRequest (q : LockedQueue ρ) (req : ρ) :
    Exec (Int × LockedQueue ρ) := do
  let q ← q.lock
  if q.head.queue = none then .ok (-eIkcNoqueue, q.unlock)
  else do
    let reqInQueue ← loop (removeSeekBody q.head req) (q.head.elems.next + 1) q.head.queue
    if reqInQueue = none then .ok (-eIkcNoreq, q.unlock)
    else do
      let head ← unlinkElem q.head reqInQueue
      let elems ← head.elems.free reqInQueue
      .ok (0, LockedQueue.unlock { q with head := { head with elems := elems } })

end LockedQueue

variable {ρ : Type} [DecidableEq ρ] {q : LockedQueue ρ} {head : QueueHead ρ} {rs : List ρ} {r : ρ}

/-- Under a free mutex the call is the one on the list alone, and the mutex is free
again whenever it returns. -/
theorem lockedRemoveRequest_eq (hfree : q.locked = false) (r : ρ) :
    q.ikcqRemoveRequest r = (Ikcd.ikcqRemoveRequest q.head r).map fun out => (out.1, ⟨out.2, false⟩) := by
  have hlock : q.lock = .ok { q with locked := true } := by
    rw [LockedQueue.lock, if_neg (by simp [hfree])]
  rw [LockedQueue.ikcqRemoveRequest, hlock, ok_bind, Ikcd.ikcqRemoveRequest]
  by_cases hempty : q.head.queue = none
  · rw [if_pos hempty, if_pos hempty]
    rfl
  · rw [if_neg hempty, if_neg hempty]
    cases loop (removeSeekBody q.head r) (q.head.elems.next + 1) q.head.queue with
    | error e => rfl
    | ok reqInQueue =>
        rw [ok_bind, ok_bind]
        by_cases hnone : reqInQueue = none
        · rw [if_pos hnone, if_pos hnone]
          rfl
        · rw [if_neg hnone, if_neg hnone]
          cases unlinkElem q.head reqInQueue with
          | error e => rfl
          | ok head =>
              rw [ok_bind, ok_bind]
              cases head.elems.free reqInQueue with
              | error e => rfl
              | ok elems => rfl

/-- The loop condition reads `req_in_queue->req_struct` before it compares
`req_in_queue` with `NULL`: behind the last element it faults. -/
theorem removeSeek_absent (r : ρ) {p : Ptr} :
    ∀ (l : List Nat) (fuel : Nat), Linked QueueElem.next QueueElem.prev head.elems.cell p l →
      l.length < fuel → r ∉ contents QueueElem.reqStruct head.elems.cell l →
      loop (removeSeekBody head r) fuel l.head? = .error .null := by
  intro l
  induction l generalizing p with
  | nil =>
      intro fuel _ hfuel _
      obtain ⟨fuel, rfl⟩ : ∃ k, fuel = k + 1 := ⟨fuel - 1, by simp at hfuel; omega⟩
      have hbody : removeSeekBody head r none = .error .null := by
        rw [removeSeekBody, Heap.load_none, error_bind]
      rw [List.head?_nil, loop_succ, hbody, error_bind]
  | cons a l ih =>
      intro fuel hl hfuel hr
      obtain ⟨fuel, rfl⟩ : ∃ k, fuel = k + 1 := ⟨fuel - 1, by omega⟩
      obtain ⟨c, hc, hnext, -⟩ := hl [] a l rfl
      rw [contents_cons hc, List.mem_cons, not_or] at hr
      have hbody : removeSeekBody head r (some a) = .ok (.inl l.head?) := by
        rw [removeSeekBody, Heap.load_some hc, ok_bind, if_pos (Ne.symm hr.1), hnext]
      rw [List.head?_cons, loop_next hbody]
      exact ih fuel hl.tail (by simpa using hfuel) hr.2

theorem removeRequest_empty (h : Represents head []) (r : ρ) :
    ikcqRemoveRequest head r = .ok (-eIkcNoqueue, head) := by
  obtain ⟨l, hl, hcontents⟩ := h
  have hnil : l = [] := by
    cases l with
    | nil => rfl
    | cons a l =>
        obtain ⟨c, hc, -⟩ := hl.first_cell
        rw [contents_cons hc] at hcontents
        cases hcontents
  have hnone : head.queue = none := by rw [hl.first, hnil, List.head?_nil]
  rw [ikcqRemoveRequest, if_pos hnone]

theorem removeRequest_absent (h : Represents head rs) (hne : rs ≠ []) (hr : r ∉ rs) :
    ikcqRemoveRequest head r = .error .null := by
  obtain ⟨l, hl, rfl⟩ := h
  have hlen := hl.length_le
  have hseek := removeSeek_absent r l (head.elems.next + 1) hl.linked (by omega) hr
  have hsome : head.queue ≠ none := by
    rw [hl.first]
    cases l with
    | nil => exact absurd rfl hne
    | cons a l => simp
  rw [ikcqRemoveRequest, if_neg hsome, hl.first, hseek, error_bind]

/-- The call returns the code for a missing request, the mutex is free again and
the queue is, element for element, as it was. -/
def Harmless (q : LockedQueue ρ) (rs : List ρ) (r : ρ) : Prop :=
  q.ikcqRemoveRequest r = .ok (if rs = [] then -eIkcNoqueue else -eIkcNoreq, q.unlock)

/-- **Absent requests.** Whatever the queue holds, the removal of a request that is
not in it is harmless exactly when the queue is empty. -/
theorem absent_removal_harmless_iff {q : LockedQueue ρ} {rs : List ρ} (h : Represents q.head rs)
    (hfree : q.locked = false) {r : ρ} (hr : r ∉ rs) : Harmless q rs r ↔ rs = [] := by
  rw [Harmless, lockedRemoveRequest_eq hfree]
  constructor
  · intro hreturns
    by_contra hne
    rw [removeRequest_absent h hne hr] at hreturns
    cases hreturns
  · rintro rfl
    rw [removeRequest_empty h]
    rfl

theorem absent_removal_harmless_empty :
    Harmless (⟨ikcInitQueue, false⟩ : LockedQueue Nat) [] 1 :=
  (absent_removal_harmless_iff represents_init rfl List.not_mem_nil).mpr rfl

def oneQueued : QueueHead Nat := ⟨Heap.empty.alloc ⟨1, none, some 0⟩, some 0⟩

theorem represents_oneQueued : Represents oneQueued [1] := by
  obtain ⟨head, hrun, hrep⟩ := ikcqQueueRequest_spec represents_init 1
  have hqueued : ikcqQueueRequest ikcInitQueue 1 = .ok (0, oneQueued) := rfl
  rw [hqueued] at hrun
  cases hrun
  exact hrep

/-- The removal of request 2 from it reads through a null pointer. -/
theorem absent_removal_faults :
    (⟨oneQueued, false⟩ : LockedQueue Nat).ikcqRemoveRequest 2 = .error .null ∧
      ¬ ∀ (q : LockedQueue Nat) (rs : List Nat) (r : Nat), Represents q.head rs →
        q.locked = false → r ∉ rs → Harmless q rs r := by
  have hfault : (⟨oneQueued, false⟩ : LockedQueue Nat).ikcqRemoveRequest 2 = .error .null := rfl
  refine ⟨hfault, ?_⟩
  intro hclaim
  have hharmless := hclaim ⟨oneQueued, false⟩ [1] 2 represents_oneQueued rfl (by decide)
  rw [Harmless, hfault] at hharmless
  cases hharmless

end Dkmp.Ikcd
