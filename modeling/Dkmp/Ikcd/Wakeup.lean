import Dkmp.Ikcd.Queue
import Dkmp.Machine.Trace
import Mathlib.Algebra.GroupWithZero.Nat
import Mathlib.Data.Fintype.Basic

/-! # Waiting for requests

A producer queues a request and then signals the condition on which its three
workers wait. The workers do not look at the queue before they wait, so a signal
that finds none of them waiting is lost. The outgoing and the incoming side are
the same here: the condition, its queue, and who signals it.
-/

namespace Dkmp.Ikcd

open Machine

instance pool_neZero : NeZero 3 := ⟨by decide⟩

/-- Where a worker is in its loop: in front of `pthread_cond_wait`, inside it,
inside it with the wake-up on its way, or behind it and dequeueing. -/
inductive WorkerPhase where
  | top
  | waiting
  | woken
  | draining
deriving DecidableEq, Repr

/-- A producer with its queue and its workers. `signalling` says that it queued a
request and has not signalled yet. -/
structure Pool (ρ : Type) where
  head : QueueHead ρ
  signalling : Bool
  worker : Fin 3 → WorkerPhase

inductive PoolAction (ρ : Type) where
  | queue (req : ρ)
  | signal (wakes : Option (Fin 3))
  | enterWait (w : Fin 3)
  | wake (w : Fin 3)
  | dequeue (w : Fin 3)

section Pool

variable {ρ : Type} {s s' : Pool ρ}

def Pool.init : Pool ρ := ⟨ikcInitQueue, false, fun _ => .top⟩

def Pool.put (s : Pool ρ) (w : Fin 3) (p : WorkerPhase) : Pool ρ :=
  { s with worker := fun v => if v = w then p else s.worker v }

/-- `pthread_cond_signal` wakes one of the waiting threads, any of them, and does
nothing if there is none. -/
def pthreadCondSignal (s : Pool ρ) : Option (Fin 3) → Exec (Pool ρ)
  | some w => if s.worker w = .waiting then .ok (s.put w .woken) else .error .blocked
  | none => if ∃ w, s.worker w = .waiting then .error .blocked else .ok s

def poolStep (s : Pool ρ) : PoolAction ρ → Exec (Pool ρ)
  | .queue req =>
      if s.signalling then .error .blocked
      else do
        let (_, head) ← ikcqQueueRequest s.head req
        .ok { s with head := head, signalling := true }
  | .signal wakes =>
      if s.signalling then do
        let s ← pthreadCondSignal s wakes
        .ok { s with signalling := false }
      else .error .blocked
  | .enterWait w => if s.worker w = .top then .ok (s.put w .waiting) else .error .blocked
  | .wake w => if s.worker w = .woken then .ok (s.put w .draining) else .error .blocked
  | .dequeue w =>
      if s.worker w = .draining then do
        let (ret, _, head) ← ikcqDequeueRequest s.head
        let s := { s with head := head }
        .ok (if 0 ≤ ret then s else s.put w .top)
      else .error .blocked

/-- A request lies in the queue, every worker waits, and nobody will wake one. -/
def Stuck (s : Pool ρ) : Prop :=
  s.head.queue ≠ none ∧ (∀ w, s.worker w = .waiting) ∧ s.signalling = false

/-- The last worker that is not waiting yet does not go to wait behind the signal
for a request that is still in the queue. -/
def Heedful (s : Pool ρ) : PoolAction ρ → Prop
  | .enterWait w => s.head.queue = none ∨ s.signalling = true ∨ ∃ v, v ≠ w ∧ s.worker v ≠ .waiting
  | _ => True

@[simp] theorem Pool.put_self (s : Pool ρ) (w : Fin 3) (p : WorkerPhase) :
    (s.put w p).worker w = p := if_pos rfl

theorem not_stuck_of_awake {s : Pool ρ} {w : Fin 3} (h : s.worker w ≠ .waiting) : ¬ Stuck s :=
  fun hs => h (hs.2.1 w)

theorem not_stuck_of_signalling {s : Pool ρ} (h : s.signalling = true) : ¬ Stuck s := by
  intro hs
  rw [hs.2.2] at h
  cases h

/-- A worker that goes to wait leaves the pool stuck exactly when it is heedless. -/
theorem stuck_enterWait_iff {s s' : Pool ρ} {w : Fin 3} (hstep : poolStep s (.enterWait w) = .ok s') :
    ¬ Stuck s' ↔ Heedful s (.enterWait w) := by
  simp only [poolStep] at hstep
  split at hstep
  · rw [← Except.ok.inj hstep]
    constructor
    · intro hstuck
      by_contra hheed
      simp only [Heedful, not_or, not_exists, not_and, ne_eq, not_not, Bool.not_eq_true] at hheed
      obtain ⟨hqueue, hsig, hothers⟩ := hheed
      refine hstuck ⟨hqueue, ?_, hsig⟩
      intro v
      by_cases hv : v = w
      · rw [hv, Pool.put_self]
      · exact (if_neg hv).trans (hothers v hv)
    · intro hheed hs
      rcases hheed with hqueue | hsig | ⟨v, hv, hawake⟩
      · exact hs.1 hqueue
      · rw [show s.signalling = false from hs.2.2] at hsig
        cases hsig
      · exact hawake ((if_neg hv).symm.trans (hs.2.1 v))
  · cases hstep

theorem stuck_step_iff {s s' : Pool ρ} {a : PoolAction ρ} (hstep : poolStep s a = .ok s') :
    ¬ Stuck s' ↔ Heedful s a := by
  cases a with
  | enterWait w => exact stuck_enterWait_iff hstep
  | queue req =>
      refine iff_of_true ?_ trivial
      simp only [poolStep] at hstep
      split at hstep
      · cases hstep
      · obtain ⟨⟨_, head⟩, -, hcont⟩ := bind_eq_ok hstep
        rw [← Except.ok.inj hcont]
        exact not_stuck_of_signalling rfl
  | signal wakes =>
      refine iff_of_true ?_ trivial
      simp only [poolStep] at hstep
      split at hstep
      · obtain ⟨s₁, hsignal, hcont⟩ := bind_eq_ok hstep
        rw [← Except.ok.inj hcont]
        cases wakes with
        | some w =>
            simp only [pthreadCondSignal] at hsignal
            split at hsignal
            · rw [← Except.ok.inj hsignal]
              exact @not_stuck_of_awake _ _ w (by simp)
            · cases hsignal
        | none =>
            -- the signal is lost because somebody is awake
            simp only [pthreadCondSignal] at hsignal
            split at hsignal
            · cases hsignal
            · next hnone =>
              rw [← Except.ok.inj hsignal]
              exact @not_stuck_of_awake _ _ 0 fun h => hnone ⟨0, h⟩
      · cases hstep
  | wake w =>
      refine iff_of_true ?_ trivial
      simp only [poolStep] at hstep
      split at hstep
      · rw [← Except.ok.inj hstep]
        exact @not_stuck_of_awake _ _ w (by simp)
      · cases hstep
  | dequeue w =>
      refine iff_of_true ?_ trivial
      simp only [poolStep] at hstep
      split at hstep
      · next hdraining =>
        obtain ⟨⟨ret, _, head⟩, -, hcont⟩ := bind_eq_ok hstep
        rw [← Except.ok.inj hcont]
        apply @not_stuck_of_awake _ _ w
        split
        · rw [hdraining]
          decide
        · simp
      · cases hstep

theorem not_stuck_init : ¬ Stuck (Pool.init : Pool ρ) := fun hs => hs.1 rfl

/-- **Wake-ups.** A run of a producer and its workers passes through no stuck state
exactly when every worker that goes to wait is heedful. -/
theorem no_lost_wakeup_iff (as : List (PoolAction ρ)) (k : Pool ρ)
    (hrun : steps poolStep as .init = .ok k) :
    (∀ s, Visits poolStep as .init s → ¬ Stuck s) ↔ Along poolStep Heedful as .init :=
  visits_iff_along (fun _ _ _ hstep => stuck_step_iff hstep) as .init k not_stuck_init hrun

/-! ## Attended signals -/

/-- No signal is given while every worker is still in front of its wait. -/
def Attended (s : Pool ρ) : PoolAction ρ → Prop
  | .signal _ => ∃ w, s.worker w ≠ .top
  | _ => True

/-- What lies in the queue will be signalled, or a worker is on its way to it. -/
def Watched (s : Pool ρ) : Prop :=
  s.head.queue = none ∨ s.signalling = true ∨ ∃ w, s.worker w = .woken ∨ s.worker w = .draining

theorem queue_of_ikcqDequeueRequest {head head' : QueueHead ρ} {ret : Int} {req : Option ρ}
    (h : ikcqDequeueRequest head = .ok (ret, req, head')) (hret : ret < 0) : head'.queue = none := by
  unfold ikcqDequeueRequest at h
  split at h
  · next hnone =>
    cases h
    exact hnone
  · obtain ⟨head₁, -, h⟩ := bind_eq_ok h
    obtain ⟨e, -, h⟩ := bind_eq_ok h
    obtain ⟨elems, -, h⟩ := bind_eq_ok h
    cases h
    exact absurd hret (by decide)

/-- A worker that stays where it is goes on watching. -/
theorem Watched.put (h : Watched s) {w : Fin 3} (hw : s.worker w = .top) (p : WorkerPhase) : Watched (s.put w p) := by
  refine h.imp_right (.imp_right ?_)
  rintro ⟨v, hv⟩
  have hne : v ≠ w := by
    rintro rfl
    rw [hw] at hv
    rcases hv with hv | hv <;> cases hv
  exact ⟨v, hv.imp (if_neg hne).trans (if_neg hne).trans⟩

theorem Watched.step (h : Watched s) {a : PoolAction ρ} (hatt : Attended s a) (hstep : poolStep s a = .ok s') :
    Watched s' := by
  cases a with
  | queue req =>
      simp only [poolStep] at hstep
      split at hstep
      · cases hstep
      · obtain ⟨⟨_, head⟩, -, hcont⟩ := bind_eq_ok hstep
        rw [← Except.ok.inj hcont]
        exact .inr (.inl rfl)
  | signal wakes =>
      simp only [poolStep] at hstep
      split at hstep
      · obtain ⟨s₁, hsignal, hcont⟩ := bind_eq_ok hstep
        rw [← Except.ok.inj hcont]
        cases wakes with
        | some w =>
            simp only [pthreadCondSignal] at hsignal
            split at hsignal
            · rw [← Except.ok.inj hsignal]
              exact .inr (.inr ⟨w, .inl (s.put_self w .woken)⟩)
            · cases hsignal
        | none =>
            -- nobody waits, so the worker that is not in front of its wait is behind it
            simp only [pthreadCondSignal] at hsignal
            split at hsignal
            · cases hsignal
            · next hnone =>
              rw [← Except.ok.inj hsignal]
              obtain ⟨w, hw⟩ := hatt
              refine .inr (.inr ⟨w, ?_⟩)
              cases hphase : s.worker w with
              | top => exact absurd hphase hw
              | waiting => exact absurd ⟨w, hphase⟩ hnone
              | woken => exact .inl rfl
              | draining => exact .inr rfl
      · cases hstep
  | enterWait w =>
      simp only [poolStep] at hstep
      split at hstep
      · next htop =>
        rw [← Except.ok.inj hstep]
        exact h.put htop .waiting
      · cases hstep
  | wake w =>
      simp only [poolStep] at hstep
      split at hstep
      · rw [← Except.ok.inj hstep]
        exact .inr (.inr ⟨w, .inr (s.put_self w .draining)⟩)
      · cases hstep
  | dequeue w =>
      simp only [poolStep] at hstep
      split at hstep
      · next hdraining =>
        obtain ⟨⟨ret, req, head⟩, hdequeue, hcont⟩ := bind_eq_ok hstep
        rw [← Except.ok.inj hcont]
        split
        · exact .inr (.inr ⟨w, .inr hdraining⟩)
        · next hret => exact .inl (queue_of_ikcqDequeueRequest hdequeue (by omega))
      · cases hstep

theorem Watched.heedful (h : Watched s) {a : PoolAction ρ} (hstep : poolStep s a = .ok s') : Heedful s a := by
  cases a with
  | enterWait w =>
      simp only [poolStep] at hstep
      split at hstep
      · next htop =>
        refine h.imp_right (.imp_right ?_)
        rintro ⟨v, hv⟩
        refine ⟨v, ?_, ?_⟩
        · rintro rfl
          rw [htop] at hv
          rcases hv with hv | hv <;> cases hv
        · rcases hv with hv | hv <;> rw [hv] <;> decide
      · cases hstep
  | _ => trivial

theorem heedful_of_attended (as : List (PoolAction ρ)) (s k : Pool ρ) (h : Watched s)
    (hrun : steps poolStep as s = .ok k) (hatt : Along poolStep Attended as s) : Along poolStep Heedful as s := by
  induction as generalizing s with
  | nil => trivial
  | cons a as ih =>
      obtain ⟨s₁, hstep, hrest⟩ := steps_cons hrun
      exact .cons (h.heedful hstep) hstep (ih s₁ (h.step hatt.1 hstep) hrest (hatt.2 s₁ hstep))

/-- A run is never stuck when some worker has reached its wait before each signal. -/
theorem attended_not_stuck (as : List (PoolAction ρ)) (k : Pool ρ) (hrun : steps poolStep as .init = .ok k)
    (hatt : Along poolStep Attended as .init) : ∀ s, Visits poolStep as .init s → ¬ Stuck s :=
  (visits_iff_along (fun _ _ _ hstep => stuck_step_iff hstep) as .init k not_stuck_init hrun).mpr
    (heedful_of_attended as .init k (.inl rfl) hrun hatt)

end Pool

def signalledInTime : List (PoolAction Nat) :=
  [.enterWait 0, .queue 7, .signal (some 0), .enterWait 1, .enterWait 2, .wake 0, .dequeue 0,
    .dequeue 0, .enterWait 0]

theorem no_lost_wakeup_iff_inTime :
    (∃ k, steps poolStep signalledInTime .init = .ok k ∧ k.head.queue = none) ∧
      ∀ s, Visits poolStep signalledInTime .init s → ¬ Stuck s := by
  obtain ⟨k, hrun, hqueue⟩ : ∃ k, steps poolStep signalledInTime .init = .ok k ∧
      k.head.queue = none := ⟨_, rfl, rfl⟩
  refine ⟨⟨k, hrun, hqueue⟩, (no_lost_wakeup_iff signalledInTime k hrun).mpr ?_⟩
  refine .cons (.inl rfl) rfl (.cons trivial rfl (.cons trivial rfl (.cons ?_ rfl (.cons ?_ rfl
    (.cons trivial rfl (.cons trivial rfl (.cons trivial rfl (.cons (.inl rfl) rfl trivial))))))))
  · exact .inr (.inr ⟨2, by decide, by decide⟩)
  · exact .inr (.inr ⟨0, by decide, by decide⟩)

def signalledTooEarly : List (PoolAction Nat) :=
  [.queue 7, .signal none, .enterWait 0, .enterWait 1, .enterWait 2]

theorem wakeup_lost : ∃ k, steps poolStep signalledTooEarly .init = .ok k ∧ Stuck k := by
  refine ⟨_, rfl, ?_, ?_, rfl⟩
  · decide
  · decide

end Dkmp.Ikcd
