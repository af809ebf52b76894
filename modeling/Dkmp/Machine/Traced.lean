import Dkmp.Machine.Exec

/-! # Computations with a record of their accesses

A traced computation has the events it went through beside its outcome, and after a
fault they are still there. What holds of every event follows the structure of the
program; the outcome alone is a computation without a record.
-/

namespace Dkmp.Machine

structure Traced (ε α : Type) where
  log : List ε
  result : Exec α

namespace Traced

variable {ε α β : Type}

instance : Monad (Traced ε) where
  pure a := ⟨[], .ok a⟩
  bind x f :=
    match x.result with
    | .ok a => ⟨x.log ++ (f a).log, (f a).result⟩
    | .error e => ⟨x.log, .error e⟩

def note (e : ε) : Traced ε Unit := ⟨[e], .ok ()⟩

/-- A computation without events. -/
def lift (x : Exec α) : Traced ε α := ⟨[], x⟩

def All (P : ε → Prop) (x : Traced ε α) : Prop := ∀ e ∈ x.log, P e

@[simp] theorem result_pure (a : α) : (pure a : Traced ε α).result = .ok a := rfl

@[simp] theorem result_note (e : ε) : (note e).result = .ok () := rfl

@[simp] theorem result_lift (x : Exec α) : (lift x : Traced ε α).result = x := rfl

@[simp] theorem result_bind (x : Traced ε α) (f : α → Traced ε β) :
    (x >>= f).result = (x.result >>= fun a => (f a).result) := by
  change (match x.result with
    | .ok a => ⟨x.log ++ (f a).log, (f a).result⟩
    | .error e => ⟨x.log, .error e⟩ : Traced ε β).result = _
  cases x.result <;> rfl

theorem log_bind (x : Traced ε α) (f : α → Traced ε β) :
    (x >>= f).log = x.log ++
      match x.result with
      | .ok a => (f a).log
      | .error _ => [] := by
  change (match x.result with
    | .ok a => ⟨x.log ++ (f a).log, (f a).result⟩
    | .error e => ⟨x.log, .error e⟩ : Traced ε β).log = _
  cases x.result with
  | ok a => rfl
  | error e => exact (List.append_nil _).symm

variable {P : ε → Prop}

@[simp] theorem all_pure (a : α) : All P (pure a : Traced ε α) := by
  intro e he
  cases he

@[simp] theorem all_lift (x : Exec α) : All P (lift x : Traced ε α) := by
  intro e he
  cases he

@[simp] theorem all_note (e : ε) : All P (note e) ↔ P e :=
  List.forall_mem_singleton

/-- The events of the first part, and those of the second one if it is reached. -/
theorem all_bind (x : Traced ε α) (f : α → Traced ε β) :
    All P (x >>= f) ↔ All P x ∧ ∀ a, x.result = .ok a → All P (f a) := by
  unfold All
  rw [log_bind, List.forall_mem_append]
  cases x.result with
  | ok a => simp
  | error e => simp

theorem all_bind_ok {x : Traced ε α} {a : α} (hx : x.result = .ok a) (f : α → Traced ε β) :
    All P (x >>= f) ↔ All P x ∧ All P (f a) := by
  rw [all_bind, hx]
  simp

@[simp] theorem all_note_bind (e : ε) (f : Unit → Traced ε β) :
    All P (note e >>= f) ↔ P e ∧ All P (f ()) := by
  rw [all_bind_ok (result_note e), all_note]

theorem all_lift_bind {x : Exec α} {a : α} (hx : x = .ok a) (f : α → Traced ε β) :
    All P (lift x >>= f) ↔ All P (f a) := by
  rw [all_bind_ok (x := (lift x : Traced ε α)) hx]
  simp

end Traced

end Dkmp.Machine
