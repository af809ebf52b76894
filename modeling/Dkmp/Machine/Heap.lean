import Dkmp.Machine.Exec

/-! # A typed heap

Addresses are handed out in increasing order and never reused, so a read
through a pointer whose object was freed always faults. The `fresh` field says
that nothing lives at or above the next address; no operation can break it.
-/

namespace Dkmp.Machine

/-- A C pointer; `none` is `NULL`. -/
abbrev Ptr := Option Nat

structure Heap (α : Type) where
  cell : Nat → Option α
  next : Nat
  fresh : ∀ a, next ≤ a → cell a = none

namespace Heap

variable {α : Type}

def empty : Heap α := ⟨fun _ => none, 0, fun _ _ => rfl⟩

def alloc (h : Heap α) (v : α) : Heap α where
  cell := fun a => if a = h.next then some v else h.cell a
  next := h.next + 1
  fresh := by
    intro a ha
    rw [if_neg (by omega)]
    exact h.fresh a (by omega)

def modify (h : Heap α) (a : Nat) (f : α → α) : Heap α where
  cell := fun b => if b = a then (h.cell b).map f else h.cell b
  next := h.next
  fresh := by
    intro b hb
    rw [h.fresh b hb]
    simp

def erase (h : Heap α) (a : Nat) : Heap α where
  cell := fun b => if b = a then none else h.cell b
  next := h.next
  fresh := by
    intro b hb
    rw [h.fresh b hb]
    simp

def load (h : Heap α) : Ptr → Exec α
  | none => .error .null
  | some a =>
      match h.cell a with
      | none => .error .dangling
      | some v => .ok v

/-- An assignment through `p`. -/
def update (h : Heap α) (p : Ptr) (f : α → α) : Exec (Heap α) :=
  match p with
  | none => .error .null
  | some a =>
      match h.cell a with
      | none => .error .dangling
      | some _ => .ok (h.modify a f)

def updateIf (h : Heap α) (P : Prop) [Decidable P] (p : Ptr) (f : α → α) : Exec (Heap α) :=
  if P then h.update p f else .ok h

/-- `free(p)`; freeing `NULL` does nothing, freeing twice faults. -/
def free (h : Heap α) : Ptr → Exec (Heap α)
  | none => .ok h
  | some a =>
      match h.cell a with
      | none => .error .dangling
      | some _ => .ok (h.erase a)

theorem load_ne_blocked (h : Heap α) (p : Ptr) : h.load p ≠ .error .blocked := by
  unfold load
  split
  · nofun
  · split <;> nofun

theorem update_ne_blocked (h : Heap α) (p : Ptr) (f : α → α) : h.update p f ≠ .error .blocked := by
  unfold update
  split
  · nofun
  · split <;> nofun

/-! ## Cells after one operation -/

@[simp] theorem empty_cell (a : Nat) : (empty : Heap α).cell a = none := rfl

@[simp] theorem empty_next : (empty : Heap α).next = 0 := rfl

theorem alloc_cell (h : Heap α) (v : α) (a : Nat) :
    (h.alloc v).cell a = if a = h.next then some v else h.cell a := rfl

@[simp] theorem alloc_next (h : Heap α) (v : α) : (h.alloc v).next = h.next + 1 := rfl

@[simp] theorem alloc_self (h : Heap α) (v : α) : (h.alloc v).cell h.next = some v := by
  simp [alloc_cell]

theorem modify_cell (h : Heap α) (a : Nat) (f : α → α) (b : Nat) :
    (h.modify a f).cell b = if b = a then (h.cell b).map f else h.cell b := rfl

@[simp] theorem modify_next (h : Heap α) (a : Nat) (f : α → α) :
    (h.modify a f).next = h.next := rfl

theorem modify_self {h : Heap α} {a : Nat} {v : α} (f : α → α) (ha : h.cell a = some v) :
    (h.modify a f).cell a = some (f v) := by
  simp [modify_cell, ha]

theorem modify_other {h : Heap α} {a b : Nat} (f : α → α) (hab : b ≠ a) :
    (h.modify a f).cell b = h.cell b := by
  simp [modify_cell, hab]

/-- An assignment to a live object stores one value. -/
theorem modify_eq_const {h : Heap α} {a : Nat} {v : α} (f : α → α) (ha : h.cell a = some v) :
    h.modify a f = h.modify a fun _ => f v := by
  simp only [modify, mk.injEq, and_true]
  funext b
  by_cases hb : b = a
  · rw [if_pos hb, if_pos hb, hb, ha, Option.map_some, Option.map_some]
  · rw [if_neg hb, if_neg hb]

theorem modify_modify (h : Heap α) (a : Nat) (f g : α → α) :
    (h.modify a f).modify a g = h.modify a (g ∘ f) := by
  simp only [modify, mk.injEq, and_true]
  funext b
  by_cases hb : b = a
  · rw [if_pos hb, if_pos hb, if_pos hb, Option.map_map]
  · rw [if_neg hb, if_neg hb, if_neg hb]

theorem modify_id (h : Heap α) (a : Nat) : h.modify a id = h := by
  cases h
  simp only [modify, mk.injEq, and_true]
  funext b
  rw [Option.map_id, id, ite_self]

theorem erase_cell (h : Heap α) (a b : Nat) :
    (h.erase a).cell b = if b = a then none else h.cell b := rfl

@[simp] theorem erase_next (h : Heap α) (a : Nat) : (h.erase a).next = h.next := rfl

theorem erase_other {h : Heap α} {a b : Nat} (hab : b ≠ a) :
    (h.erase a).cell b = h.cell b := by
  simp [erase_cell, hab]

/-! ## Successful accesses -/

theorem lt_next {h : Heap α} {a : Nat} {v : α} (ha : h.cell a = some v) : a < h.next := by
  by_contra hge
  rw [h.fresh a (by omega)] at ha
  cases ha

theorem alloc_old {h : Heap α} {a : Nat} {v : α} (w : α) (ha : h.cell a = some v) :
    (h.alloc w).cell a = some v := by
  have hlt := lt_next ha
  rw [alloc_cell, if_neg (by omega), ha]

theorem load_some {h : Heap α} {a : Nat} {v : α} (ha : h.cell a = some v) :
    h.load (some a) = .ok v := by
  simp [load, ha]

@[simp] theorem load_none (h : Heap α) : h.load none = .error .null := rfl

theorem load_eq_ok {h : Heap α} {p : Ptr} {v : α} (hl : h.load p = .ok v) :
    ∃ a, p = some a ∧ h.cell a = some v := by
  cases p with
  | none => cases hl
  | some a =>
      cases hc : h.cell a with
      | none => simp [load, hc] at hl
      | some w =>
          simp only [load, hc, Except.ok.injEq] at hl
          exact ⟨a, rfl, by rw [hc, hl]⟩

theorem update_some {h : Heap α} {a : Nat} {v : α} (f : α → α) (ha : h.cell a = some v) :
    h.update (some a) f = .ok (h.modify a f) := by
  simp [update, ha]

/-- An assignment succeeds on a live object and changes no other one. -/
theorem update_spec {h : Heap α} {a : Nat} {v : α} (f : α → α) (ha : h.cell a = some v) :
    ∃ h', h.update (some a) f = .ok h' ∧ ∀ b, h'.cell b = if b = a then some (f v) else h.cell b := by
  refine ⟨h.modify a f, update_some f ha, ?_⟩
  intro b
  rw [modify_cell]
  by_cases hb : b = a
  · rw [if_pos hb, if_pos hb, hb, ha, Option.map_some]
  · rw [if_neg hb, if_neg hb]

theorem updateIf_spec {h : Heap α} {P : Prop} [Decidable P] {p : Ptr} (f : α → α)
    (hp : P → ∃ a, p = some a ∧ (h.cell a).isSome) :
    ∃ h', h.updateIf P p f = .ok h' ∧
      ∀ b, h'.cell b = if P ∧ p = some b then (h.cell b).map f else h.cell b := by
  by_cases hP : P
  · obtain ⟨a, rfl, ha⟩ := hp hP
    obtain ⟨v, hv⟩ := Option.isSome_iff_exists.mp ha
    obtain ⟨h', hupd, hcell⟩ := update_spec f hv
    refine ⟨h', by rw [updateIf, if_pos hP, hupd], ?_⟩
    intro b
    rw [hcell]
    by_cases hb : b = a
    · rw [if_pos hb, if_pos ⟨hP, by rw [hb]⟩, hb, hv]
      rfl
    · rw [if_neg hb, if_neg (fun hab => hb (Option.some.inj hab.2).symm)]
  · exact ⟨h, if_neg hP, fun b => (if_neg (fun hPb => hP hPb.1)).symm⟩

@[simp] theorem free_none (h : Heap α) : h.free none = .ok h := rfl

theorem free_some {h : Heap α} {a : Nat} {v : α} (ha : h.cell a = some v) :
    h.free (some a) = .ok (h.erase a) := by
  simp [free, ha]

end Heap

end Dkmp.Machine
