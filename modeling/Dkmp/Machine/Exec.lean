import Mathlib.Algebra.Group.Nat.Defs
import Mathlib.Data.List.Basic

/-! # Faulting executions and bounded loops

A C function is a total Lean function into `Exec`: it either returns or stops
with the reason why it cannot. A `while` loop is a body that yields the next
loop state or leaves with a result; the fuel of `loop` is the number of
iterations allowed, and running past it is a fault, never a silent default.
-/

namespace Dkmp.Machine

inductive Fault where
  | null
  | dangling
  | bounds
  | uninit
  | diverge
  | blocked
  | exited
deriving DecidableEq, Repr

abbrev Exec (α : Type) := Except Fault α

@[simp] theorem ok_bind {α β : Type} (a : α) (f : α → Exec β) :
    ((Except.ok a : Exec α) >>= f) = f a := rfl

@[simp] theorem error_bind {α β : Type} (e : Fault) (f : α → Exec β) :
    ((Except.error e : Exec α) >>= f) = Except.error e := rfl

@[simp] theorem pure_eq_ok {α : Type} (a : α) : (pure a : Exec α) = Except.ok a := rfl

@[simp] theorem throw_eq_error {α : Type} (e : Fault) :
    (throw e : Exec α) = Except.error e := rfl

theorem ite_ok_bind {α β : Type} {c : Prop} [Decidable c] (a : α) (e : Fault) (f : α → Exec β) :
    ((if c then Except.ok a else Except.error e : Exec α) >>= f) =
      if c then f a else Except.error e := by
  split <;> rfl

theorem bind_eq_ok {α β : Type} {x : Exec α} {f : α → Exec β} {b : β}
    (h : (x >>= f) = .ok b) : ∃ a, x = .ok a ∧ f a = .ok b := by
  cases x with
  | error e => cases h
  | ok a => exact ⟨a, rfl, h⟩

/-- A sequence stops with a fault only if one of its parts does. -/
theorem bind_ne_error {α β : Type} {x : Exec α} {f : α → Exec β} {e : Fault} (hx : x ≠ .error e)
    (hf : ∀ a, x = .ok a → f a ≠ .error e) : (x >>= f) ≠ .error e := by
  cases x with
  | error e' =>
      intro h
      exact hx (congrArg Except.error (Except.error.inj h))
  | ok a => exact hf a rfl

theorem map_of_ok {α β : Type} {x : Exec α} {a : α} (f : α → β) (h : x = .ok a) :
    x.map f = .ok (f a) := by
  rw [h]
  rfl

/-! ## Executions that may run for ever -/

/-- The execution returns with a result that satisfies `P`, or runs for ever if that is
conceded: with `False` this is total correctness, with `True` partial correctness. It
never stops for another reason. -/
def Settles {α : Type} (forever : Prop) (x : Exec α) (P : α → Prop) : Prop :=
  (forever ∧ x = .error .diverge) ∨ ∃ a, x = .ok a ∧ P a

section Settles

variable {α β : Type} {D : Prop} {x : Exec α} {P Q : α → Prop}

theorem Settles.of_ok {a : α} (h : x = .ok a) (hP : P a) : Settles D x P := Or.inr ⟨a, h, hP⟩

theorem Settles.mono (h : Settles D x P) (hPQ : ∀ a, P a → Q a) : Settles D x Q := by
  rcases h with hdiv | ⟨a, ha, hP⟩
  · exact Or.inl hdiv
  · exact Or.inr ⟨a, ha, hPQ a hP⟩

theorem Settles.bind {f : α → Exec β} {R : β → Prop} (h : Settles D x P)
    (hf : ∀ a, P a → Settles D (f a) R) : Settles D (x >>= f) R := by
  rcases h with ⟨hD, hdiv⟩ | ⟨a, rfl, hP⟩
  · exact Or.inl ⟨hD, by rw [hdiv, error_bind]⟩
  · exact hf a hP

theorem Settles.map {f : α → β} {R : β → Prop} (h : Settles D x P) (hf : ∀ a, P a → R (f a)) :
    Settles D (x.map f) R := by
  rcases h with ⟨hD, rfl⟩ | ⟨a, rfl, hP⟩
  · exact Or.inl ⟨hD, rfl⟩
  · exact .of_ok rfl (hf a hP)

theorem Settles.total (h : Settles D x P) (hD : ¬ D) : ∃ a, x = .ok a ∧ P a := by
  rcases h with ⟨hD', -⟩ | h
  · exact absurd hD' hD
  · exact h

theorem Settles.eq_ok {a : α} (h : Settles D x (· = a)) (hD : ¬ D) : x = .ok a := by
  obtain ⟨a', hx, rfl⟩ := h.total hD
  exact hx

end Settles

/-! ## Executions that may wait -/

/-- The execution returns with a result that satisfies `P`, or waits for another party. It
never stops for another reason. -/
def Advances {α : Type} (x : Exec α) (P : α → Prop) : Prop :=
  x = .error .blocked ∨ ∃ a, x = .ok a ∧ P a

section Advances

variable {α β : Type} {x : Exec α} {P Q : α → Prop}

theorem Advances.of_ok {a : α} (h : P a) : Advances (.ok a) P := Or.inr ⟨a, rfl, h⟩

theorem Advances.of_blocked (P : α → Prop) : Advances (.error .blocked) P := Or.inl rfl

theorem Advances.mono (h : Advances x P) (hPQ : ∀ a, P a → Q a) : Advances x Q := by
  rcases h with hwait | ⟨a, ha, hP⟩
  · exact Or.inl hwait
  · exact Or.inr ⟨a, ha, hPQ a hP⟩

theorem Advances.bind {f : α → Exec β} {R : β → Prop} (h : Advances x P)
    (hf : ∀ a, P a → Advances (f a) R) : Advances (x >>= f) R := by
  rcases h with rfl | ⟨a, rfl, hP⟩
  · exact .of_blocked R
  · exact hf a hP

theorem Advances.of_map {f : α → β} {R : β → Prop} (h : Advances (x.map f) R) :
    Advances x fun a => R (f a) := by
  cases x with
  | error e =>
      rcases h with hwait | ⟨b, hb, -⟩
      · exact Or.inl (congrArg Except.error (Except.error.inj hwait))
      · cases hb
  | ok a =>
      rcases h with hwait | ⟨b, hb, hR⟩
      · cases hwait
      · rw [← Except.ok.inj hb] at hR
        exact .of_ok hR

end Advances

/-! ## Two executions side by side -/

/-- Both return, with related results, or both stop for the same reason. -/
def Outcome {α β : Type} (R : α → β → Prop) : Exec α → Exec β → Prop
  | .ok a, .ok b => R a b
  | .error f, .error g => f = g
  | _, _ => False

theorem Outcome.bind {α β γ δ : Type} {R : α → β → Prop} {S : γ → δ → Prop} {x : Exec α}
    {y : Exec β} {f : α → Exec γ} {g : β → Exec δ} (h : Outcome R x y)
    (hfg : ∀ a b, R a b → y = .ok b → Outcome S (f a) (g b)) :
    Outcome S (x >>= f) (y >>= g) := by
  cases x with
  | error e =>
      cases y with
      | error e' => exact h
      | ok b => exact h.elim
  | ok a =>
      cases y with
      | error e' => exact h.elim
      | ok b => exact hfg a b h rfl

/-- Two executions that follow a common third one. -/
theorem Outcome.meet {α β γ : Type} {R : α → γ → Prop} {S : β → γ → Prop} {T : α → β → Prop}
    {x : Exec α} {y : Exec β} {z : Exec γ} (hx : Outcome R x z) (hy : Outcome S y z)
    (hRS : ∀ a b c, R a c → S b c → T a b) : Outcome T x y := by
  cases z with
  | error e =>
      cases x with
      | error e₁ =>
          cases y with
          | error e₂ => exact Eq.trans hx (Eq.symm hy)
          | ok b => exact hy.elim
      | ok a => exact hx.elim
  | ok c =>
      cases x with
      | error e => exact hx.elim
      | ok a =>
          cases y with
          | error e => exact hy.elim
          | ok b => exact hRS a b c hx hy

/-! ## Bounded loops -/

def loop {σ ρ : Type} (body : σ → Exec (σ ⊕ ρ)) : Nat → σ → Exec ρ
  | 0, _ => .error .diverge
  | fuel + 1, s =>
      match body s with
      | .error e => .error e
      | .ok (.inl s') => loop body fuel s'
      | .ok (.inr r) => .ok r

variable {σ ρ : Type} {body : σ → Exec (σ ⊕ ρ)}

theorem loop_succ (body : σ → Exec (σ ⊕ ρ)) (fuel : Nat) (s : σ) :
    loop body (fuel + 1) s = (do
      match ← body s with
      | .inl s' => loop body fuel s'
      | .inr r => .ok r) := by
  cases hs : body s with
  | error e => simp [loop, hs]
  | ok x =>
      cases x with
      | inl s' => simp [loop, hs]
      | inr r => simp [loop, hs]

theorem loop_next {fuel : Nat} {s s' : σ} (h : body s = .ok (.inl s')) :
    loop body (fuel + 1) s = loop body fuel s' := by
  simp [loop, h]

theorem loop_exit {fuel : Nat} {s : σ} {r : ρ} (h : body s = .ok (.inr r)) :
    loop body (fuel + 1) s = .ok r := by
  simp [loop, h]

/-- A body that yields the state it was given never leaves. -/
theorem loop_stuck {s : σ} (h : body s = .ok (.inl s)) (fuel : Nat) :
    loop body fuel s = .error .diverge := by
  induction fuel with
  | zero => rfl
  | succ fuel ih => rw [loop_next h, ih]

/-- Total correctness: an invariant that every iteration keeps while a measure
falls, until the body leaves with a result that satisfies the postcondition. -/
theorem loop_total (inv : σ → Prop) (post : ρ → Prop) (measure : σ → Nat)
    (step : ∀ s, inv s →
      (∃ s', body s = .ok (.inl s') ∧ inv s' ∧ measure s' < measure s) ∨
      (∃ r, body s = .ok (.inr r) ∧ post r)) :
    ∀ (fuel : Nat) (s : σ), inv s → measure s < fuel →
      ∃ r, loop body fuel s = .ok r ∧ post r := by
  intro fuel
  induction fuel with
  | zero => intro s _ hm; omega
  | succ fuel ih =>
      intro s hs hm
      rcases step s hs with ⟨s', hb, hs', hlt⟩ | ⟨r, hb, hr⟩
      · rw [loop_next hb]
        exact ih s' hs' (by omega)
      · exact ⟨r, loop_exit hb, hr⟩

/-- Partial correctness: an invariant that every iteration keeps until the body leaves
with a result that satisfies the postcondition. -/
theorem loop_settles (inv : σ → Prop) (post : ρ → Prop)
    (step : ∀ s, inv s →
      (∃ s', body s = .ok (.inl s') ∧ inv s') ∨ (∃ r, body s = .ok (.inr r) ∧ post r)) :
    ∀ (fuel : Nat) (s : σ), inv s → Settles True (loop body fuel s) post := by
  intro fuel
  induction fuel with
  | zero => exact fun s _ => Or.inl ⟨trivial, rfl⟩
  | succ fuel ih =>
      intro s hs
      rcases step s hs with ⟨s', hb, hs'⟩ | ⟨r, hb, hr⟩
      · rw [loop_next hb]
        exact ih s' hs'
      · exact .of_ok (loop_exit hb) hr

/-- An invariant that every iteration keeps while a measure falls, until the body leaves
or waits. -/
theorem loop_advances (inv : σ → Prop) (post : ρ → Prop) (measure : σ → Nat)
    (step : ∀ s, inv s →
      Advances (body s) (Sum.elim (fun s' => inv s' ∧ measure s' < measure s) post)) :
    ∀ (fuel : Nat) (s : σ), inv s → measure s < fuel → Advances (loop body fuel s) post := by
  intro fuel
  induction fuel with
  | zero => intro s _ hm; omega
  | succ fuel ih =>
      intro s hs hm
      rw [loop_succ]
      apply (step s hs).bind
      rintro (s' | r) h
      · exact ih s' h.1 (by have hlt := h.2; omega)
      · exact .of_ok h

/-- The states a loop passes through from `s` on. -/
inductive Passes (body : σ → Exec (σ ⊕ ρ)) (s : σ) : σ → Prop where
  | start : Passes body s s
  | next {t t' : σ} : Passes body s t → body t = .ok (.inl t') → Passes body s t'

/-- What every iteration keeps holds in all of them. -/
theorem Passes.keeps {inv : σ → Prop} {s t : σ} (h : Passes body s t) (hs : inv s)
    (step : ∀ t t', inv t → body t = .ok (.inl t') → inv t') : inv t := by
  induction h with
  | start => exact hs
  | next _ hbody ih => exact step _ _ ih hbody

/-! ## Executions within their arrays -/

/-- The execution does not read or write behind the end of an array, and a result satisfies
`P`. -/
def InBounds {α : Type} (x : Exec α) (P : α → Prop) : Prop :=
  x ≠ .error .bounds ∧ ∀ a, x = .ok a → P a

theorem InBounds.of_ok {α : Type} {a : α} {P : α → Prop} (h : P a) : InBounds (.ok a) P :=
  ⟨by simp, fun b hb => Except.ok.inj hb ▸ h⟩

theorem InBounds.of_error {α : Type} {e : Fault} (he : e ≠ .bounds) (P : α → Prop) :
    InBounds (.error e) P :=
  ⟨fun h => he (Except.error.inj h), fun a ha => by cases ha⟩

theorem InBounds.bind {α β : Type} {x : Exec α} {f : α → Exec β} {P : α → Prop} {Q : β → Prop}
    (h : InBounds x P) (hf : ∀ a, P a → InBounds (f a) Q) : InBounds (x >>= f) Q := by
  cases x with
  | error e =>
      apply InBounds.of_error
      rintro rfl
      exact h.1 rfl
  | ok a => exact hf a (h.2 a rfl)

theorem loop_inBounds (inv : σ → Prop) (post : ρ → Prop)
    (step : ∀ s, inv s → InBounds (body s) (Sum.elim inv post)) :
    ∀ (fuel : Nat) (s : σ), inv s → InBounds (loop body fuel s) post := by
  intro fuel
  induction fuel with
  | zero => exact fun s _ => .of_error (by decide) post
  | succ fuel ih =>
      intro s hs
      rw [loop_succ]
      apply (step s hs).bind
      rintro (s' | r) h
      · exact ih s' h
      · exact .of_ok h

end Dkmp.Machine
