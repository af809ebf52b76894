import Dkmp.Machine.CString
import Dkmp.Machine.Trace

/-! # Loops over the tokens of a string

A loop that runs `strtok` until it returns NULL performs its body once for every token, in
order. A body may end the loop before the last one.
-/

namespace Dkmp.Machine

section Until

variable {σ α : Type} (step : σ → α → Exec (σ ⊕ σ))

def stepsUntil : List α → σ → Exec σ
  | [], s => .ok s
  | a :: as, s => do
      match ← step s a with
      | .inl s => stepsUntil as s
      | .inr s => .ok s

variable {step}

theorem stepsUntil_next {a : α} {s s₁ : σ} (h : step s a = .ok (.inl s₁)) (as : List α) :
    stepsUntil step (a :: as) s = stepsUntil step as s₁ := by
  rw [stepsUntil, h, ok_bind]

theorem stepsUntil_stop {a : α} {s s₁ : σ} (h : step s a = .ok (.inr s₁)) (as : List α) :
    stepsUntil step (a :: as) s = .ok s₁ := by
  rw [stepsUntil, h, ok_bind]

theorem stepsUntil_inl (step : σ → α → Exec σ) (as : List α) (s : σ) :
    stepsUntil (fun s a => (step s a).map Sum.inl) as s = steps step as s := by
  induction as generalizing s with
  | nil => rfl
  | cons a as ih =>
      rw [stepsUntil, steps]
      cases step s a with
      | error f => rfl
      | ok s₁ => exact ih s₁

end Until

section Loop

variable {σ : Type} (delims : CStr) (body : σ → CStr → Exec (σ ⊕ σ))

/-- `while(token != NULL)`, with `token` the first token of the text. -/
def tokenBody : CStr × σ → Exec ((CStr × σ) ⊕ σ)
  | (text, s) =>
      match strtok delims text with
      | none => .ok (.inr s)
      | some (token, rest) => do
          match ← body s token with
          | .inl s => .ok (.inl (rest, s))
          | .inr s => .ok (.inr s)

/-- Every iteration consumes a character of the text. -/
def tokenLoop (text : CStr) (s : σ) : Exec σ :=
  loop (tokenBody delims body) (text.length + 1) (text, s)

theorem tokenLoop_fuel (fuel : Nat) (text : CStr) (hfuel : text.length < fuel) (s : σ) :
    loop (tokenBody delims body) fuel (text, s) = stepsUntil body (tokens delims text) s := by
  induction fuel generalizing text s with
  | zero => omega
  | succ fuel ih =>
      rw [tokens_eq_strtok]
      cases htok : strtok delims text with
      | none => exact loop_exit (by rw [tokenBody, htok])
      | some first =>
          obtain ⟨token, rest⟩ := first
          have hlt := strtok_length htok
          rw [loop_succ, stepsUntil]
          simp only [tokenBody, htok]
          cases body s token with
          | error f => rfl
          | ok r =>
              cases r with
              | inl s₁ => exact ih rest (by omega) s₁
              | inr s₁ => rfl

theorem tokenLoop_eq (text : CStr) (s : σ) :
    tokenLoop delims body text s = stepsUntil body (tokens delims text) s :=
  tokenLoop_fuel delims body _ text (Nat.lt_succ_self _) s

end Loop

end Dkmp.Machine
