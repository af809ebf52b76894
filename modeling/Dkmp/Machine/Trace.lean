import Dkmp.Machine.Exec

/-! # Runs of a step function

A system of several parties is a step function on a common state: an action of
one party either changes the state or is refused, as `blocked` when the party is
not at that point. A run is a list of actions in the order in which they happen,
so a statement about all lists is one about all interleavings.
-/

namespace Dkmp.Machine

section Trace

variable {σ α : Type} (step : σ → α → Exec σ)

def steps : List α → σ → Exec σ
  | [], s => .ok s
  | a :: as, s => do
      let s ← step s a
      steps as s

/-- The condition holds before every step of the run, as far as it goes. -/
def Along (P : σ → α → Prop) : List α → σ → Prop
  | [], _ => True
  | a :: as, s =>
      P s a ∧ ∀ s', step s a = .ok s' → Along P as s'

instance decidableAlong (P : σ → α → Prop) [∀ s a, Decidable (P s a)] :
    (as : List α) → (s : σ) → Decidable (Along step P as s)
  | [], _ => isTrue trivial
  | a :: as, s =>
      match hstep : step s a with
      | .error f => decidable_of_iff (P s a) ⟨fun h => ⟨h, fun s' hs' => by rw [hstep] at hs'; cases hs'⟩, fun h => h.1⟩
      | .ok s₁ =>
          have := decidableAlong P as s₁
          decidable_of_iff (P s a ∧ Along step P as s₁)
            ⟨fun h => ⟨h.1, fun s' hs' => by rw [hstep] at hs'; cases hs'; exact h.2⟩, fun h => ⟨h.1, h.2 s₁ hstep⟩⟩

/-- A state the run passes through, its first and its last one included. -/
def Visits (as : List α) (s s' : σ) : Prop := ∃ bs, bs <+: as ∧ steps step bs s = .ok s'

variable {step}

theorem steps_cons {a : α} {as : List α} {s s' : σ} (h : steps step (a :: as) s = .ok s') :
    ∃ s₁, step s a = .ok s₁ ∧ steps step as s₁ = .ok s' :=
  bind_eq_ok h

theorem Along.cons {P : σ → α → Prop} {a : α} {as : List α} {s s₁ : σ} (hP : P s a)
    (hstep : step s a = .ok s₁) (h : Along step P as s₁) : Along step P (a :: as) s := by
  refine ⟨hP, ?_⟩
  intro s' hs'
  rw [hstep] at hs'
  rw [← Except.ok.inj hs']
  exact h

theorem along_true (as : List α) (s : σ) : Along step (fun _ _ => True) as s := by
  induction as generalizing s with
  | nil => trivial
  | cons a as ih => exact ⟨trivial, fun s' _ => ih s'⟩

theorem along_of_forall {P : α → Prop} {as : List α} (h : ∀ a ∈ as, P a) (s : σ) :
    Along step (fun _ a => P a) as s := by
  induction as generalizing s with
  | nil => trivial
  | cons a as ih =>
      exact ⟨h a (List.mem_cons_self ..), fun s' _ => ih (fun b hb => h b (List.mem_cons_of_mem a hb)) s'⟩

theorem steps_append (as bs : List α) (s : σ) :
    steps step (as ++ bs) s = (steps step as s >>= fun s' => steps step bs s') := by
  induction as generalizing s with
  | nil => rfl
  | cons a as ih =>
      simp only [List.cons_append, steps]
      cases h : step s a with
      | error f => rfl
      | ok s₁ => exact ih s₁

/-- What every step that meets the condition keeps holds at the end of every run
that meets it. -/
theorem steps_invariant {P : σ → α → Prop} (inv : σ → Prop)
    (keep : ∀ s a s', inv s → P s a → step s a = .ok s' → inv s') :
    ∀ (as : List α) (s s' : σ), inv s → Along step P as s → steps step as s = .ok s' → inv s' := by
  intro as
  induction as with
  | nil =>
      intro s s' hs _ hrun
      rw [← Except.ok.inj hrun]
      exact hs
  | cons a as ih =>
      intro s s' hs halong hrun
      obtain ⟨s₁, hstep, hrest⟩ := steps_cons hrun
      exact ih s₁ s' (keep s a s₁ hs halong.1 hstep) (halong.2 s₁ hstep) hrest

/-- If under the condition every step goes through and keeps the invariant, so does
every run. -/
theorem steps_total {P : σ → α → Prop} (inv : σ → Prop)
    (total : ∀ s a, inv s → P s a → ∃ s', step s a = .ok s' ∧ inv s') :
    ∀ (as : List α) (s : σ), inv s → Along step P as s → ∃ s', steps step as s = .ok s' ∧ inv s' := by
  intro as
  induction as with
  | nil => exact fun s hs _ => ⟨s, rfl, hs⟩
  | cons a as ih =>
      intro s hs halong
      obtain ⟨s₁, hstep, hs₁⟩ := total s a hs halong.1
      obtain ⟨s', hrun, hs'⟩ := ih s₁ hs₁ (halong.2 s₁ hstep)
      exact ⟨s', by rw [steps, hstep, ok_bind, hrun], hs'⟩

/-- A run whose every step lowers a rank is no longer than the rank it begins with. -/
theorem steps_ranked {P : σ → α → Prop} (inv : σ → Prop) (rank : σ → Nat)
    (lower : ∀ s a s', inv s → P s a → step s a = .ok s' → inv s' ∧ rank s' < rank s) :
    ∀ (as : List α) (s s' : σ), inv s → Along step P as s → steps step as s = .ok s' →
      as.length + rank s' ≤ rank s := by
  intro as
  induction as with
  | nil =>
      intro s s' _ _ hrun
      rw [← Except.ok.inj hrun, List.length_nil]
      omega
  | cons a as ih =>
      intro s s' hs halong hrun
      obtain ⟨s₁, hstep, hrest⟩ := steps_cons hrun
      obtain ⟨hs₁, hlt⟩ := lower s a s₁ hs halong.1 hstep
      have hle := ih s₁ s' hs₁ (halong.2 s₁ hstep) hrest
      rw [List.length_cons]
      omega

/-- Two conditions that agree where an invariant holds agree all along a run, if the
steps that meet the second one keep the invariant. -/
theorem along_iff {P Q : σ → α → Prop} (inv : σ → Prop) (hiff : ∀ s a, inv s → (P s a ↔ Q s a))
    (keep : ∀ s a s', inv s → Q s a → step s a = .ok s' → inv s') :
    ∀ (as : List α) (s : σ), inv s → (Along step P as s ↔ Along step Q as s) := by
  intro as
  induction as with
  | nil => exact fun _ _ => Iff.rfl
  | cons a as ih =>
      intro s hs
      constructor
      · rintro ⟨hP, hrest⟩
        have hQ := (hiff s a hs).mp hP
        exact ⟨hQ, fun s' hstep => (ih s' (keep s a s' hs hQ hstep)).mp (hrest s' hstep)⟩
      · rintro ⟨hQ, hrest⟩
        exact ⟨(hiff s a hs).mpr hQ, fun s' hstep => (ih s' (keep s a s' hs hQ hstep)).mpr (hrest s' hstep)⟩

theorem Along.append_left {P : σ → α → Prop} {as bs : List α} {s : σ}
    (h : Along step P (as ++ bs) s) : Along step P as s := by
  induction as generalizing s with
  | nil => trivial
  | cons a as ih => exact ⟨h.1, fun s' hs' => ih (h.2 s' hs')⟩

theorem Along.append_right {P : σ → α → Prop} {as bs : List α} {s s' : σ}
    (h : Along step P (as ++ bs) s) (hrun : steps step as s = .ok s') : Along step P bs s' := by
  induction as generalizing s with
  | nil =>
      rw [← Except.ok.inj hrun]
      exact h
  | cons a as ih =>
      obtain ⟨s₁, hstep, hrest⟩ := steps_cons hrun
      exact ih (h.2 s₁ hstep) hrest

theorem Visits.start (as : List α) (s : σ) : Visits step as s s := ⟨[], List.nil_prefix, rfl⟩

theorem visits_nil {s s' : σ} (h : Visits step [] s s') : s' = s := by
  obtain ⟨bs, hbs, hrun⟩ := h
  rw [List.prefix_nil.mp hbs] at hrun
  exact (Except.ok.inj hrun).symm

theorem visits_cons {a : α} {as : List α} {s s₁ s' : σ} (hstep : step s a = .ok s₁) :
    Visits step (a :: as) s s' ↔ s' = s ∨ Visits step as s₁ s' := by
  constructor
  · rintro ⟨bs, hbs, hrun⟩
    cases bs with
    | nil => exact .inl (Except.ok.inj hrun).symm
    | cons b bs =>
        obtain ⟨rfl, hpre⟩ := List.cons_prefix_cons.mp hbs
        obtain ⟨s₂, hs₂, hrest⟩ := steps_cons hrun
        rw [hstep] at hs₂
        rw [← Except.ok.inj hs₂] at hrest
        exact .inr ⟨bs, hpre, hrest⟩
  · rintro (rfl | ⟨bs, hbs, hrun⟩)
    · exact .start (a :: as) s'
    · refine ⟨a :: bs, List.cons_prefix_cons.mpr ⟨rfl, hbs⟩, ?_⟩
      rw [steps, hstep, ok_bind, hrun]

/-- A property that a step leads to exactly under a condition holds all along a
run exactly when every step meets the condition. -/
theorem visits_iff_along {P : σ → α → Prop} {Q : σ → Prop}
    (hiff : ∀ s a s', step s a = .ok s' → (Q s' ↔ P s a)) :
    ∀ (as : List α) (s s' : σ), Q s → steps step as s = .ok s' →
      ((∀ t, Visits step as s t → Q t) ↔ Along step P as s) := by
  intro as
  induction as with
  | nil =>
      intro s s' hs _
      refine iff_of_true ?_ trivial
      intro t ht
      rw [visits_nil ht]
      exact hs
  | cons a as ih =>
      intro s s' hs hrun
      obtain ⟨s₁, hstep, hrest⟩ := steps_cons hrun
      constructor
      · intro hall
        have hs₁ : Q s₁ := hall s₁ ((visits_cons hstep).mpr (.inr (.start as s₁)))
        refine .cons ((hiff s a s₁ hstep).mp hs₁) hstep ((ih s₁ s' hs₁ hrest).mp ?_)
        intro t ht
        exact hall t ((visits_cons hstep).mpr (.inr ht))
      · intro halong t ht
        have hs₁ : Q s₁ := (hiff s a s₁ hstep).mpr halong.1
        rcases (visits_cons hstep).mp ht with rfl | ht
        · exact hs
        · exact (ih s₁ s' hs₁ hrest).mpr (halong.2 s₁ hstep) t ht

end Trace

end Dkmp.Machine
