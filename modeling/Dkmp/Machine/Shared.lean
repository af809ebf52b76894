import Mathlib.Logic.Relation
import Mathlib.Data.List.Basic

/-! # A shared object

Clients call an object, which carries out one call at a time: each at one moment between
the call and its return, or never. Between two calls the object may take steps of its own.
`order` is what was carried out. It is one sequential execution of the object in which
every client finds its own calls in the order it made them, with the results it was
given; a call that has returned stays in front of all later ones.
-/

namespace Dkmp.Machine

variable {ι ο ρ τ σ : Type}

/-- What the object does with a call, and what its own steps do. -/
structure Behaviour (ο ρ τ σ : Type) where
  call : σ → ο → ρ → σ → Prop
  own : σ → τ → σ → Prop

inductive Entry (ι ο ρ τ : Type) where
  | call (i : ι) (op : ο) (result : ρ)
  | own (t : τ)

def Entry.own? : Entry ι ο ρ τ → Option τ
  | .call _ _ _ => none
  | .own t => some t

inductive Standing (ο ρ : Type) where
  | idle
  | asked (op : ο)
  | served (op : ο) (result : ρ)

def Standing.results : Standing ο ρ → List (ο × ρ)
  | .served op result => [(op, result)]
  | _ => []

structure Shared (ι ο ρ τ σ : Type) where
  object : σ
  standing : ι → Standing ο ρ
  returned : ι → List (ο × ρ)
  order : List (Entry ι ο ρ τ)

/-- The entries in turn lead the object from one state to the other. -/
def Carried (spec : Behaviour ο ρ τ σ) : List (Entry ι ο ρ τ) → σ → σ → Prop
  | [], x, y => y = x
  | .call _ op result :: es, x, y => ∃ z, spec.call x op result z ∧ Carried spec es z y
  | .own t :: es, x, y => ∃ z, spec.own x t z ∧ Carried spec es z y

theorem Carried.append {spec : Behaviour ο ρ τ σ} {es es' : List (Entry ι ο ρ τ)} {x y z : σ}
    (h : Carried spec es x y) (h' : Carried spec es' y z) : Carried spec (es ++ es') x z := by
  induction es generalizing x with
  | nil =>
      cases h
      exact h'
  | cons e es ih =>
      cases e with
      | call i op result =>
          obtain ⟨w, hcall, hrest⟩ := h
          exact ⟨w, hcall, ih hrest⟩
      | own t =>
          obtain ⟨w, hown, hrest⟩ := h
          exact ⟨w, hown, ih hrest⟩

namespace Shared

def start (x : σ) : Shared ι ο ρ τ σ := ⟨x, fun _ => .idle, fun _ => [], []⟩

section Moves

variable [DecidableEq ι]

/-- The calls of one client, with their results. -/
def callsOf (i : ι) (order : List (Entry ι ο ρ τ)) : List (ο × ρ) :=
  order.filterMap fun
    | .call j op result => if j = i then some (op, result) else none
    | .own _ => none

def stand (s : Shared ι ο ρ τ σ) (i : ι) (st : Standing ο ρ) : Shared ι ο ρ τ σ :=
  { s with standing := fun j => if j = i then st else s.standing j }

def give (s : Shared ι ο ρ τ σ) (i : ι) (op : ο) (result : ρ) : Shared ι ο ρ τ σ :=
  { s.stand i .idle with returned := fun j => if j = i then s.returned j ++ [(op, result)] else s.returned j }

inductive Move (spec : Behaviour ο ρ τ σ) : Shared ι ο ρ τ σ → Shared ι ο ρ τ σ → Prop where
  | ask (s : Shared ι ο ρ τ σ) (i : ι) (op : ο) : s.standing i = .idle →
      Move spec s (s.stand i (.asked op))
  | serve (s : Shared ι ο ρ τ σ) (i : ι) (op : ο) (result : ρ) (x : σ) : s.standing i = .asked op →
      spec.call s.object op result x →
      Move spec s { s.stand i (.served op result) with object := x, order := s.order ++ [.call i op result] }
  | own (s : Shared ι ο ρ τ σ) (t : τ) (x : σ) : spec.own s.object t x →
      Move spec s { s with object := x, order := s.order ++ [.own t] }
  | give (s : Shared ι ο ρ τ σ) (i : ι) (op : ο) (result : ρ) : s.standing i = .served op result →
      Move spec s (s.give i op result)

abbrev Moves (spec : Behaviour ο ρ τ σ) : Shared ι ο ρ τ σ → Shared ι ο ρ τ σ → Prop :=
  Relation.ReflTransGen (Move spec)

/-- One execution of the object accounts for what all clients were given. -/
structure Linear (spec : Behaviour ο ρ τ σ) (x : σ) (s : Shared ι ο ρ τ σ) : Prop where
  carried : Carried spec s.order x s.object
  client : ∀ i, callsOf i s.order = s.returned i ++ (s.standing i).results

variable {spec : Behaviour ο ρ τ σ} {x : σ} {s s' : Shared ι ο ρ τ σ}

theorem Linear.move (h : Linear spec x s) (hmove : Move spec s s') : Linear spec x s' := by
  cases hmove with
  | ask i op hidle =>
      refine ⟨h.carried, fun j => ?_⟩
      have hj := h.client j
      by_cases hji : j = i
      · subst hji
        rw [hidle] at hj
        simpa [stand, Standing.results] using hj
      · simpa [stand, hji] using hj
  | serve i op result y hasked hcall =>
      refine ⟨h.carried.append ⟨y, hcall, rfl⟩, fun j => ?_⟩
      have hj := h.client j
      by_cases hji : j = i
      · subst hji
        rw [hasked] at hj
        simpa [stand, callsOf, Standing.results] using hj
      · have hij : ¬ i = j := fun heq => hji heq.symm
        simpa [stand, callsOf, hji, hij] using hj
  | own t y hown =>
      refine ⟨h.carried.append ⟨y, hown, rfl⟩, fun j => ?_⟩
      simpa [callsOf] using h.client j
  | give i op result hserved =>
      refine ⟨h.carried, fun j => ?_⟩
      have hj := h.client j
      by_cases hji : j = i
      · subst hji
        rw [hserved] at hj
        simpa [Shared.give, stand, Standing.results] using hj
      · simpa [Shared.give, stand, hji] using hj

theorem Linear.moves (h : Linear spec x s) (hmoves : Moves spec s s') : Linear spec x s' := by
  induction hmoves with
  | refl => exact h
  | tail _ hmove ih => exact ih.move hmove

end Moves

end Shared

end Dkmp.Machine
