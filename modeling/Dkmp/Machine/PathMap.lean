import Mathlib.Data.Set.Card
import Mathlib.Data.Set.Finite.Basic

/-! # Finite maps from paths

A hierarchical store as a mathematical object: finitely many paths are present,
with every prefix of a present path, and each present path carries a value or
none. The operations are total; the invariant is part of the type.
-/

namespace Dkmp.Machine

structure PathMap (N V : Type) where
  bound : List N → Option (Option V)
  root : (bound []).isSome
  closed : ∀ p n, (bound (p ++ [n])).isSome → (bound p).isSome
  finite : {p | (bound p).isSome}.Finite

namespace PathMap

variable {N V : Type}

def init : PathMap N V where
  bound := fun p =>
    match p with
    | [] => some none
    | _ :: _ => none
  root := rfl
  closed := by
    intro p n h
    cases p <;> simp at h
  finite := by
    apply (Set.finite_singleton ([] : List N)).subset
    intro p hp
    cases p with
    | nil => rfl
    | cons n p => simp at hp

section Set

variable [DecidableEq N]

/-- Bind a path; its missing proper prefixes become present without value. -/
def set (m : PathMap N V) (path : List N) (v : V) : PathMap N V where
  bound := fun q =>
    if q = path then some (some v)
    else if q <+: path then some ((m.bound q).getD none)
    else m.bound q
  root := by
    by_cases h : ([] : List N) = path <;> simp [h]
  closed := by
    intro p n h
    by_cases hp : p = path
    · simp [hp]
    by_cases hpre : p <+: path
    · simp [hp, hpre]
    rw [if_neg hp, if_neg hpre]
    have hne : p ++ [n] ≠ path := by
      rintro rfl
      exact hpre (List.prefix_append p [n])
    have hnpre : ¬ p ++ [n] <+: path := fun hs => hpre ((List.prefix_append p [n]).trans hs)
    rw [if_neg hne, if_neg hnpre] at h
    exact m.closed p n h
  finite := by
    apply (m.finite.union path.inits.toFinset.finite_toSet).subset
    intro q hq
    simp only [Set.mem_ofPred_eq] at hq
    by_cases hpre : q <+: path
    · exact Or.inr (by simpa using hpre)
    · have hne : q ≠ path := by
        rintro rfl
        exact hpre List.prefix_rfl
      rw [if_neg hne, if_neg hpre] at hq
      exact Or.inl hq

/-- Change the value of a path that has one. -/
def modify (m : PathMap N V) (path : List N) (f : V → V) : PathMap N V where
  bound := fun q => if q = path then (m.bound q).map (Option.map f) else m.bound q
  root := by
    have := m.root
    split <;> simpa using this
  closed := by
    intro p n h
    have hp : (m.bound (p ++ [n])).isSome := by
      split at h <;> simpa using h
    have := m.closed p n hp
    split <;> simpa using this
  finite := by
    apply m.finite.subset
    intro q hq
    simp only [Set.mem_ofPred_eq] at hq ⊢
    split at hq <;> simpa using hq

/-- Delete a path and exactly its extensions. -/
def remove (m : PathMap N V) (path : List N) (hne : path ≠ []) : PathMap N V where
  bound := fun q => if path <+: q then none else m.bound q
  root := by
    rw [if_neg (by simpa using hne)]
    exact m.root
  closed := by
    intro p n h
    by_cases hp : path <+: p ++ [n]
    · simp [hp] at h
    · rw [if_neg hp] at h
      rw [if_neg (fun hs => hp (hs.trans (List.prefix_append p [n])))]
      exact m.closed p n h
  finite := by
    apply m.finite.subset
    intro q hq
    simp only [Set.mem_ofPred_eq] at hq ⊢
    split at hq
    · simp at hq
    · exact hq

theorem set_bound (m : PathMap N V) (path : List N) (v : V) (q : List N) :
    (m.set path v).bound q =
      if q = path then some (some v)
      else if q <+: path then some ((m.bound q).getD none)
      else m.bound q := rfl

theorem modify_bound (m : PathMap N V) (path : List N) (f : V → V) (q : List N) :
    (m.modify path f).bound q =
      if q = path then (m.bound q).map (Option.map f) else m.bound q := rfl

theorem remove_bound (m : PathMap N V) (path : List N) (hne : path ≠ []) (q : List N) :
    (m.remove path hne).bound q = if path <+: q then none else m.bound q := rfl

end Set

/-! ## Children -/

def children (m : PathMap N V) (p : List N) : Set N := {n | (m.bound (p ++ [n])).isSome}

theorem mem_children {m : PathMap N V} {p : List N} {n : N} :
    n ∈ m.children p ↔ (m.bound (p ++ [n])).isSome := Iff.rfl

theorem children_finite (m : PathMap N V) (p : List N) : (m.children p).Finite := by
  apply Set.Finite.preimage _ m.finite
  intro x _ y _ hxy
  simpa using hxy

theorem init_children (p : List N) : (init : PathMap N V).children p = ∅ := by
  ext n
  rw [mem_children]
  cases p <;> simp [init]

variable [DecidableEq N]

/-- Binding a path gives a path at most one new child. -/
theorem set_children_ncard_le (m : PathMap N V) (path : List N) (v : V) (p : List N) :
    ((m.set path v).children p).ncard ≤ (m.children p).ncard + 1 := by
  have hsub : (m.set path v).children p ⊆ m.children p ∪ {n | p ++ [n] <+: path} := by
    intro n hn
    rw [mem_children, set_bound] at hn
    by_cases hpre : p ++ [n] <+: path
    · exact Or.inr hpre
    · have hne : p ++ [n] ≠ path := by
        rintro rfl
        exact hpre List.prefix_rfl
      rw [if_neg hne, if_neg hpre] at hn
      exact Or.inl hn
  have hone : {n | p ++ [n] <+: path}.Subsingleton := by
    intro x hx y hy
    have := List.prefix_of_prefix_length_le hx hy (by simp)
    simpa using this.eq_of_length (by simp)
  calc ((m.set path v).children p).ncard
      ≤ (m.children p ∪ {n | p ++ [n] <+: path}).ncard :=
        Set.ncard_le_ncard hsub ((m.children_finite p).union hone.finite)
    _ ≤ (m.children p).ncard + {n | p ++ [n] <+: path}.ncard := Set.ncard_union_le _ _
    _ ≤ (m.children p).ncard + 1 :=
        Nat.add_le_add_left ((Set.ncard_le_one hone.finite).mpr hone) _

theorem modify_children (m : PathMap N V) (path : List N) (f : V → V) (p : List N) :
    (m.modify path f).children p = m.children p := by
  ext n
  rw [mem_children, mem_children, modify_bound]
  split <;> simp

theorem remove_children_subset (m : PathMap N V) (path : List N) (hne : path ≠ []) (p : List N) :
    (m.remove path hne).children p ⊆ m.children p := by
  intro n hn
  rw [mem_children, remove_bound] at hn
  split at hn
  · simp at hn
  · exact hn

end PathMap

end Dkmp.Machine
