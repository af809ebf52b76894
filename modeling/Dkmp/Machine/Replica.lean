import Mathlib.Logic.Relation
import Mathlib.Data.Set.Insert

/-! # Replicas

Parties hold values under keys. A value is made by one party, copied into a message
under a key it may be passed on to, and put down by any party the message reaches, any
number of times and in any order. Parties may also drop values. Whatever a party holds
was made somewhere under a key that leads to the one it is held under.
-/

namespace Dkmp.Machine

structure Replicas (ι κ ν : Type) where
  value : ι → κ → Option ν
  flight : Set (κ × ν)
  made : Set (ι × κ × ν)

namespace Replicas

variable {ι κ ν : Type}

def empty : Replicas ι κ ν := ⟨fun _ _ => none, ∅, ∅⟩

def put [DecidableEq ι] [DecidableEq κ] (s : Replicas ι κ ν) (i : ι) (k : κ) (v : ν) : Replicas ι κ ν :=
  { s with value := fun j l => if j = i ∧ l = k then some v else s.value j l }

/-- Messages are never taken out of `flight`: a lost one reaches nobody, a doubled one
is put down twice. -/
inductive Move [DecidableEq ι] [DecidableEq κ] (passes : κ → κ → Prop) :
    Replicas ι κ ν → Replicas ι κ ν → Prop where
  | make (s : Replicas ι κ ν) (i : ι) (k : κ) (v : ν) :
      Move passes s { s.put i k v with made := insert (i, k, v) s.made }
  | copy (s : Replicas ι κ ν) (i : ι) (k l : κ) (v : ν) : s.value i k = some v → (k = l ∨ passes k l) →
      Move passes s { s with flight := insert (l, v) s.flight }
  | update (s : Replicas ι κ ν) (i : ι) (value : κ → Option ν) :
      (∀ k v, value k = some v → s.value i k = some v ∨ (k, v) ∈ s.flight) →
      Move passes s { s with value := fun j => if j = i then value else s.value j }

abbrev Moves [DecidableEq ι] [DecidableEq κ] (passes : κ → κ → Prop) : Replicas ι κ ν → Replicas ι κ ν → Prop :=
  Relation.ReflTransGen (Move passes)

/-- The value was made under a key that leads to this one. -/
def Origin (passes : κ → κ → Prop) (s : Replicas ι κ ν) (k : κ) (v : ν) : Prop :=
  ∃ i k₀, (i, k₀, v) ∈ s.made ∧ Relation.ReflTransGen passes k₀ k

structure Sourced (passes : κ → κ → Prop) (s : Replicas ι κ ν) : Prop where
  held : ∀ i k v, s.value i k = some v → s.Origin passes k v
  sent : ∀ k v, (k, v) ∈ s.flight → s.Origin passes k v

variable {passes : κ → κ → Prop} {s s' : Replicas ι κ ν}

theorem sourced_empty : Sourced passes (empty : Replicas ι κ ν) where
  held := nofun
  sent := nofun

theorem Origin.mono (h : s.made ⊆ s'.made) {k : κ} {v : ν} (ho : s.Origin passes k v) :
    s'.Origin passes k v := by
  obtain ⟨i, k₀, hmade, hleads⟩ := ho
  exact ⟨i, k₀, h hmade, hleads⟩

variable [DecidableEq ι] [DecidableEq κ]

theorem Sourced.move (h : Sourced passes s) (hmove : Move passes s s') : Sourced passes s' := by
  cases hmove with
  | make i k v =>
      have hsub : s.made ⊆ insert (i, k, v) s.made := Set.subset_insert _ _
      constructor
      · intro j l w hw
        simp only [Replicas.put] at hw
        split at hw
        · next heq =>
          obtain ⟨rfl, rfl⟩ := heq
          cases hw
          exact ⟨_, _, Set.mem_insert _ _, .refl⟩
        · exact (h.held j l w hw).mono hsub
      · intro l w hw
        exact (h.sent l w hw).mono hsub
  | copy i k l v hheld hpass =>
      refine ⟨h.held, ?_⟩
      intro l' w hw
      rcases Set.mem_insert_iff.mp hw with heq | hold
      · cases heq
        obtain ⟨j, k₀, hmade, hleads⟩ := h.held i k v hheld
        refine ⟨j, k₀, hmade, ?_⟩
        rcases hpass with rfl | hpass
        · exact hleads
        · exact hleads.tail hpass
      · exact h.sent l' w hold
  | update i value hupdate =>
      refine ⟨?_, h.sent⟩
      intro j l w hw
      simp only at hw
      split at hw
      · rcases hupdate l w hw with hheld | hsent
        · exact h.held i l w hheld
        · exact h.sent l w hsent
      · exact h.held j l w hw

theorem Sourced.moves (h : Sourced passes s) (hmoves : Moves passes s s') : Sourced passes s' := by
  induction hmoves with
  | refl => exact h
  | tail _ hmove ih => exact ih.move hmove

end Replicas

end Dkmp.Machine
