import Dkmp.Machine.Heap
import Mathlib.Data.List.Induction
import Mathlib.Data.List.Nodup
import Mathlib.Data.List.Perm.Subperm
import Mathlib.Tactic.Common

/-! # Doubly linked lists in a heap

`Linked nx pv cell p l` says that the addresses `l` are chained by the two link
fields `nx` and `pv`: every element points forward to the one after it and back
to the one before it, and the first element points back to `p`. The rules below
are stated on cell functions, so that any sequence of assignments with the same
net effect can use them.
-/

namespace Dkmp.Machine

theorem length_le_of_lt {l : List Nat} {n : Nat} (hl : l.Nodup) (hlt : ∀ a ∈ l, a < n) :
    l.length ≤ n := by
  have hsub : l ⊆ List.range n := fun a ha => List.mem_range.mpr (hlt a ha)
  simpa using (List.subperm_of_subset hl hsub).length_le

section Linked

variable {α : Type} (nx pv : α → Ptr)

def Linked (cell : Nat → Option α) (p : Ptr) (l : List Nat) : Prop :=
  ∀ l₁ a l₂, l = l₁ ++ a :: l₂ →
    ∃ c, cell a = some c ∧ nx c = l₂.head? ∧ pv c = l₁.getLast?.or p

variable {nx pv} {cell cell' : Nat → Option α} {p : Ptr} {l l₁ l₂ : List Nat} {a : Nat}

theorem Linked.nil : Linked nx pv cell p [] := by
  intro l₁ a l₂ h
  simp at h

theorem Linked.at (h : Linked nx pv cell p (l₁ ++ a :: l₂)) :
    ∃ c, cell a = some c ∧ nx c = l₂.head? ∧ pv c = l₁.getLast?.or p :=
  h l₁ a l₂ rfl

theorem Linked.mem (h : Linked nx pv cell p l) (ha : a ∈ l) : ∃ c, cell a = some c := by
  obtain ⟨l₁, l₂, rfl⟩ := List.append_of_mem ha
  obtain ⟨c, hc, -⟩ := h.at
  exact ⟨c, hc⟩

theorem Linked.congr (h : Linked nx pv cell p l)
    (same : ∀ a ∈ l, ∀ c, cell a = some c →
      ∃ c', cell' a = some c' ∧ nx c' = nx c ∧ pv c' = pv c) :
    Linked nx pv cell' p l := by
  rintro l₁ a l₂ rfl
  obtain ⟨c, hc, hn, hp⟩ := h.at
  obtain ⟨c', hc', hn', hp'⟩ := same a (by simp) c hc
  exact ⟨c', hc', hn'.trans hn, hp'.trans hp⟩

theorem Linked.tail (h : Linked nx pv cell p (a :: l)) : Linked nx pv cell (some a) l := by
  rintro l₁ b l₂ rfl
  obtain ⟨c, hc, hn, hp⟩ := h (a :: l₁) b l₂ rfl
  refine ⟨c, hc, hn, ?_⟩
  rw [hp, List.getLast?_cons]
  cases l₁.getLast? <;> rfl

/-- The forward links from the first element on determine the list. -/
theorem Linked.unique {p' : Ptr} {l' : List Nat} (h : Linked nx pv cell p l)
    (h' : Linked nx pv cell p' l') (hhead : l.head? = l'.head?) : l = l' := by
  induction l generalizing l' p p' with
  | nil =>
      cases l' with
      | nil => rfl
      | cons b l' => cases hhead
  | cons a l ih =>
      cases l' with
      | nil => cases hhead
      | cons b l' =>
          obtain rfl : a = b := Option.some.inj hhead
          obtain ⟨c, hc, hn, -⟩ := h [] a l rfl
          obtain ⟨c', hc', hn', -⟩ := h' [] a l' rfl
          obtain rfl : c = c' := Option.some.inj (hc.symm.trans hc')
          rw [ih h.tail h'.tail (hn.symm.trans hn')]

theorem Linked.reback {p' : Ptr} (h : Linked nx pv cell p l)
    (same : ∀ a ∈ l, ∀ c, cell a = some c → ∃ c', cell' a = some c' ∧ nx c' = nx c ∧
      pv c' = if l.head? = some a then p' else pv c) (nodup : l.Nodup) :
    Linked nx pv cell' p' l := by
  rintro l₁ a l₂ rfl
  obtain ⟨c, hc, hn, hp⟩ := h.at
  obtain ⟨c', hc', hn', hp'⟩ := same a (by simp) c hc
  refine ⟨c', hc', hn'.trans hn, hp'.trans ?_⟩
  cases l₁ with
  | nil => simp
  | cons b l₁ =>
      have hne : b ≠ a := by
        rintro rfl
        exact (List.nodup_cons.mp nodup).1 (by simp)
      rw [List.cons_append, List.head?_cons, if_neg (by simpa using hne), hp, List.getLast?_cons]
      rfl

private theorem getLast?_append_cons (r s : List Nat) (b : Nat) :
    (r ++ b :: s).getLast? = s.getLast?.or (some b) := by
  rw [List.getLast?_append, List.getLast?_cons]
  cases s.getLast? <;> rfl

/-- Linking a new element between `l₁` and `l₂`: the last of `l₁` now points
forward to it and the first of `l₂` back to it. -/
theorem Linked.insert (h : Linked nx pv cell p (l₁ ++ l₂)) (nodup : (l₁ ++ l₂).Nodup)
    (new : ∃ c, cell' a = some c ∧ nx c = l₂.head? ∧ pv c = l₁.getLast?.or p)
    (old : ∀ b ∈ l₁ ++ l₂, ∀ c, cell b = some c → ∃ c', cell' b = some c' ∧
      nx c' = (if l₁.getLast? = some b then some a else nx c) ∧
      pv c' = (if l₂.head? = some b then some a else pv c)) :
    Linked nx pv cell' p (l₁ ++ a :: l₂) := by
  rintro m₁ b m₂ hsplit
  rcases List.append_eq_append_iff.mp hsplit with ⟨r, rfl, hr⟩ | ⟨r, rfl, hr⟩
  · cases r with
    | nil =>
        simp only [List.nil_append, List.cons.injEq] at hr
        obtain ⟨rfl, rfl⟩ := hr
        simpa using new
    | cons x r =>
        -- `b` lies in `l₂`, after the new element
        simp only [List.cons_append, List.cons.injEq] at hr
        obtain ⟨rfl, rfl⟩ := hr
        rw [← List.append_assoc] at h nodup old
        obtain ⟨c, hc, hn, hp⟩ := h.at
        obtain ⟨c', hc', hn', hp'⟩ := old b (by simp) c hc
        refine ⟨c', hc', ?_, ?_⟩
        · rw [hn', hn, if_neg]
          intro hlast
          have hb : b ∈ l₁ := List.mem_of_getLast? hlast
          exact (List.disjoint_of_nodup_append nodup) (List.mem_append_left r hb) (by simp)
        · rw [hp']
          cases r with
          | nil => simp
          | cons y r =>
              have hne : y ≠ b := by
                rintro rfl
                exact (List.disjoint_of_nodup_append nodup) (a := y) (by simp) (by simp)
              simp only [List.cons_append, List.head?_cons, Option.some.injEq, if_neg hne, hp,
                List.getLast?_append, List.getLast?_cons]
              simp
  · cases r with
    | nil =>
        simp only [List.nil_append, List.cons.injEq] at hr
        obtain ⟨rfl, rfl⟩ := hr
        simpa using new
    | cons x r =>
        -- `b` lies in `l₁`, before the new element
        simp only [List.cons_append, List.cons.injEq] at hr
        obtain ⟨rfl, rfl⟩ := hr
        rw [List.append_assoc, List.cons_append] at h nodup old
        obtain ⟨c, hc, hn, hp⟩ := h.at
        obtain ⟨c', hc', hn', hp'⟩ := old b (by simp) c hc
        have hbr : b ∉ r ++ l₂ := by
          have := (List.nodup_append.mp nodup).2.1
          exact (List.nodup_cons.mp this).1
        refine ⟨c', hc', ?_, ?_⟩
        · rw [hn', hn]
          cases r using List.reverseRecOn with
          | nil => simp
          | append_singleton r y =>
              have hne : y ≠ b := by rintro rfl; exact hbr (by simp)
              rw [getLast?_append_cons, if_neg (by simpa using hne)]
              cases r <;> simp
        · rw [hp', hp, if_neg]
          intro hhead
          exact hbr (List.mem_append_right _ (List.mem_of_head? hhead))

/-- Linking a new element behind the last one of a ring: the last one points forward to
it, the first one back to it. -/
theorem Linked.push (h : Linked nx pv cell l.getLast? l) (nodup : l.Nodup)
    (new : ∃ c, cell' a = some c ∧ nx c = none ∧ pv c = l.getLast?.or (some a))
    (old : ∀ b ∈ l, ∀ c, cell b = some c → ∃ c', cell' b = some c' ∧
      nx c' = (if l.getLast? = some b then some a else nx c) ∧
      pv c' = (if l.head? = some b then some a else pv c)) :
    Linked nx pv cell' (some a) (l ++ [a]) := by
  intro m₁ b m₂ hsplit
  cases m₂ using List.reverseRecOn with
  | nil =>
      obtain ⟨rfl, hab⟩ := List.append_inj' hsplit rfl
      cases hab
      exact new
  | append_singleton m₂ y =>
      rw [← List.cons_append, ← List.append_assoc] at hsplit
      obtain ⟨rfl, hay⟩ := List.append_inj' hsplit rfl
      cases hay
      obtain ⟨c, hc, hn, hp⟩ := h.at
      obtain ⟨c', hc', hn', hp'⟩ := old b (by simp) c hc
      refine ⟨c', hc', ?_, ?_⟩
      · rw [hn', hn, getLast?_append_cons]
        cases m₂ using List.reverseRecOn with
        | nil => simp
        | append_singleton m₂ y =>
            have hne : y ≠ b := by
              rintro rfl
              exact (List.nodup_cons.mp (List.nodup_append.mp nodup).2.1).1 (by simp)
            rw [List.getLast?_concat, Option.some_or, if_neg (by simpa using hne)]
            cases m₂ <;> simp
      · rw [hp', hp]
        cases m₁ with
        | nil => simp
        | cons x m₁ =>
            have hne : x ≠ b := by
              rintro rfl
              exact (List.nodup_cons.mp nodup).1 (by simp)
            rw [List.cons_append, List.head?_cons, if_neg (by simpa using hne), List.getLast?_cons]
            rfl

/-- Unlinking `a`: the last of `l₁` and the first of `l₂` point at each other. -/
theorem Linked.erase (h : Linked nx pv cell p (l₁ ++ a :: l₂)) (nodup : (l₁ ++ a :: l₂).Nodup)
    (old : ∀ b ∈ l₁ ++ l₂, ∀ c, cell b = some c → ∃ c', cell' b = some c' ∧
      nx c' = (if l₁.getLast? = some b then l₂.head? else nx c) ∧
      pv c' = (if l₂.head? = some b then l₁.getLast?.or p else pv c)) :
    Linked nx pv cell' p (l₁ ++ l₂) := by
  rintro m₁ b m₂ hsplit
  have hdisj := List.disjoint_of_nodup_append nodup
  rcases List.append_eq_append_iff.mp hsplit with ⟨r, rfl, rfl⟩ | ⟨r, rfl, hr⟩
  · -- `b` lies in `l₂`
    have h' : Linked nx pv cell p ((l₁ ++ a :: r) ++ b :: m₂) := by simpa using h
    obtain ⟨c, hc, hn, hp⟩ := h'.at
    obtain ⟨c', hc', hn', hp'⟩ := old b (by simp) c hc
    have hb : b ∉ l₁ := fun hb => hdisj hb (by simp)
    refine ⟨c', hc', ?_, ?_⟩
    · rw [hn', hn, if_neg (fun hlast => hb (List.mem_of_getLast? hlast))]
    · rw [hp']
      cases r with
      | nil => simp
      | cons y r =>
          have hne : y ≠ b := by
            rintro rfl
            have := (List.nodup_cons.mp (List.nodup_append.mp nodup).2.1).2
            simp at this
          simp only [List.cons_append, List.head?_cons, Option.some.injEq, if_neg hne, hp,
            List.getLast?_append, List.getLast?_cons]
          simp
  · cases r with
    | nil =>
        -- `b` is the first of `l₂`
        simp only [List.nil_append] at hr
        subst hr
        have h' : Linked nx pv cell p ((m₁ ++ [a]) ++ b :: m₂) := by simpa using h
        obtain ⟨c, hc, hn, hp⟩ := h'.at
        obtain ⟨c', hc', hn', hp'⟩ := old b (by simp) c hc
        have hb : b ∉ m₁ := fun hb => hdisj (by simpa using hb) (by simp)
        refine ⟨c', hc', ?_, ?_⟩
        · rw [hn', hn, if_neg]
          intro hlast
          exact hb (List.mem_of_getLast? (by simpa using hlast))
        · rw [hp']
          simp
    | cons x r =>
        -- `b` lies in `l₁`
        simp only [List.cons_append, List.cons.injEq] at hr
        obtain ⟨rfl, rfl⟩ := hr
        have h' : Linked nx pv cell p (m₁ ++ b :: (r ++ a :: l₂)) := by simpa using h
        obtain ⟨c, hc, hn, hp⟩ := h'.at
        obtain ⟨c', hc', hn', hp'⟩ := old b (by simp) c hc
        have hbl : b ∉ l₂ := fun hb => hdisj (by simp) (List.mem_cons_of_mem a hb)
        refine ⟨c', hc', ?_, ?_⟩
        · rw [hn', hn]
          cases r using List.reverseRecOn with
          | nil => simp
          | append_singleton r y =>
              have hne : y ≠ b := by
                rintro rfl
                have hleft := (List.nodup_append.mp nodup).1
                have := (List.nodup_cons.mp (List.nodup_append.mp hleft).2.1).1
                exact this (by simp)
              rw [getLast?_append_cons, if_neg (by simpa using hne)]
              cases r <;> simp
        · rw [hp', hp, if_neg]
          intro hhead
          exact hbl (List.mem_of_head? hhead)

theorem Linked.first_back (h : Linked nx pv cell p l) (ha : l.head? = some a) {c : α}
    (hc : cell a = some c) : pv c = p := by
  cases l with
  | nil => cases ha
  | cons b l =>
      obtain ⟨c', hc', -, hp⟩ := h [] b l rfl
      rw [Option.some.inj ha, hc] at hc'
      cases hc'
      exact hp

theorem Linked.back_of_next (h : Linked nx pv cell p l) (ha : a ∈ l) {c : α}
    (hc : cell a = some c) {b : Nat} (hb : nx c = some b) :
    ∃ c', cell b = some c' ∧ pv c' = some a := by
  obtain ⟨l₁, l₂, rfl⟩ := List.append_of_mem ha
  obtain ⟨c', hc', hn, -⟩ := h.at
  rw [hc] at hc'
  cases hc'
  cases l₂ with
  | nil =>
      rw [hn] at hb
      cases hb
  | cons x l₂ =>
      rw [hn, List.head?_cons, Option.some.injEq] at hb
      subst hb
      obtain ⟨cx, hcx, -, hp⟩ := h (l₁ ++ [a]) x l₂ (by simp)
      exact ⟨cx, hcx, by simp [hp]⟩

theorem Linked.next_of_back (h : Linked nx pv cell none l) (ha : a ∈ l) {c : α}
    (hc : cell a = some c) {b : Nat} (hb : pv c = some b) :
    ∃ c', cell b = some c' ∧ nx c' = some a := by
  obtain ⟨l₁, l₂, rfl⟩ := List.append_of_mem ha
  obtain ⟨c', hc', -, hp⟩ := h.at
  rw [hc] at hc'
  cases hc'
  rw [hp, Option.or_none] at hb
  obtain ⟨l, rfl⟩ := List.getLast?_eq_some_iff.mp hb
  obtain ⟨cx, hcx, hn, -⟩ := h l b (a :: l₂) (by simp)
  exact ⟨cx, hcx, hn⟩

/-- The addresses from a pointer on along the forward links, up to `NULL`. -/
inductive Chain (nx : α → Ptr) (cell : Nat → Option α) : Ptr → List Nat → Prop where
  | nil : Chain nx cell none []
  | cons {a : Nat} {c : α} {l : List Nat} : cell a = some c → Chain nx cell (nx c) l →
      Chain nx cell (some a) (a :: l)

/-- An address that is met from a pointer on along the forward links. -/
inductive OnChain (nx : α → Ptr) (cell : Nat → Option α) : Ptr → Nat → Prop where
  | here (a : Nat) : OnChain nx cell (some a) a
  | next {a b : Nat} {c : α} : cell a = some c → OnChain nx cell (nx c) b →
      OnChain nx cell (some a) b

theorem Linked.chain (h : Linked nx pv cell p l) : Chain nx cell l.head? l := by
  induction l generalizing p with
  | nil => exact .nil
  | cons a l ih =>
      obtain ⟨c, hc, hn, -⟩ := h [] a l rfl
      refine .cons hc ?_
      rw [hn]
      exact ih h.tail

theorem Chain.onChain {ptr : Ptr} (h : Chain nx cell ptr l) (ha : a ∈ l) : OnChain nx cell ptr a := by
  induction h with
  | nil => cases ha
  | cons hc _ ih =>
      rcases List.mem_cons.mp ha with rfl | ha
      · exact .here a
      · exact .next hc (ih ha)

/-- A pointer leads along one list only. -/
theorem Chain.unique {ptr : Ptr} {l l' : List Nat} (h : Chain nx cell ptr l)
    (h' : Chain nx cell ptr l') : l = l' := by
  induction h generalizing l' with
  | nil =>
      cases h'
      rfl
  | cons hc _ ih =>
      cases h' with
      | cons hc' htail =>
          rw [hc, Option.some.injEq] at hc'
          subst hc'
          rw [ih htail]

theorem OnChain.mem {ptr : Ptr} (h : OnChain nx cell ptr a) (hl : Chain nx cell ptr l) : a ∈ l := by
  induction h generalizing l with
  | here a =>
      cases hl with
      | cons _ _ => simp
  | next hc _ ih =>
      cases hl with
      | cons hc' hrest =>
          rw [hc] at hc'
          cases hc'
          exact List.mem_cons_of_mem _ (ih hrest)

def contents {β : Type} (f : α → β) (cell : Nat → Option α) (l : List Nat) : List β :=
  l.filterMap fun a => (cell a).map f

section Contents

variable {β : Type} {f : α → β}

theorem contents_cons {c : α} (hc : cell a = some c) (l : List Nat) :
    contents f cell (a :: l) = f c :: contents f cell l := by
  simp [contents, hc]

theorem contents_append (l₁ l₂ : List Nat) :
    contents f cell (l₁ ++ l₂) = contents f cell l₁ ++ contents f cell l₂ := by
  simp [contents]

theorem contents_congr (same : ∀ a ∈ l, (cell' a).map f = (cell a).map f) :
    contents f cell' l = contents f cell l :=
  List.filterMap_congr same

end Contents

end Linked

end Dkmp.Machine
