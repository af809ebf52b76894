import Dkmp.Csdb.Key
import Mathlib.Data.Set.Finite.Basic

/-! # Entry trees

The database without its pointers: which entries exist, what each one carries
and the order in which its children are listed. An entry is addressed by the
names on the way from it up to the root, so that its parent is the tail of its
path. Only trees can be built: every entry but the root is listed by its parent,
and nothing else is.
-/

namespace Dkmp.Csdb

open Machine

/-- The names from an entry up to the root. -/
abbrev UpPath := List CStr

structure Record where
  leaf : Bool
  value : Option CStr
  mtime : Int

def Record.fresh (now : Int) : Record := ⟨false, none, now⟩

def Record.set (value : Option CStr) (now : Int) (r : Record) : Record :=
  match value with
  | some v => ⟨true, some v, now⟩
  | none => ⟨r.leaf, none, now⟩

structure Node extends Record where
  kids : List CStr

structure Tree where
  node : UpPath → Option Node
  root : (node []).isSome
  child_iff : ∀ n p, (node (n :: p)).isSome ↔ ∃ d, node p = some d ∧ n ∈ d.kids
  nodup : ∀ p d, node p = some d → d.kids.Nodup
  no_dot : ∀ n p, (node (n :: p)).isSome → dot ∉ n
  finite : {p | (node p).isSome}.Finite

namespace Tree

def record (t : Tree) (p : UpPath) : Option Record := (t.node p).map Node.toRecord

theorem record_isSome (t : Tree) (p : UpPath) : (t.record p).isSome = (t.node p).isSome := by
  simp [record]

theorem parent_isSome (t : Tree) {n : CStr} {p : UpPath} (h : (t.node (n :: p)).isSome) :
    (t.node p).isSome := by
  obtain ⟨d, hd, -⟩ := (t.child_iff n p).mp h
  simp [hd]

theorem suffix_isSome (t : Tree) {p q : UpPath} (hpq : p <:+ q) (h : (t.node q).isSome) :
    (t.node p).isSome := by
  induction q with
  | nil =>
      rw [List.suffix_nil] at hpq
      rwa [hpq]
  | cons n q ih =>
      rcases List.suffix_cons_iff.mp hpq with rfl | hpq
      · exact h
      · exact ih hpq (t.parent_isSome h)

theorem kid_isSome (t : Tree) {n : CStr} {p : UpPath} {d : Node} (hd : t.node p = some d)
    (hn : n ∈ d.kids) : (t.node (n :: p)).isSome :=
  (t.child_iff n p).mpr ⟨d, hd, hn⟩

theorem mem_kids_iff (t : Tree) {n : CStr} {p : UpPath} {d : Node} (hd : t.node p = some d) :
    n ∈ d.kids ↔ (t.node (n :: p)).isSome := by
  rw [t.child_iff, hd]
  simp

def init (now : Int) : Tree where
  node := fun p => if p = [] then some ⟨.fresh now, []⟩ else none
  root := by simp
  child_iff := by
    intro n p
    by_cases hp : p = [] <;> simp [hp]
  nodup := by
    intro p d h
    split at h
    · cases h
      exact List.nodup_nil
    · cases h
  no_dot := by simp
  finite := by
    apply Set.Finite.subset (Set.finite_singleton ([] : UpPath))
    intro p hp
    by_contra hne
    simp only [Set.mem_singleton_iff] at hne
    simp [hne] at hp

def write (t : Tree) (p : UpPath) (f : Record → Record) : Tree where
  node := fun q =>
    if q = p then (t.node q).map fun d => { d with toRecord := f d.toRecord } else t.node q
  root := by
    split
    · simpa using t.root
    · exact t.root
  child_iff := by
    intro n q
    have hsome : ∀ r, (if r = p then (t.node r).map fun d => { d with toRecord := f d.toRecord }
        else t.node r).isSome = (t.node r).isSome := by
      intro r
      split <;> simp
    rw [hsome, t.child_iff]
    by_cases hq : q = p <;> simp [hq]
  nodup := by
    intro q d h
    split at h
    · obtain ⟨d', hd', rfl⟩ := Option.map_eq_some_iff.mp h
      exact t.nodup q d' hd'
    · exact t.nodup q d h
  no_dot := by
    intro n q h
    apply t.no_dot n q
    split at h
    · simpa using h
    · exact h
  finite := by
    apply t.finite.subset
    intro q hq
    simp only [Set.mem_ofPred_eq] at hq ⊢
    split at hq
    · simpa using hq
    · exact hq

/-- Give the entry `p` a new child without value, at any place of its list. -/
def grow (t : Tree) (n : CStr) (p : UpPath) (kids : List CStr) (now : Int)
    (hp : (t.node p).isSome) (hnew : ¬ (t.node (n :: p)).isSome) (hn : dot ∉ n)
    (hkids : ∀ d, t.node p = some d → kids.Perm (n :: d.kids)) : Tree where
  node := fun q =>
    if q = n :: p then some ⟨.fresh now, []⟩
    else if q = p then (t.node q).map fun d => { d with kids := kids }
    else t.node q
  root := by
    by_cases hroot : ([] : UpPath) = p
    · simpa [hroot] using hp
    · simpa [hroot] using t.root
  child_iff := by
    intro m q
    obtain ⟨d, hd⟩ := Option.isSome_iff_exists.mp hp
    have hmem : ∀ x, x ∈ kids ↔ x = n ∨ x ∈ d.kids := by
      intro x
      rw [(hkids d hd).mem_iff, List.mem_cons]
    have hne : n :: p ≠ p := by simp
    by_cases hq : q = p
    · subst hq
      by_cases hm : m = n
      · subst hm
        simp [hd, hmem]
      · rw [if_neg (by simpa using hm), if_neg (by simp), t.child_iff]
        simp [hd, hmem, hm]
    · by_cases hq' : q = n :: p
      · subst hq'
        have hnone : ¬ (t.node (m :: n :: p)).isSome := fun h => hnew (t.parent_isSome h)
        have h1 : m :: n :: p ≠ p := by
          intro h
          have := congrArg List.length h
          simp only [List.length_cons] at this
          omega
        simpa [h1] using hnone
      · by_cases hmq : m :: q = p
        · subst hmq
          rw [if_neg (fun h => hne h.symm), if_pos rfl, Option.isSome_map, t.child_iff]
          simp [hq, hq']
        · rw [if_neg (fun h => hq (List.cons.inj h).2), if_neg hmq, if_neg hq', if_neg hq]
          exact t.child_iff m q
  nodup := by
    intro q d h
    split at h
    · cases h
      exact List.nodup_nil
    split at h
    · obtain ⟨d', hd', rfl⟩ := Option.map_eq_some_iff.mp h
      subst q
      rw [(hkids d' hd').nodup_iff, List.nodup_cons, t.mem_kids_iff hd']
      exact ⟨hnew, t.nodup p d' hd'⟩
    · exact t.nodup q d h
  no_dot := by
    intro m q h
    split at h
    next heq =>
      rw [(List.cons.inj heq).1]
      exact hn
    · split at h
      · exact t.no_dot m q (by simpa using h)
      · exact t.no_dot m q h
  finite := by
    apply (t.finite.insert (n :: p)).subset
    intro q hq
    simp only [Set.mem_ofPred_eq, Set.mem_insert_iff] at hq ⊢
    split at hq
    · exact Or.inl ‹_›
    · split at hq
      · exact Or.inr (by simpa using hq)
      · exact Or.inr hq

def prune (t : Tree) (n : CStr) (p : UpPath) : Tree where
  node := fun q =>
    if n :: p <:+ q then none
    else if q = p then (t.node q).map fun d => { d with kids := d.kids.erase n }
    else t.node q
  root := by
    rw [if_neg (by simp)]
    split
    · simpa using t.root
    · exact t.root
  child_iff := by
    intro m q
    by_cases hsuf : n :: p <:+ m :: q
    · rcases List.suffix_cons_iff.mp hsuf with heq | hsuf'
      · obtain ⟨rfl, rfl⟩ := List.cons.inj heq
        have hself : ¬ n :: p <:+ p := by
          intro h
          have := h.length_le
          simp only [List.length_cons] at this
          omega
        simp only [List.suffix_refl, if_true, hself, if_false, Option.isSome_none, Bool.false_eq_true,
          Option.map_eq_some_iff, false_iff, not_exists, not_and]
        rintro _ ⟨d, hd, rfl⟩ h
        exact ((t.nodup p d hd).mem_erase_iff.mp h).1 rfl
      · simp [hsuf, hsuf']
    · have hq : ¬ n :: p <:+ q := fun h => hsuf (h.trans (List.suffix_cons m q))
      rw [if_neg hsuf, if_neg hq]
      have hl : (if m :: q = p then (t.node (m :: q)).map fun d => { d with kids := d.kids.erase n }
          else t.node (m :: q)).isSome = (t.node (m :: q)).isSome := by
        split <;> simp
      rw [hl, t.child_iff]
      by_cases hqp : q = p
      · subst hqp
        have hmn : m ≠ n := by
          rintro rfl
          exact hsuf List.suffix_rfl
        simp [List.mem_erase_of_ne hmn]
      · simp [hqp]
  nodup := by
    intro q d h
    split at h
    · cases h
    split at h
    · obtain ⟨d', hd', rfl⟩ := Option.map_eq_some_iff.mp h
      exact (t.nodup q d' hd').erase n
    · exact t.nodup q d h
  no_dot := by
    intro m q h
    split at h
    · simp at h
    split at h
    · exact t.no_dot m q (by simpa using h)
    · exact t.no_dot m q h
  finite := by
    apply t.finite.subset
    intro q hq
    simp only [Set.mem_ofPred_eq] at hq ⊢
    split at hq
    · simp at hq
    split at hq
    · simpa using hq
    · exact hq

/-! ## Records after one operation -/

theorem init_record (now : Int) (q : UpPath) :
    (init now).record q = if q = [] then some (.fresh now) else none := by
  by_cases hq : q = [] <;> simp [record, init, hq]

theorem write_record (t : Tree) (p : UpPath) (f : Record → Record) (q : UpPath) :
    (t.write p f).record q = if q = p then (t.record q).map f else t.record q := by
  by_cases hq : q = p
  · simp only [record, write, if_pos hq, Option.map_map]
    rfl
  · simp only [record, write, if_neg hq]

theorem write_isSome (t : Tree) (p : UpPath) (f : Record → Record) (q : UpPath) :
    ((t.write p f).node q).isSome = (t.node q).isSome := by
  rw [← record_isSome, ← record_isSome, write_record]
  split <;> simp

theorem grow_record {t : Tree} {n : CStr} {p : UpPath} {kids : List CStr} {now : Int}
    (hp : (t.node p).isSome) (hnew : ¬ (t.node (n :: p)).isSome) (hn : dot ∉ n)
    (hkids : ∀ d, t.node p = some d → kids.Perm (n :: d.kids)) (q : UpPath) :
    (t.grow n p kids now hp hnew hn hkids).record q =
      if q = n :: p then some (.fresh now) else t.record q := by
  by_cases hq : q = n :: p
  · simp only [record, grow, if_pos hq, Option.map_some]
  · by_cases hqp : q = p
    · simp only [record, grow, if_neg hq, if_pos hqp, Option.map_map]
      rfl
    · simp only [record, grow, if_neg hq, if_neg hqp]

theorem grow_isSome {t : Tree} {n : CStr} {p : UpPath} {kids : List CStr} {now : Int}
    (hp : (t.node p).isSome) (hnew : ¬ (t.node (n :: p)).isSome) (hn : dot ∉ n)
    (hkids : ∀ d, t.node p = some d → kids.Perm (n :: d.kids)) (q : UpPath) :
    ((t.grow n p kids now hp hnew hn hkids).node q).isSome ↔
      q = n :: p ∨ (t.node q).isSome := by
  rw [← record_isSome, grow_record, ← record_isSome]
  split <;> simp [*]

theorem prune_record (t : Tree) (n : CStr) (p q : UpPath) :
    (t.prune n p).record q = if n :: p <:+ q then none else t.record q := by
  by_cases hq : n :: p <:+ q
  · simp only [record, prune, if_pos hq, Option.map_none]
  · by_cases hqp : q = p
    · simp only [record, prune, if_neg hq, if_pos hqp, Option.map_map]
      rfl
    · simp only [record, prune, if_neg hq, if_neg hqp]

theorem prune_isSome (t : Tree) (n : CStr) (p q : UpPath) :
    ((t.prune n p).node q).isSome ↔ ¬ n :: p <:+ q ∧ (t.node q).isSome := by
  rw [← record_isSome, prune_record, ← record_isSome]
  split <;> simp [*]

/-! ## Where an entry of the new tree comes from -/

theorem write_cases {t : Tree} {p q : UpPath} {f : Record → Record} {d' : Node}
    (h : (t.write p f).node q = some d') :
    (q = p ∧ ∃ d, t.node p = some d ∧ d' = { d with toRecord := f d.toRecord }) ∨
      (q ≠ p ∧ t.node q = some d') := by
  by_cases hq : q = p
  · subst hq
    simp only [write, if_pos] at h
    obtain ⟨d, hd, rfl⟩ := Option.map_eq_some_iff.mp h
    exact .inl ⟨rfl, d, hd, rfl⟩
  · simp only [write, if_neg hq] at h
    exact .inr ⟨hq, h⟩

theorem grow_cases {t : Tree} {n : CStr} {p q : UpPath} {kids : List CStr} {now : Int} {d' : Node}
    {hp : (t.node p).isSome} {hnew : ¬ (t.node (n :: p)).isSome} {hn : dot ∉ n}
    {hkids : ∀ d, t.node p = some d → kids.Perm (n :: d.kids)}
    (h : (t.grow n p kids now hp hnew hn hkids).node q = some d') :
    (q = n :: p ∧ d' = ⟨.fresh now, []⟩) ∨
      (q = p ∧ ∃ d, t.node p = some d ∧ d' = { d with kids := kids }) ∨
      (q ≠ p ∧ t.node q = some d') := by
  by_cases hq : q = n :: p
  · simp only [grow, if_pos hq, Option.some.injEq] at h
    exact .inl ⟨hq, h.symm⟩
  by_cases hqp : q = p
  · simp only [grow, if_neg hq, if_pos hqp] at h
    obtain ⟨d, hd, rfl⟩ := Option.map_eq_some_iff.mp h
    exact .inr (.inl ⟨hqp, d, hqp ▸ hd, rfl⟩)
  · simp only [grow, if_neg hq, if_neg hqp] at h
    exact .inr (.inr ⟨hqp, h⟩)

theorem prune_cases {t : Tree} {n : CStr} {p q : UpPath} {d' : Node}
    (h : (t.prune n p).node q = some d') :
    (q = p ∧ ∃ d, t.node p = some d ∧ d' = { d with kids := d.kids.erase n }) ∨
      (q ≠ p ∧ t.node q = some d') := by
  have hq : ¬ n :: p <:+ q := ((t.prune_isSome n p q).mp (by simp [h])).1
  by_cases hqp : q = p
  · simp only [prune, if_neg hq, if_pos hqp] at h
    obtain ⟨d, hd, rfl⟩ := Option.map_eq_some_iff.mp h
    exact .inl ⟨hqp, d, hqp ▸ hd, rfl⟩
  · simp only [prune, if_neg hq, if_neg hqp] at h
    exact .inr ⟨hqp, h⟩

end Tree

end Dkmp.Csdb
