import Dkmp.Machine.Linked

/-! # The request queues

A queue is a doubly linked list of elements that point at requests. Its tail is
not stored in the head: it is the element the first one points back to. The
functions below follow the statements of their namesakes; taking an element out
is the same cascade of assignments in two of them.
-/

namespace Dkmp.Ikcd

open Machine

def eIkcNoqueue : Int := 2
def eIkcNoreq : Int := 3

/-- `struct ikc_request_queue`; the requests themselves are told apart by their
addresses only. -/
structure QueueElem (ρ : Type) where
  reqStruct : ρ
  next : Ptr
  prev : Ptr
deriving DecidableEq, Repr

/-- `struct ikc_queue_head` with the memory of its elements. Its mutex is held
by one call at a time. -/
structure QueueHead (ρ : Type) where
  elems : Heap (QueueElem ρ)
  queue : Ptr

def ikcInitQueue {ρ : Type} : QueueHead ρ := ⟨.empty, none⟩

section Queue

variable {ρ : Type}

def ikcqQueueRequest (head : QueueHead ρ) (req : ρ) : Exec (Int × QueueHead ρ) :=
  let newQ : Ptr := some head.elems.next
  if head.queue = none then
    .ok (0, ⟨head.elems.alloc ⟨req, none, newQ⟩, newQ⟩)
  else do
    let q ← head.elems.load head.queue
    let tail ← head.elems.load q.prev
    let elems := head.elems.alloc ⟨req, tail.next, q.prev⟩
    let elems ← elems.update q.prev fun t => { t with next := newQ }
    let elems ← elems.update head.queue fun q => { q with prev := newQ }
    .ok (0, ⟨elems, head.queue⟩)

/-- The assignments that take an element out. Each of them reads the memory the
ones before it left. -/
def unlinkElem (head : QueueHead ρ) (elem : Ptr) : Exec (QueueHead ρ) := do
  let e ← head.elems.load elem
  let elems ← head.elems.updateIf (e.next ≠ none) e.next fun n => { n with prev := e.prev }
  let e ← elems.load elem
  let elems ← elems.updateIf (elem ≠ head.queue) e.prev fun p => { p with next := e.next }
  let q ← elems.load head.queue
  let e ← elems.load elem
  let elems ← elems.updateIf (elem = q.prev) head.queue fun q => { q with prev := e.prev }
  let e ← elems.load elem
  .ok ⟨elems, if elem = head.queue then e.next else head.queue⟩

/-- The return value and the request handed out. -/
def ikcqDequeueRequest (head : QueueHead ρ) : Exec (Int × Option ρ × QueueHead ρ) :=
  if head.queue = none then .ok (-eIkcNoqueue, none, head)
  else do
    let qDeq := head.queue
    let head ← unlinkElem head qDeq
    let e ← head.elems.load qDeq
    let elems ← head.elems.free qDeq
    .ok (0, some e.reqStruct, { head with elems := elems })

variable [DecidableEq ρ]

/-- The loop condition looks at an element before it asks whether there is one. -/
def removeSeekBody (head : QueueHead ρ) (req : ρ) (reqInQueue : Ptr) : Exec (Ptr ⊕ Ptr) := do
  let e ← head.elems.load reqInQueue
  if e.reqStruct ≠ req then .ok (.inl e.next) else .ok (.inr reqInQueue)

def ikcqRemoveRequest (head : QueueHead ρ) (req : ρ) : Exec (Int × QueueHead ρ) :=
  if head.queue = none then .ok (-eIkcNoqueue, head)
  else do
    let reqInQueue ← loop (removeSeekBody head req) (head.elems.next + 1) head.queue
    if reqInQueue = none then .ok (-eIkcNoreq, head)
    else do
      let head ← unlinkElem head reqInQueue
      let elems ← head.elems.free reqInQueue
      .ok (0, { head with elems := elems })

end Queue

/-! ## The list in memory -/

variable {ρ : Type} {head : QueueHead ρ} {l l₁ l₂ : List Nat} {a : Nat}

/-- The elements at `l` form the queue; the first points back to the last. -/
structure Queued (head : QueueHead ρ) (l : List Nat) : Prop where
  first : head.queue = l.head?
  nodup : l.Nodup
  linked : Linked QueueElem.next QueueElem.prev head.elems.cell l.getLast? l

/-- The queue in memory carries these requests, the first one first. -/
def Represents (head : QueueHead ρ) (rs : List ρ) : Prop :=
  ∃ l, Queued head l ∧ rs = contents QueueElem.reqStruct head.elems.cell l

theorem represents_init : Represents (ikcInitQueue : QueueHead ρ) [] :=
  ⟨[], ⟨rfl, List.nodup_nil, Linked.nil⟩, rfl⟩

theorem Queued.length_le (h : Queued head l) : l.length ≤ head.elems.next := by
  apply length_le_of_lt h.nodup
  intro a ha
  obtain ⟨c, hc⟩ := h.linked.mem ha
  exact Heap.lt_next hc

theorem Queued.first_cell {f : Nat} {m : List Nat} (h : Queued head (f :: m)) :
    ∃ v, head.elems.cell f = some v ∧ v.prev = (f :: m).getLast? := by
  obtain ⟨v, hv, -, hprev⟩ := h.linked [] f m rfl
  exact ⟨v, hv, hprev⟩

/-- The links of an element at `b` once the element `c` between `l₁` and `l₂` was
taken out of a queue. -/
def relink (l₁ l₂ : List Nat) (first : Ptr) (c : QueueElem ρ) (b : Nat) (e : QueueElem ρ) :
    QueueElem ρ :=
  { e with
    next := if l₁.getLast? = some b then c.next else e.next
    prev := if l₂.head? = some b ∨ (l₂ = [] ∧ first = some b) then c.prev else e.prev }

section Neighbours

variable (h : Queued head (l₁ ++ a :: l₂))

include h

theorem Queued.notMem_before : a ∉ l₁ :=
  fun hm => List.disjoint_of_nodup_append h.nodup hm List.mem_cons_self

theorem Queued.notMem_behind : a ∉ l₂ :=
  (List.nodup_cons.mp (List.nodup_append.mp h.nodup).2.1).1

theorem Queued.is_first_iff : some a = head.queue ↔ l₁ = [] := by
  rw [h.first]
  cases l₁ with
  | nil => simp
  | cons x l₁ =>
      have hxa : a ≠ x := fun he => h.notMem_before (by simp [he])
      simp [hxa]

/-- The first element points back to `a` only if nothing follows `a`. -/
theorem Queued.first_elem :
    ∃ f v, head.queue = some f ∧ head.elems.cell f = some v ∧ f ∉ l₂ ∧
      (some a = v.prev ↔ l₂ = []) := by
  obtain ⟨f, m, hfm⟩ : ∃ f m, l₁ ++ a :: l₂ = f :: m :=
    List.exists_cons_of_ne_nil (by simp)
  obtain ⟨v, hv, hvprev⟩ := Queued.first_cell (hfm ▸ h)
  refine ⟨f, v, by rw [h.first, hfm]; rfl, hv, ?_, ?_⟩
  · cases l₁ with
    | nil =>
        rw [List.nil_append, List.cons.injEq] at hfm
        exact hfm.1 ▸ h.notMem_behind
    | cons x l₁ =>
        rw [List.cons_append, List.cons.injEq] at hfm
        rw [← hfm.1]
        intro hx
        exact List.disjoint_of_nodup_append h.nodup List.mem_cons_self (List.mem_cons_of_mem a hx)
  · rw [hvprev, ← hfm, List.getLast?_append, List.getLast?_cons]
    cases hl : l₂.getLast? with
    | none => simp [List.getLast?_eq_none_iff.mp hl]
    | some z =>
        have hz : z ∈ l₂ := List.mem_of_getLast? hl
        have hza : a ≠ z := fun he => h.notMem_behind (he ▸ hz)
        simp [hza, List.ne_nil_of_mem hz]

variable {c : QueueElem ρ} (hc : head.elems.cell a = some c)

include hc

theorem Queued.next_eq : c.next = l₂.head? := by
  obtain ⟨c', hc', hnext, -⟩ := h.linked.at
  rw [hc, Option.some.injEq] at hc'
  rw [hc', hnext]

theorem Queued.before_iff (b : Nat) :
    (some a ≠ head.queue ∧ c.prev = some b) ↔ l₁.getLast? = some b := by
  obtain ⟨c', hc', -, hprev⟩ := h.linked.at
  rw [hc, Option.some.injEq] at hc'
  rw [hc', hprev, ne_eq, h.is_first_iff]
  cases l₁ with
  | nil => simp
  | cons x l₁ => simp [List.getLast?_cons]

/-- The net effect of the cascade. -/
theorem unlinkElem_cells :
    ∃ elems, unlinkElem head (some a) = .ok ⟨elems, (l₁ ++ l₂).head?⟩ ∧
      ∀ b, elems.cell b = (head.elems.cell b).map (relink l₁ l₂ head.queue c b) := by
  have hnext := h.next_eq hc
  have hbefore := h.before_iff hc
  have hlive : ∀ b ∈ l₁ ++ a :: l₂, (head.elems.cell b).isSome := by
    intro b hb
    obtain ⟨v, hv⟩ := h.linked.mem hb
    rw [hv]
    rfl
  obtain ⟨f, v, hqueue, hv, hf₂, htail⟩ := h.first_elem
  -- the element behind points back past this one
  obtain ⟨elems₁, hupd₁, hcell₁⟩ := Heap.updateIf_spec (h := head.elems) (P := c.next ≠ none) (p := c.next)
    (fun n => { n with prev := c.prev }) (by
      intro hne
      obtain ⟨b, hb⟩ := Option.ne_none_iff_exists'.mp hne
      exact ⟨b, hb, hlive b (by simp [List.mem_of_head? (hnext ▸ hb)])⟩)
  have ha_cell₁ : elems₁.cell a = some c := by
    rw [hcell₁, if_neg, hc]
    rintro ⟨-, he⟩
    exact h.notMem_behind (List.mem_of_head? (hnext ▸ he))
  -- the element before points forward past it
  obtain ⟨elems₂, hupd₂, hcell₂⟩ := Heap.updateIf_spec (h := elems₁) (P := some a ≠ head.queue)
    (p := c.prev) (fun p => { p with next := c.next }) (by
      intro hne
      obtain ⟨y, hy⟩ : ∃ y, l₁.getLast? = some y := by
        apply Option.ne_none_iff_exists'.mp
        rw [ne_eq, List.getLast?_eq_none_iff, ← h.is_first_iff]
        exact hne
      refine ⟨y, ((hbefore y).mpr hy).2, ?_⟩
      have hy_live := hlive y (by simp [List.mem_of_getLast? hy])
      rw [hcell₁]
      split
      · simpa using hy_live
      · exact hy_live)
  have ha_cell₂ : elems₂.cell a = some c := by
    rw [hcell₂, if_neg, ha_cell₁]
    intro he
    exact h.notMem_before (List.mem_of_getLast? ((hbefore a).mp he))
  obtain ⟨w, hw, hwprev⟩ : ∃ w, elems₂.cell f = some w ∧ w.prev = v.prev := by
    have hv₁ : elems₁.cell f = some v := by
      rw [hcell₁, if_neg (fun he => hf₂ (List.mem_of_head? (hnext ▸ he.2))), hv]
    rw [hcell₂, hv₁]
    split
    · exact ⟨_, rfl, rfl⟩
    · exact ⟨v, rfl, rfl⟩
  -- the first element points back to the new last one
  obtain ⟨elems₃, hupd₃, hcell₃⟩ := Heap.updateIf_spec (h := elems₂) (P := some a = w.prev)
    (p := head.queue) (fun q => { q with prev := c.prev }) (fun _ => ⟨f, hqueue, by rw [hw]; rfl⟩)
  have ha_cell₃ : elems₃.cell a = some c := by
    rw [hcell₃, ha_cell₂]
    split
    · rfl
    · rfl
  have hload : elems₂.load head.queue = .ok w := by rw [hqueue, Heap.load_some hw]
  have hhead : (if some a = head.queue then c.next else head.queue) = (l₁ ++ l₂).head? := by
    rw [hnext]
    by_cases hl₁ : l₁ = []
    · rw [if_pos (h.is_first_iff.mpr hl₁), hl₁, List.nil_append]
    · rw [if_neg (fun he => hl₁ (h.is_first_iff.mp he)), h.first]
      cases l₁ with
      | nil => exact absurd rfl hl₁
      | cons x l₁ => rfl
  refine ⟨elems₃, ?_, ?_⟩
  · simp only [unlinkElem, Heap.load_some hc, ok_bind, hupd₁, Heap.load_some ha_cell₁, hupd₂, hload,
      Heap.load_some ha_cell₂, hupd₃, Heap.load_some ha_cell₃, hhead]
  · intro b
    have hbehind : (c.next ≠ none ∧ c.next = some b) ↔ l₂.head? = some b := by
      rw [hnext]
      cases l₂.head? <;> simp
    rw [hcell₃, hcell₂, hcell₁, hwprev]
    simp only [htail, hbefore, hbehind]
    cases head.elems.cell b with
    | none => simp
    | some e =>
        by_cases hb₁ : l₁.getLast? = some b <;> by_cases hb₂ : l₂.head? = some b <;>
          by_cases hb₃ : l₂ = [] ∧ head.queue = some b <;> simp [relink, hb₁, hb₂, hb₃]

end Neighbours

/-- The cascade takes the element out of the list; every element keeps its request. -/
theorem unlinkElem_spec (h : Queued head (l₁ ++ a :: l₂)) :
    ∃ head', unlinkElem head (some a) = .ok head' ∧ Queued head' (l₁ ++ l₂) ∧
      ∀ b, (head'.elems.cell b).map QueueElem.reqStruct =
        (head.elems.cell b).map QueueElem.reqStruct := by
  obtain ⟨c, hc, hnext, hprev⟩ := h.linked.at
  obtain ⟨elems, hrun, hcells⟩ := unlinkElem_cells h hc
  have hnodup : (l₁ ++ l₂).Nodup :=
    h.nodup.sublist (List.Sublist.append_left (List.sublist_cons_self a l₂) l₁)
  refine ⟨⟨elems, (l₁ ++ l₂).head?⟩, hrun, ⟨rfl, hnodup, ?_⟩, ?_⟩
  · cases l₂ with
    | cons z l₂ =>
        have hlast : (l₁ ++ z :: l₂).getLast? = (l₁ ++ a :: z :: l₂).getLast? := by
          rw [List.getLast?_append, List.getLast?_append, List.getLast?_cons_cons]
        rw [hlast]
        apply h.linked.erase h.nodup
        intro b _ e he
        refine ⟨_, by rw [hcells, he]; rfl, ?_, ?_⟩
        · simp only [relink, hnext]
        · simp [relink, hprev]
    | nil =>
        -- the last element goes: the one before it becomes the tail
        rw [List.append_nil] at hnodup ⊢
        have herase : Linked QueueElem.next QueueElem.prev
            (fun b => (head.elems.cell b).map fun e =>
              { e with next := if l₁.getLast? = some b then none else e.next })
            (l₁ ++ [a]).getLast? (l₁ ++ []) := by
          apply h.linked.erase h.nodup
          intro b _ e he
          exact ⟨_, by rw [he]; rfl, rfl, by simp⟩
        rw [List.append_nil] at herase
        apply herase.reback _ hnodup
        intro b hb e he
        obtain ⟨e₀, he₀, rfl⟩ := Option.map_eq_some_iff.mp he
        refine ⟨_, by rw [hcells, he₀]; rfl, ?_, ?_⟩
        · simp only [relink, hnext]
          rfl
        · have hfirst : head.queue = l₁.head? := by
            rw [h.first]
            cases l₁ with
            | nil => cases hb
            | cons x l₁ => rfl
          have hlast : c.prev = l₁.getLast? := by
            rw [hprev]
            cases l₁ with
            | nil => cases hb
            | cons x l₁ => simp [List.getLast?_cons]
          simp [relink, hfirst, hlast]
  · intro b
    rw [hcells, Option.map_map]
    rfl

theorem free_spec {e : QueueElem ρ} (h : Queued head l) (ha : a ∉ l)
    (he : head.elems.cell a = some e) :
    ∃ elems, head.elems.free (some a) = .ok elems ∧ Queued { head with elems := elems } l ∧
      contents QueueElem.reqStruct elems.cell l = contents QueueElem.reqStruct head.elems.cell l := by
  have hother : ∀ b ∈ l, (head.elems.erase a).cell b = head.elems.cell b := by
    intro b hb
    exact Heap.erase_other fun hba => ha (hba ▸ hb)
  refine ⟨head.elems.erase a, Heap.free_some he, ⟨h.first, h.nodup, ?_⟩, ?_⟩
  · apply h.linked.congr
    intro b hb c hc
    exact ⟨c, (hother b hb).trans hc, rfl, rfl⟩
  · apply contents_congr
    intro b hb
    rw [hother b hb]

theorem take_spec (h : Queued head (l₁ ++ a :: l₂)) {c : QueueElem ρ}
    (hc : head.elems.cell a = some c) :
    ∃ head' c' elems, unlinkElem head (some a) = .ok head' ∧ head'.elems.load (some a) = .ok c' ∧
      c'.reqStruct = c.reqStruct ∧ head'.elems.free (some a) = .ok elems ∧
      Represents { head' with elems := elems }
        (contents QueueElem.reqStruct head.elems.cell (l₁ ++ l₂)) := by
  obtain ⟨head', hrun, hqueued, hrequests⟩ := unlinkElem_spec h
  have ha := hrequests a
  rw [hc, Option.map_some] at ha
  obtain ⟨c', hc', hreq⟩ := Option.map_eq_some_iff.mp ha
  have hout : a ∉ l₁ ++ l₂ := by
    intro hm
    rcases List.mem_append.mp hm with hm | hm
    · exact h.notMem_before hm
    · exact h.notMem_behind hm
  obtain ⟨elems, hfree, hqueued', hcontents⟩ := free_spec hqueued hout hc'
  refine ⟨head', c', elems, hrun, Heap.load_some hc', hreq, hfree, l₁ ++ l₂, hqueued', ?_⟩
  rw [hcontents]
  exact (contents_congr fun b _ => hrequests b).symm

/-! ## The operations on a list of requests -/

variable {rs : List ρ}

theorem ikcqDequeueRequest_spec (h : Represents head rs) :
    ∃ head', ikcqDequeueRequest head =
        .ok (if rs = [] then -eIkcNoqueue else 0, rs.head?, head') ∧ Represents head' rs.tail := by
  obtain ⟨l, hl, rfl⟩ := h
  cases l with
  | nil =>
      have hnone : head.queue = none := hl.first
      exact ⟨head, by rw [ikcqDequeueRequest, if_pos hnone]; rfl, [], hl, rfl⟩
  | cons a l =>
      have hsome : head.queue = some a := hl.first
      obtain ⟨c, hc, -⟩ := hl.first_cell
      obtain ⟨head', c', elems, hrun, hload, hreq, hfree, hrep⟩ := take_spec (show Queued head ([] ++ a :: l) from hl) hc
      refine ⟨{ head' with elems := elems }, ?_, ?_⟩
      · rw [ikcqDequeueRequest, if_neg (by simp [hsome]), contents_cons hc]
        simp only [hsome, hrun, ok_bind, hload, hfree, hreq]
        rfl
      · rw [contents_cons hc]
        exact hrep

theorem Queued.next_notMem (h : Queued head l) : head.elems.next ∉ l := by
  intro hm
  obtain ⟨c, hc⟩ := h.linked.mem hm
  exact Nat.lt_irrefl _ (Heap.lt_next hc)

/-- The net effect of the assignments: the last element points forward to the new one
and the first one back to it. -/
theorem ikcqQueueRequest_cells (h : Queued head l) (r : ρ) :
    ∃ elems, ikcqQueueRequest head r =
        .ok (0, ⟨elems, (l ++ [head.elems.next]).head?⟩) ∧
      elems.cell head.elems.next = some ⟨r, none, l.getLast?.or (some head.elems.next)⟩ ∧
      ∀ b e, head.elems.cell b = some e → elems.cell b = some { e with
        next := if l.getLast? = some b then some head.elems.next else e.next
        prev := if l.head? = some b then some head.elems.next else e.prev } := by
  have hnew := h.next_notMem
  cases l with
  | nil =>
      have hnone : head.queue = none := h.first
      refine ⟨_, by rw [ikcqQueueRequest, if_pos hnone]; rfl, Heap.alloc_self _ _, ?_⟩
      intro b e he
      rw [Heap.alloc_old _ he]
      rfl
  | cons f m =>
      have hsome : head.queue = some f := h.first
      obtain ⟨v, hv, hvprev⟩ := h.first_cell
      obtain ⟨l₁, z, hz⟩ := (List.eq_nil_or_concat (f :: m)).resolve_left (by simp)
      rw [List.concat_eq_append] at hz
      have hlast : (f :: m).getLast? = some z := by rw [hz, List.getLast?_concat]
      obtain ⟨t, ht, htnext, -⟩ := h.linked l₁ z [] hz
      rw [hlast] at hvprev
      have hnf : head.elems.next ≠ f := fun he => hnew (he ▸ List.mem_cons_self)
      have hnz : head.elems.next ≠ z := fun he => hnew (he ▸ List.mem_of_getLast? hlast)
      obtain ⟨elems₁, hupd₁, hcell₁⟩ := Heap.update_spec
        (fun t : QueueElem ρ => { t with next := some head.elems.next })
        (Heap.alloc_old ⟨r, t.next, some z⟩ ht)
      have hold : ∀ b e, head.elems.cell b = some e → elems₁.cell b =
          some { e with next := if b = z then some head.elems.next else e.next } := by
        intro b e he
        rw [hcell₁, Heap.alloc_old _ he]
        by_cases hb : b = z
        · rw [hb, ht, Option.some.injEq] at he
          rw [if_pos hb, if_pos hb, he]
        · rw [if_neg hb, if_neg hb]
      obtain ⟨elems₂, hupd₂, hcell₂⟩ := Heap.update_spec
        (fun q : QueueElem ρ => { q with prev := some head.elems.next }) (hold f v hv)
      refine ⟨elems₂, ?_, ?_, ?_⟩
      · rw [ikcqQueueRequest, if_neg (by simp [hsome])]
        simp only [hsome, Heap.load_some hv, ok_bind, hvprev, Heap.load_some ht, hupd₁, hupd₂]
        rfl
      · rw [hcell₂, if_neg hnf, hcell₁, if_neg hnz, Heap.alloc_self, htnext, hlast]
        rfl
      · intro b e he
        have hzb : z = b ↔ b = z := eq_comm
        have hfb : f = b ↔ b = f := eq_comm
        rw [hcell₂]
        simp only [hlast, List.head?_cons, Option.some.injEq, hzb, hfb]
        by_cases hbf : b = f
        · rw [hbf, hv, Option.some.injEq] at he
          rw [if_pos hbf, if_pos hbf, hbf, he]
        · rw [if_neg hbf, if_neg hbf, hold b e he]

theorem ikcqQueueRequest_spec (h : Represents head rs) (r : ρ) :
    ∃ head', ikcqQueueRequest head r = .ok (0, head') ∧ Represents head' (rs ++ [r]) := by
  obtain ⟨l, hl, rfl⟩ := h
  obtain ⟨elems, hrun, hself, hold⟩ := ikcqQueueRequest_cells hl r
  have hnodup : (l ++ [head.elems.next]).Nodup := by
    refine List.nodup_append.mpr ⟨hl.nodup, List.nodup_singleton _, ?_⟩
    intro x hx y hy
    rw [List.mem_singleton.mp hy]
    exact fun he => hl.next_notMem (he ▸ hx)
  refine ⟨_, hrun, l ++ [head.elems.next], ⟨rfl, hnodup, ?_⟩, ?_⟩
  · rw [List.getLast?_concat]
    apply hl.linked.push hl.nodup ⟨_, hself, rfl, rfl⟩
    intro b _ e he
    exact ⟨_, hold b e he, rfl, rfl⟩
  · have hadded : contents QueueElem.reqStruct elems.cell [head.elems.next] = [r] :=
      contents_cons hself []
    have hkept : contents QueueElem.reqStruct elems.cell l =
        contents QueueElem.reqStruct head.elems.cell l := by
      apply contents_congr
      intro b hb
      obtain ⟨e, he⟩ := hl.linked.mem hb
      rw [hold b e he, he]
      rfl
    rw [contents_append, hadded, hkept]

variable [DecidableEq ρ]

theorem removeSeek_spec (r : ρ) {p : Ptr} :
    ∀ (l : List Nat) (fuel : Nat), Linked QueueElem.next QueueElem.prev head.elems.cell p l →
      l.length < fuel → r ∈ contents QueueElem.reqStruct head.elems.cell l →
      ∃ l₁ a l₂ c, l = l₁ ++ a :: l₂ ∧ head.elems.cell a = some c ∧ c.reqStruct = r ∧
        r ∉ contents QueueElem.reqStruct head.elems.cell l₁ ∧
        loop (removeSeekBody head r) fuel l.head? = .ok (some a) := by
  intro l
  induction l generalizing p with
  | nil =>
      intro fuel _ _ hr
      cases hr
  | cons a l ih =>
      intro fuel hl hfuel hr
      obtain ⟨fuel, rfl⟩ : ∃ k, fuel = k + 1 := ⟨fuel - 1, by omega⟩
      obtain ⟨c, hc, hnext, -⟩ := hl [] a l rfl
      have hbody : removeSeekBody head r (some a) =
          if c.reqStruct ≠ r then .ok (.inl c.next) else .ok (.inr (some a)) := by
        simp only [removeSeekBody, Heap.load_some hc, ok_bind]
      by_cases hcr : c.reqStruct = r
      · rw [if_neg (by simpa using hcr)] at hbody
        exact ⟨[], a, l, c, rfl, hc, hcr, by simp [contents], loop_exit hbody⟩
      · rw [if_pos hcr, hnext] at hbody
        rw [contents_cons hc, List.mem_cons] at hr
        obtain ⟨l₁, b, l₂, e, rfl, he, her, hnot, hrun⟩ := ih fuel hl.tail
          (by simpa using hfuel) (hr.resolve_left (Ne.symm hcr))
        refine ⟨a :: l₁, b, l₂, e, rfl, he, her, ?_, ?_⟩
        · rw [contents_cons hc, List.mem_cons]
          rintro (hrc | hrm)
          · exact hcr hrc.symm
          · exact hnot hrm
        · rw [List.head?_cons, loop_next hbody]
          exact hrun

theorem ikcqRemoveRequest_spec (h : Represents head rs) {r : ρ} (hr : r ∈ rs) :
    ∃ head', ikcqRemoveRequest head r = .ok (0, head') ∧ Represents head' (rs.erase r) := by
  obtain ⟨l, hl, rfl⟩ := h
  have hlen := hl.length_le
  obtain ⟨l₁, a, l₂, c, rfl, hc, hcr, hnot, hseek⟩ :=
    removeSeek_spec r l (head.elems.next + 1) hl.linked (by omega) hr
  obtain ⟨head', c', elems, hrun, -, -, hfree, hrep⟩ := take_spec hl hc
  refine ⟨{ head' with elems := elems }, ?_, ?_⟩
  · have hsome : head.queue ≠ none := by
      rw [hl.first]
      cases l₁ <;> simp
    rw [← hl.first] at hseek
    simp only [ikcqRemoveRequest, if_neg hsome, hseek, ok_bind, hrun, hfree]
    rfl
  · rw [contents_append, contents_cons hc, hcr, List.erase_append_right _ hnot, List.erase_cons_head]
    rw [contents_append] at hrep
    exact hrep

/-! ## Runs -/

inductive QueueOp (ρ : Type) where
  | queue (req : ρ)
  | dequeue
  | remove (req : ρ)
deriving DecidableEq

abbrev QueueReply (ρ : Type) := Int × Option ρ

def queueStep (head : QueueHead ρ) : QueueOp ρ → Exec (QueueReply ρ × QueueHead ρ)
  | .queue req => do
      let (ret, head) ← ikcqQueueRequest head req
      .ok ((ret, none), head)
  | .dequeue => do
      let (ret, req, head) ← ikcqDequeueRequest head
      .ok ((ret, req), head)
  | .remove req => do
      let (ret, head) ← ikcqRemoveRequest head req
      .ok ((ret, none), head)

def queueRun : List (QueueOp ρ) → QueueHead ρ → Exec (List (QueueReply ρ) × QueueHead ρ)
  | [], head => .ok ([], head)
  | op :: ops, head => do
      let (reply, head) ← queueStep head op
      let (replies, head) ← queueRun ops head
      .ok (reply :: replies, head)

/-- A queue as a list: what an operation answers and what it leaves. -/
def fifoStep (rs : List ρ) : QueueOp ρ → QueueReply ρ × List ρ
  | .queue req => ((0, none), rs ++ [req])
  | .dequeue => ((if rs = [] then -eIkcNoqueue else 0, rs.head?), rs.tail)
  | .remove req => ((0, none), rs.erase req)

def fifoRun : List (QueueOp ρ) → List ρ → List (QueueReply ρ) × List ρ
  | [], rs => ([], rs)
  | op :: ops, rs =>
      let (reply, rs) := fifoStep rs op
      let (replies, rs) := fifoRun ops rs
      (reply :: replies, rs)

/-- Only requests that are in the queue are removed. -/
def RemovesPresent : List (QueueOp ρ) → List ρ → Prop
  | [], _ => True
  | op :: ops, rs => (∀ req, op = .remove req → req ∈ rs) ∧ RemovesPresent ops (fifoStep rs op).2

theorem queueStep_spec (h : Represents head rs) {op : QueueOp ρ}
    (hop : ∀ req, op = .remove req → req ∈ rs) :
    ∃ head', queueStep head op = .ok ((fifoStep rs op).1, head') ∧
      Represents head' (fifoStep rs op).2 := by
  cases op with
  | queue req =>
      obtain ⟨head', hrun, hrep⟩ := ikcqQueueRequest_spec h req
      exact ⟨head', by simp only [queueStep, hrun, ok_bind, fifoStep], hrep⟩
  | dequeue =>
      obtain ⟨head', hrun, hrep⟩ := ikcqDequeueRequest_spec h
      exact ⟨head', by simp only [queueStep, hrun, ok_bind, fifoStep], hrep⟩
  | remove req =>
      obtain ⟨head', hrun, hrep⟩ := ikcqRemoveRequest_spec h (hop req rfl)
      exact ⟨head', by simp only [queueStep, hrun, ok_bind, fifoStep], hrep⟩

theorem queueRun_spec (ops : List (QueueOp ρ)) :
    ∀ (head : QueueHead ρ) (rs : List ρ), Represents head rs → RemovesPresent ops rs →
      ∃ head', queueRun ops head = .ok ((fifoRun ops rs).1, head') ∧
        Represents head' (fifoRun ops rs).2 := by
  induction ops with
  | nil =>
      intro head rs h _
      exact ⟨head, rfl, h⟩
  | cons op ops ih =>
      intro head rs h hops
      obtain ⟨head₁, hstep, h₁⟩ := queueStep_spec h hops.1
      obtain ⟨head', hrun, h'⟩ := ih head₁ _ h₁ hops.2
      exact ⟨head', by simp only [queueRun, hstep, ok_bind, hrun, fifoRun], h'⟩

/-! ## In queueing order, and none lost -/

def QueueOp.queued? : QueueOp ρ → Option ρ
  | .queue req => some req
  | _ => none

def QueueOp.removed? : QueueOp ρ → Option ρ
  | .remove req => some req
  | _ => none

def handedOut (replies : List (QueueReply ρ)) : List ρ := replies.filterMap Prod.snd

theorem mem_of_removed (ops : List (QueueOp ρ)) :
    ∀ (rs : List ρ), RemovesPresent ops rs → ∀ r ∈ ops.filterMap QueueOp.removed?,
      r ∈ rs ++ ops.filterMap QueueOp.queued? := by
  induction ops with
  | nil =>
      intro rs _ r hr
      cases hr
  | cons op ops ih =>
      intro rs hops r hr
      cases op with
      | queue req =>
          have hmem := ih (rs ++ [req]) hops.2 r hr
          rwa [List.append_assoc] at hmem
      | dequeue =>
          have hmem := ih rs.tail hops.2 r hr
          exact (List.Sublist.append_right (List.tail_sublist rs) _).subset hmem
      | remove req =>
          rcases List.mem_cons.mp hr with rfl | hr
          · exact List.mem_append_left _ (hops.1 r rfl)
          · have hmem := ih (rs.erase req) hops.2 r hr
            exact (List.Sublist.append_right List.erase_sublist _).subset hmem

/-- What was handed out, followed by what is still queued, is what was queued less
what was removed. The list `rs` is queued before the run. -/
theorem fifoRun_conserves (ops : List (QueueOp ρ)) :
    ∀ (rs : List ρ), (rs ++ ops.filterMap QueueOp.queued?).Nodup → RemovesPresent ops rs →
      handedOut (fifoRun ops rs).1 ++ (fifoRun ops rs).2 =
        (rs ++ ops.filterMap QueueOp.queued?).filter
          (fun r => r ∉ ops.filterMap QueueOp.removed?) := by
  induction ops with
  | nil =>
      intro rs _ _
      simp [fifoRun, handedOut]
  | cons op ops ih =>
      intro rs hnodup hops
      cases op with
      | queue req =>
          have hsame : rs ++ (QueueOp.queue req :: ops).filterMap QueueOp.queued? =
              (rs ++ [req]) ++ ops.filterMap QueueOp.queued? := by
            rw [List.append_assoc]
            rfl
          rw [hsame] at hnodup ⊢
          exact ih (rs ++ [req]) hnodup hops.2
      | dequeue =>
          cases rs with
          | nil => exact ih [] hnodup hops.2
          | cons x rs =>
              have hx : x ∉ rs ++ ops.filterMap QueueOp.queued? := (List.nodup_cons.mp hnodup).1
              have hkept : x ∉ ops.filterMap QueueOp.removed? := fun hr =>
                hx (mem_of_removed ops rs hops.2 x hr)
              have hrest := ih rs (List.nodup_cons.mp hnodup).2 hops.2
              show x :: (handedOut (fifoRun ops rs).1 ++ (fifoRun ops rs).2) =
                (x :: (rs ++ ops.filterMap QueueOp.queued?)).filter
                  fun r => r ∉ ops.filterMap QueueOp.removed?
              rw [hrest, List.filter_cons_of_pos (by simpa using hkept)]
      | remove req =>
          replace hnodup : (rs ++ ops.filterMap QueueOp.queued?).Nodup := hnodup
          have herase : rs.erase req ++ ops.filterMap QueueOp.queued? =
              (rs ++ ops.filterMap QueueOp.queued?).filter (· != req) := by
            rw [← List.Nodup.erase_eq_filter hnodup, List.erase_append_left _ (hops.1 req rfl)]
          have hrest := ih (rs.erase req) (herase ▸ hnodup.filter _) hops.2
          rw [herase, List.filter_filter] at hrest
          refine hrest.trans (List.filter_congr ?_)
          intro r _
          have hremoved : (QueueOp.remove req :: ops).filterMap QueueOp.removed? =
              req :: ops.filterMap QueueOp.removed? := rfl
          rw [hremoved, Bool.eq_iff_iff]
          simp only [List.mem_cons, not_or, Bool.and_eq_true, decide_eq_true_eq, bne_iff_ne]
          exact and_comm

/-- **FIFO.** Take any sequence of queueings, dequeueings and removals of queued
requests, each request queued at most once. Every operation succeeds, answers as
on a list and leaves a well-formed queue that carries that list; and the requests
handed out, followed by those still queued, are the queued ones in their order,
without the removed ones. -/
theorem queue_is_fifo (ops : List (QueueOp ρ)) (honce : (ops.filterMap QueueOp.queued?).Nodup)
    (hpresent : RemovesPresent ops []) :
    ∃ head, queueRun ops ikcInitQueue = .ok ((fifoRun ops []).1, head) ∧
      Represents head (fifoRun ops []).2 ∧
      handedOut (fifoRun ops []).1 ++ (fifoRun ops []).2 =
        (ops.filterMap QueueOp.queued?).filter (fun r => r ∉ ops.filterMap QueueOp.removed?) := by
  obtain ⟨head, hrun, hrep⟩ := queueRun_spec ops ikcInitQueue [] represents_init hpresent
  exact ⟨head, hrun, hrep, fifoRun_conserves ops [] honce hpresent⟩

def removedBetween : List (QueueOp Nat) := [.queue 1, .queue 2, .queue 3, .remove 2, .dequeue, .dequeue]

theorem queue_is_fifo_removed :
    ∃ head, queueRun removedBetween ikcInitQueue =
        .ok ([(0, none), (0, none), (0, none), (0, none), (0, some 1), (0, some 3)], head) ∧
      Represents head ([] : List Nat) := by
  have hpresent : RemovesPresent removedBetween [] := by
    simp [RemovesPresent, removedBetween, fifoStep]
  obtain ⟨head, hrun, hrep, -⟩ := queue_is_fifo removedBetween (by decide) hpresent
  exact ⟨head, hrun, hrep⟩

end Dkmp.Ikcd
