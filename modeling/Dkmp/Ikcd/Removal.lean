import Dkmp.Ikcd.Backlog

/-! # Removing a request from the backlog

`ikcbl_remove_request` takes one element out of the doubly linked list and frees it. The
links of its neighbours are right afterwards; the head of the list is not adjusted, and
so it points at freed memory when the first element went.
-/

namespace Dkmp.Ikcd

open Machine

theorem assign_cases {elems : Heap BacklogElem} {p : Ptr} (f : BacklogElem → BacklogElem)
    (live : ∀ b, p = some b → (elems.cell b).isSome) :
    ∃ elems', ((p = none ∧ elems' = elems) ∨ ∃ b, p = some b ∧ elems.update (some b) f = .ok elems') ∧
      ∀ c, elems'.cell c = (elems.cell c).map fun e => if p = some c then f e else e := by
  cases p with
  | none => exact ⟨elems, .inl ⟨rfl, rfl⟩, by simp⟩
  | some b =>
      obtain ⟨e, he⟩ := Option.isSome_iff_exists.mp (live b rfl)
      obtain ⟨elems', hupd, hcell⟩ := Heap.update_spec f he
      refine ⟨elems', .inr ⟨b, rfl, hupd⟩, ?_⟩
      intro c
      rw [hcell]
      by_cases hc : c = b
      · simp [hc, he]
      · simp [hc, Ne.symm hc]

section Removal

variable {bl : Backlog} {l₁ l₂ : List Nat} {a : Nat} (h : Chained bl (l₁ ++ a :: l₂))

include h

theorem Chained.notMem_before : a ∉ l₁ :=
  fun hm => List.disjoint_of_nodup_append h.nodup hm List.mem_cons_self

theorem Chained.notMem_behind : a ∉ l₂ :=
  (List.nodup_cons.mp (List.nodup_append.mp h.nodup).2.1).1

/-- The element that is found is freed and its neighbours are linked with each other; the
head of the list stays what it was. -/
theorem ikcblRemoveRequest_cells {nbr : UInt32}
    (hseek : bl.seek (fun r => r.requestNbr = nbr) = .ok (some a)) :
    ∃ elems, ikcblRemoveRequest bl nbr = .ok (⟨elems, bl.list⟩, 0) ∧ elems.cell a = none ∧
      ∀ b, b ≠ a → elems.cell b = (bl.elems.cell b).map fun f =>
        { f with
          next := if l₁.getLast? = some b then l₂.head? else f.next
          prev := if l₂.head? = some b then l₁.getLast? else f.prev } := by
  obtain ⟨e, he, hnext, hprev⟩ := h.linked.at
  rw [Option.or_none] at hprev
  have hlive : ∀ b ∈ l₁ ++ a :: l₂, (bl.elems.cell b).isSome := by
    intro b hb
    obtain ⟨v, hv⟩ := h.linked.mem hb
    rw [hv]
    rfl
  -- the element behind points back past this one
  obtain ⟨elems₁, hcase₁, hcell₁⟩ := @assign_cases bl.elems e.next (fun f => { f with prev := e.prev })
    (fun b hb => hlive b (by simp [List.mem_of_head? (hnext ▸ hb)]))
  -- the element before points forward past it
  obtain ⟨elems₂, hcase₂, hcell₂⟩ := @assign_cases elems₁ e.prev (fun f => { f with next := e.next })
    (by
      intro b hb
      rw [hcell₁, Option.isSome_map]
      exact hlive b (by simp [List.mem_of_getLast? (hprev ▸ hb)]))
  have hself : (elems₂.cell a).isSome := by
    rw [hcell₂, Option.isSome_map, hcell₁, Option.isSome_map]
    exact hlive a (by simp)
  obtain ⟨e', he'⟩ := Option.isSome_iff_exists.mp hself
  refine ⟨elems₂.erase a, ?_, by rw [Heap.erase_cell, if_pos rfl], ?_⟩
  · have hload := Heap.load_some he
    have hfree := Heap.free_some he'
    rcases hcase₁ with ⟨hn, rfl⟩ | ⟨b, hn, hu₁⟩
    · rcases hcase₂ with ⟨hp, rfl⟩ | ⟨c, hp, hu₂⟩
      · simp only [ikcblRemoveRequest, hseek, ok_bind, hload, hn, hp, hfree]
      · rw [hn] at hu₂
        simp only [ikcblRemoveRequest, hseek, ok_bind, hload, hn, hp, hu₂, hfree]
    · rcases hcase₂ with ⟨hp, rfl⟩ | ⟨c, hp, hu₂⟩
      · rw [hp] at hu₁
        simp only [ikcblRemoveRequest, hseek, ok_bind, hload, hn, hp, hu₁, hfree]
      · rw [hp] at hu₁
        rw [hn] at hu₂
        simp only [ikcblRemoveRequest, hseek, ok_bind, hload, hn, hp, hu₁, hu₂, hfree]
  · intro b hb
    rw [Heap.erase_other hb, hcell₂, hcell₁, Option.map_map, hnext, hprev]
    congr 1
    funext f
    by_cases h₁ : l₁.getLast? = some b <;> by_cases h₂ : l₂.head? = some b <;> simp [h₁, h₂]

end Removal

/-! ## The list after a removal -/

/-- A list that was made by `ikcbl_add_request`. -/
inductive Built : Backlog → List IkcRequest → Prop where
  | init : Built ikcblInitBl []
  | add {bl bl' : Backlog} {rs : List IkcRequest} {request : IkcRequest} : Built bl rs →
      ikcblAddRequest bl request = .ok bl' → Built bl' (request :: rs)

theorem Built.holds {bl : Backlog} {rs : List IkcRequest} (h : Built bl rs) : Holds bl rs := by
  induction h with
  | init => exact holds_init
  | add _ hadd ih =>
      obtain ⟨bl', hok, hholds⟩ := ikcblAddRequest_holds ih _
      rw [hadd, Except.ok.injEq] at hok
      rw [hok]
      exact hholds

/-- Every operation goes through on the list, and what is added is in front of it. -/
structure Usable (bl : Backlog) (rs : List IkcRequest) : Prop where
  add : ∀ request, ∃ bl', ikcblAddRequest bl request = .ok bl' ∧ Holds bl' (request :: rs)
  search : ∀ found, ∃ p, bl.seek found = .ok p ∧ (p = none ↔ ∀ r ∈ rs, found r = false)
  remove : ∀ nbr, ∃ bl' ret, ikcblRemoveRequest bl nbr = .ok (bl', ret) ∧
    (ret = -1 ↔ nbr ∉ numbers rs)

/-- The removal of a number is that of the request from the list: a missing number is
reported and changes nothing, and otherwise the remaining requests are linked in both
directions from the head on, all of them in live memory. -/
structure Deletes (bl : Backlog) (rs : List IkcRequest) (nbr : UInt32) : Prop where
  absent : nbr ∉ numbers rs → ikcblRemoveRequest bl nbr = .ok (bl, -1)
  present : nbr ∈ numbers rs → ∃ bl', ikcblRemoveRequest bl nbr = .ok (bl', 0) ∧
    Holds bl' (rs.filter fun r => r.requestNbr ≠ nbr) ∧
    Usable bl' (rs.filter fun r => r.requestNbr ≠ nbr)

section Deletion

variable {bl : Backlog} {rs : List IkcRequest} {nbr : UInt32}

theorem Holds.usable (h : Holds bl rs) : Usable bl rs where
  add := ikcblAddRequest_holds h
  search := by
    intro found
    obtain ⟨l, hl, rfl⟩ := h
    rcases hl.seek_cases found with ⟨hnone, hall⟩ | ⟨l₁, a, e, l₂, hsplit, he, hf, hsome⟩
    · exact ⟨none, hnone, iff_of_true rfl hall⟩
    · refine ⟨some a, hsome, iff_of_false (by simp) ?_⟩
      intro hall
      have hmem : e.request ∈ requestsAt bl.elems l :=
        List.mem_filterMap.mpr ⟨a, by simp [hsplit], by rw [he, Option.map_some]⟩
      rw [hall _ hmem] at hf
      cases hf
  remove := by
    intro nbr
    by_cases hmem : nbr ∈ numbers rs
    · obtain ⟨l, hl, rfl⟩ := h
      rcases hl.seek_number nbr with ⟨-, habsent⟩ | ⟨l₁, a, e, l₂, rfl, -, -, hseek, -⟩
      · exact absurd hmem habsent
      · obtain ⟨elems, hrun, -, -⟩ := ikcblRemoveRequest_cells hl hseek
        exact ⟨_, 0, hrun, iff_of_false (by decide) (fun habsent => habsent hmem)⟩
    · exact ⟨bl, -1, ikcblRemoveRequest_absent h hmem, iff_of_true rfl hmem⟩

theorem filter_number {rs₁ rs₂ : List IkcRequest} {r : IkcRequest} (hr : r.requestNbr = nbr)
    (hnodup : (numbers (rs₁ ++ r :: rs₂)).Nodup) :
    (rs₁ ++ r :: rs₂).filter (fun r => r.requestNbr ≠ nbr) = rs₁ ++ rs₂ := by
  have hsplit : numbers (rs₁ ++ r :: rs₂) = numbers rs₁ ++ nbr :: numbers rs₂ := by
    simp [numbers, hr]
  rw [hsplit, List.nodup_middle, List.nodup_cons, List.mem_append] at hnodup
  have hkept : ∀ rs : List IkcRequest, nbr ∉ numbers rs →
      rs.filter (fun r => r.requestNbr ≠ nbr) = rs := by
    intro rs hrs
    apply List.filter_eq_self.mpr
    intro q hq
    simp only [ne_eq, decide_eq_true_eq]
    exact fun hEq => hrs (hEq ▸ List.mem_map_of_mem hq)
  rw [List.filter_append, List.filter_cons_of_neg (by simp [hr]),
    hkept rs₁ (fun hm => hnodup.1 (.inl hm)), hkept rs₂ (fun hm => hnodup.1 (.inr hm))]

/-- Behind the first element the neighbours close the gap. -/
theorem Chained.removed {l₁ l₂ : List Nat} {a : Nat} (h : Chained bl (l₁ ++ a :: l₂))
    (hfirst : l₁ ≠ []) {elems : Heap BacklogElem}
    (hcells : ∀ b, b ≠ a → elems.cell b = (bl.elems.cell b).map fun f =>
      { f with
        next := if l₁.getLast? = some b then l₂.head? else f.next
        prev := if l₂.head? = some b then l₁.getLast? else f.prev }) :
    Chained ⟨elems, bl.list⟩ (l₁ ++ l₂) ∧
      requestsAt elems (l₁ ++ l₂) = requestsAt bl.elems (l₁ ++ l₂) := by
  have hother : ∀ b ∈ l₁ ++ l₂, b ≠ a := by
    rintro b hb rfl
    rcases List.mem_append.mp hb with hb | hb
    · exact h.notMem_before hb
    · exact h.notMem_behind hb
  refine ⟨⟨?_, ?_, ?_⟩, ?_⟩
  · rw [h.head]
    cases l₁ with
    | nil => exact absurd rfl hfirst
    | cons x l₁ => rfl
  · exact (List.nodup_middle.mp h.nodup).of_cons
  · apply h.linked.erase h.nodup
    intro b hb e he
    refine ⟨_, by rw [hcells b (hother b hb), he]; rfl, rfl, ?_⟩
    simp
  · apply requestsAt_congr
    intro b hb
    rw [hcells b (hother b hb), Option.map_map]
    rfl

theorem head_number {elems : Heap BacklogElem} {a : Nat} {e : BacklogElem}
    (he : elems.cell a = some e) (l : List Nat) :
    (numbers (requestsAt elems (a :: l))).head? = some e.request.requestNbr := by
  rw [requestsAt_cons he, numbers_cons]
  rfl

/-- A list with distinct numbers, one of which is removed. -/
theorem Holds.deletes_iff (h : Holds bl rs) (hdistinct : (numbers rs).Nodup) :
    Deletes bl rs nbr ↔ (numbers rs).head? ≠ some nbr := by
  obtain ⟨l, hl, rfl⟩ := h
  constructor
  · intro hdel hhead
    cases l with
    | nil => cases hhead
    | cons a l =>
        obtain ⟨e, he⟩ := hl.linked.mem (List.mem_cons_self)
        rw [head_number he, Option.some.injEq] at hhead
        obtain ⟨bl', hrun, ⟨l', hl', -⟩, -⟩ := hdel.present (by
          rw [requestsAt_cons he, numbers_cons, hhead]
          exact List.mem_cons_self)
        have hseek : bl.seek (fun r => r.requestNbr = nbr) = .ok (some a) := by
          have hlist : bl.list = some a := hl.head
          rw [Backlog.seek, hlist]
          exact loop_exit (by simp [Heap.load_some he, hhead])
        obtain ⟨elems, hrun', hfreed, -⟩ := @ikcblRemoveRequest_cells bl [] l a hl nbr hseek
        rw [hrun', Except.ok.injEq, Prod.mk.injEq] at hrun
        rw [← hrun.1] at hl'
        -- the head of the list still points at the element that was freed
        have hhead' : some a = l'.head? := by
          rw [← hl'.head]
          exact hl.head.symm
        obtain ⟨c, hc⟩ := hl'.linked.mem (List.mem_of_head? hhead'.symm)
        change elems.cell a = some c at hc
        rw [hfreed] at hc
        cases hc
  · intro hhead
    refine ⟨fun habsent => ikcblRemoveRequest_absent ⟨l, hl, rfl⟩ habsent, ?_⟩
    intro hmem
    rcases hl.seek_number nbr with ⟨-, habsent⟩ | ⟨l₁, a, e, l₂, rfl, he, hnbr, hseek, -⟩
    · exact absurd hmem habsent
    · have hfirst : l₁ ≠ [] := by
        rintro rfl
        exact hhead (by rw [List.nil_append, head_number he, hnbr])
      obtain ⟨elems, hrun, -, hcells⟩ := ikcblRemoveRequest_cells hl hseek
      obtain ⟨hchained, hreq⟩ := hl.removed hfirst hcells
      have hrequests : requestsAt bl.elems (l₁ ++ a :: l₂) =
          requestsAt bl.elems l₁ ++ e.request :: requestsAt bl.elems l₂ := by
        rw [requestsAt_append, requestsAt_cons he]
      have hholds : Holds ⟨elems, bl.list⟩
          ((requestsAt bl.elems (l₁ ++ a :: l₂)).filter fun r => r.requestNbr ≠ nbr) := by
        refine ⟨l₁ ++ l₂, hchained, ?_⟩
        rw [hreq, hrequests, filter_number hnbr (hrequests ▸ hdistinct), requestsAt_append]
      exact ⟨_, hrun, hholds, hholds.usable⟩

end Deletion

/-- **Removal from the backlog.** On a list that `ikcbl_add_request` made of requests with
distinct numbers, the removal of a number is the deletion from the list exactly when the
number is not that of the first element. -/
theorem backlog_removal_iff {bl : Backlog} {rs : List IkcRequest} (hbuilt : Built bl rs)
    (hdistinct : (numbers rs).Nodup) (nbr : UInt32) :
    Deletes bl rs nbr ↔ (numbers rs).head? ≠ some nbr :=
  hbuilt.holds.deletes_iff hdistinct

def numbered (nbr : UInt32) : IkcRequest where
  cliaddr := ⟨0, 0⟩
  requestNbr := nbr
  hostId := ikcrUnpackHostId nbr
  threadId := ikcrUnpackThreadId nbr
  seqNbr := ikcrUnpackSeqNumber nbr
  req := procCreatReq
  oNode := []
  oPid := 0
  rPid := some 76
  arg0 := []
  arg1 := []

/-- The older of two requests is removed as promised. -/
theorem backlog_removal_iff_older :
    ∃ bl, Built bl [numbered 2, numbered 1] ∧ Deletes bl [numbered 2, numbered 1] 1 := by
  have h₁ : Built _ [numbered 1] := .add .init rfl
  obtain ⟨bl, hadd, -⟩ := ikcblAddRequest_holds h₁.holds (numbered 2)
  have h₂ : Built bl [numbered 2, numbered 1] := .add h₁ hadd
  exact ⟨bl, h₂, (backlog_removal_iff h₂ (by decide) 1).mpr (by decide)⟩

/-- Removing the only element leaves the head of the list dangling. -/
theorem only_element_removed :
    ¬ ∀ (bl : Backlog) (rs : List IkcRequest), Built bl rs → (numbers rs).Nodup →
      ∀ nbr, Deletes bl rs nbr := by
  intro hall
  have h : Built _ [numbered 1] := .add .init rfl
  have hdel := hall _ _ h (by decide) 1
  exact (h.holds.deletes_iff (by decide)).mp hdel (by decide)

end Dkmp.Ikcd
