import Dkmp.Ikcd.Request
import Dkmp.Machine.Linked

/-! # The backlog of answered requests

A doubly linked list of the requests that were proceeded, the latest first. A
request that comes again is answered from it. `Holds bl rs` says that the list
in memory is well formed and carries the requests `rs`; each operation of the
workers is then described by what it does to `rs`.
-/

namespace Dkmp.Ikcd

open Machine

structure BacklogElem where
  request : IkcRequest
  next : Ptr
  prev : Ptr
deriving DecidableEq, Repr

/-- `struct ikc_backlog_head` with the memory of its elements. -/
structure Backlog where
  elems : Heap BacklogElem
  list : Ptr

def ikcblInitBl : Backlog := ⟨.empty, none⟩

/-- The search loops of this module: along `next` up to the first element whose
request makes the loop condition false. -/
def Backlog.seek (bl : Backlog) (found : IkcRequest → Bool) : Exec Ptr :=
  loop
    (fun toFind =>
      match toFind with
      | none => .ok (.inr none)
      | some a => do
          let e ← bl.elems.load (some a)
          if found e.request then .ok (.inr (some a)) else .ok (.inl e.next))
    (bl.elems.next + 1) bl.list

def ikcblAddRequest (bl : Backlog) (request : IkcRequest) : Exec Backlog :=
  let new := bl.elems.next
  match bl.list with
  | none => .ok ⟨bl.elems.alloc ⟨request, none, none⟩, some new⟩
  | some a => do
      let elems := bl.elems.alloc ⟨request, some a, none⟩
      let elems ← elems.update (some a) fun e => { e with prev := some new }
      .ok ⟨elems, some new⟩

/-- The head of the list is not adjusted when its first element goes. -/
def ikcblRemoveRequest (bl : Backlog) (requestNbr : UInt32) : Exec (Backlog × Int) := do
  match ← bl.seek fun r => r.requestNbr = requestNbr with
  | none => .ok (bl, -1)
  | some a => do
      let e ← bl.elems.load (some a)
      let elems ←
        match e.next with
        | none => .ok bl.elems
        | some b => bl.elems.update (some b) fun f => { f with prev := e.prev }
      let elems ←
        match e.prev with
        | none => .ok elems
        | some b => elems.update (some b) fun f => { f with next := e.next }
      let elems ← elems.free (some a)
      .ok (⟨elems, bl.list⟩, 0)

/-- The response sent when the request is found, `none` for the result `-1`. -/
def ikcblTryRespondFromBacklog (bl : Backlog) (request : IkcRequest) :
    Exec (Backlog × Option Response) := do
  match ← bl.seek fun r => r.requestNbr = request.requestNbr with
  | none => .ok (bl, none)
  | some a => do
      let elems ← bl.elems.update (some a) fun e =>
        { e with request := { e.request with cliaddr := request.cliaddr } }
      let e ← elems.load (some a)
      let response ← ikcrRespondToClient e.request
      .ok (⟨elems, bl.list⟩, some response)

/-- The search stops at a request of the same host or of the same thread id;
what is then removed is the number of the new request. -/
def ikcblRemoveThreadsLastRequest (bl : Backlog) (request : IkcRequest) : Exec (Backlog × Int) := do
  match ← bl.seek fun r => !(r.hostId ≠ request.hostId && r.threadId ≠ request.threadId) with
  | none => .ok (bl, -1)
  | some _ => do
      let (bl, _) ← ikcblRemoveRequest bl request.requestNbr
      .ok (bl, 0)

/-! ## The requests of a backlog -/

def requestsAt (elems : Heap BacklogElem) (l : List Nat) : List IkcRequest :=
  l.filterMap fun a => (elems.cell a).map BacklogElem.request

/-- The elements at `l` form the list. -/
structure Chained (bl : Backlog) (l : List Nat) : Prop where
  head : bl.list = l.head?
  nodup : l.Nodup
  linked : Linked BacklogElem.next BacklogElem.prev bl.elems.cell none l

def Holds (bl : Backlog) (rs : List IkcRequest) : Prop :=
  ∃ l, Chained bl l ∧ rs = requestsAt bl.elems l

def numbers (rs : List IkcRequest) : List UInt32 := rs.map IkcRequest.requestNbr

/-- A request the server can answer again. -/
def Answered (r : IkcRequest) : Prop := r.req = procCreatReq ∧ ∃ pid, r.rPid = some pid

@[simp] theorem numbers_cons (r : IkcRequest) (rs : List IkcRequest) :
    numbers (r :: rs) = r.requestNbr :: numbers rs := rfl

theorem requestsAt_cons {elems : Heap BacklogElem} {a : Nat} {e : BacklogElem}
    (he : elems.cell a = some e) (l : List Nat) :
    requestsAt elems (a :: l) = e.request :: requestsAt elems l := by
  simp [requestsAt, he]

theorem requestsAt_congr {elems elems' : Heap BacklogElem} {l : List Nat}
    (same : ∀ a ∈ l, (elems'.cell a).map BacklogElem.request =
      (elems.cell a).map BacklogElem.request) : requestsAt elems' l = requestsAt elems l :=
  List.filterMap_congr same

theorem requestsAt_append (elems : Heap BacklogElem) (l₁ l₂ : List Nat) :
    requestsAt elems (l₁ ++ l₂) = requestsAt elems l₁ ++ requestsAt elems l₂ :=
  List.filterMap_append

theorem holds_init : Holds ikcblInitBl [] :=
  ⟨[], ⟨rfl, List.nodup_nil, Linked.nil⟩, rfl⟩

/-! ## The search loop -/

def seekBody (elems : Heap BacklogElem) (found : IkcRequest → Bool) (toFind : Ptr) :
    Exec (Ptr ⊕ Ptr) :=
  match toFind with
  | none => .ok (.inr none)
  | some a => do
      let e ← elems.load (some a)
      if found e.request then .ok (.inr (some a)) else .ok (.inl e.next)

theorem seekBody_some {elems : Heap BacklogElem} {found : IkcRequest → Bool} {a : Nat}
    {e : BacklogElem} (he : elems.cell a = some e) :
    seekBody elems found (some a) =
      if found e.request then .ok (.inr (some a)) else .ok (.inl e.next) := by
  simp [seekBody, Heap.load_some he]

theorem loop_seekBody {elems : Heap BacklogElem} {found : IkcRequest → Bool} {l : List Nat} :
    ∀ {p : Ptr} {fuel : Nat}, Linked BacklogElem.next BacklogElem.prev elems.cell p l →
      l.length < fuel →
      (loop (seekBody elems found) fuel l.head? = .ok none ∧
        ∀ r ∈ requestsAt elems l, found r = false) ∨
      ∃ l₁ a e l₂, l = l₁ ++ a :: l₂ ∧ elems.cell a = some e ∧ found e.request = true ∧
        loop (seekBody elems found) fuel l.head? = .ok (some a) := by
  induction l with
  | nil =>
      intro p fuel _ hfuel
      obtain ⟨fuel, rfl⟩ : ∃ k, fuel = k + 1 := ⟨fuel - 1, by simp at hfuel; omega⟩
      exact .inl ⟨loop_exit rfl, by simp [requestsAt]⟩
  | cons a l ih =>
      intro p fuel hl hfuel
      rw [List.length_cons] at hfuel
      obtain ⟨fuel, rfl⟩ : ∃ k, fuel = k + 1 := ⟨fuel - 1, by omega⟩
      obtain ⟨e, he, hn, -⟩ := hl [] a l rfl
      have hbody : seekBody elems found (some a) =
          if found e.request then .ok (.inr (some a)) else .ok (.inl e.next) := seekBody_some he
      have hlt : l.length < fuel := by omega
      by_cases hfound : found e.request = true
      · rw [if_pos hfound] at hbody
        exact .inr ⟨[], a, e, l, rfl, he, hfound, loop_exit hbody⟩
      · rw [if_neg hfound, hn] at hbody
        rw [List.head?_cons, loop_next hbody]
        rcases ih hl.tail hlt with ⟨hnone, hall⟩ | ⟨l₁, b, e', l₂, rfl, he', hf, hsome⟩
        · refine .inl ⟨hnone, ?_⟩
          intro r hr
          rw [requestsAt_cons he, List.mem_cons] at hr
          rcases hr with rfl | hr
          · simpa using hfound
          · exact hall r hr
        · exact .inr ⟨a :: l₁, b, e', l₂, rfl, he', hf, hsome⟩

/-- A search ends at the end of the list or at an element that is looked for. -/
theorem Chained.seek_cases {bl : Backlog} {l : List Nat} (h : Chained bl l)
    (found : IkcRequest → Bool) :
    (bl.seek found = .ok none ∧ ∀ r ∈ requestsAt bl.elems l, found r = false) ∨
      ∃ l₁ a e l₂, l = l₁ ++ a :: l₂ ∧ bl.elems.cell a = some e ∧ found e.request = true ∧
        bl.seek found = .ok (some a) := by
  have hlen : l.length ≤ bl.elems.next := by
    apply length_le_of_lt h.nodup
    intro a ha
    obtain ⟨e, he⟩ := h.linked.mem ha
    exact Heap.lt_next he
  have hseek : bl.seek found = loop (seekBody bl.elems found) (bl.elems.next + 1) l.head? := by
    rw [← h.head]
    rfl
  rw [hseek]
  exact loop_seekBody h.linked (by omega)

theorem mem_numbers {elems : Heap BacklogElem} {l : List Nat} {a : Nat} {e : BacklogElem}
    (ha : a ∈ l) (he : elems.cell a = some e) :
    e.request.requestNbr ∈ numbers (requestsAt elems l) := by
  apply List.mem_map_of_mem
  exact List.mem_filterMap.mpr ⟨a, ha, by rw [he, Option.map_some]⟩

/-- A number the backlog has is found, another one is not. -/
theorem Chained.seek_number {bl : Backlog} {l : List Nat} (h : Chained bl l) (nbr : UInt32) :
    (bl.seek (fun r => r.requestNbr = nbr) = .ok none ∧ nbr ∉ numbers (requestsAt bl.elems l)) ∨
      ∃ l₁ a e l₂, l = l₁ ++ a :: l₂ ∧ bl.elems.cell a = some e ∧ e.request.requestNbr = nbr ∧
        bl.seek (fun r => r.requestNbr = nbr) = .ok (some a) ∧
        nbr ∈ numbers (requestsAt bl.elems l) := by
  rcases h.seek_cases fun r => r.requestNbr = nbr with ⟨hnone, hall⟩ | ⟨l₁, a, e, l₂, hl, he, hf, hs⟩
  · refine .inl ⟨hnone, ?_⟩
    intro hmem
    obtain ⟨r, hr, hnbr⟩ := List.mem_map.mp hmem
    exact (of_decide_eq_false (hall r hr)) hnbr
  · have hnbr : e.request.requestNbr = nbr := of_decide_eq_true hf
    have ha : a ∈ l := by rw [hl]; simp
    exact .inr ⟨l₁, a, e, l₂, hl, he, hnbr, hs, hnbr ▸ mem_numbers ha he⟩

/-! ## What the workers do with the backlog -/

theorem linked_front {cell cell' : Nat → Option BacklogElem} {l : List Nat} {a : Nat}
    (h : Linked BacklogElem.next BacklogElem.prev cell none l) (nodup : l.Nodup)
    (new : ∃ e, cell' a = some e ∧ e.next = l.head? ∧ e.prev = none)
    (old : ∀ b ∈ l, ∀ e, cell b = some e → ∃ e', cell' b = some e' ∧ e'.next = e.next ∧
      e'.prev = if l.head? = some b then some a else e.prev) :
    Linked BacklogElem.next BacklogElem.prev cell' none (a :: l) := by
  have hins := @Linked.insert _ BacklogElem.next BacklogElem.prev cell cell' none [] l a h nodup
  exact hins new old

theorem ikcblAddRequest_holds {bl : Backlog} {rs : List IkcRequest} (h : Holds bl rs)
    (request : IkcRequest) :
    ∃ bl', ikcblAddRequest bl request = .ok bl' ∧ Holds bl' (request :: rs) := by
  obtain ⟨l, hl, rfl⟩ := h
  have hnew : bl.elems.next ∉ l := by
    intro hmem
    obtain ⟨e, he⟩ := hl.linked.mem hmem
    exact Nat.lt_irrefl _ (Heap.lt_next he)
  have hnodup : (bl.elems.next :: l).Nodup := List.nodup_cons.mpr ⟨hnew, hl.nodup⟩
  cases l with
  | nil =>
      have hlist : bl.list = none := hl.head
      refine ⟨⟨bl.elems.alloc ⟨request, none, none⟩, some bl.elems.next⟩,
        by simp only [ikcblAddRequest, hlist], [bl.elems.next], ⟨rfl, hnodup, ?_⟩, ?_⟩
      · exact linked_front hl.linked hl.nodup ⟨_, Heap.alloc_self _ _, rfl, rfl⟩ (by simp)
      · rw [requestsAt_cons (Heap.alloc_self _ _)]
        rfl
  | cons a l =>
      have hlist : bl.list = some a := hl.head
      obtain ⟨e, he⟩ := hl.linked.mem (List.mem_cons_self)
      have hold : (bl.elems.alloc ⟨request, some a, none⟩).cell a = some e := Heap.alloc_old _ he
      obtain ⟨elems, hupd, hcell⟩ :=
        Heap.update_spec (fun f : BacklogElem => { f with prev := some bl.elems.next }) hold
      have hna : bl.elems.next ≠ a := fun hEq => hnew (by simp [hEq])
      have hself : elems.cell bl.elems.next = some ⟨request, some a, none⟩ := by
        rw [hcell, if_neg hna, Heap.alloc_self]
      have hcells : ∀ b ∈ a :: l, ∀ f, bl.elems.cell b = some f → elems.cell b =
          some (if b = a then { f with prev := some bl.elems.next } else f) := by
        intro b hb f hf
        rw [hcell, Heap.alloc_old _ hf]
        by_cases hba : b = a
        · have hfe : f = e := by
            rw [hba, he] at hf
            exact (Option.some.inj hf).symm
          rw [if_pos hba, if_pos hba, hfe]
        · rw [if_neg hba, if_neg hba]
      refine ⟨⟨elems, some bl.elems.next⟩, by simp only [ikcblAddRequest, hlist, hupd, ok_bind],
        bl.elems.next :: a :: l, ⟨rfl, hnodup, ?_⟩, ?_⟩
      · apply linked_front hl.linked hl.nodup ⟨_, hself, rfl, rfl⟩
        intro b hb f hf
        refine ⟨_, hcells b hb f hf, ?_, ?_⟩
        · by_cases hba : b = a <;> simp [hba]
        · by_cases hba : b = a
          · simp [hba]
          · simp [hba, Ne.symm hba]
      · rw [requestsAt_cons hself]
        congr 1
        symm
        apply requestsAt_congr
        intro b hb
        obtain ⟨f, hf⟩ := hl.linked.mem hb
        rw [hcells b hb f hf, hf]
        by_cases hba : b = a <;> simp [hba]

/-- A number that is in the backlog is answered from it, to the sender of the
new packet, which is all that changes in the request that was found; another one
leaves the backlog alone. -/
theorem ikcblTryRespondFromBacklog_cases {bl : Backlog} {rs : List IkcRequest} (h : Holds bl rs)
    (hans : ∀ r ∈ rs, Answered r) (request : IkcRequest) :
    (request.requestNbr ∉ numbers rs ∧ ikcblTryRespondFromBacklog bl request = .ok (bl, none)) ∨
      ∃ rs₁ q rs₂ bl' pid, rs = rs₁ ++ q :: rs₂ ∧ q.requestNbr = request.requestNbr ∧
        ikcblTryRespondFromBacklog bl request = .ok (bl', some ⟨request.cliaddr,
          ikcpPackProcCreatResp (ikcrUnpackReqId request.requestNbr) pid⟩) ∧
        Holds bl' (rs₁ ++ { q with cliaddr := request.cliaddr } :: rs₂) := by
  obtain ⟨l, hl, rfl⟩ := h
  rcases hl.seek_number request.requestNbr with
    ⟨hnone, habsent⟩ | ⟨l₁, a, e, l₂, rfl, he, hnbr, hsome, -⟩
  · exact .inl ⟨habsent, by simp only [ikcblTryRespondFromBacklog, hnone, ok_bind]⟩
  · let f : BacklogElem → BacklogElem := fun e =>
      { e with request := { e.request with cliaddr := request.cliaddr } }
    have hsplit : requestsAt bl.elems (l₁ ++ a :: l₂) =
        requestsAt bl.elems l₁ ++ e.request :: requestsAt bl.elems l₂ := by
      rw [requestsAt_append, requestsAt_cons he]
    obtain ⟨elems, hupd, hcell⟩ := Heap.update_spec f he
    have hself : elems.cell a = some (f e) := by rw [hcell, if_pos rfl]
    have hrest : ∀ l : List Nat, a ∉ l → requestsAt elems l = requestsAt bl.elems l := by
      intro l ha
      apply requestsAt_congr
      intro b hb
      have hba : b ≠ a := ne_of_mem_of_not_mem hb ha
      rw [hcell, if_neg hba]
    obtain ⟨hreq, pid, hpid⟩ : Answered e.request := hans _ (by rw [hsplit]; simp)
    refine .inr ⟨_, e.request, _, ⟨elems, bl.list⟩, pid, hsplit, hnbr, ?_,
      ⟨l₁ ++ a :: l₂, ⟨hl.head, hl.nodup, ?_⟩, ?_⟩⟩
    · have hresp : ikcrRespondToClient (f e).request = .ok ⟨request.cliaddr,
          ikcpPackProcCreatResp (ikcrUnpackReqId request.requestNbr) pid⟩ := by
        rw [← hnbr]
        exact respondToClient_eq hreq hpid
      have hload : elems.load (some a) = .ok (f e) := Heap.load_some hself
      simp only [ikcblTryRespondFromBacklog, hsome, ok_bind]
      rw [hupd, ok_bind, hload, ok_bind, hresp, ok_bind]
    · apply hl.linked.congr
      intro b _ c hc
      by_cases hba : b = a
      · refine ⟨f c, ?_, rfl, rfl⟩
        rw [hba, he] at hc
        rw [hba, hself, Option.some.inj hc]
      · exact ⟨c, by rw [hcell, if_neg hba, hc], rfl, rfl⟩
    · obtain ⟨hnodup, -⟩ := List.nodup_cons.mp (List.nodup_middle.mp hl.nodup)
      rw [List.mem_append, not_or] at hnodup
      rw [requestsAt_append, requestsAt_cons hself, hrest l₁ hnodup.1, hrest l₂ hnodup.2]

theorem numbers_readdressed (rs₁ rs₂ : List IkcRequest) (q : IkcRequest) (cliaddr : SockaddrIn) :
    numbers (rs₁ ++ { q with cliaddr := cliaddr } :: rs₂) = numbers (rs₁ ++ q :: rs₂) := by
  simp [numbers]

theorem answered_readdressed {rs₁ rs₂ : List IkcRequest} {q : IkcRequest}
    (hans : ∀ r ∈ rs₁ ++ q :: rs₂, Answered r) (cliaddr : SockaddrIn) :
    ∀ r ∈ rs₁ ++ { q with cliaddr := cliaddr } :: rs₂, Answered r := by
  intro r hr
  rcases List.mem_append.mp hr with hr | hr
  · exact hans r (List.mem_append_left _ hr)
  · rcases List.mem_cons.mp hr with rfl | hr
    · exact hans q (by simp)
    · exact hans r (by simp [hr])

theorem ikcblRemoveRequest_absent {bl : Backlog} {rs : List IkcRequest} (h : Holds bl rs)
    {nbr : UInt32} (habsent : nbr ∉ numbers rs) : ikcblRemoveRequest bl nbr = .ok (bl, -1) := by
  obtain ⟨l, hl, rfl⟩ := h
  rcases hl.seek_number nbr with ⟨hnone, -⟩ | ⟨_, _, _, _, _, _, _, _, hmem⟩
  · simp only [ikcblRemoveRequest, hnone, ok_bind]
  · exact absurd hmem habsent

/-- Nothing is ever evicted for a request that was not found. -/
theorem ikcblRemoveThreadsLastRequest_absent {bl : Backlog} {rs : List IkcRequest} (h : Holds bl rs)
    {request : IkcRequest} (habsent : request.requestNbr ∉ numbers rs) :
    ∃ result, ikcblRemoveThreadsLastRequest bl request = .ok (bl, result) := by
  have hremove := ikcblRemoveRequest_absent h habsent
  obtain ⟨l, hl, -⟩ := h
  rcases hl.seek_cases fun r =>
      !(r.hostId ≠ request.hostId && r.threadId ≠ request.threadId) with
    ⟨hnone, -⟩ | ⟨_, a, _, _, _, _, _, hsome⟩
  · exact ⟨-1, by simp only [ikcblRemoveThreadsLastRequest, hnone, ok_bind]⟩
  · exact ⟨0, by simp only [ikcblRemoveThreadsLastRequest, hsome, ok_bind, hremove]⟩

end Dkmp.Ikcd
