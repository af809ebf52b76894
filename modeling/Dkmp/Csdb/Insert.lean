import Dkmp.Csdb.Write

/-! # Creating a child

A new entry is linked into the child list of its parent between two parts of it,
`l₁` and `l₂`: the linear build always inserts at the front, the binary build
where its bisection ends. `Rep.grow` states the net effect of both.
-/

namespace Dkmp.Csdb

open Machine

variable {b : Search} {db db' : Database} {L : Layout} {t : Tree} {p : UpPath} {d : Node}

def Layout.place (L : Layout) (q : UpPath) (entry name : Nat) : Layout where
  addr := fun r => if r = q then entry else L.addr r
  owner := fun a => if a = name then (q, false) else L.owner a

theorem Rep.mono (h : Rep b db L t) (root : db'.root = db.root)
    (entries : ∀ a c, db.entries.cell a = some c → db'.entries.cell a = some c)
    (strings : ∀ a v, db.strings.cell a = some v → db'.strings.cell a = some v) :
    Rep b db' L t where
  root := by rw [root, h.root]
  inj := h.inj
  lt := h.lt
  cell := by
    intro q d hd
    obtain ⟨c, hc, hrep⟩ := h.cell q d hd
    refine ⟨c, entries _ c hc, hrep.frame ?_ (fun _ _ => rfl) rfl⟩
    exact fun a v ha _ => ⟨strings a v ha, rfl⟩
  linked := by
    intro q d hd
    apply (h.linked q d hd).congr
    exact fun a _ c hc => ⟨c, entries a c hc, rfl, rfl⟩
  sorted := h.sorted

/-- The cell at `a` once the two parts `l₁` and `l₂` of the child list of `p` are
spliced anew: `fwd` now follows `l₁`, `back` now precedes `l₂`, and the counter
of `p` has moved by `step`. -/
def spliced (b : Search) (L : Layout) (p : UpPath) (l₁ l₂ : List CStr) (fwd back : Ptr)
    (step : Nat) (a : Nat) (c : Csdbe) : Csdbe :=
  { c with
    next := if l₁.getLast?.map (L.kid p) = some a then fwd else c.next
    prev := if l₂.head?.map (L.kid p) = some a then back else c.prev
    childs := if a = L.addr p ∧ l₁ = [] then fwd else c.childs
    nbrEntries := if a = L.addr p ∧ b = .binary then uint (c.nbrEntries + step) else c.nbrEntries }

/-- The net effect of a new child: its own cell, its name buffer and the links
to it. -/
structure Linking (b : Search) (db db' : Database) (L : Layout) (p : UpPath) (n : CStr)
    (l₁ l₂ : List CStr) (now : Int) : Prop where
  root : db'.root = db.root
  locked : db'.locked = db.locked
  strings : db'.strings = db.strings.alloc n
  new : db'.entries.cell db.entries.next = some
    ⟨some db.strings.next, none, none, some (L.addr p), l₂.head?.map (L.kid p),
      l₁.getLast?.map (L.kid p), now, false, 0⟩
  old : ∀ a c, db.entries.cell a = some c →
    db'.entries.cell a = some
      (spliced b L p l₁ l₂ (some db.entries.next) (some db.entries.next) 1 a c)

section Grow

variable {n : CStr} {l₁ l₂ : List CStr} {now : Int}

theorem place_addr (hnew : ¬ (t.node (n :: p)).isSome) {q : UpPath} (hq : (t.node q).isSome)
    (A S : Nat) : (L.place (n :: p) A S).addr q = L.addr q := by
  apply if_neg
  intro he
  exact hnew (he ▸ hq)

theorem place_kid (hnew : ¬ (t.node (n :: p)).isSome) {q : UpPath} {d : Node}
    (hd : t.node q = some d) {m : CStr} (hm : m ∈ d.kids) (A S : Nat) :
    (L.place (n :: p) A S).kid q m = L.kid q m :=
  place_addr hnew (t.kid_isSome hd hm) A S

theorem place_kids (hnew : ¬ (t.node (n :: p)).isSome) {q : UpPath} {d : Node}
    (hd : t.node q = some d) {l : List CStr} (hl : l ⊆ d.kids) (A S : Nat) :
    l.map ((L.place (n :: p) A S).kid q) = l.map (L.kid q) :=
  List.map_congr_left fun _ hm => place_kid hnew hd (hl hm) A S

theorem place_kid_self (A S : Nat) : (L.place (n :: p) A S).kid p n = A := if_pos rfl

theorem place_addr_self (A S : Nat) : (L.place (n :: p) A S).addr (n :: p) = A := if_pos rfl

theorem place_owner_old {a S : Nat} (ha : a < S) (q : UpPath) (A : Nat) :
    (L.place q A S).owner a = L.owner a :=
  if_neg (Nat.ne_of_lt ha)

theorem Rep.place_inj (h : Rep b db L t) (hnew : ¬ (t.node (n :: p)).isSome) (S : Nat)
    {q r : UpPath} (hq : q = n :: p ∨ (t.node q).isSome) (hr : r = n :: p ∨ (t.node r).isSome)
    (heq : (L.place (n :: p) db.entries.next S).addr q =
      (L.place (n :: p) db.entries.next S).addr r) : q = r := by
  rcases hq with rfl | hq
  · rcases hr with rfl | hr
    · rfl
    · rw [place_addr_self, place_addr hnew hr] at heq
      exact absurd heq.symm (Nat.ne_of_lt (h.addr_lt_next hr))
  · rw [place_addr hnew hq] at heq
    rcases hr with rfl | hr
    · rw [place_addr_self] at heq
      exact absurd heq (Nat.ne_of_lt (h.addr_lt_next hq))
    · rw [place_addr hnew hr] at heq
      exact h.inj q r hq hr heq

theorem CellRep.placed {strings : Heap CStr} {c : Csdbe} {q : UpPath}
    (hrep : CellRep b strings L q d c) (hnew : ¬ (t.node (n :: p)).isSome)
    (hd : t.node q = some d) (A : Nat) :
    CellRep b (strings.alloc n) (L.place (n :: p) A strings.next) q d c := by
  have htail : (t.node q.tail).isSome := by
    cases q with
    | nil => exact t.root
    | cons m q =>
        have hmq : (t.node (m :: q)).isSome := by simp [hd]
        exact t.parent_isSome hmq
  have hstr : ∀ a v, strings.cell a = some v →
      (strings.alloc n).cell a = some v ∧
        (L.place (n :: p) A strings.next).owner a = L.owner a :=
    fun a v ha => ⟨Heap.alloc_old n ha, place_owner_old (Heap.lt_next ha) _ _⟩
  exact hrep.frame (fun a v ha _ => hstr a v ha) (fun m hm => place_kid hnew hd hm _ _)
    (place_addr hnew htail _ _)

section Spliced

variable {strings : Heap CStr} {L' : Layout} {c : Csdbe} {fwd back : Ptr} {step : Nat}

theorem CellRep.spliced_other {q : UpPath} (h : CellRep b strings L' q d c) {a : Nat}
    (ha : a ≠ L.addr p) :
    CellRep b strings L' q d (spliced b L p l₁ l₂ fwd back step a c) where
  childs := by simpa [spliced, ha] using h.childs
  parent := h.parent
  leaf := h.leaf
  mtime := h.mtime
  count := by simpa [spliced, ha] using h.count
  name := h.name
  value := h.value

theorem CellRep.spliced_parent (h : CellRep b strings L' p d c) {kids : List CStr}
    (first : (if l₁ = [] then fwd else c.childs) = kids.head?.map (L'.kid p))
    (count : b = .binary → uint (c.nbrEntries + step) = uint kids.length) :
    CellRep b strings L' p { d with kids := kids }
      (spliced b L p l₁ l₂ fwd back step (L.addr p) c) where
  childs := by simpa [spliced] using first
  parent := h.parent
  leaf := h.leaf
  mtime := h.mtime
  count := by
    intro hb
    simpa [spliced, hb] using count hb
  name := h.name
  value := h.value

end Spliced

theorem spliced_links (h : Rep b db L t) (hd : t.node p = some d) {l₁ l₂ : List CStr}
    (h₁ : l₁ ⊆ d.kids) (h₂ : l₂ ⊆ d.kids) {q : UpPath} (hq : q ≠ p) {m : CStr}
    (hm : (t.node (m :: q)).isSome) (fwd back : Ptr) (step : Nat) (c : Csdbe) :
    (spliced b L p l₁ l₂ fwd back step (L.kid q m) c).next = c.next ∧
      (spliced b L p l₁ l₂ fwd back step (L.kid q m) c).prev = c.prev := by
  have hne : ∀ x, x ∈ d.kids → L.kid p x ≠ L.kid q m := by
    intro x hx heq
    have := h.inj _ _ (t.kid_isSome hd hx) hm heq
    exact hq (List.cons.inj this).2.symm
  constructor
  · apply if_neg
    intro he
    obtain ⟨x, hx, hxa⟩ := Option.map_eq_some_iff.mp he
    exact hne x (h₁ (List.mem_of_getLast? hx)) hxa
  · apply if_neg
    intro he
    obtain ⟨x, hx, hxa⟩ := Option.map_eq_some_iff.mp he
    exact hne x (h₂ (List.mem_of_head? hx)) hxa

theorem grow_perm (hd : t.node p = some d) (hk : d.kids = l₁ ++ l₂) :
    ∀ d', t.node p = some d' → (l₁ ++ n :: l₂).Perm (n :: d'.kids) := by
  intro d' hd'
  obtain rfl : d = d' := Option.some.inj (hd.symm.trans hd')
  rw [hk]
  exact List.perm_middle

theorem Rep.grow (h : Rep b db L t) (hd : t.node p = some d) (hk : d.kids = l₁ ++ l₂)
    (hp : (t.node p).isSome) (hnew : ¬ (t.node (n :: p)).isSome) (hn : dot ∉ n)
    (sorted : b = .binary → (l₁ ++ n :: l₂).Pairwise (strcmp · · = .lt))
    (e : Linking b db db' L p n l₁ l₂ now) :
    Rep b db' (L.place (n :: p) db.entries.next db.strings.next)
      (t.grow n p (l₁ ++ n :: l₂) now hp hnew hn (grow_perm hd hk)) where
  root := by rw [e.root, h.root, place_addr hnew t.root]
  inj := by
    intro q r hq hr
    rw [Tree.grow_isSome] at hq hr
    exact h.place_inj hnew _ hq hr
  lt := by
    intro m q hq
    rw [Tree.grow_isSome] at hq
    rcases hq with heq | hq
    · obtain ⟨rfl, rfl⟩ := List.cons.inj heq
      rw [place_addr hnew hp]
      simpa [Layout.place] using h.addr_lt_next hp
    · rw [place_addr hnew hq, place_addr hnew (t.parent_isSome hq)]
      exact h.lt m q hq
  cell := by
    intro q d' hd'
    rw [e.strings]
    rcases Tree.grow_cases hd' with ⟨rfl, rfl⟩ | ⟨rfl, d₀, hd₀, rfl⟩ | ⟨hqp, hd'⟩
    · rw [place_addr_self, e.new]
      refine ⟨_, rfl, rfl, ?_, rfl, rfl, fun _ => rfl, ?_, rfl⟩
      · rw [List.tail_cons, place_addr hnew hp]
      · exact ⟨_, rfl, Heap.alloc_self _ _, if_pos rfl⟩
    · obtain rfl : d₀ = d := Option.some.inj (hd₀.symm.trans hd)
      obtain ⟨c, hc, hrep⟩ := h.cell q d₀ hd₀
      have hrep' := hrep.placed hnew hd₀ db.entries.next
      rw [place_addr hnew hp, e.old _ c hc]
      refine ⟨_, rfl, hrep'.spliced_parent ?_ ?_⟩
      · cases l₁ with
        | nil => simp [place_kid_self]
        | cons x l => simpa [hk] using hrep'.childs
      · intro hb
        simp only [hrep.count hb, hk, List.length_append, List.length_cons, uint]
        omega
    · have hqt : (t.node q).isSome := by simp [hd']
      obtain ⟨c, hc, hrep⟩ := h.cell q d' hd'
      rw [place_addr hnew hqt, e.old _ c hc]
      exact ⟨_, rfl, (hrep.placed hnew hd' _).spliced_other (h.addr_ne hqt hp hqp)⟩
  linked := by
    intro q d' hd'
    have h₁ : l₁ ⊆ d.kids := by simp [hk]
    have h₂ : l₂ ⊆ d.kids := by simp [hk]
    rcases Tree.grow_cases hd' with ⟨rfl, rfl⟩ | ⟨rfl, d₀, hd₀, rfl⟩ | ⟨hqp, hd'⟩
    · exact Linked.nil
    · have hmap : (l₁ ++ n :: l₂).map ((L.place (n :: q) db.entries.next db.strings.next).kid q) =
          l₁.map (L.kid q) ++ db.entries.next :: l₂.map (L.kid q) := by
        rw [List.map_append, List.map_cons, place_kid_self, place_kids hnew hd h₁,
          place_kids hnew hd h₂]
      have hlink := h.linked q d hd
      have hnodup := h.kids_nodup hd
      rw [hk, List.map_append] at hlink hnodup
      rw [hmap]
      apply hlink.insert hnodup
      · refine ⟨_, e.new, ?_, ?_⟩
        · rw [List.head?_map]
        · rw [List.getLast?_map, Option.or_none]
      · intro a _ c hc
        refine ⟨_, e.old a c hc, ?_, ?_⟩
        · rw [List.getLast?_map]
          rfl
        · rw [List.head?_map]
          rfl
    · rw [place_kids hnew hd' (List.Subset.refl _)]
      apply (h.linked q d' hd').congr
      intro a ha c hc
      obtain ⟨m, hm, rfl⟩ := List.mem_map.mp ha
      obtain ⟨hnext, hprev⟩ := spliced_links h hd h₁ h₂ hqp (t.kid_isSome hd' hm)
        (some db.entries.next) (some db.entries.next) 1 c
      exact ⟨_, e.old _ c hc, hnext, hprev⟩
  sorted := by
    intro hb q d' hd'
    rcases Tree.grow_cases hd' with ⟨rfl, rfl⟩ | ⟨rfl, d₀, hd₀, rfl⟩ | ⟨-, hd'⟩
    · exact List.Pairwise.nil
    · exact sorted hb
    · exact h.sorted hb q d' hd'

end Grow

/-! ## The two builds -/

section Append

variable {n : CStr} {now : Int}

def created (name : Nat) (now : Int) : Csdbe := { Csdbe.zero with name := some name, mtime := now }

structure Creation (db db' : Database) (n : CStr) (now : Int) : Prop where
  root : db'.root = db.root
  locked : db'.locked = db.locked
  strings : db'.strings = db.strings.alloc n
  new : db'.entries.cell db.entries.next = some (created db.strings.next now)
  old : ∀ a, a ≠ db.entries.next → db'.entries.cell a = db.entries.cell a

theorem csdbSetName_unnamed {a : Nat} {e : Csdbe} (he : db.entries.cell a = some e)
    (hname : e.name = none) :
    csdbSetName db (some a) (some n) = .ok { db with
      entries := db.entries.modify a
        (fun e => { e with name := some db.strings.next, isLeaf := false })
      strings := db.strings.alloc n } := by
  simp only [csdbSetName, Heap.load_some he, ok_bind, hname, Heap.free_none, Heap.update_some _ he]

theorem csdbSetValue_unset {a : Nat} {e : Csdbe} (he : db.entries.cell a = some e)
    (hvalue : e.value = none) :
    csdbSetValue db (some a) none now = .ok { db with
      entries := db.entries.modify a (fun e => { e with value := none, mtime := now }) } := by
  simp only [csdbSetValue, Heap.load_some he, ok_bind, hvalue, Heap.free_none,
    Heap.update_some _ he]

theorem csdbCreateEntry_spec (db : Database) (n : CStr) (now : Int) :
    ∃ db', csdbCreateEntry db (some n) none now = .ok (some db.entries.next, db') ∧
      Creation db db' n now := by
  have hzero : (db.entries.alloc .zero).cell db.entries.next = some .zero := Heap.alloc_self _ _
  have hnamed := Heap.modify_self
    (fun e => { e with name := some db.strings.next, isLeaf := false }) hzero
  refine ⟨{ db with
      entries := ((db.entries.alloc .zero).modify db.entries.next
        (fun e => { e with name := some db.strings.next, isLeaf := false })).modify
          db.entries.next (fun e => { e with value := none, mtime := now })
      strings := db.strings.alloc n }, ?_, rfl, rfl, rfl, Heap.modify_self _ hnamed, ?_⟩
  · unfold csdbCreateEntry
    simp only
    rw [csdbSetName_unnamed hzero rfl, ok_bind, csdbSetValue_unset hnamed rfl, ok_bind]
  · intro a ha
    rw [Heap.modify_other _ ha, Heap.modify_other _ ha, Heap.alloc_cell, if_neg ha]

variable {db₁ : Database}

theorem Creation.rep (e : Creation db db₁ n now) (h : Rep b db L t) : Rep b db₁ L t := by
  apply h.mono e.root
  · intro a c hc
    have hlt := Heap.lt_next hc
    rw [e.old a (by omega), hc]
  · intro a v ha
    rw [e.strings]
    exact Heap.alloc_old n ha

theorem Creation.cell (e : Creation db db₁ n now) {a : Nat} {c : Csdbe}
    (hc : db.entries.cell a = some c) : a ≠ db.entries.next ∧ db₁.entries.cell a = some c := by
  have hlt := Heap.lt_next hc
  exact ⟨by omega, by rw [e.old a (by omega), hc]⟩

theorem linearAppendChild_spec (h : Rep .linear db L t) (hd : t.node p = some d)
    (e : Creation db db₁ n now) :
    ∃ db', linearAppendChild db₁ (some (L.addr p)) (some db.entries.next) = .ok db' ∧
      Linking .linear db db' L p n [] d.kids now := by
  obtain ⟨c, hc, hrep⟩ := h.cell p d hd
  obtain ⟨hpA, hc₁⟩ := e.cell hc
  obtain ⟨E₁, hu₁, hE₁⟩ := Heap.update_spec (fun c' : Csdbe =>
    { c' with next := c.childs, prev := none, parent := some (L.addr p) }) e.new
  have hA₁ := (hE₁ db.entries.next).trans (if_pos rfl)
  simp only [linearAppendChild, Heap.load_some hc₁, ok_bind, hu₁, Heap.load_some hA₁]
  cases hk : d.kids with
  | nil =>
      have hchilds : c.childs = none := by rw [hrep.childs, hk]; rfl
      obtain ⟨E₂, hu₂, hE₂⟩ := Heap.update_spec
        (fun e : Csdbe => { e with childs := some db.entries.next })
        (((hE₁ _).trans (if_neg hpA)).trans hc₁)
      simp only [hchilds, ne_eq, not_true_eq_false, if_false, ok_bind, hu₂]
      refine ⟨_, rfl, e.root, e.locked, e.strings, ?_, ?_⟩
      · simp [hE₂, Ne.symm hpA, hA₁, created, hchilds, Csdbe.zero]
      · intro a ca hca
        obtain ⟨haA, hca₁⟩ := e.cell hca
        by_cases hap : a = L.addr p
        · subst hap
          obtain rfl : ca = c := Option.some.inj (hca.symm.trans hc)
          simp [hE₂, spliced]
        · simp [hE₂, hap, hE₁, haA, hca₁, spliced]
  | cons x l =>
      obtain ⟨dx, cx, hdx, hcx, -, -, -⟩ := h.kid_cell hd (hk.trans (List.nil_append _).symm)
      obtain ⟨hxA, hcx₁⟩ := e.cell hcx
      have hxp : L.kid p x ≠ L.addr p := h.kid_ne hd (by simp [hk])
      have hchilds : c.childs = some (L.kid p x) := by rw [hrep.childs, hk]; rfl
      obtain ⟨E₂, hu₂, hE₂⟩ := Heap.update_spec
        (fun e : Csdbe => { e with prev := some db.entries.next })
        (((hE₁ _).trans (if_neg hxA)).trans hcx₁)
      obtain ⟨E₃, hu₃, hE₃⟩ := Heap.update_spec
        (fun e : Csdbe => { e with childs := some db.entries.next })
        (((hE₂ _).trans (if_neg (Ne.symm hxp))).trans (((hE₁ _).trans (if_neg hpA)).trans hc₁))
      simp only [hchilds, ne_eq, reduceCtorEq, not_false_eq_true, if_true, hu₂, ok_bind, hu₃]
      refine ⟨_, rfl, e.root, e.locked, e.strings, ?_, ?_⟩
      · simp [hE₃, hE₂, Ne.symm hpA, Ne.symm hxA, hA₁, created, hchilds, Csdbe.zero]
      · intro a ca hca
        obtain ⟨haA, hca₁⟩ := e.cell hca
        by_cases hap : a = L.addr p
        · subst hap
          obtain rfl : ca = c := Option.some.inj (hca.symm.trans hc)
          simp [hE₃, spliced, hxp]
        by_cases hax : a = L.kid p x
        · subst hax
          obtain rfl : ca = cx := Option.some.inj (hca.symm.trans hcx)
          simp [hE₃, hE₂, hap, spliced]
        · simp [hE₃, hE₂, hap, hax, hE₁, haA, hca₁, spliced, Ne.symm hax]

/-- Behind the last child. -/
theorem insertAt_last (h : Rep .binary db L t) (hd : t.node p = some d)
    (hb : d.kids.length < 2 ^ 32) (e : Creation db db₁ n now) {l : List CStr} {x : CStr}
    (hk : d.kids = l ++ [x]) :
    ∃ db', insertAt db₁ (some (L.addr p)) (some db.entries.next) (d.kids.length + 1) = .ok db' ∧
      Linking .binary db db' L p n d.kids [] now := by
  obtain ⟨c, hc, hrep⟩ := h.cell p d hd
  obtain ⟨hpA, hc₁⟩ := e.cell hc
  obtain ⟨dx, cx, hdx, hcx, -, hnx, -⟩ := h.kid_cell hd hk
  obtain ⟨hxA, hcx₁⟩ := e.cell hcx
  have hxp : L.kid p x ≠ L.addr p := h.kid_ne hd (by simp [hk])
  have hcount := hrep.nbrEntries hb
  have hseek : csdbSeek db₁ c.childs (d.kids.length + 1) = .ok (some (L.kid p x)) := by
    rw [hrep.childs, csdbSeek_spec (e.rep h) hd]
    simp [hk]
  obtain ⟨E₁, hu₁, hE₁⟩ := Heap.update_spec
    (fun c' : Csdbe => { c' with next := cx.next, prev := some (L.kid p x) }) e.new
  obtain ⟨E₂, hu₂, hE₂⟩ := Heap.update_spec
    (fun f : Csdbe => { f with next := some db.entries.next })
    (((hE₁ _).trans (if_neg hxA)).trans hcx₁)
  obtain ⟨E₃, hu₃, hE₃⟩ := Heap.update_spec
    (fun c : Csdbe => { c with parent := some (L.addr p) })
    (((hE₂ _).trans (if_neg (Ne.symm hxA))).trans ((hE₁ _).trans (if_pos rfl)))
  obtain ⟨E₄, hu₄, hE₄⟩ := Heap.update_spec
    (fun e : Csdbe => { e with nbrEntries := uint (e.nbrEntries + 1) })
    (((hE₃ _).trans (if_neg hpA)).trans (((hE₂ _).trans (if_neg (Ne.symm hxp))).trans
      (((hE₁ _).trans (if_neg hpA)).trans hc₁)))
  simp only [insertAt, Heap.load_some hc₁, ok_bind, hseek, Heap.load_some hcx₁, hcount,
    gt_iff_lt, Nat.lt_add_one, if_true, hu₁, hu₂, hu₃, hu₄]
  refine ⟨_, rfl, e.root, e.locked, e.strings, ?_, ?_⟩
  · simp [hE₄, hE₃, Ne.symm hpA, created, Csdbe.zero, hnx, hk]
  · intro a ca hca
    obtain ⟨haA, hca₁⟩ := e.cell hca
    have hlast : d.kids.getLast?.map (L.kid p) = some (L.kid p x) := by simp [hk]
    have hne : d.kids ≠ [] := by simp [hk]
    simp only [spliced, hlast, hne, and_false, if_false, List.head?_nil, Option.map_none]
    by_cases hap : a = L.addr p
    · subst hap
      obtain rfl : ca = c := Option.some.inj (hca.symm.trans hc)
      simp [hE₄, hxp]
    by_cases hax : a = L.kid p x
    · subst hax
      obtain rfl : ca = cx := Option.some.inj (hca.symm.trans hcx)
      simp [hE₄, hE₃, hE₂, hap, haA]
    · simp [hE₄, hE₃, hE₂, hE₁, hap, hax, haA, hca₁, Ne.symm hax]

theorem insertAt_first (h : Rep .binary db L t) (hd : t.node p = some d)
    (hb : d.kids.length < 2 ^ 32) (e : Creation db db₁ n now) {l : List CStr} {x : CStr}
    (hk : d.kids = x :: l) :
    ∃ db', insertAt db₁ (some (L.addr p)) (some db.entries.next) 1 = .ok db' ∧
      Linking .binary db db' L p n [] d.kids now := by
  obtain ⟨c, hc, hrep⟩ := h.cell p d hd
  obtain ⟨hpA, hc₁⟩ := e.cell hc
  obtain ⟨dx, cx, hdx, hcx, -, -, hpx⟩ := h.kid_cell hd (hk.trans (List.nil_append _).symm)
  obtain ⟨hxA, hcx₁⟩ := e.cell hcx
  have hxp : L.kid p x ≠ L.addr p := h.kid_ne hd (by simp [hk])
  have hcount := hrep.nbrEntries hb
  have hchilds : c.childs = some (L.kid p x) := by rw [hrep.childs, hk]; rfl
  have hseek : csdbSeek db₁ (some (L.kid p x)) 1 = .ok (some (L.kid p x)) := by
    rw [← hchilds, hrep.childs, csdbSeek_spec (e.rep h) hd]
    simp [hk]
  have hprev : cx.prev = none := hpx
  have hlen : ¬ 1 > d.kids.length := by simp [hk]
  obtain ⟨E₁, hu₁, hE₁⟩ := Heap.update_spec
    (fun c' : Csdbe => { c' with next := some (L.kid p x), prev := none }) e.new
  obtain ⟨E₂, hu₂, hE₂⟩ := Heap.update_spec
    (fun f : Csdbe => { f with prev := some db.entries.next })
    (((hE₁ _).trans (if_neg hxA)).trans hcx₁)
  have hc₂ : E₂.cell (L.addr p) = some c :=
    ((hE₂ _).trans (if_neg (Ne.symm hxp))).trans (((hE₁ _).trans (if_neg hpA)).trans hc₁)
  obtain ⟨E₃, hu₃, hE₃⟩ := Heap.update_spec
    (fun e : Csdbe => { e with childs := some db.entries.next }) hc₂
  obtain ⟨E₄, hu₄, hE₄⟩ := Heap.update_spec
    (fun c : Csdbe => { c with parent := some (L.addr p) })
    (((hE₃ _).trans (if_neg (Ne.symm hpA))).trans
      (((hE₂ _).trans (if_neg (Ne.symm hxA))).trans ((hE₁ _).trans (if_pos rfl))))
  obtain ⟨E₅, hu₅, hE₅⟩ := Heap.update_spec
    (fun e : Csdbe => { e with nbrEntries := uint (e.nbrEntries + 1) })
    (((hE₄ _).trans (if_neg hpA)).trans ((hE₃ _).trans (if_pos rfl)))
  simp only [insertAt, Heap.load_some hc₁, ok_bind, hseek, Heap.load_some hcx₁, hcount, hlen,
    if_false, hprev, ne_eq, not_true_eq_false, hu₁, hu₂, Heap.load_some hc₂, hchilds, if_true, hu₃,
    hu₄, hu₅]
  refine ⟨_, rfl, e.root, e.locked, e.strings, ?_, ?_⟩
  · simp [hE₅, hE₄, Ne.symm hpA, created, Csdbe.zero, hk]
  · intro a ca hca
    obtain ⟨haA, hca₁⟩ := e.cell hca
    have hhead : d.kids.head?.map (L.kid p) = some (L.kid p x) := by simp [hk]
    simp only [spliced, hhead, List.getLast?_nil, Option.map_none, reduceCtorEq, if_false]
    by_cases hap : a = L.addr p
    · subst hap
      obtain rfl : ca = c := Option.some.inj (hca.symm.trans hc)
      simp [hE₅, hxp]
    by_cases hax : a = L.kid p x
    · subst hax
      obtain rfl : ca = cx := Option.some.inj (hca.symm.trans hcx)
      simp [hE₅, hE₄, hE₃, hE₂, hap, haA]
    · simp [hE₅, hE₄, hE₃, hE₂, hE₁, hap, hax, haA, hca₁, Ne.symm hax]

theorem insertAt_middle (h : Rep .binary db L t) (hd : t.node p = some d)
    (hb : d.kids.length < 2 ^ 32) (e : Creation db db₁ n now) {l₁ l₂ : List CStr} {x y : CStr}
    (hk : d.kids = l₁ ++ y :: x :: l₂) :
    ∃ db', insertAt db₁ (some (L.addr p)) (some db.entries.next) (l₁.length + 2) = .ok db' ∧
      Linking .binary db db' L p n (l₁ ++ [y]) (x :: l₂) now := by
  have hkx : d.kids = (l₁ ++ [y]) ++ x :: l₂ := by simp [hk]
  obtain ⟨c, hc, hrep⟩ := h.cell p d hd
  obtain ⟨hpA, hc₁⟩ := e.cell hc
  obtain ⟨dx, cx, hdx, hcx, -, -, hpx⟩ := h.kid_cell hd hkx
  obtain ⟨hxA, hcx₁⟩ := e.cell hcx
  obtain ⟨dy, cy, hdy, hcy, -, -, -⟩ := h.kid_cell hd hk
  obtain ⟨hyA, hcy₁⟩ := e.cell hcy
  have hxp : L.kid p x ≠ L.addr p := h.kid_ne hd (by simp [hk])
  have hyp : L.kid p y ≠ L.addr p := h.kid_ne hd (by simp [hk])
  have hnodup := h.kids_nodup hd
  have hxy : L.kid p x ≠ L.kid p y := by
    intro he
    rw [hk] at hnodup
    simp [he, List.nodup_append] at hnodup
  have hcount := hrep.nbrEntries hb
  have hseek : csdbSeek db₁ c.childs (l₁.length + 2) = .ok (some (L.kid p x)) := by
    rw [hrep.childs, csdbSeek_spec (e.rep h) hd]
    have hidx : min (l₁.length + 2 - 1) (d.kids.length - 1) = (l₁ ++ [y]).length := by
      simp [hk]
    rw [hidx, hkx]
    simp
  have hprev : cx.prev = some (L.kid p y) := by simp [hpx]
  have hlen : ¬ l₁.length + 2 > d.kids.length := by simp [hk]
  have hchilds : c.childs ≠ some (L.kid p x) := by
    rw [hrep.childs]
    intro he
    rw [hkx, List.map_append] at hnodup
    rw [hkx] at he
    obtain ⟨z, hz, hzx⟩ := Option.map_eq_some_iff.mp he
    have hzmem : z ∈ l₁ ++ [y] := by
      cases l₁ <;> simp at hz <;> simp [hz]
    exact (List.disjoint_of_nodup_append hnodup) (List.mem_map_of_mem hzmem) (by simp [hzx])
  obtain ⟨E₁, hu₁, hE₁⟩ := Heap.update_spec (fun c' : Csdbe =>
    { c' with next := some (L.kid p x), prev := some (L.kid p y) }) e.new
  obtain ⟨E₂, hu₂, hE₂⟩ := Heap.update_spec
    (fun f : Csdbe => { f with next := some db.entries.next })
    (((hE₁ _).trans (if_neg hyA)).trans hcy₁)
  obtain ⟨E₃, hu₃, hE₃⟩ := Heap.update_spec
    (fun f : Csdbe => { f with prev := some db.entries.next })
    (((hE₂ _).trans (if_neg hxy)).trans (((hE₁ _).trans (if_neg hxA)).trans hcx₁))
  have hc₃ : E₃.cell (L.addr p) = some c :=
    ((hE₃ _).trans (if_neg (Ne.symm hxp))).trans (((hE₂ _).trans (if_neg (Ne.symm hyp))).trans
      (((hE₁ _).trans (if_neg hpA)).trans hc₁))
  obtain ⟨E₄, hu₄, hE₄⟩ := Heap.update_spec
    (fun c : Csdbe => { c with parent := some (L.addr p) })
    (((hE₃ _).trans (if_neg (Ne.symm hxA))).trans
      (((hE₂ _).trans (if_neg (Ne.symm hyA))).trans ((hE₁ _).trans (if_pos rfl))))
  obtain ⟨E₅, hu₅, hE₅⟩ := Heap.update_spec
    (fun e : Csdbe => { e with nbrEntries := uint (e.nbrEntries + 1) })
    (((hE₄ _).trans (if_neg hpA)).trans hc₃)
  simp only [insertAt, Heap.load_some hc₁, ok_bind, hseek, Heap.load_some hcx₁, hcount, hlen,
    if_false, hprev, ne_eq, reduceCtorEq, not_false_eq_true, if_true, hu₁, hu₂, hu₃,
    Heap.load_some hc₃, hchilds, hu₄, hu₅]
  refine ⟨_, rfl, e.root, e.locked, e.strings, ?_, ?_⟩
  · simp [hE₅, hE₄, Ne.symm hpA, created, Csdbe.zero]
  · intro a ca hca
    obtain ⟨haA, hca₁⟩ := e.cell hca
    simp only [spliced, List.getLast?_concat, List.head?_cons, Option.map_some]
    by_cases hap : a = L.addr p
    · subst hap
      obtain rfl : ca = c := Option.some.inj (hca.symm.trans hc)
      simp [hE₅, hxp, hyp]
    by_cases hax : a = L.kid p x
    · subst hax
      obtain rfl : ca = cx := Option.some.inj (hca.symm.trans hcx)
      simp [hE₅, hE₄, hE₃, hap, haA, Ne.symm hxy]
    by_cases hay : a = L.kid p y
    · subst hay
      obtain rfl : ca = cy := Option.some.inj (hca.symm.trans hcy)
      simp [hE₅, hE₄, hE₃, hE₂, hap, haA, hxy, Ne.symm hxy]
    · simp [hE₅, hE₄, hE₃, hE₂, hE₁, hap, hax, hay, haA, hca₁, Ne.symm hax, Ne.symm hay]

theorem Bracket.sorted {l₁ l₂ : List CStr} (h : Bracket (l₁ ++ l₂) n l₁.length l₁.length)
    (hs : (l₁ ++ l₂).Pairwise (strcmp · · = .lt)) :
    (l₁ ++ n :: l₂).Pairwise (strcmp · · = .lt) := by
  have hlt : ∀ m ∈ l₁, strcmp m n = .lt := by
    intro m hm
    obtain ⟨j, hj, rfl⟩ := List.mem_iff_getElem.mp hm
    exact h.lt j _ (by rw [List.getElem?_append_left hj, List.getElem?_eq_getElem hj]) hj
  have hgt : ∀ m ∈ l₂, strcmp n m = .lt := by
    intro m hm
    obtain ⟨j, hj, rfl⟩ := List.mem_iff_getElem.mp hm
    refine h.gt (l₁.length + j) _ ?_ (by omega)
    rw [List.getElem?_append_right (by omega), Nat.add_sub_cancel_left,
      List.getElem?_eq_getElem hj]
  rw [List.pairwise_append] at hs ⊢
  obtain ⟨h₁, h₂, h₁₂⟩ := hs
  refine ⟨h₁, List.pairwise_cons.mpr ⟨hgt, h₂⟩, ?_⟩
  intro m hm m' hm'
  rcases List.mem_cons.mp hm' with rfl | hm'
  · exact hlt m hm
  · exact h₁₂ m hm m' hm'

theorem binaryAppendChild_empty (h : Rep .binary db L t) (hd : t.node p = some d)
    (hk : d.kids = []) (e : Creation db db₁ n now) :
    ∃ db', binaryAppendChild db₁ (some (L.addr p)) (some db.entries.next) = .ok db' ∧
      Linking .binary db db' L p n [] [] now := by
  obtain ⟨c, hc, hrep⟩ := h.cell p d hd
  obtain ⟨hpA, hc₁⟩ := e.cell hc
  have hchilds : c.childs = none := by rw [hrep.childs, hk]; rfl
  obtain ⟨E₁, hu₁, hE₁⟩ := Heap.update_spec
    (fun e : Csdbe => { e with childs := some db.entries.next }) hc₁
  obtain ⟨E₂, hu₂, hE₂⟩ := Heap.update_spec
    (fun c' : Csdbe => { c' with prev := none, next := none, parent := some (L.addr p) })
    (((hE₁ _).trans (if_neg (Ne.symm hpA))).trans e.new)
  obtain ⟨E₃, hu₃, hE₃⟩ := Heap.update_spec
    (fun e : Csdbe => { e with nbrEntries := uint (e.nbrEntries + 1) })
    (((hE₂ _).trans (if_neg hpA)).trans ((hE₁ _).trans (if_pos rfl)))
  simp only [binaryAppendChild, Heap.load_some hc₁, ok_bind, hchilds, if_true, hu₁, hu₂, hu₃]
  refine ⟨_, rfl, e.root, e.locked, e.strings, ?_, ?_⟩
  · simp [hE₃, hE₂, Ne.symm hpA, created, Csdbe.zero]
  · intro a ca hca
    obtain ⟨haA, hca₁⟩ := e.cell hca
    by_cases hap : a = L.addr p
    · subst hap
      obtain rfl : ca = c := Option.some.inj (hca.symm.trans hc)
      simp [hE₃, spliced]
    · simp [hE₃, hE₂, hE₁, hap, haA, hca₁, spliced]

/-- Where the bisection ends is where the new name belongs. -/
theorem insertAt_spec (h : Rep .binary db L t) (hd : t.node p = some d)
    (hb : d.kids.length < 2 ^ 32) (e : Creation db db₁ n now) {l₁ l₂ : List CStr}
    (hk : d.kids = l₁ ++ l₂) (hne : d.kids ≠ []) :
    ∃ db', insertAt db₁ (some (L.addr p)) (some db.entries.next) (l₁.length + 1) = .ok db' ∧
      Linking .binary db db' L p n l₁ l₂ now := by
  cases l₂ with
  | nil =>
      rw [List.append_nil] at hk
      obtain ⟨l, x, hl⟩ := (List.eq_nil_or_concat d.kids).resolve_left hne
      rw [List.concat_eq_append] at hl
      rw [← hk]
      exact insertAt_last h hd hb e hl
  | cons x l₂ =>
      rcases List.eq_nil_or_concat l₁ with rfl | ⟨l, y, rfl⟩
      · have hfirst := insertAt_first h hd hb e hk
        rwa [hk] at hfirst
      · have hk' : d.kids = l ++ y :: x :: l₂ := by simp [hk]
        simpa using insertAt_middle h hd hb e hk'

def appendAt (db : Database) (entry child : Ptr) : Bisect → Exec Database
  | .found _ => .ok db
  | .absent l => insertAt db entry child l

/-- With a child there already, the insertion bisects for the name of the new one. -/
theorem binaryAppendChild_bisects (h : Rep .binary db L t) (hd : t.node p = some d)
    (hb : d.kids.length < 2 ^ 32) (hk : d.kids ≠ []) (e : Creation db db₁ n now) :
    binaryAppendChild db₁ (some (L.addr p)) (some db.entries.next) =
      bisect db₁ (d.kids.head?.map (L.kid p)) d.kids.length n >>=
        appendAt db₁ (some (L.addr p)) (some db.entries.next) := by
  obtain ⟨c, hc, hrep⟩ := h.cell p d hd
  obtain ⟨-, hc₁⟩ := e.cell hc
  have hcount := hrep.nbrEntries hb
  have hname : db₁.strings.cell db.strings.next = some n := by
    rw [e.strings]
    exact Heap.alloc_self _ _
  have hchilds : d.kids.head?.map (L.kid p) ≠ none := by
    rw [ne_eq, Option.map_eq_none_iff, List.head?_eq_none_iff]
    exact hk
  simp only [binaryAppendChild, Heap.load_some hc₁, ok_bind, hrep.childs, if_neg hchilds,
    Heap.load_some e.new, created, Heap.load_some hname, hcount]
  rfl

theorem binaryAppendChild_settles {D : Prop} (h : Rep .binary db L t) (hd : t.node p = some d)
    (hb : Room D .binary d.kids) (hn : n ∉ d.kids) (e : Creation db db₁ n now) :
    Settles D (binaryAppendChild db₁ (some (L.addr p)) (some db.entries.next)) fun db' =>
      ∃ l₁ l₂, d.kids = l₁ ++ l₂ ∧ (l₁ ++ n :: l₂).Pairwise (strcmp · · = .lt) ∧
        d.kids.length + 1 < 2 ^ 32 ∧ Linking .binary db db' L p n l₁ l₂ now := by
  by_cases hk : d.kids = []
  · obtain ⟨db', hok, hlink⟩ := binaryAppendChild_empty h hd hk e
    exact .of_ok hok ⟨[], [], hk, by simp, by simp [hk], hlink⟩
  rw [binaryAppendChild_bisects h hd hb.count hk e]
  apply (bisect_settles (e.rep h) hd hb n).bind
  rintro r ⟨hpost, hroom⟩
  cases r with
  | found entry => exact absurd hpost.1 hn
  | absent l =>
      obtain ⟨hpos, hle, hbr⟩ := hpost
      have hsplit : d.kids = d.kids.take (l - 1) ++ d.kids.drop (l - 1) :=
        (List.take_append_drop _ _).symm
      have hlen : (d.kids.take (l - 1)).length = l - 1 := by
        rw [List.length_take]
        omega
      obtain ⟨db', hok, hlink⟩ := insertAt_spec h hd hb.count e hsplit hk
      rw [hlen, Nat.sub_add_cancel hpos] at hok
      refine .of_ok hok ⟨_, _, hsplit, ?_, hroom l rfl, hlink⟩
      apply Bracket.sorted
      · rw [hlen, ← hsplit]
        exact hbr
      · rw [← hsplit]
        exact h.sorted rfl p d hd

theorem csdbAppendChild_settles {D : Prop} (h : Rep b db L t) (hd : t.node p = some d)
    (hb : Room D b d.kids) (hn : n ∉ d.kids) (e : Creation db db₁ n now) :
    Settles D (csdbAppendChild b db₁ (some (L.addr p)) (some db.entries.next)) fun db' =>
      ∃ l₁ l₂, d.kids = l₁ ++ l₂ ∧
        (b = .binary → (l₁ ++ n :: l₂).Pairwise (strcmp · · = .lt)) ∧
        (b = .binary → d.kids.length + 1 < 2 ^ 32) ∧ Linking b db db' L p n l₁ l₂ now := by
  cases b with
  | linear =>
      obtain ⟨db', hok, hlink⟩ := linearAppendChild_spec h hd e
      exact .of_ok hok ⟨[], d.kids, rfl, by simp, by simp, hlink⟩
  | binary =>
      apply (binaryAppendChild_settles h hd hb hn e).mono
      rintro db' ⟨l₁, l₂, hk, hs, hroom, hlink⟩
      exact ⟨l₁, l₂, hk, fun _ => hs, fun _ => hroom, hlink⟩

def Counted (b : Search) (t : Tree) : Prop :=
  ∀ q d, t.node q = some d → b = .binary → d.kids.length < 2 ^ 32

structure NewChild (b : Search) (t t' : Tree) (n : CStr) (p : UpPath) (now : Int) : Prop where
  record : ∀ q, t'.record q = if q = n :: p then some (.fresh now) else t.record q
  node : t'.node (n :: p) = some ⟨.fresh now, []⟩
  counted : Counted b t → Counted b t'

theorem newChild_grow {l₁ l₂ : List CStr} (hd : t.node p = some d) (hk : d.kids = l₁ ++ l₂)
    (hp : (t.node p).isSome) (hnew : ¬ (t.node (n :: p)).isSome) (hn : dot ∉ n)
    (hroom : b = .binary → d.kids.length + 1 < 2 ^ 32) :
    NewChild b t (t.grow n p (l₁ ++ n :: l₂) now hp hnew hn (grow_perm hd hk)) n p now where
  record := Tree.grow_record hp hnew hn _
  node := by simp [Tree.grow]
  counted := by
    intro hcount q d' hd' hb
    rcases Tree.grow_cases hd' with ⟨rfl, rfl⟩ | ⟨rfl, d₀, hd₀, rfl⟩ | ⟨-, hd'⟩
    · simp
    · have hlen := hroom hb
      rw [hk, List.length_append] at hlen
      simp only [List.length_append, List.length_cons]
      omega
    · exact hcount q d' hd' hb

theorem newChild_settles {D : Prop} (h : Rep b db L t) (hd : t.node p = some d)
    (hb : Room D b d.kids) (hnew : ¬ (t.node (n :: p)).isSome) (hn : dot ∉ n) (now : Int) :
    ∃ db₁, csdbCreateEntry db (some n) none now = .ok (some db.entries.next, db₁) ∧
      Settles D (csdbAppendChild b db₁ (some (L.addr p)) (some db.entries.next)) fun db' =>
        ∃ L' t', Rep b db' L' t' ∧ L'.addr (n :: p) = db.entries.next ∧
          db'.locked = db.locked ∧ NewChild b t t' n p now := by
  obtain ⟨db₁, hcreate, e⟩ := csdbCreateEntry_spec db n now
  have hmem : n ∉ d.kids := fun hm => hnew (t.kid_isSome hd hm)
  have hp : (t.node p).isSome := by simp [hd]
  refine ⟨db₁, hcreate, (csdbAppendChild_settles h hd hb hmem e).mono ?_⟩
  rintro db' ⟨l₁, l₂, hk, hs, hroom, hlink⟩
  exact ⟨_, _, h.grow hd hk hp hnew hn hs hlink, if_pos rfl, hlink.locked,
    newChild_grow hd hk hp hnew hn hroom⟩

end Append

end Dkmp.Csdb
