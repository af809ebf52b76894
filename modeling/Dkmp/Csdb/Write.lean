import Dkmp.Csdb.Search

/-! # Changing what an entry carries

`csdb_set_value` and the `realloc` of `csdb_append_value_for_key` touch one
entry and its value buffer. `Rep.write` states their common net effect: no other
cell changes, and every string not owned by that value survives.
-/

namespace Dkmp.Csdb

open Machine

variable {b : Search} {db db' : Database} {L L' : Layout} {t : Tree} {p : UpPath} {d : Node}

/-- Frame: the fields of an entry depend on its own strings and on the addresses
of its parent and children only. -/
theorem CellRep.frame {strings strings' : Heap CStr} {c : Csdbe}
    (h : CellRep b strings L p d c)
    (str : ∀ a v, strings.cell a = some v → (L.owner a).1 = p →
      strings'.cell a = some v ∧ L'.owner a = L.owner a)
    (kids : ∀ n ∈ d.kids, L'.kid p n = L.kid p n) (parent : L'.addr p.tail = L.addr p.tail) :
    CellRep b strings' L' p d c where
  childs := by
    rw [h.childs]
    cases hk : d.kids with
    | nil => rfl
    | cons n l => simp [kids n (by simp [hk])]
  parent := by rw [h.parent, parent]
  leaf := h.leaf
  mtime := h.mtime
  count := h.count
  name := by
    obtain ⟨a, hn, ha, ho⟩ := h.name
    obtain ⟨ha', ho'⟩ := str a _ ha (by rw [ho])
    exact ⟨a, hn, ha', by rw [ho', ho]⟩
  value := by
    have hval := h.value
    cases hv : d.value with
    | none =>
        rw [hv] at hval
        exact hval
    | some v =>
        rw [hv] at hval
        obtain ⟨a, hp, ha, ho⟩ := hval
        obtain ⟨ha', ho'⟩ := str a _ ha (by rw [ho])
        exact ⟨a, hp, ha', by rw [ho', ho]⟩

theorem Layout.kid_congr (addr : L'.addr = L.addr) : L'.kid = L.kid := by
  funext q n
  rw [Layout.kid, Layout.kid, addr]

/-- The net effect of a change of one entry's value, leaf flag and time. -/
theorem Rep.write (h : Rep b db L t) (hd : t.node p = some d) {c : Csdbe}
    {f : Record → Record} (hc : db.entries.cell (L.addr p) = some c) (ptr : Ptr)
    (root : db'.root = db.root)
    (self : db'.entries.cell (L.addr p) = some { c with
      value := ptr, isLeaf := (f d.toRecord).leaf, mtime := (f d.toRecord).mtime })
    (other : ∀ a, a ≠ L.addr p → db'.entries.cell a = db.entries.cell a)
    (addr : L'.addr = L.addr)
    (str : ∀ a v, db.strings.cell a = some v → L.owner a ≠ (p, true) →
      db'.strings.cell a = some v ∧ L'.owner a = L.owner a)
    (value : ValueRep db'.strings L' p (f d.toRecord).value ptr) :
    Rep b db' L' (t.write p f) where
  root := by rw [root, h.root, addr]
  inj := by
    intro q r hq hr heq
    rw [Tree.write_isSome] at hq hr
    rw [addr] at heq
    exact h.inj q r hq hr heq
  lt := by
    intro n q hq
    rw [Tree.write_isSome] at hq
    rw [addr]
    exact h.lt n q hq
  cell := by
    intro q d' hd'
    rcases Tree.write_cases hd' with ⟨rfl, d₀, hd₀, rfl⟩ | ⟨hq, hd'⟩
    · obtain rfl : d₀ = d := Option.some.inj (hd₀.symm.trans hd)
      obtain ⟨c₀, hc₀, hrep⟩ := h.cell q d₀ hd₀
      obtain rfl : c₀ = c := Option.some.inj (hc₀.symm.trans hc)
      rw [addr]
      refine ⟨_, self, ?_, ?_, rfl, rfl, hrep.count, ?_, value⟩
      · rw [Layout.kid_congr addr]
        exact hrep.childs
      · simpa [addr] using hrep.parent
      · obtain ⟨a, hn, ha, ho⟩ := hrep.name
        obtain ⟨ha', ho'⟩ := str a _ ha (by simp [ho])
        exact ⟨a, hn, ha', by rw [ho', ho]⟩
    · obtain ⟨c', hc', hrep'⟩ := h.cell q d' hd'
      have hne : L.addr q ≠ L.addr p := h.addr_ne (by simp [hd']) (by simp [hd]) hq
      refine ⟨c', by rw [addr, other _ hne, hc'], ?_⟩
      apply hrep'.frame
      · intro a v ha ho
        exact str a v ha (fun he => hq (by rw [← ho, he]))
      · intro n _
        rw [Layout.kid_congr addr]
      · rw [addr]
  linked := by
    intro q d' hd'
    have hlink : ∃ d₀, t.node q = some d₀ ∧ d₀.kids = d'.kids := by
      rcases Tree.write_cases hd' with ⟨rfl, d₀, hd₀, rfl⟩ | ⟨-, hd'⟩
      · exact ⟨d₀, hd₀, rfl⟩
      · exact ⟨d', hd', rfl⟩
    obtain ⟨d₀, hd₀, hkids⟩ := hlink
    rw [← hkids, Layout.kid_congr addr]
    apply (h.linked q d₀ hd₀).congr
    intro a _ c' hc'
    by_cases ha : a = L.addr p
    · subst ha
      obtain rfl : c' = c := Option.some.inj (hc'.symm.trans hc)
      exact ⟨_, self, rfl, rfl⟩
    · exact ⟨c', by rw [other a ha, hc'], rfl, rfl⟩
  sorted := by
    intro hb q d' hd'
    rcases Tree.write_cases hd' with ⟨rfl, d₀, hd₀, rfl⟩ | ⟨-, hd'⟩
    · exact h.sorted hb q d₀ hd₀
    · exact h.sorted hb q d' hd'

/-! ## Value buffers -/

def Layout.own (L : Layout) (a : Nat) (o : UpPath × Bool) : Layout :=
  { L with owner := fun x => if x = a then o else L.owner x }

theorem free_value (h : CellRep b db.strings L p d c) :
    ∃ strings, db.strings.free c.value = .ok strings ∧ strings.next = db.strings.next ∧
      ∀ a v, db.strings.cell a = some v → L.owner a ≠ (p, true) → strings.cell a = some v := by
  have hval := h.value
  cases hv : d.value with
  | none =>
      rw [hv] at hval
      exact ⟨db.strings, by rw [hval]; rfl, rfl, fun a v ha _ => ha⟩
  | some w =>
      rw [hv] at hval
      obtain ⟨x, hp, hx, ho⟩ := hval
      refine ⟨db.strings.erase x, by rw [hp, Heap.free_some hx], rfl, ?_⟩
      intro a v ha hne
      rw [Heap.erase_other (fun he => hne (by rw [he, ho])), ha]

theorem alloc_value {strings : Heap CStr} (w : CStr) (hnext : strings.next = db.strings.next)
    (keep : ∀ a v, db.strings.cell a = some v → L.owner a ≠ (p, true) → strings.cell a = some v)
    (a : Nat) (v : CStr) (ha : db.strings.cell a = some v) (hne : L.owner a ≠ (p, true)) :
    (strings.alloc w).cell a = some v ∧ (L.own strings.next (p, true)).owner a = L.owner a := by
  have hlt := Heap.lt_next ha
  exact ⟨Heap.alloc_old w (keep a v ha hne), if_neg (by omega)⟩

theorem csdbSetValue_spec (h : Rep b db L t) (hd : t.node p = some d) (value : Option CStr)
    (now : Int) :
    ∃ db' L', csdbSetValue db (some (L.addr p)) value now = .ok db' ∧
      Rep b db' L' (t.write p (Record.set value now)) ∧ db'.locked = db.locked := by
  obtain ⟨c, hc, hrep⟩ := h.cell p d hd
  obtain ⟨strings, hfree, hnext, keep⟩ := free_value hrep
  cases value with
  | none =>
      refine ⟨{ db with
          entries := db.entries.modify (L.addr p) (fun e => { e with value := none, mtime := now })
          strings := strings }, L, ?_, ?_, rfl⟩
      · simp only [csdbSetValue, Heap.load_some hc, ok_bind, hfree, Heap.update_some _ hc]
      refine h.write hd hc none rfl ?_ ?_ ?_ ?_ ?_
      · rw [Heap.modify_self _ hc]
        simp [Record.set, hrep.leaf]
      · exact fun a ha => Heap.modify_other _ ha
      · rfl
      · exact fun a v ha hne => ⟨keep a v ha hne, rfl⟩
      · rfl
  | some w =>
      refine ⟨{ db with
          entries := db.entries.modify (L.addr p)
            (fun e => { e with value := some strings.next, isLeaf := true, mtime := now })
          strings := strings.alloc w }, L.own strings.next (p, true), ?_, ?_, rfl⟩
      · simp only [csdbSetValue, Heap.load_some hc, ok_bind, hfree, Heap.update_some _ hc]
      refine h.write hd hc (some strings.next) rfl ?_ ?_ ?_ ?_ ?_
      · rw [Heap.modify_self _ hc]
        rfl
      · exact fun a ha => Heap.modify_other _ ha
      · rfl
      · exact alloc_value w hnext keep
      · exact ⟨_, rfl, Heap.alloc_self _ _, if_pos rfl⟩

/-- The `realloc` and the two `strcat` of the append. -/
theorem realloc_spec (h : Rep b db L t) (hd : t.node p = some d) {old : CStr}
    (hold : d.value = some old) (more : CStr) :
    ∃ c a strings L', db.entries.cell (L.addr p) = some c ∧ c.value = some a ∧
      db.strings.cell a = some old ∧ db.strings.free (some a) = .ok strings ∧
      Rep b { db with
          entries := db.entries.modify (L.addr p) (fun e => { e with value := some strings.next })
          strings := strings.alloc (old ++ more) } L'
        (t.write p fun r => { r with value := some (old ++ more) }) := by
  obtain ⟨c, hc, hrep⟩ := h.cell p d hd
  obtain ⟨strings, hfree, hnext, keep⟩ := free_value hrep
  have hval := hrep.value
  rw [hold] at hval
  obtain ⟨a, hptr, ha, -⟩ := hval
  refine ⟨c, a, strings, L.own strings.next (p, true), hc, hptr, ha, hptr ▸ hfree, ?_⟩
  refine h.write hd hc (some strings.next) rfl ?_ ?_ ?_ ?_ ?_
  · rw [Heap.modify_self _ hc]
    simp [hrep.leaf, hrep.mtime]
  · exact fun x hx => Heap.modify_other _ hx
  · rfl
  · exact alloc_value (old ++ more) hnext keep
  · exact ⟨_, rfl, Heap.alloc_self _ _, if_pos rfl⟩

end Dkmp.Csdb
