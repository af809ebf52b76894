import Dkmp.Csdb.Insert

/-! # Deleting a subtree

`__csdb_remove_from_entry` frees what lies strictly below an entry, children
before the entry that follows them; the entry itself is then unlinked and freed.
What survives is stated as a frame: only entries and strings of the deleted
subtree may change, so that its ancestors and siblings can still be read while it
is being freed.
-/

namespace Dkmp.Csdb

open Machine

variable {b : Search} {db₀ db db' db'' : Database} {L : Layout} {t : Tree} {p : UpPath} {d : Node}

/-! ## Frames -/

def Below (p q : UpPath) : Prop := p <:+ q ∧ q ≠ p

theorem suffix_kid_unique {x y : CStr} {q : UpPath} (hx : x :: p <:+ q) (hy : y :: p <:+ q) :
    x = y := by
  have hle := List.suffix_of_suffix_length_le hx hy (by simp)
  exact (List.cons.inj (hle.eq_of_length (by simp))).1

theorem Below.of_kid {x : CStr} {q : UpPath} (h : x :: p <:+ q) : Below p q := by
  refine ⟨(List.suffix_cons x p).trans h, ?_⟩
  rintro rfl
  have := h.length_le
  simp only [List.length_cons] at this
  omega

/-- Only entries and strings of the paths in `S` have changed. -/
structure Frame (L : Layout) (t : Tree) (S : UpPath → Prop) (db db' : Database) : Prop where
  root : db'.root = db.root
  locked : db'.locked = db.locked
  next : db'.entries.next = db.entries.next
  entries : ∀ a, (∀ q, (t.node q).isSome → S q → a ≠ L.addr q) →
    db'.entries.cell a = db.entries.cell a
  strings : ∀ a, ¬ S (L.owner a).1 → db'.strings.cell a = db.strings.cell a

variable {S S' : UpPath → Prop}

theorem Frame.refl (db : Database) : Frame L t S db db :=
  ⟨rfl, rfl, rfl, fun _ _ => rfl, fun _ _ => rfl⟩

theorem Frame.trans (h : Frame L t S db db') (h' : Frame L t S db' db'') :
    Frame L t S db db'' where
  root := h'.root.trans h.root
  locked := h'.locked.trans h.locked
  next := h'.next.trans h.next
  entries := fun a ha => (h'.entries a ha).trans (h.entries a ha)
  strings := fun a ha => (h'.strings a ha).trans (h.strings a ha)

theorem Frame.weaken (h : Frame L t S db db') (hS : ∀ q, S q → S' q) : Frame L t S' db db' where
  root := h.root
  locked := h.locked
  next := h.next
  entries := fun a ha => h.entries a (fun q hq hs => ha q hq (hS q hs))
  strings := fun a ha => h.strings a (fun hs => ha (hS _ hs))

/-- An entry outside of `S` keeps its cell. -/
theorem Frame.cell (h : Frame L t S db db') (hr : Rep b db₀ L t) {q : UpPath}
    (hq : (t.node q).isSome) (hS : ¬ S q) :
    db'.entries.cell (L.addr q) = db.entries.cell (L.addr q) := by
  apply h.entries
  intro r hr' hs
  apply hr.addr_ne hq hr'
  intro he
  exact hS (he ▸ hs)

/-- The part of the database at and below `p` is still as it was in `db₀`. -/
structure Intact (L : Layout) (t : Tree) (p : UpPath) (db₀ db : Database) : Prop where
  entries : ∀ q, (t.node q).isSome → p <:+ q →
    db.entries.cell (L.addr q) = db₀.entries.cell (L.addr q)
  strings : ∀ a, p <:+ (L.owner a).1 → db.strings.cell a = db₀.strings.cell a

theorem Intact.kid (h : Intact L t p db₀ db) (n : CStr) : Intact L t (n :: p) db₀ db where
  entries := fun q hq hs => h.entries q hq ((List.suffix_cons n p).trans hs)
  strings := fun a hs => h.strings a ((List.suffix_cons n p).trans hs)

/-- Freeing the subtree of one child leaves those of the others intact. -/
theorem Intact.frame {x y : CStr} (h : Intact L t (y :: p) db₀ db) (hr : Rep b db₀ L t)
    (hf : Frame L t (x :: p <:+ ·) db db') (hxy : x ≠ y) : Intact L t (y :: p) db₀ db' where
  entries := by
    intro q hq hs
    rw [hf.cell hr hq (fun hx => hxy (suffix_kid_unique hx hs)), h.entries q hq hs]
  strings := by
    intro a hs
    rw [hf.strings a (fun hx => hxy (suffix_kid_unique hx hs)), h.strings a hs]

/-! ## Freeing one child -/

theorem free_strings {c : Csdbe} {strings₀ : Heap CStr} (strings : Heap CStr)
    (h : CellRep b strings₀ L p d c)
    (same : ∀ a, (L.owner a).1 = p → strings.cell a = strings₀.cell a) :
    ∃ strings₁ strings₂, strings.free c.name = .ok strings₁ ∧
      strings₁.free c.value = .ok strings₂ ∧
      ∀ a, (L.owner a).1 ≠ p → strings₂.cell a = strings.cell a := by
  obtain ⟨x, hx, hcell, ho⟩ := h.name
  have hcell' : strings.cell x = some (nameOf p) := by rw [same x (by rw [ho]), hcell]
  have hname : strings.free c.name = .ok (strings.erase x) := by
    rw [hx, Heap.free_some hcell']
  have hval := h.value
  cases hv : d.value with
  | none =>
      rw [hv] at hval
      refine ⟨_, strings.erase x, hname, by rw [hval]; rfl, ?_⟩
      intro a ha
      exact Heap.erase_other (fun he => ha (by rw [he, ho]))
  | some v =>
      rw [hv] at hval
      obtain ⟨y, hy, hycell, hyo⟩ := hval
      have hyx : y ≠ x := by
        intro he
        rw [he, ho] at hyo
        simp at hyo
      have hy' : (strings.erase x).cell y = some v := by
        rw [Heap.erase_other hyx, same y (by rw [hyo]), hycell]
      refine ⟨_, (strings.erase x).erase y, hname, by rw [hy, Heap.free_some hy'], ?_⟩
      intro a ha
      rw [Heap.erase_other (fun he => ha (by rw [he, hyo])),
        Heap.erase_other (fun he => ha (by rw [he, ho]))]

/-- One iteration: the child `x` with its subtree goes, and the cursor moves on
to the child behind it. -/
theorem removeBody_step (h : Rep b db₀ L t) (hd : t.node p = some d) {l₁ l₂ : List CStr} {x : CStr}
    (hk : d.kids = l₁ ++ x :: l₂) (rec : Database → Ptr → Exec Database)
    (hrec : ∀ db, db.entries.next = db₀.entries.next → Intact L t (x :: p) db₀ db →
      ∃ db', rec db (some (L.kid p x)) = .ok db' ∧ Frame L t (Below (x :: p)) db db')
    (hnext : db.entries.next = db₀.entries.next)
    (hi : ∀ y ∈ x :: l₂, Intact L t (y :: p) db₀ db) :
    ∃ db', removeBody rec (db, some (L.kid p x)) = .ok (.inl (db', l₂.head?.map (L.kid p))) ∧
      Frame L t (x :: p <:+ ·) db db' := by
  obtain ⟨dx, c, hdx, hc₀, hrep, hn, -⟩ := h.kid_cell hd hk
  have hx : (t.node (x :: p)).isSome := by simp [hdx]
  have hix := hi x (by simp)
  have hc : db.entries.cell (L.kid p x) = some c :=
    (hix.entries _ hx List.suffix_rfl).trans hc₀
  -- the recursive call, made only for an entry with children
  have hsub : ∃ db₁, removeBody rec (db, some (L.kid p x)) = freeChild db₁ (L.kid p x) ∧
      Frame L t (Below (x :: p)) db db₁ := by
    by_cases hch : c.childs = none
    · exact ⟨db, by simp [removeBody, Heap.load_some hc, hch], Frame.refl db⟩
    · obtain ⟨db₁, hok, hf⟩ := hrec db hnext hix
      exact ⟨db₁, by simp [removeBody, Heap.load_some hc, hch, hok], hf⟩
  obtain ⟨db₁, hok₁, hf₁⟩ := hsub
  have hself : ¬ Below (x :: p) (x :: p) := fun hb => hb.2 rfl
  have hc₁ : db₁.entries.cell (L.kid p x) = some c := (hf₁.cell h hx hself).trans hc
  obtain ⟨s₁, s₂, hs₁, hs₂, hkeep⟩ := free_strings db₁.strings hrep (by
    intro a ha
    rw [hf₁.strings a (by rw [ha]; exact hself), hix.strings a (by rw [ha])])
  have hstrings : ∀ a, ¬ x :: p <:+ (L.owner a).1 → s₂.cell a = db.strings.cell a := by
    intro a ha
    rw [hkeep a (fun he => ha (by rw [he])), hf₁.strings a (fun hb => ha hb.1)]
  simp only [hok₁, freeChild, Heap.load_some hc₁, ok_bind, hs₁, hs₂, hn]
  cases l₂ with
  | nil =>
      refine ⟨_, rfl, hf₁.root, hf₁.locked, hf₁.next, ?_, hstrings⟩
      exact fun a ha => hf₁.entries a (fun q hq hb => ha q hq hb.1)
  | cons y l₂ =>
      have hky : d.kids = (l₁ ++ [x]) ++ y :: l₂ := by simp [hk]
      obtain ⟨dy, f, hdy, hf₀, -, -, hprev⟩ := h.kid_cell hd hky
      have hy : (t.node (y :: p)).isSome := by simp [hdy]
      have hxy : x ≠ y := by
        rintro rfl
        have := t.nodup p d hd
        simp [hk, List.nodup_append] at this
      have hfy : db₁.entries.cell (L.kid p y) = some f := by
        have hout : ¬ Below (x :: p) (y :: p) := fun hb =>
          hxy (suffix_kid_unique hb.1 List.suffix_rfl)
        rw [Layout.kid, hf₁.cell h hy hout, (hi y (by simp)).entries _ hy List.suffix_rfl]
        exact hf₀
      have hback : f.prev = some (L.kid p x) := by simp [hprev]
      simp only [List.head?_cons, Option.map_some, Heap.load_some hfy, ok_bind, hback,
        Heap.free_some hc₁]
      refine ⟨_, rfl, hf₁.root, hf₁.locked, hf₁.next, ?_, hstrings⟩
      intro a ha
      have hax : a ≠ L.kid p x := ha (x :: p) hx List.suffix_rfl
      simp only
      rw [Heap.erase_other hax, hf₁.entries a (fun q hq hb => ha q hq hb.1)]

/-- The loop over the children `l₂` that are left. -/
theorem removeLoop_spec (h : Rep b db₀ L t) (hd : t.node p = some d)
    (rec : Database → Ptr → Exec Database)
    (hrec : ∀ x ∈ d.kids, ∀ db, db.entries.next = db₀.entries.next →
      Intact L t (x :: p) db₀ db →
      ∃ db', rec db (some (L.kid p x)) = .ok db' ∧ Frame L t (Below (x :: p)) db db')
    (l₁ l₂ : List CStr) (hk : d.kids = l₁ ++ l₂) (db : Database)
    (hnext : db.entries.next = db₀.entries.next)
    (hi : ∀ y ∈ l₂, Intact L t (y :: p) db₀ db) (fuel : Nat) (hfuel : l₂.length < fuel) :
    ∃ db', loop (removeBody rec) fuel (db, l₂.head?.map (L.kid p)) = .ok db' ∧
      Frame L t (Below p) db db' := by
  induction l₂ generalizing l₁ db fuel with
  | nil =>
      obtain ⟨fuel, rfl⟩ : ∃ f, fuel = f + 1 := ⟨fuel - 1, by omega⟩
      exact ⟨db, loop_exit rfl, Frame.refl db⟩
  | cons x l₂ ih =>
      obtain ⟨fuel, rfl⟩ : ∃ f, fuel = f + 1 := ⟨fuel - 1, by omega⟩
      obtain ⟨db₁, hstep, hf₁⟩ := removeBody_step h hd hk rec (hrec x (by simp [hk])) hnext hi
      have hnodup := t.nodup p d hd
      rw [hk] at hnodup
      have hx : x ∉ l₂ := (List.nodup_cons.mp (List.nodup_append.mp hnodup).2.1).1
      obtain ⟨db', hok, hf⟩ := ih (l₁ ++ [x]) (by simp [hk]) db₁ (hf₁.next.trans hnext)
        (fun y hy => (hi y (by simp [hy])).frame h hf₁ (fun he => hx (he ▸ hy))) fuel
        (by simpa using hfuel)
      refine ⟨db', ?_, (hf₁.weaken fun q hq => Below.of_kid hq).trans hf⟩
      rw [List.head?_cons, Option.map_some, loop_next hstep, hok]

/-- `__csdb_remove_from_entry` frees nothing but what lies strictly below the
entry. The induction is on the depth left: a child has a larger address than its
parent, and addresses are bounded by the heap. -/
theorem removeFromEntry_spec (h : Rep b db₀ L t) (depth : Nat) (p : UpPath)
    (hp : (t.node p).isSome) (db : Database) (hnext : db.entries.next = db₀.entries.next)
    (hi : Intact L t p db₀ db) (hdepth : db₀.entries.next < L.addr p + depth) :
    ∃ db', removeFromEntry depth db (some (L.addr p)) = .ok db' ∧ Frame L t (Below p) db db' := by
  induction depth generalizing p db with
  | zero =>
      have := h.addr_lt_next hp
      omega
  | succ depth ih =>
      obtain ⟨d, hd⟩ := Option.isSome_iff_exists.mp hp
      obtain ⟨c, hc, hrep⟩ := h.cell p d hd
      have hc' : db.entries.cell (L.addr p) = some c :=
        (hi.entries p hp List.suffix_rfl).trans hc
      have hlen := h.kids_length_le hd
      simp only [removeFromEntry, Heap.load_some hc', ok_bind, hrep.childs]
      apply removeLoop_spec h hd _ _ [] d.kids rfl db hnext (fun y _ => hi.kid y)
      · omega
      · intro x hx db₁ hnext₁ hi₁
        have hxs := t.kid_isSome hd hx
        have hlt := h.lt x p hxs
        exact ih (x :: p) hxs db₁ hnext₁ hi₁ (by omega)

/-! ## Unlinking -/

section Unlink

variable {n : CStr} {l₁ l₂ : List CStr} {E : Heap Csdbe} {e : Csdbe}

theorem skipForward_spec (hp : (E.cell (L.addr p)).isSome)
    (hl : ∀ y ∈ l₁, (E.cell (L.kid p y)).isSome) (prev : e.prev = l₁.getLast?.map (L.kid p))
    (next : e.next = l₂.head?.map (L.kid p)) (parent : e.parent = some (L.addr p)) :
    ∃ E', skipForward E e = .ok E' ∧ ∀ a, E'.cell a = (E.cell a).map fun c =>
      { c with
        next := if l₁.getLast?.map (L.kid p) = some a then l₂.head?.map (L.kid p) else c.next
        childs := if a = L.addr p ∧ l₁ = [] then l₂.head?.map (L.kid p) else c.childs } := by
  rcases List.eq_nil_or_concat l₁ with rfl | ⟨l, y, rfl⟩
  · obtain ⟨cp, hcp⟩ := Option.isSome_iff_exists.mp hp
    refine ⟨E.modify (L.addr p) (fun p => { p with childs := e.next }), ?_, ?_⟩
    · simp [skipForward, prev, parent, Heap.update_some _ hcp]
    · intro a
      rw [Heap.modify_cell]
      by_cases ha : a = L.addr p <;> simp [ha, next]
  · obtain ⟨cy, hcy⟩ := Option.isSome_iff_exists.mp (hl y (by simp))
    refine ⟨E.modify (L.kid p y) (fun p => { p with next := e.next }), ?_, ?_⟩
    · simp [skipForward, prev, Heap.update_some _ hcy]
    · intro a
      rw [Heap.modify_cell]
      by_cases ha : a = L.kid p y
      · simp [ha, next]
      · simp [ha, Ne.symm ha]

theorem uncount_spec (b : Search) (hp : (E.cell (L.addr p)).isSome)
    (parent : e.parent = some (L.addr p)) :
    ∃ E', uncount b E e = .ok E' ∧ ∀ a, E'.cell a = (E.cell a).map fun c =>
      { c with nbrEntries :=
          if a = L.addr p ∧ b = .binary then uint (c.nbrEntries + (2 ^ 32 - 1)) else c.nbrEntries } := by
  cases b with
  | linear => exact ⟨E, rfl, fun a => by simp⟩
  | binary =>
      obtain ⟨cp, hcp⟩ := Option.isSome_iff_exists.mp hp
      refine ⟨_, by rw [uncount, parent, Heap.update_some _ hcp], ?_⟩
      intro a
      rw [Heap.modify_cell]
      by_cases ha : a = L.addr p <;> simp [ha]

theorem skipBack_spec (hl : ∀ y ∈ l₂, (E.cell (L.kid p y)).isSome)
    (prev : e.prev = l₁.getLast?.map (L.kid p)) (next : e.next = l₂.head?.map (L.kid p)) :
    ∃ E', skipBack E e = .ok E' ∧ ∀ a, E'.cell a = (E.cell a).map fun c =>
      { c with
        prev := if l₂.head?.map (L.kid p) = some a then l₁.getLast?.map (L.kid p) else c.prev } := by
  cases l₂ with
  | nil => exact ⟨E, by simp [skipBack, next], fun a => by simp⟩
  | cons y l₂ =>
      obtain ⟨cy, hcy⟩ := Option.isSome_iff_exists.mp (hl y (by simp))
      refine ⟨E.modify (L.kid p y) (fun n => { n with prev := e.prev }), ?_, ?_⟩
      · simp [skipBack, next, Heap.update_some _ hcy]
      · intro a
        rw [Heap.modify_cell]
        by_cases ha : a = L.kid p y
        · simp [ha, prev]
        · simp [ha, Ne.symm ha]

theorem unlink_spec (h : Rep b db₀ L t) (hd : t.node p = some d) (hk : d.kids = l₁ ++ n :: l₂)
    (same : ∀ q, (t.node q).isSome → ¬ Below (n :: p) q →
      db.entries.cell (L.addr q) = db₀.entries.cell (L.addr q)) :
    ∃ E', unlink b db (some (L.kid p n)) = .ok E' ∧
      E'.cell (L.kid p n) = db.entries.cell (L.kid p n) ∧
      ∀ a, E'.cell a = (db.entries.cell a).map
        (spliced b L p l₁ l₂ (l₂.head?.map (L.kid p)) (l₁.getLast?.map (L.kid p)) (2 ^ 32 - 1) a) := by
  obtain ⟨dn, c, hdn, hc₀, hrep, hnext, hprev⟩ := h.kid_cell hd hk
  have hparent : c.parent = some (L.addr p) := hrep.parent
  have hp : (t.node p).isSome := by simp [hd]
  have hnp : ¬ Below (n :: p) p := by
    intro hb
    have := hb.1.length_le
    simp only [List.length_cons] at this
    omega
  have hc : db.entries.cell (L.kid p n) = some c :=
    (same (n :: p) (by simp [hdn]) (fun hb => hb.2 rfl)).trans hc₀
  have hlive : ∀ q, (t.node q).isSome → ¬ Below (n :: p) q → (db.entries.cell (L.addr q)).isSome := by
    intro q hq hb
    obtain ⟨d', hd'⟩ := Option.isSome_iff_exists.mp hq
    obtain ⟨c', hc', -⟩ := h.cell q d' hd'
    simp [same q hq hb, hc']
  have hkid : ∀ y, y ∈ d.kids → (db.entries.cell (L.kid p y)).isSome := by
    intro y hy
    apply hlive _ (t.kid_isSome hd hy)
    intro hb
    exact hb.2 (by rw [suffix_kid_unique hb.1 List.suffix_rfl])
  -- the entry itself is neither its own neighbour nor its parent
  have hnodup := h.kids_nodup hd
  rw [hk, List.map_append, List.map_cons] at hnodup
  have hlast : l₁.getLast?.map (L.kid p) ≠ some (L.kid p n) := by
    intro he
    obtain ⟨y, hy, hyn⟩ := Option.map_eq_some_iff.mp he
    exact (List.disjoint_of_nodup_append hnodup)
      (List.mem_map_of_mem (List.mem_of_getLast? hy)) (by simp [hyn])
  have hnp' : L.kid p n ≠ L.addr p := h.kid_ne hd (by simp [hk])
  have hl₁ : ∀ y ∈ l₁, (db.entries.cell (L.kid p y)).isSome :=
    fun y hy => hkid y (by simp [hk, hy])
  obtain ⟨E₁, hu₁, hE₁⟩ := skipForward_spec (hlive p hp hnp) hl₁ hprev hnext hparent
  have hc₁ : E₁.cell (L.kid p n) = some c := by simp [hE₁, hc, hlast, hnp']
  obtain ⟨E₂, hu₂, hE₂⟩ := uncount_spec b (E := E₁) (by simpa [hE₁] using hlive p hp hnp) hparent
  have hc₂ : E₂.cell (L.kid p n) = some c := by simp [hE₂, hc₁, hnp']
  have hl₂ : ∀ y ∈ l₂, (E₂.cell (L.kid p y)).isSome :=
    fun y hy => by simpa [hE₂, hE₁] using hkid y (by simp [hk, hy])
  obtain ⟨E₃, hu₃, hE₃⟩ := skipBack_spec hl₂ hprev hnext
  have hhead : l₂.head?.map (L.kid p) ≠ some (L.kid p n) := by
    intro he
    obtain ⟨y, hy, hyn⟩ := Option.map_eq_some_iff.mp he
    exact (List.nodup_cons.mp (List.nodup_append.mp hnodup).2.1).1
      (hyn ▸ List.mem_map_of_mem (List.mem_of_head? hy))
  refine ⟨E₃, ?_, by simp [hE₃, hc₂, hc, hhead], ?_⟩
  · simp only [unlink, Heap.load_some hc, ok_bind, hu₁, Heap.load_some hc₁, hu₂,
      Heap.load_some hc₂, hu₃]
  · intro a
    rw [hE₃, hE₂, hE₁, Option.map_map, Option.map_map]
    rfl

theorem erase_kid {kids : List CStr} (nodup : kids.Nodup) (hk : kids = l₁ ++ n :: l₂) :
    kids.erase n = l₁ ++ l₂ := by
  rw [hk] at nodup
  have hn : n ∉ l₁ := fun hmem => (List.disjoint_of_nodup_append nodup) hmem (by simp)
  rw [hk, List.erase_append_right _ hn, List.erase_cons_head]

theorem Rep.prune (h : Rep b db₀ L t) (hd : t.node p = some d) (hk : d.kids = l₁ ++ n :: l₂)
    (root : db'.root = db₀.root)
    (entries : ∀ q, (t.node q).isSome → ¬ n :: p <:+ q → ∀ c,
      db₀.entries.cell (L.addr q) = some c → db'.entries.cell (L.addr q) = some
        (spliced b L p l₁ l₂ (l₂.head?.map (L.kid p)) (l₁.getLast?.map (L.kid p)) (2 ^ 32 - 1)
          (L.addr q) c))
    (strings : ∀ a v, db₀.strings.cell a = some v → ¬ n :: p <:+ (L.owner a).1 →
      db'.strings.cell a = some v) :
    Rep b db' L (t.prune n p) where
  root := by rw [root, h.root]
  inj := by
    intro q r hq hr heq
    rw [Tree.prune_isSome] at hq hr
    exact h.inj q r hq.2 hr.2 heq
  lt := by
    intro m q hq
    rw [Tree.prune_isSome] at hq
    exact h.lt m q hq.2
  cell := by
    intro q d' hd'
    obtain ⟨hq, hqt⟩ := (t.prune_isSome n p q).mp (by simp [hd'])
    have hframe : ∀ a v, db₀.strings.cell a = some v → (L.owner a).1 = q →
        db'.strings.cell a = some v ∧ L.owner a = L.owner a :=
      fun a v ha ho => ⟨strings a v ha (by rw [ho]; exact hq), rfl⟩
    rcases Tree.prune_cases hd' with ⟨rfl, d₀, hd₀, rfl⟩ | ⟨hqp, hd'⟩
    · obtain rfl : d₀ = d := Option.some.inj (hd₀.symm.trans hd)
      obtain ⟨c, hc, hrep⟩ := h.cell q d₀ hd₀
      have hrep' := hrep.frame hframe (fun _ _ => rfl) rfl
      rw [entries q hqt hq c hc, erase_kid (t.nodup q d₀ hd₀) hk]
      refine ⟨_, rfl, hrep'.spliced_parent ?_ ?_⟩
      · cases l₁ with
        | nil => simp
        | cons x l => simpa [hk] using hrep'.childs
      · intro hb
        simp only [hrep.count hb, hk, List.length_append, List.length_cons, uint]
        omega
    · obtain ⟨c, hc, hrep⟩ := h.cell q d' hd'
      have hrep' := hrep.frame hframe (fun _ _ => rfl) rfl
      rw [entries q hqt hq c hc]
      exact ⟨_, rfl, hrep'.spliced_other (h.addr_ne hqt (by simp [hd]) hqp)⟩
  linked := by
    intro q d' hd'
    obtain ⟨hq, hqt⟩ := (t.prune_isSome n p q).mp (by simp [hd'])
    rcases Tree.prune_cases hd' with ⟨rfl, d₀, hd₀, rfl⟩ | ⟨hqp, hd'⟩
    · obtain rfl : d₀ = d := Option.some.inj (hd₀.symm.trans hd)
      have hlink := h.linked q d₀ hd₀
      have hnodup := h.kids_nodup hd₀
      rw [hk, List.map_append, List.map_cons] at hlink hnodup
      rw [erase_kid (t.nodup q d₀ hd₀) hk, List.map_append]
      apply hlink.erase hnodup
      intro a ha c hc
      rw [← List.map_append] at ha
      obtain ⟨m, hm, rfl⟩ := List.mem_map.mp ha
      rw [← erase_kid (t.nodup q d₀ hd₀) hk, (t.nodup q d₀ hd₀).mem_erase_iff] at hm
      have hms : ¬ n :: q <:+ m :: q := fun hs => hm.1 (suffix_kid_unique List.suffix_rfl hs)
      refine ⟨_, entries (m :: q) (t.kid_isSome hd₀ hm.2) hms c hc, ?_, ?_⟩
      · rw [List.getLast?_map, List.head?_map]
        rfl
      · rw [List.getLast?_map, List.head?_map, Option.or_none]
        rfl
    · apply (h.linked q d' hd').congr
      intro a ha c hc
      obtain ⟨m, hm, rfl⟩ := List.mem_map.mp ha
      have h₁ : l₁ ⊆ d.kids := by simp [hk]
      have h₂ : l₂ ⊆ d.kids := by
        intro x hx
        simp [hk, hx]
      have hms : ¬ n :: p <:+ m :: q := by
        intro hs
        rcases List.suffix_cons_iff.mp hs with he | hs
        · exact hqp (List.cons.inj he).2.symm
        · exact hq hs
      obtain ⟨hnext, hprev⟩ := spliced_links h hd h₁ h₂ hqp (t.kid_isSome hd' hm)
        (l₂.head?.map (L.kid p)) (l₁.getLast?.map (L.kid p)) (2 ^ 32 - 1) c
      exact ⟨_, entries (m :: q) (t.kid_isSome hd' hm) hms c hc, hnext, hprev⟩
  sorted := by
    intro hb q d' hd'
    rcases Tree.prune_cases hd' with ⟨rfl, d₀, hd₀, rfl⟩ | ⟨-, hd'⟩
    · exact (h.sorted hb q d₀ hd₀).sublist List.erase_sublist
    · exact h.sorted hb q d' hd'

end Unlink

end Dkmp.Csdb
