import Dkmp.Csdb.CallSpec

/-! # The dump of a tree

`csdb_dump_from_entry` walks the tree and writes one line for each entry that
holds a value: its key, rebuilt along the parent pointers, an equals sign and
the value. `leafPaths` lists these entries in the order of the walk; every one
of them occurs in it exactly once.
-/

namespace Dkmp.Csdb

open Machine

variable {b : Search} {db : Database} {L : Layout} {t : Tree} {p : UpPath} {d : Node}

/-! ## Keys -/

theorem listParentsNames_spec (h : Rep b db L t) (q : UpPath) (hq : (t.node q).isSome) (depth : Nat)
    (hdepth : q.length < depth) :
    listParentsNames db depth (some (L.addr q)) = .ok (pathKey q.reverse) := by
  induction q generalizing depth with
  | nil =>
      obtain ⟨depth, rfl⟩ : ∃ k, depth = k + 1 := ⟨depth - 1, by simp at hdepth; omega⟩
      obtain ⟨d, hd⟩ := Option.isSome_iff_exists.mp hq
      obtain ⟨c, hc, -⟩ := h.cell [] d hd
      simp [listParentsNames, h.root, Heap.load_some hc]
  | cons n q ih =>
      obtain ⟨depth, rfl⟩ : ∃ k, depth = k + 1 := ⟨depth - 1, by simp at hdepth; omega⟩
      obtain ⟨d, hd⟩ := Option.isSome_iff_exists.mp hq
      obtain ⟨c, hc, hrep⟩ := h.cell (n :: q) d hd
      obtain ⟨d₀, hd₀⟩ := Option.isSome_iff_exists.mp t.root
      obtain ⟨c₀, hc₀, hrep₀⟩ := h.cell [] d₀ hd₀
      obtain ⟨a, ha, hstr, ho⟩ := hrep.name
      obtain ⟨a₀, ha₀, -, ho₀⟩ := hrep₀.name
      -- name buffers are told apart by their owners
      have hname : a ≠ a₀ := by
        rintro rfl
        rw [ho] at ho₀
        simp at ho₀
      have haddr : L.addr (n :: q) ≠ L.addr [] := h.addr_ne hq t.root (by simp)
      have hparent : c.parent = some (L.addr q) := hrep.parent
      have hrec := ih (t.parent_isSome hq) depth (by simp at hdepth; omega)
      simp [listParentsNames, h.root, Heap.load_some hc, Heap.load_some hc₀, ha, ha₀, hname, haddr,
        hparent, hrec, Heap.load_some hstr, nameOf, pathKey_append]

theorem csdbListParentsNames_spec (h : Rep b db L t) {q : UpPath} (hq : (t.node q).isSome) :
    csdbListParentsNames db (some (L.addr q)) = .ok (pathKey q.reverse) := by
  have h₁ := h.length_le_addr hq
  have h₂ := h.addr_lt_next hq
  exact listParentsNames_spec h q hq _ (by omega)

/-! ## Lines -/

def shownValue (r : Record) : CStr := r.value.getD (lit ['(', 'n', 'u', 'l', 'l', ')'])

def lineOf (key value : CStr) : CStr := key ++ equals :: (value ++ [newline])

def entryText (t : Tree) (q : UpPath) : CStr :=
  match t.record q with
  | none => []
  | some r => if r.leaf then lineOf (pathKey q.reverse) (shownValue r) else []

theorem dumpLine_spec (h : Rep b db L t) {q : UpPath} {d : Node} (hd : t.node q = some d) {c : Csdbe}
    (hrep : CellRep b db.strings L q d c) :
    dumpLine db (L.addr q) c = .ok (entryText t q) := by
  have hnames := csdbListParentsNames_spec h (q := q) (by simp [hd])
  have hrecord : t.record q = some d.toRecord := by simp [Tree.record, hd]
  have hval := hrep.value
  simp only [dumpLine, hrep.leaf, entryText, hrecord, hnames, ok_bind]
  cases hleaf : d.leaf with
  | false => simp
  | true =>
      cases hv : d.value with
      | none =>
          rw [hv] at hval
          have hnull : c.value = none := hval
          simp [hnull, shownValue, hv, lineOf]
      | some v =>
          rw [hv] at hval
          obtain ⟨a, ha, hstr, -⟩ := hval
          simp [ha, Heap.load_some hstr, shownValue, hv, lineOf]

def leafPaths (t : Tree) : Nat → UpPath → List CStr → List UpPath
  | 0, _, _ => []
  | depth + 1, p, kids =>
      kids.flatMap fun n =>
        match t.node (n :: p) with
        | none => []
        | some d => (if d.leaf then [n :: p] else []) ++ leafPaths t depth (n :: p) d.kids

def textOf (t : Tree) (paths : List UpPath) : CStr := paths.flatMap (entryText t)

theorem entryText_leaf {q : UpPath} (hd : t.node q = some d) :
    textOf t (if d.leaf then [q] else []) = entryText t q := by
  by_cases hleaf : d.leaf = true
  · simp [textOf, hleaf]
  · simp [textOf, entryText, Tree.record, hd, hleaf]

theorem dumpLoop_spec (h : Rep b db L t) (hd : t.node p = some d) (depth : Nat)
    (rec : Ptr → Exec CStr)
    (hrec : ∀ n ∈ d.kids, ∀ e, t.node (n :: p) = some e →
      rec (e.kids.head?.map (L.kid (n :: p))) = .ok (textOf t (leafPaths t depth (n :: p) e.kids)))
    (l₁ l₂ : List CStr) (hk : d.kids = l₁ ++ l₂) (out : CStr) (fuel : Nat)
    (hfuel : l₂.length < fuel) :
    loop (dumpBody db rec) fuel (l₂.head?.map (L.kid p), out) =
      .ok (out ++ textOf t (leafPaths t (depth + 1) p l₂)) := by
  induction l₂ generalizing l₁ out fuel with
  | nil =>
      obtain ⟨fuel, rfl⟩ : ∃ f, fuel = f + 1 := ⟨fuel - 1, by omega⟩
      rw [loop_exit (r := out) rfl]
      simp [leafPaths, textOf]
  | cons n l₂ ih =>
      obtain ⟨fuel, rfl⟩ : ∃ f, fuel = f + 1 := ⟨fuel - 1, by omega⟩
      obtain ⟨e, c, he, hc, hrep, hnext, -⟩ := h.kid_cell hd hk
      have hbelow : dumpChilds rec c = .ok (textOf t (leafPaths t depth (n :: p) e.kids)) := by
        have hr := hrec n (by simp [hk]) e he
        by_cases hkids : e.kids = []
        · have hnil : leafPaths t depth (n :: p) [] = [] := by cases depth <;> rfl
          simp [dumpChilds, hrep.childs, hkids, hnil, textOf]
        · have hsome : c.childs ≠ none := by
            rw [hrep.childs, ne_eq, Option.map_eq_none_iff, List.head?_eq_none_iff]
            exact hkids
          rw [dumpChilds, if_pos hsome, hrep.childs, hr]
      have hstep : dumpBody db rec (some (L.kid p n), out) =
          .ok (.inl (l₂.head?.map (L.kid p),
            out ++ (entryText t (n :: p) ++ textOf t (leafPaths t depth (n :: p) e.kids)))) := by
        have hline : dumpLine db (L.kid p n) c = .ok (entryText t (n :: p)) :=
          dumpLine_spec h he hrep
        simp only [dumpBody, Heap.load_some hc, ok_bind, hline, hbelow, hnext]
      have hsplit : textOf t (leafPaths t (depth + 1) p (n :: l₂)) =
          entryText t (n :: p) ++ textOf t (leafPaths t depth (n :: p) e.kids) ++
            textOf t (leafPaths t (depth + 1) p l₂) := by
        rw [← entryText_leaf he]
        simp [leafPaths, he, textOf]
      rw [List.head?_cons, Option.map_some, loop_next hstep,
        ih (l₁ ++ [n]) (by simp [hk]) _ fuel (by simpa using hfuel), hsplit]
      simp

theorem dumpFromEntry_spec (h : Rep b db L t) (depth : Nat) (p : UpPath) (d : Node)
    (hd : t.node p = some d) (hdepth : db.entries.next ≤ L.addr p + depth) :
    dumpFromEntry db depth (d.kids.head?.map (L.kid p)) =
      .ok (textOf t (leafPaths t depth p d.kids)) := by
  induction depth generalizing p d with
  | zero =>
      have := h.addr_lt_next (p := p) (by simp [hd])
      omega
  | succ depth ih =>
      have hlen := h.kids_length_le hd
      rw [dumpFromEntry, dumpLoop_spec h hd depth _ _ [] d.kids rfl [] _ (by omega)]
      · rfl
      · intro n hn e he
        have hlt := h.lt n p (t.kid_isSome hd hn)
        exact ih (n :: p) e he (by omega)

/-- A dump writes the lines of everything below the key and nothing else. -/
theorem csdbDumpFromKey_spec (h : Rep b db L t) (hb : Bounded b t) (hfree : db.locked = false)
    {key : CStr} (hv : csdbIsValidKey key = true) :
    csdbDumpFromKey b db key =
      .ok (0, match t.node (keyPath key).reverse with
        | none => []
        | some d => textOf t
            (leafPaths t (db.entries.next + 1) (keyPath key).reverse d.kids), db) := by
  simp only [csdbDumpFromKey, lock_free hfree, ok_bind]
  rcases (h.finds hb hv).cases h with ⟨hn, hget⟩ | ⟨d, c, hn, hget, hc, hrep⟩
  · simp [hget, hn, unlock_locked hfree]
  · have hdump := dumpFromEntry_spec (h.setLocked true) (db.entries.next + 1) _ d hn
      (by simp only; omega)
    simp [hget, hn, Heap.load_some hc, hrep.childs, csdbDumpFromEntry, hdump, unlock_locked hfree]

/-! ## Every entry with a value occurs once -/

def kidPaths (t : Tree) (depth : Nat) (p : UpPath) (n : CStr) : List UpPath :=
  match t.node (n :: p) with
  | none => []
  | some d => (if d.leaf then [n :: p] else []) ++ leafPaths t depth (n :: p) d.kids

theorem leafPaths_succ (t : Tree) (depth : Nat) (p : UpPath) (kids : List CStr) :
    leafPaths t (depth + 1) p kids = kids.flatMap (kidPaths t depth p) := rfl

theorem leafPaths_suffix {depth : Nat} {kids : List CStr} {q : UpPath}
    (hq : q ∈ leafPaths t depth p kids) : ∃ n ∈ kids, n :: p <:+ q := by
  induction depth generalizing p kids with
  | zero => simp [leafPaths] at hq
  | succ depth ih =>
      obtain ⟨n, hn, hq⟩ := List.mem_flatMap.mp hq
      refine ⟨n, hn, ?_⟩
      cases he : t.node (n :: p) with
      | none => simp [he] at hq
      | some e =>
          simp only [he, List.mem_append] at hq
          rcases hq with hq | hq
          · have : q = n :: p := by
              split at hq <;> simp at hq
              exact hq
            rw [this]
          · obtain ⟨m, -, hm⟩ := ih hq
            exact (List.suffix_cons m (n :: p)).trans hm

theorem kidPaths_suffix {depth : Nat} {n : CStr} {q : UpPath} (hq : q ∈ kidPaths t depth p n) :
    n :: p <:+ q := by
  have hmem : q ∈ leafPaths t (depth + 1) p [n] := by
    simpa [leafPaths_succ] using hq
  obtain ⟨m, hm, hs⟩ := leafPaths_suffix hmem
  rwa [List.mem_singleton.mp hm] at hs

theorem exists_kid_of_below (hd : t.node p = some d) {q : UpPath} (hq : (t.node q).isSome)
    (hb : Below p q) : ∃ n ∈ d.kids, n :: p <:+ q := by
  obtain ⟨⟨r, rfl⟩, hne⟩ := hb
  rcases List.eq_nil_or_concat r with rfl | ⟨r, n, rfl⟩
  · simp at hne
  · have hs : n :: p <:+ r.concat n ++ p := ⟨r, by simp⟩
    exact ⟨n, (t.mem_kids_iff hd).mpr (t.suffix_isSome hs hq), hs⟩

theorem mem_leafPaths (t : Tree) (depth : Nat) (p : UpPath) (d : Node) (hd : t.node p = some d)
    (hdepth : ∀ q, (t.node q).isSome → q.length ≤ p.length + depth) (q : UpPath) :
    q ∈ leafPaths t depth p d.kids ↔ Below p q ∧ ∃ r, t.record q = some r ∧ r.leaf = true := by
  induction depth generalizing p d with
  | zero =>
      simp only [leafPaths, List.not_mem_nil, false_iff, not_and, not_exists]
      intro hb r hr _
      have hlen := hdepth q (by rw [← Tree.record_isSome, hr]; rfl)
      exact hb.2 (hb.1.eq_of_length_le (by omega)).symm
  | succ depth ih =>
      have hkid : ∀ n e, t.node (n :: p) = some e → (q ∈ kidPaths t depth p n ↔
          (q = n :: p ∧ e.leaf = true) ∨
          (Below (n :: p) q ∧ ∃ r, t.record q = some r ∧ r.leaf = true)) := by
        intro n e he
        rw [← ih (n :: p) e he (fun r hr => by have := hdepth r hr; simp only [List.length_cons]; omega)]
        by_cases hleaf : e.leaf = true <;> simp [kidPaths, he, hleaf]
      rw [leafPaths_succ, List.mem_flatMap]
      constructor
      · rintro ⟨n, hn, hq⟩
        obtain ⟨e, he⟩ := Option.isSome_iff_exists.mp (t.kid_isSome hd hn)
        rcases (hkid n e he).mp hq with ⟨rfl, hleaf⟩ | ⟨hb, hr⟩
        · exact ⟨Below.of_kid List.suffix_rfl, e.toRecord, by simp [Tree.record, he], hleaf⟩
        · exact ⟨Below.of_kid hb.1, hr⟩
      · rintro ⟨hb, r, hr, hleaf⟩
        have hsome : (t.node q).isSome := by rw [← Tree.record_isSome, hr]; rfl
        obtain ⟨n, hn, hs⟩ := exists_kid_of_below hd hsome hb
        obtain ⟨e, he⟩ := Option.isSome_iff_exists.mp (t.kid_isSome hd hn)
        refine ⟨n, hn, (hkid n e he).mpr ?_⟩
        by_cases hq : q = n :: p
        · subst hq
          have : e.toRecord = r := by simpa [Tree.record, he] using hr
          exact Or.inl ⟨rfl, by rw [this]; exact hleaf⟩
        · exact Or.inr ⟨⟨hs, hq⟩, r, hr, hleaf⟩

theorem leafPaths_nodup (t : Tree) (depth : Nat) (p : UpPath) (d : Node)
    (hd : t.node p = some d) : (leafPaths t depth p d.kids).Nodup := by
  induction depth generalizing p d with
  | zero => exact List.nodup_nil
  | succ depth ih =>
      rw [leafPaths_succ, List.nodup_flatMap]
      constructor
      · intro n hn
        obtain ⟨e, he⟩ := Option.isSome_iff_exists.mp (t.kid_isSome hd hn)
        have hrec := ih (n :: p) e he
        by_cases hleaf : e.leaf = true
        · simp only [kidPaths, he, hleaf, if_true, List.singleton_append, List.nodup_cons]
          refine ⟨?_, hrec⟩
          intro hmem
          obtain ⟨m, -, hs⟩ := leafPaths_suffix hmem
          exact (Below.of_kid hs).2 rfl
        · simpa [kidPaths, he, hleaf] using hrec
      · refine (t.nodup p d hd).imp ?_
        intro m n hmn q hm hn
        exact hmn (suffix_kid_unique (kidPaths_suffix hm) (kidPaths_suffix hn))

end Dkmp.Csdb
