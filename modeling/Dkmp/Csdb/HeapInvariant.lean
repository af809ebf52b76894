import Dkmp.Csdb.CallSpec
import Mathlib.Data.Set.Card

/-! # The shape of the heap

What every sequence of edits leaves behind, read off the pointers alone: the entries
that are reached from `csdb_root` form doubly linked lists of children under their
parents, and nothing that is reached has been freed. The tree that the heap holds is
the reason, but does not occur in the statement.
-/

namespace Dkmp.Csdb

open Machine

inductive FromRoot (db : Database) : Nat → Prop where
  | root {a : Nat} : db.root = some a → FromRoot db a
  | child {a c : Nat} {e : Csdbe} : FromRoot db a → db.entries.cell a = some e →
      OnChain Csdbe.next db.entries.cell e.childs c → FromRoot db c

structure ChildList (db : Database) (a : Nat) (l : List Nat) : Prop where
  nodup : l.Nodup
  first : ∀ c e, l.head? = some c → db.entries.cell c = some e → e.prev = none
  prev_next : ∀ c ∈ l, ∀ e x, db.entries.cell c = some e → e.next = some x →
    ∃ f, db.entries.cell x = some f ∧ f.prev = some c
  next_prev : ∀ c ∈ l, ∀ e x, db.entries.cell c = some e → e.prev = some x →
    ∃ f, db.entries.cell x = some f ∧ f.next = some c
  parent : ∀ c ∈ l, ∀ e, db.entries.cell c = some e → e.parent = some a
  names : ∃ names : List CStr, names.Nodup ∧ (∀ n ∈ names, dot ∉ n) ∧
    List.Forall₂ (fun c n => ∃ e, db.entries.cell c = some e ∧ db.strings.load e.name = .ok n) l names

/-- The entry is there, with its name and its value, and its children are in order. -/
def EntryIntact (db : Database) (a : Nat) : Prop :=
  ∃ e, db.entries.cell a = some e ∧ (∃ n, db.strings.load e.name = .ok n) ∧
    (e.value = none ∨ ∃ v, db.strings.load e.value = .ok v) ∧
    ∃ l, Chain Csdbe.next db.entries.cell e.childs l ∧ ChildList db a l

def HeapInvariant (db : Database) : Prop := ∀ a, FromRoot db a → EntryIntact db a

/-! ## Heaps that hold a tree -/

section Rep

variable {b : Search} {db : Database} {L : Layout} {t : Tree} {p : UpPath} {d : Node}

theorem Rep.kids_chain (h : Rep b db L t) (hd : t.node p = some d) {e : Csdbe}
    (he : db.entries.cell (L.addr p) = some e) :
    Chain Csdbe.next db.entries.cell e.childs (d.kids.map (L.kid p)) := by
  obtain ⟨c, hc, hrep⟩ := h.cell p d hd
  rw [he] at hc
  cases hc
  have hchain := (h.linked p d hd).chain
  rwa [List.head?_map, ← hrep.childs] at hchain

/-- What is reached is an entry of the tree. -/
theorem FromRoot.addr (h : Rep b db L t) {a : Nat} (hr : FromRoot db a) :
    ∃ p, (t.node p).isSome ∧ a = L.addr p := by
  induction hr with
  | root hroot =>
      rw [h.root] at hroot
      exact ⟨[], t.root, (Option.some.inj hroot).symm⟩
  | child _ he hon ih =>
      obtain ⟨p, hp, rfl⟩ := ih
      obtain ⟨d, hd⟩ := Option.isSome_iff_exists.mp hp
      obtain ⟨n, hn, rfl⟩ := List.mem_map.mp (hon.mem (h.kids_chain hd he))
      exact ⟨n :: p, t.kid_isSome hd hn, rfl⟩

theorem Rep.childList (h : Rep b db L t) (hd : t.node p = some d) :
    ChildList db (L.addr p) (d.kids.map (L.kid p)) where
  nodup := h.kids_nodup hd
  first := fun c e hhead he => (h.linked p d hd).first_back hhead he
  prev_next := fun c hc e x he hx => (h.linked p d hd).back_of_next hc he hx
  next_prev := fun c hc e x he hx => (h.linked p d hd).next_of_back hc he hx
  parent := by
    intro c hc e he
    obtain ⟨n, hn, rfl⟩ := List.mem_map.mp hc
    obtain ⟨l₁, l₂, hsplit⟩ := List.append_of_mem hn
    obtain ⟨d', c', -, hc', hrep, -, -⟩ := h.kid_cell hd hsplit
    rw [he] at hc'
    cases hc'
    exact hrep.parent
  names := by
    refine ⟨d.kids, t.nodup p d hd, fun n hn => t.no_dot n p (t.kid_isSome hd hn), ?_⟩
    rw [List.forall₂_map_left_iff, List.forall₂_same]
    intro n hn
    obtain ⟨l₁, l₂, hsplit⟩ := List.append_of_mem hn
    obtain ⟨d', c', -, hc', hrep, -, -⟩ := h.kid_cell hd hsplit
    obtain ⟨s, hname, hstr, -⟩ := hrep.name
    exact ⟨c', hc', by rw [hname, Heap.load_some hstr]; rfl⟩

theorem Rep.heapInvariant (h : Rep b db L t) : HeapInvariant db := by
  intro a ha
  obtain ⟨p, hp, rfl⟩ := ha.addr h
  obtain ⟨d, hd⟩ := Option.isSome_iff_exists.mp hp
  obtain ⟨c, hc, hrep⟩ := h.cell p d hd
  obtain ⟨s, hname, hstr, -⟩ := hrep.name
  refine ⟨c, hc, ⟨_, by rw [hname, Heap.load_some hstr]⟩, ?_, _, h.kids_chain hd hc,
    h.childList hd⟩
  have hvalue := hrep.value
  cases hv : d.value with
  | none =>
      rw [hv] at hvalue
      exact Or.inl hvalue
  | some v =>
      rw [hv] at hvalue
      obtain ⟨s', hptr, hstr', -⟩ := hvalue
      exact Or.inr ⟨v, by rw [hptr, Heap.load_some hstr']⟩

end Rep

/-! ## The number of entries -/

noncomputable def Tree.size (t : Tree) : Nat := Set.ncard {q | (t.node q).isSome}

theorem Tree.kids_lt_size {t : Tree} {p : UpPath} {d : Node} (hd : t.node p = some d) :
    d.kids.length < t.size := by
  have hinj : Function.Injective fun n : CStr => n :: p := fun m n hmn => (List.cons.inj hmn).1
  have hroot : ([] : UpPath) ∉ d.kids.toFinset.image (· :: p) := by simp
  have hcard : (insert [] (d.kids.toFinset.image (· :: p))).card = d.kids.length + 1 := by
    rw [Finset.card_insert_of_notMem hroot, Finset.card_image_of_injective _ hinj,
      List.toFinset_card_of_nodup (t.nodup p d hd)]
  have hsub : (↑(insert [] (d.kids.toFinset.image (· :: p))) : Set UpPath) ⊆
      {q | (t.node q).isSome} := by
    intro q hq
    simp only [Finset.coe_insert, Finset.coe_image, Set.mem_insert_iff, Set.mem_image,
      Finset.mem_coe, List.mem_toFinset] at hq
    rcases hq with rfl | ⟨n, hn, rfl⟩
    · exact t.root
    · exact t.kid_isSome hd hn
  have hle := Set.ncard_le_ncard hsub t.finite
  rw [Set.ncard_coe_finset, hcard] at hle
  exact hle

theorem Tree.size_init (now : Int) : (Tree.init now).size = 1 := by
  have hdom : {q | ((Tree.init now).node q).isSome} = {([] : UpPath)} := by
    ext q
    simp only [Set.mem_ofPred_eq, Set.mem_singleton_iff, ← Tree.record_isSome, Tree.init_record]
    split <;> simp [*]
  rw [Tree.size, hdom, Set.ncard_singleton]

/-- Entries are added on the way to one path only. -/
theorem Tree.size_le {t t' : Tree} {target : UpPath}
    (h : ∀ q, (t'.node q).isSome → (t.node q).isSome ∨ (q ≠ [] ∧ q <:+ target)) :
    t'.size ≤ t.size + target.length := by
  have hsub : {q | (t'.node q).isSome} ⊆
      {q | (t.node q).isSome} ∪ ↑((Finset.range target.length).image (target.drop ·)) := by
    intro q hq
    rcases h q hq with hold | ⟨hne, hs⟩
    · exact Or.inl hold
    · right
      have hpos : 0 < q.length := List.length_pos_iff.mpr hne
      have hle := hs.length_le
      simp only [Finset.coe_image, Set.mem_image, Finset.mem_coe, Finset.mem_range]
      exact ⟨target.length - q.length, by omega, (List.suffix_iff_eq_drop.mp hs).symm⟩
  calc t'.size
      ≤ Set.ncard ({q | (t.node q).isSome} ∪
          ↑((Finset.range target.length).image (target.drop ·))) :=
        Set.ncard_le_ncard hsub (t.finite.union (Finset.finite_toSet _))
    _ ≤ t.size + Set.ncard (↑((Finset.range target.length).image (target.drop ·)) : Set UpPath) :=
        Set.ncard_union_le _ _
    _ ≤ t.size + target.length := by
        rw [Set.ncard_coe_finset]
        have hcard := @Finset.card_image_le _ _ (Finset.range target.length) (target.drop ·) _
        rw [Finset.card_range] at hcard
        omega

theorem Counted.of_subset {b : Search} {t t' : Tree} (h : Counted b t)
    (hsub : ∀ q, (t'.node q).isSome → (t.node q).isSome) : Counted b t' := by
  intro q d' hd' hb
  obtain ⟨d, hd⟩ := Option.isSome_iff_exists.mp (hsub q (by simp [hd']))
  have hkids : d'.kids ⊆ d.kids := fun n hn =>
    (t.mem_kids_iff hd).mpr (hsub _ (t'.kid_isSome hd' hn))
  have hle := (List.subperm_of_subset (t'.nodup q d' hd') hkids).length_le
  have hlt := h q d hd hb
  omega

/-! ## Edits -/

def Call.edits : Call → Bool
  | .set _ _ => true
  | .append _ _ _ => true
  | .remove _ => true
  | _ => false

section Edits

variable {D : Prop} {b : Search} {db : Database} {t : Tree}

/-- The database behind an edit with this key: a tree with new entries, if any, on the
way to the key, and a free mutex. -/
def Edited (b : Search) (t : Tree) (key : CStr) (db : Database) : Prop :=
  ∃ t', Holds b db t' ∧ db.locked = false ∧ Counted b t' ∧
    ∀ q, (t'.node q).isSome → (t.node q).isSome ∨ (q ≠ [] ∧ q <:+ (keyPath key).reverse)

theorem Edited.of_subset {key : CStr} {t' : Tree} (hholds : Holds b db t')
    (hfree : db.locked = false) (hcount : Counted b t)
    (hsub : ∀ q, (t'.node q).isSome → (t.node q).isSome) : Edited b t key db :=
  ⟨t', hholds, hfree, hcount.of_subset hsub, fun q hq => Or.inl (hsub q hq)⟩

variable {L : Layout} (h : Rep b db L t) (hroom : ∀ p d, t.node p = some d → Room D b d.kids)
  (hcount : Counted b t) (hfree : db.locked = false) {key : CStr}
  (hv : csdbIsValidKey key = true)

include h hroom hv

theorem finds_settles :
    (D ∧ csdbGetEntry b { db with locked := true } key = .error .diverge) ∨ Finds b db L t key := by
  rcases csdbGetEntry_settles (h.setLocked true) hroom hv with hdiv | ⟨entry, hget, rfl⟩
  · exact Or.inl hdiv
  · exact Or.inr hget

include hcount hfree

theorem set_settles (value : Option CStr) (now : Int) :
    Settles D (csdbSetValueForKey b db key value now) fun r => Edited b t key r.2 := by
  apply (csdbSetValueForKey_settles h hroom hfree hv value now).mono
  rintro ⟨ret, db'⟩ ⟨-, t', hholds, hfree', hrec, hcount'⟩
  refine ⟨t', hholds, hfree', hcount' hcount, ?_⟩
  intro q hq
  rw [← Tree.record_isSome, hrec, setRecord_isSome, Tree.record_isSome] at hq
  by_cases hnil : q = []
  · subst hnil
    exact Or.inl t.root
  · exact hq.symm.imp id fun hs => ⟨hnil, hs⟩

theorem append_settles (value btwn : Option CStr) (now : Int) :
    Settles D (csdbAppendValueForKey b db key value btwn now) fun r => Edited b t key r.2 := by
  rcases finds_settles h hroom hv with ⟨hD, hdiv⟩ | hfind
  · refine Or.inl ⟨hD, ?_⟩
    rw [csdbAppendValueForKey, lock_free hfree, ok_bind, hdiv, error_bind]
  by_cases happ : Appendable value (t.record (keyPath key).reverse)
  · obtain ⟨hvalue, r, hr, hleaf⟩ := happ
    obtain ⟨v, rfl⟩ := Option.isSome_iff_exists.mp hvalue
    obtain ⟨db', t', hok, hholds, hfree', hrec⟩ :=
      csdbAppendValueForKey_spec h hfind hfree v btwn now hr hleaf
    refine .of_ok hok (.of_subset hholds hfree' hcount ?_)
    intro q hq
    rw [← Tree.record_isSome, hrec] at hq
    split at hq
    next heq =>
      rw [heq, ← Tree.record_isSome, hr]
      rfl
    next =>
      rwa [Tree.record_isSome] at hq
  · exact .of_ok (csdbAppendValueForKey_fail h hfind hfree value btwn now happ)
      (.of_subset ⟨L, h⟩ hfree hcount fun _ hq => hq)

theorem remove_settles :
    Settles D (csdbRemoveFromKey b db key) fun r => Edited b t key r.2 := by
  have hsame : Edited b t key db := .of_subset ⟨L, h⟩ hfree hcount fun _ hq => hq
  by_cases hk : key = [dot]
  · rw [hk, csdbRemoveFromKey_root]
    exact .of_ok rfl (hk ▸ hsame)
  rcases finds_settles h hroom hv with ⟨hD, hdiv⟩ | hfind
  · have hroot : ¬ strcmp key [dot] = .eq := fun he => hk (strcmp_eq_iff.mp he)
    refine Or.inl ⟨hD, ?_⟩
    rw [csdbRemoveFromKey, if_neg hroot, lock_free hfree, ok_bind, hdiv, error_bind]
  cases hr : t.record (keyPath key).reverse with
  | none => exact .of_ok (csdbRemoveFromKey_absent h hfind hfree hk hr) hsame
  | some r =>
      obtain ⟨n, p, hpath⟩ := keyPath_reverse_cons hv hk
      rw [hpath] at hr
      obtain ⟨db', hok, hholds, hfree'⟩ :=
        csdbRemoveFromKey_spec h hfind hfree hk hpath (by simp [hr])
      refine .of_ok hok (.of_subset hholds hfree' hcount ?_)
      intro q hq
      exact ((Tree.prune_isSome t n p q).mp hq).2

end Edits

/-- Every edit keeps the representation, whatever the build; only a search in a child
list of half the range of the counter may run for ever. -/
theorem edit_settles {D : Prop} {b : Search} {db : Database} {t : Tree} (h : Holds b db t)
    (hroom : ∀ p d, t.node p = some d → Room D b d.kids) (hcount : Counted b t)
    (hfree : db.locked = false) {call : Call} (hedit : call.edits = true)
    (hv : csdbIsValidKey call.key = true) (now : Int) :
    Settles D (call.exec b now db) fun r => Edited b t call.key r.2 := by
  obtain ⟨L, hrep⟩ := h
  cases call with
  | set key value => exact (set_settles hrep hroom hcount hfree hv value now).map fun _ hr => hr
  | append key value btwn =>
      exact (append_settles hrep hroom hcount hfree hv value btwn now).map fun _ hr => hr
  | remove key => exact (remove_settles hrep hroom hcount hfree hv).map fun _ hr => hr
  | _ => cases hedit

/-! ## Runs -/

def parts (calls : List Call) : Nat := (calls.map fun call => (keyPath call.key).length).sum

theorem run_settles {b : Search} (clock : Nat → Int) (bound : Nat) (calls : List Call) (k : Nat)
    {db : Database} {t : Tree}
    (hcalls : ∀ call ∈ calls, call.edits = true ∧ csdbIsValidKey call.key = true)
    (h : Holds b db t) (hcount : Counted b t) (hfree : db.locked = false)
    (hbound : t.size + parts calls ≤ bound) :
    Settles (b = .binary ∧ 2 ^ 31 ≤ bound) (run b clock k calls db)
      fun r => ∃ t', Holds b r.2 t' := by
  induction calls generalizing k db t with
  | nil => exact .of_ok rfl ⟨t, h⟩
  | cons call calls ih =>
      obtain ⟨hedit, hv⟩ := hcalls call (by simp)
      have hparts : parts (call :: calls) = (keyPath call.key).length + parts calls := by
        simp [parts]
      have hroom : ∀ p d, t.node p = some d → Room (b = .binary ∧ 2 ^ 31 ≤ bound) b d.kids := by
        intro p d hd hb
        have hlt := Tree.kids_lt_size hd
        by_cases hsmall : 2 ^ 31 ≤ bound
        · exact Or.inr ⟨⟨hb, hsmall⟩, hcount p d hd hb⟩
        · exact Or.inl (by omega)
      apply (edit_settles h hroom hcount hfree hedit hv (clock k)).bind
      rintro ⟨reply, db₁⟩ ⟨t₁, h₁, hfree₁, hcount₁, hadd⟩
      have hsize := Tree.size_le hadd
      rw [List.length_reverse] at hsize
      apply (ih (k + 1) (fun c hc => hcalls c (by simp [hc])) h₁ hcount₁ hfree₁ (by omega)).bind
      rintro ⟨replies, db₂⟩ hlast
      exact .of_ok rfl hlast

/-- **The heap invariant.** In both builds, after every sequence of sets, appends and
removals with valid keys from `csdb_init`, every entry that is reached from `csdb_root`
is intact. The sequence returns in the linear build, and in the binary build as long as
its keys have fewer than half as many names as the counter can count; it never stops
on a freed or missing object. -/
theorem heap_invariant (b : Search) (now : Int) (clock : Nat → Int) (calls : List Call)
    (hcalls : ∀ call ∈ calls, call.edits = true ∧ csdbIsValidKey call.key = true) :
    ∃ db₀, csdbInit now = .ok db₀ ∧
      (∀ replies db, run b clock 0 calls db₀ = .ok (replies, db) → HeapInvariant db) ∧
      (b = .linear ∨ 1 + parts calls < 2 ^ 31 →
        ∃ replies db, run b clock 0 calls db₀ = .ok (replies, db)) ∧
      ∀ f, run b clock 0 calls db₀ = .error f → f = .diverge := by
  obtain ⟨db₀, hinit, h₀, hfree₀⟩ := csdbInit_spec b now
  have hcount₀ : Counted b (Tree.init now) := by
    intro q d hd _
    have hlt := Tree.kids_lt_size hd
    rw [Tree.size_init] at hlt
    omega
  have hrun := run_settles clock (1 + parts calls) calls 0 hcalls h₀ hcount₀ hfree₀
    (by rw [Tree.size_init])
  refine ⟨db₀, hinit, ?_, ?_, ?_⟩
  · intro replies db hok
    rcases hrun with ⟨-, hdiv⟩ | ⟨r, hr, t, L, hrep⟩
    · rw [hdiv] at hok
      cases hok
    · rw [hr, Except.ok.injEq] at hok
      subst hok
      exact hrep.heapInvariant
  · intro hcond
    obtain ⟨⟨replies, db⟩, hok, -⟩ := hrun.total (by
      rintro ⟨hb, hle⟩
      rcases hcond with hlin | hlt
      · rw [hb] at hlin
        cases hlin
      · omega)
    exact ⟨replies, db, hok⟩
  · intro f hf
    rcases hrun with ⟨-, hdiv⟩ | ⟨r, hr, -⟩
    · rw [hdiv] at hf
      exact (Except.error.inj hf).symm
    · rw [hr] at hf
      cases hf

def fourEdits : List Call :=
  [.set (lit ['.', 'a', '.', 'b']) (some (lit ['1'])), .set (lit ['.', 'a', '.', 'c']) none,
    .append (lit ['.', 'a', '.', 'b']) (some (lit ['2'])) none, .remove (lit ['.', 'a', '.', 'c'])]

theorem heap_invariant_four_edits :
    ∃ db₀ replies db, csdbInit 0 = .ok db₀ ∧
      run .binary (fun _ => 0) 0 fourEdits db₀ = .ok (replies, db) ∧ HeapInvariant db := by
  obtain ⟨db₀, hinit, hinv, hreturns, -⟩ :=
    heap_invariant .binary 0 (fun _ => 0) fourEdits (by decide)
  obtain ⟨replies, db, hrun⟩ := hreturns (Or.inr (by decide))
  exact ⟨db₀, replies, db, hinit, hrun, hinv replies db hrun⟩

end Dkmp.Csdb
