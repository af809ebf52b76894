import Dkmp.Csdb.HeapInvariant

/-! # The binary build

What the bisection rests on, read off the pointers: every child list is strictly
increasing in `strcmp` order and `nbr_entries` is its length. From such a list the
loops compare only elements at the position they mean, and a new child goes to its
place in the order.
-/

namespace Dkmp.Csdb

open Machine

/-! ## The child list of an entry -/

structure InOrder (db : Database) (a : Nat) (e : Csdbe) (l : List Nat) (names : List CStr) :
    Prop where
  entry : db.entries.cell a = some e
  chain : Chain Csdbe.next db.entries.cell e.childs l
  links : ChildList db a l
  named : List.Forall₂
    (fun c n => ∃ f, db.entries.cell c = some f ∧ db.strings.load f.name = .ok n) l names
  sorted : names.Pairwise (strcmp · · = .lt)
  count : e.nbrEntries = l.length

def Narrow (db : Database) : Prop :=
  ∀ a e l, FromRoot db a → db.entries.cell a = some e →
    Chain Csdbe.next db.entries.cell e.childs l → l.length < 2 ^ 31

def StaysNarrow (clock : Nat → Int) : Nat → List Call → Database → Prop
  | _, [], db => Narrow db
  | k, call :: calls, db =>
      Narrow db ∧
      match call.exec .binary (clock k) db with
      | .error _ => True
      | .ok (_, db') => StaysNarrow clock (k + 1) calls db'

/-! ## What the loops do with it -/

/-- A comparison at position `i`: the bounds `i - 1` and `i + 1` it may lead to do not
wrap around, and the element compared is the `i`-th of the list. -/
structure ProbesAt (db : Database) (childs : Ptr) (l : List Nat) (i : Nat) : Prop where
  pos : 1 ≤ i
  pred : uint (i + 2 ^ 32 - 1) = i - 1
  succ : uint (i + 1) = i + 1
  elem : ∃ c, csdbSeek db childs i = .ok (some c) ∧ l[i - 1]? = some c

/-- The bisection of the list for a name ends, its lower bound is never 0, and each of
its comparisons is one with the element it means. -/
structure Bisects (db : Database) (childs : Ptr) (nbrEntries : Nat) (l : List Nat) (name : CStr) :
    Prop where
  returns : ∃ r, bisect db childs nbrEntries name = .ok r
  lower : ∀ lo hi, Passes (bisectBody db childs name) (1, nbrEntries) (lo, hi) → 1 ≤ lo
  probes : ∀ lo hi, Passes (bisectBody db childs name) (1, nbrEntries) (lo, hi) → lo ≤ hi →
    uint (lo + hi) = lo + hi ∧ ProbesAt db childs l ((lo + hi) / 2)

def FindsChild (db : Database) (a : Nat) (l : List Nat) (names : List CStr) (name : CStr) : Prop :=
  ∃ r, csdbFindChild .binary db (some a) name = .ok r ∧
    ∀ c, r = some c ↔ (c, name) ∈ l.zip names

/-- `csdb_append_child` puts a new child with that name at its place in the order; if
the name is there it leaves the list as it is. -/
def InsertsChild (db : Database) (a : Nat) (e : Csdbe) (l : List Nat) (names : List CStr)
    (name : CStr) (now : Int) : Prop :=
  ∃ new db₁ db', csdbCreateEntry db (some name) none now = .ok (some new, db₁) ∧
    Bisects db₁ e.childs e.nbrEntries l name ∧
    csdbAppendChild .binary db₁ (some a) (some new) = .ok db' ∧
    ((name ∈ names ∧ db' = db₁) ∨
      ∃ e' l₁ l₂ names₁ names₂, l = l₁ ++ l₂ ∧ names = names₁ ++ names₂ ∧
        l₁.length = names₁.length ∧
        InOrder db' a e' (l₁ ++ new :: l₂) (names₁ ++ name :: names₂))

section Rep

variable {db : Database} {L : Layout} {t : Tree} {p : UpPath} {d : Node}

theorem Rep.inOrder (h : Rep .binary db L t) (hd : t.node p = some d)
    (hlen : d.kids.length < 2 ^ 32) :
    ∃ e, InOrder db (L.addr p) e (d.kids.map (L.kid p)) d.kids := by
  obtain ⟨c, hc, hrep⟩ := h.cell p d hd
  refine ⟨c, hc, h.kids_chain hd hc, h.childList hd, ?_, h.sorted rfl p d hd, ?_⟩
  · rw [List.forall₂_map_left_iff, List.forall₂_same]
    intro n hn
    obtain ⟨l₁, l₂, hsplit⟩ := List.append_of_mem hn
    obtain ⟨d', c', -, hc', hrep', -, -⟩ := h.kid_cell hd hsplit
    obtain ⟨s, hname, hstr, -⟩ := hrep'.name
    exact ⟨c', hc', by rw [hname, Heap.load_some hstr]; rfl⟩
  · rw [hrep.nbrEntries hlen, List.length_map]

/-- Every entry of the tree is reached from the root. -/
theorem Rep.fromRoot {b : Search} (h : Rep b db L t) (hp : (t.node p).isSome) :
    FromRoot db (L.addr p) := by
  induction p with
  | nil => exact .root h.root
  | cons n p ih =>
      have hparent := t.parent_isSome hp
      obtain ⟨d, hd⟩ := Option.isSome_iff_exists.mp hparent
      obtain ⟨c, hc, -⟩ := h.cell p d hd
      have hmem : L.kid p n ∈ d.kids.map (L.kid p) :=
        List.mem_map_of_mem ((t.mem_kids_iff hd).mpr hp)
      exact .child (ih hparent) hc ((h.kids_chain hd hc).onChain hmem)

theorem Rep.narrow_iff {b : Search} (h : Rep b db L t) :
    Narrow db ↔ ∀ p d, t.node p = some d → d.kids.length < 2 ^ 31 := by
  constructor
  · intro hnarrow p d hd
    obtain ⟨c, hc, -⟩ := h.cell p d hd
    have hlen := hnarrow _ c _ (h.fromRoot (by simp [hd])) hc (h.kids_chain hd hc)
    rwa [List.length_map] at hlen
  · intro hkids a e l ha he hl
    obtain ⟨p, hp, rfl⟩ := ha.addr h
    obtain ⟨d, hd⟩ := Option.isSome_iff_exists.mp hp
    rw [hl.unique (h.kids_chain hd he), List.length_map]
    exact hkids p d hd

/-! ## The bisection -/

variable (h : Rep .binary db L t) (hd : t.node p = some d) (hb : d.kids.length < 2 ^ 31)

include h hd hb

/-- In every state of the loop the name is bracketed by the bounds. -/
theorem bisect_passes (name : CStr) {s : Nat × Nat}
    (hs : Passes (bisectBody db (d.kids.head?.map (L.kid p)) name) (1, d.kids.length) s) :
    BisectState d.kids name s := by
  apply hs.keeps (bisect_start d.kids name)
  rintro ⟨lo, hi⟩ s' hstate hbody
  have htop := hstate.1.top
  have hle := hstate.1.le
  simp only at htop hle
  by_cases hul : hi < lo
  · obtain ⟨r, hend, -⟩ := bisectBody_end h hd name (by omega) hstate hul
    rw [hbody] at hend
    cases hend
  · rcases bisectBody_middle h hd (by omega) name hstate hul (by omega) with
      ⟨s'', hnext, hstate', -⟩ | ⟨r, hend, -⟩
    · rw [hbody] at hnext
      cases hnext
      exact hstate'
    · rw [hbody] at hend
      cases hend

theorem probesAt {i : Nat} (hpos : 1 ≤ i) (hle : i ≤ d.kids.length) :
    ProbesAt db (d.kids.head?.map (L.kid p)) (d.kids.map (L.kid p)) i := by
  have hlt : i - 1 < d.kids.length := by omega
  refine ⟨hpos, ?_, Nat.mod_eq_of_lt (by omega), L.kid p d.kids[i - 1], ?_, ?_⟩
  · unfold uint
    omega
  · rw [csdbSeek_spec h hd, show min (i - 1) (d.kids.length - 1) = i - 1 by omega,
      List.getElem?_eq_getElem hlt, Option.map_some]
  · rw [List.getElem?_map, List.getElem?_eq_getElem hlt, Option.map_some]

theorem bisects (name : CStr) :
    Bisects db (d.kids.head?.map (L.kid p)) d.kids.length (d.kids.map (L.kid p)) name where
  returns := by
    obtain ⟨r, hr, -⟩ := bisect_total h hd hb name
    exact ⟨r, hr⟩
  lower := fun lo hi hs => (bisect_passes h hd hb name hs).1.pos
  probes := by
    intro lo hi hs hlh
    obtain ⟨⟨hpos, -, htop, -⟩, -⟩ := bisect_passes h hd hb name hs
    simp only at hpos htop
    exact ⟨Nat.mod_eq_of_lt (by omega), probesAt h hd hb (by omega) (by omega)⟩

theorem findsChild {name : CStr} (hname : name ≠ [dot]) :
    FindsChild db (L.addr p) (d.kids.map (L.kid p)) d.kids name := by
  have hfind := (csdbFindChild_settles (D := False) h hd (fun _ => Or.inl hb) name hname).eq_ok id
  refine ⟨_, hfind, ?_⟩
  intro c
  have hzip : (d.kids.map (L.kid p)).zip d.kids = d.kids.map fun n => (L.kid p n, n) := by
    have hboth := List.zip_map' (f := L.kid p) (g := id) (l := d.kids)
    rwa [List.map_id] at hboth
  rw [hzip, List.mem_map]
  constructor
  · intro hc
    split at hc
    · exact ⟨name, ‹_›, by rw [Option.some.inj hc]⟩
    · cases hc
  · rintro ⟨n, hn, he⟩
    obtain ⟨rfl, rfl⟩ := Prod.mk.inj he
    rw [if_pos hn]

omit hb in
theorem Linking.inOrder {db' : Database} {n : CStr} {l₁ l₂ : List CStr} {now : Int}
    (e : Linking .binary db db' L p n l₁ l₂ now) (hk : d.kids = l₁ ++ l₂) (hn : dot ∉ n)
    (hnew : n ∉ d.kids) (hs : (l₁ ++ n :: l₂).Pairwise (strcmp · · = .lt))
    (hroom : d.kids.length + 1 < 2 ^ 32) :
    ∃ e', InOrder db' (L.addr p) e' (l₁.map (L.kid p) ++ db.entries.next :: l₂.map (L.kid p))
      (l₁ ++ n :: l₂) := by
  have hp : (t.node p).isSome := by simp [hd]
  have hnone : ¬ (t.node (n :: p)).isSome := fun hs => hnew ((t.mem_kids_iff hd).mpr hs)
  have hgrown := h.grow hd hk hp hnone hn (fun _ => hs) e
  have hnode : (t.grow n p (l₁ ++ n :: l₂) now hp hnone hn (grow_perm hd hk)).node p =
      some { d with kids := l₁ ++ n :: l₂ } := by simp [Tree.grow, hd]
  have hlen : (l₁ ++ n :: l₂).length = d.kids.length + 1 := by
    rw [hk, List.length_append, List.length_append, List.length_cons, Nat.add_assoc]
  obtain ⟨e', hin⟩ := hgrown.inOrder hnode (by rw [hlen]; exact hroom)
  have hmap : (l₁ ++ n :: l₂).map ((L.place (n :: p) db.entries.next db.strings.next).kid p) =
      l₁.map (L.kid p) ++ db.entries.next :: l₂.map (L.kid p) := by
    rw [List.map_append, List.map_cons, place_kid_self, place_kids hnone hd (by simp [hk]),
      place_kids hnone hd (by simp [hk])]
  rw [place_addr hnone hp, hmap] at hin
  exact ⟨e', hin⟩

theorem insertsChild {e : Csdbe} (he : db.entries.cell (L.addr p) = some e) {name : CStr}
    (hn : dot ∉ name) (now : Int) :
    InsertsChild db (L.addr p) e (d.kids.map (L.kid p)) d.kids name now := by
  obtain ⟨c, hc, hrep⟩ := h.cell p d hd
  rw [he, Option.some.injEq] at hc
  subst hc
  have hcount := hrep.nbrEntries (by omega)
  obtain ⟨db₁, hcreate, hcreated⟩ := csdbCreateEntry_spec db name now
  have hrep₁ := hcreated.rep h
  have hbisects := bisects hrep₁ hd hb name
  rw [← hrep.childs, ← hcount] at hbisects
  by_cases hmem : name ∈ d.kids
  · -- the bisection finds it and nothing is linked
    obtain ⟨r, hr, hpost⟩ := bisect_total hrep₁ hd hb name
    cases r with
    | absent l => exact absurd hmem hpost.1.2.2.not_mem
    | found entry =>
        have happend := binaryAppendChild_bisects h hd (by omega) (List.ne_nil_of_mem hmem) hcreated
        rw [hr, ok_bind] at happend
        exact ⟨_, db₁, db₁, hcreate, hbisects, happend, .inl ⟨hmem, rfl⟩⟩
  · obtain ⟨db', happend, l₁, l₂, hk, hs, hroom, hlink⟩ :=
      (csdbAppendChild_settles (D := False) h hd (fun _ => Or.inl hb) hmem hcreated).total id
    obtain ⟨e', hin⟩ := hlink.inOrder h hd hk hn hmem (hs rfl) (hroom rfl)
    refine ⟨_, db₁, db', hcreate, hbisects, happend, .inr ⟨e', l₁.map (L.kid p), l₂.map (L.kid p),
      l₁, l₂, ?_, hk, List.length_map _, hin⟩⟩
    rw [hk, List.map_append]

end Rep

/-! ## Runs -/

/-- What holds of every entry: its children are in order, and both loops work on them. -/
def WellOrdered (db : Database) : Prop :=
  ∀ a, FromRoot db a → ∃ e l names, InOrder db a e l names ∧
    (∀ name, Bisects db e.childs e.nbrEntries l name) ∧
    (∀ name, name ≠ [dot] → FindsChild db a l names name) ∧
    ∀ name now, dot ∉ name → InsertsChild db a e l names name now

theorem wellOrdered {db : Database} {t : Tree} (h : Holds .binary db t) (hnarrow : Narrow db) :
    WellOrdered db := by
  obtain ⟨L, hrep⟩ := h
  intro a ha
  obtain ⟨p, hp, rfl⟩ := ha.addr hrep
  obtain ⟨d, hd⟩ := Option.isSome_iff_exists.mp hp
  have hb := hrep.narrow_iff.mp hnarrow p d hd
  obtain ⟨e, hin⟩ := hrep.inOrder hd (by omega)
  have hcount : e.nbrEntries = d.kids.length := by rw [hin.count, List.length_map]
  have hchilds : e.childs = d.kids.head?.map (L.kid p) := by
    obtain ⟨c, hc, hcell⟩ := hrep.cell p d hd
    rw [hin.entry, Option.some.injEq] at hc
    rw [hc, hcell.childs]
  refine ⟨e, _, d.kids, hin, ?_, ?_, ?_⟩
  · intro name
    rw [hchilds, hcount]
    exact bisects hrep hd hb name
  · exact fun name hname => findsChild hrep hd hb hname
  · exact fun name now hn => insertsChild hrep hd hb hin.entry hn now

theorem Narrow.room {db : Database} {t : Tree} (h : Holds .binary db t) (hnarrow : Narrow db) :
    (∀ p d, t.node p = some d → Room False .binary d.kids) ∧ Counted .binary t := by
  obtain ⟨L, hrep⟩ := h
  have hkids := hrep.narrow_iff.mp hnarrow
  refine ⟨fun p d hd _ => Or.inl (hkids p d hd), ?_⟩
  intro p d hd _
  have hlt := hkids p d hd
  omega

/-- An edit of a narrow database returns. -/
theorem Narrow.edit {db : Database} {t : Tree} (hnarrow : Narrow db) (h : Holds .binary db t)
    (hfree : db.locked = false) {call : Call} (hedit : call.edits = true)
    (hv : csdbIsValidKey call.key = true) (now : Int) :
    ∃ reply db', call.exec .binary now db = .ok (reply, db') ∧ Edited .binary t call.key db' := by
  obtain ⟨hroom, hcount⟩ := Narrow.room h hnarrow
  obtain ⟨⟨reply, db'⟩, hexec, hedited⟩ :=
    (edit_settles (D := False) h hroom hcount hfree hedit hv now).total id
  exact ⟨reply, db', hexec, hedited⟩

/-- A narrow run returns, and what it leaves is in order. -/
theorem run_wellOrdered (clock : Nat → Int) (calls : List Call) (k : Nat) {db : Database} {t : Tree}
    (hcalls : ∀ call ∈ calls, call.edits = true ∧ csdbIsValidKey call.key = true)
    (h : Holds .binary db t) (hfree : db.locked = false) (hnarrow : StaysNarrow clock k calls db) :
    ∃ replies db', run .binary clock k calls db = .ok (replies, db') ∧ WellOrdered db' := by
  induction calls generalizing k db t with
  | nil => exact ⟨[], db, rfl, wellOrdered h hnarrow⟩
  | cons call calls ih =>
      obtain ⟨hnow, hrest⟩ := hnarrow
      obtain ⟨hedit, hv⟩ := hcalls call List.mem_cons_self
      obtain ⟨reply, db₁, hexec, t₁, h₁, hfree₁, -, -⟩ := hnow.edit h hfree hedit hv (clock k)
      simp only [hexec] at hrest
      obtain ⟨replies, db', hrun, hordered⟩ := ih (k + 1)
        (fun c hc => hcalls c (List.mem_cons_of_mem call hc)) h₁ hfree₁ hrest
      exact ⟨reply :: replies, db', by simp only [run, hexec, ok_bind, hrun], hordered⟩

/-- A tree with few entries has short child lists. -/
theorem narrow_of_size {db : Database} {t : Tree} (h : Holds .binary db t)
    (hsize : t.size < 2 ^ 31) : Narrow db := by
  obtain ⟨L, hrep⟩ := h
  apply hrep.narrow_iff.mpr
  intro p d hd
  have hlt := Tree.kids_lt_size hd
  omega

/-- A run stays narrow when its keys have few names. -/
theorem staysNarrow_of_parts (clock : Nat → Int) (calls : List Call) (k : Nat) {db : Database}
    {t : Tree} (hcalls : ∀ call ∈ calls, call.edits = true ∧ csdbIsValidKey call.key = true)
    (h : Holds .binary db t) (hfree : db.locked = false)
    (hparts : t.size + parts calls < 2 ^ 31) : StaysNarrow clock k calls db := by
  induction calls generalizing k db t with
  | nil => exact narrow_of_size h (by omega)
  | cons call calls ih =>
      have hnow : Narrow db := narrow_of_size h (by omega)
      refine ⟨hnow, ?_⟩
      obtain ⟨hedit, hv⟩ := hcalls call List.mem_cons_self
      obtain ⟨reply, db₁, hexec, t₁, h₁, hfree₁, -, hadd⟩ := hnow.edit h hfree hedit hv (clock k)
      have hsize := Tree.size_le hadd
      have hcons : parts (call :: calls) = (keyPath call.key).length + parts calls := by simp [parts]
      rw [List.length_reverse] at hsize
      simp only [hexec]
      exact ih (k + 1) (fun c hc => hcalls c (List.mem_cons_of_mem call hc)) h₁ hfree₁ (by omega)

/-- **Order and count.** In the binary build, after every sequence of sets, appends and
removals with valid keys in which no entry gets 2^31 children, the children of every
entry are strictly increasing and counted; the loops of the search and of the insertion
end on them, compare only what they mean to, and put a new child at its place. -/
theorem binary_build_ordered (now : Int) (clock : Nat → Int) (calls : List Call)
    (hcalls : ∀ call ∈ calls, call.edits = true ∧ csdbIsValidKey call.key = true) :
    ∃ db₀, csdbInit now = .ok db₀ ∧
      (StaysNarrow clock 0 calls db₀ →
        ∃ replies db, run .binary clock 0 calls db₀ = .ok (replies, db) ∧ WellOrdered db) := by
  obtain ⟨db₀, hinit, h, hfree⟩ := csdbInit_spec .binary now
  exact ⟨db₀, hinit, run_wellOrdered clock calls 0 hcalls h hfree⟩

def unorderedSets : List Call :=
  [.set (lit ['.', 'c']) (some (lit ['1'])), .set (lit ['.', 'a']) (some (lit ['2'])),
    .set (lit ['.', 'b', '.', 'x']) none, .remove (lit ['.', 'a'])]

theorem binary_build_ordered_sets :
    ∃ db₀ replies db, csdbInit 0 = .ok db₀ ∧
      run .binary (fun _ => 0) 0 unorderedSets db₀ = .ok (replies, db) ∧ WellOrdered db := by
  obtain ⟨db₀, hinit, hordered⟩ := binary_build_ordered 0 (fun _ => 0) unorderedSets (by decide)
  obtain ⟨db₀', hinit', h, hfree⟩ := csdbInit_spec .binary 0
  rw [hinit] at hinit'
  cases hinit'
  have hnarrow : StaysNarrow (fun _ => 0) 0 unorderedSets db₀ :=
    staysNarrow_of_parts _ _ 0 (by decide) h hfree (by rw [Tree.size_init]; decide)
  obtain ⟨replies, db, hrun, hdb⟩ := hordered hnarrow
  exact ⟨db₀, replies, db, hinit, hrun, hdb⟩

end Dkmp.Csdb
