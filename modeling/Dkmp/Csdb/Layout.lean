import Dkmp.Csdb.Entry
import Dkmp.Csdb.Tree
import Dkmp.Machine.Linked

/-! # Heaps that hold a tree

`Rep b db L t` is the representation invariant: the entries of the tree `t` lie
in the heap of `db` where the layout `L` says, their fields spell the tree, the
children of an entry form a doubly linked list, and every name or value buffer
is owned by one entry. Parents are allocated before their children, which bounds
the depth of the tree by the number of allocations.
-/

namespace Dkmp.Csdb

open Machine

/-- Where the entries live and whose name or value each buffer is. -/
structure Layout where
  addr : UpPath → Nat
  owner : Nat → UpPath × Bool

def Layout.kid (L : Layout) (p : UpPath) (n : CStr) : Nat := L.addr (n :: p)

/-- The name buffer of the root holds a dot. -/
def nameOf : UpPath → CStr
  | [] => [dot]
  | n :: _ => n

def ValueRep (strings : Heap CStr) (L : Layout) (p : UpPath) : Option CStr → Ptr → Prop
  | none, ptr => ptr = none
  | some v, ptr => ∃ a, ptr = some a ∧ strings.cell a = some v ∧ L.owner a = (p, true)

/-- The fields of an entry other than its links. -/
structure CellRep (b : Search) (strings : Heap CStr) (L : Layout) (p : UpPath) (d : Node)
    (c : Csdbe) : Prop where
  childs : c.childs = d.kids.head?.map (L.kid p)
  parent : c.parent = some (L.addr p.tail)
  leaf : c.isLeaf = d.leaf
  mtime : c.mtime = d.mtime
  count : b = .binary → c.nbrEntries = uint d.kids.length
  name : ∃ a, c.name = some a ∧ strings.cell a = some (nameOf p) ∧ L.owner a = (p, false)
  value : ValueRep strings L p d.value c.value

/-- The counter of an entry whose children it can count. -/
theorem CellRep.nbrEntries {strings : Heap CStr} {L : Layout} {p : UpPath} {d : Node} {c : Csdbe}
    (h : CellRep .binary strings L p d c) (hlen : d.kids.length < 2 ^ 32) :
    c.nbrEntries = d.kids.length := by
  rw [h.count rfl]
  exact Nat.mod_eq_of_lt hlen

structure Rep (b : Search) (db : Database) (L : Layout) (t : Tree) : Prop where
  root : db.root = some (L.addr [])
  inj : ∀ p q, (t.node p).isSome → (t.node q).isSome → L.addr p = L.addr q → p = q
  lt : ∀ n p, (t.node (n :: p)).isSome → L.addr p < L.addr (n :: p)
  cell : ∀ p d, t.node p = some d →
    ∃ c, db.entries.cell (L.addr p) = some c ∧ CellRep b db.strings L p d c
  linked : ∀ p d, t.node p = some d →
    Linked Csdbe.next Csdbe.prev db.entries.cell none (d.kids.map (L.kid p))
  sorted : b = .binary → ∀ p d, t.node p = some d → d.kids.Pairwise (strcmp · · = .lt)

/-- With the binary search, positions in a child list must fit the counter. -/
def Fits (b : Search) (kids : List CStr) : Prop := b = .binary → kids.length < 2 ^ 31

def Bounded (b : Search) (t : Tree) : Prop := ∀ p d, t.node p = some d → Fits b d.kids

theorem bounded_linear (t : Tree) : Bounded .linear t := by
  intro p d _ hb
  cases hb

namespace Rep

variable {b : Search} {db : Database} {L : Layout} {t : Tree} {p : UpPath} {d : Node}

theorem kids_nodup (h : Rep b db L t) (hd : t.node p = some d) :
    (d.kids.map (L.kid p)).Nodup := by
  apply (t.nodup p d hd).map_on
  intro m hm n hn heq
  have := h.inj _ _ (t.kid_isSome hd hm) (t.kid_isSome hd hn) heq
  exact (List.cons.inj this).1

theorem addr_lt_next (h : Rep b db L t) (hp : (t.node p).isSome) :
    L.addr p < db.entries.next := by
  obtain ⟨d, hd⟩ := Option.isSome_iff_exists.mp hp
  obtain ⟨c, hc, -⟩ := h.cell p d hd
  exact Heap.lt_next hc

theorem kids_length_le (h : Rep b db L t) (hd : t.node p = some d) :
    d.kids.length ≤ db.entries.next := by
  have hle := length_le_of_lt (h.kids_nodup hd) (n := db.entries.next) (by
    intro a ha
    obtain ⟨n, hn, rfl⟩ := List.mem_map.mp ha
    exact h.addr_lt_next (t.kid_isSome hd hn))
  simpa using hle

theorem addr_ne (h : Rep b db L t) {q : UpPath} (hp : (t.node p).isSome) (hq : (t.node q).isSome)
    (hne : p ≠ q) : L.addr p ≠ L.addr q :=
  fun heq => hne (h.inj p q hp hq heq)

theorem kid_ne (h : Rep b db L t) (hd : t.node p = some d) {n : CStr} (hn : n ∈ d.kids) :
    L.kid p n ≠ L.addr p :=
  Nat.ne_of_gt (h.lt n p (t.kid_isSome hd hn))

theorem length_le_addr (h : Rep b db L t) (hp : (t.node p).isSome) : p.length ≤ L.addr p := by
  induction p with
  | nil => simp
  | cons n p ih =>
      have := ih (t.parent_isSome hp)
      have := h.lt n p hp
      simp only [List.length_cons]
      omega

theorem kid_cell (h : Rep b db L t) (hd : t.node p = some d) {l₁ l₂ : List CStr} {n : CStr}
    (hk : d.kids = l₁ ++ n :: l₂) :
    ∃ d' c, t.node (n :: p) = some d' ∧ db.entries.cell (L.kid p n) = some c ∧
      CellRep b db.strings L (n :: p) d' c ∧ c.next = l₂.head?.map (L.kid p) ∧
      c.prev = l₁.getLast?.map (L.kid p) := by
  have hlink := h.linked p d hd
  rw [hk, List.map_append, List.map_cons] at hlink
  obtain ⟨c, hc, hn, hp⟩ := hlink.at
  obtain ⟨d', hd'⟩ := Option.isSome_iff_exists.mp (t.kid_isSome hd (n := n) (by simp [hk]))
  obtain ⟨c', hc', hrep⟩ := h.cell _ _ hd'
  have hcc : c' = c := by
    rw [Layout.kid] at hc
    rw [hc] at hc'
    exact (Option.some.inj hc').symm
  subst hcc
  refine ⟨d', c', hd', hc, hrep, ?_, ?_⟩
  · rw [hn, List.head?_map]
  · rw [hp, List.getLast?_map, Option.or_none]

end Rep

end Dkmp.Csdb
