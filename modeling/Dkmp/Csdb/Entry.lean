import Dkmp.Csdb.Key
import Dkmp.Machine.Heap

/-! # The entry heap

`struct csdbe` objects live in one heap and the names and values they point at
in another, so that a freed entry or a freed string can no longer be read. Every
function below follows the statements of its namesake, in both builds: with the
linear search the child list is unordered and grows at the front, with the
binary search it is kept in `strcmp` order and counted in `nbrEntries`.
-/

namespace Dkmp.Csdb

open Machine

/-- The build: `CSDB_LINEAR_SEARCH` or `CSDB_BINARY_SEARCH`. -/
inductive Search where
  | linear
  | binary
deriving DecidableEq, Repr

structure Csdbe where
  name : Ptr
  value : Ptr
  childs : Ptr
  parent : Ptr
  next : Ptr
  prev : Ptr
  mtime : Int
  isLeaf : Bool
  nbrEntries : Nat
deriving DecidableEq, Repr

def Csdbe.zero : Csdbe := ⟨none, none, none, none, none, none, 0, false, 0⟩

structure Database where
  entries : Heap Csdbe
  strings : Heap CStr
  root : Ptr
  locked : Bool

/-- `unsigned int` arithmetic. -/
def uint (n : Nat) : Nat := n % 2 ^ 32

/-! ## Searching the children of an entry -/

def seekBody (db : Database) (hops : Nat) : Nat × Ptr → Exec ((Nat × Ptr) ⊕ Ptr)
  | (hopsi, hopEntry) =>
      if hopsi < hops ∧ hopEntry ≠ none then do
        let e ← db.entries.load hopEntry
        if e.next ≠ none then .ok (.inl (hopsi + 1, e.next)) else .ok (.inr hopEntry)
      else .ok (.inr hopEntry)

def csdbSeek (db : Database) (entry : Ptr) (hops : Nat) : Exec Ptr :=
  loop (seekBody db hops) (hops + 1) (1, entry)

def findBody (db : Database) (name : CStr) : Ptr → Exec (Ptr ⊕ Ptr)
  | none => .ok (.inr none)
  | some a => do
      let e ← db.entries.load (some a)
      let n ← db.strings.load e.name
      if strcmp n name = .eq then .ok (.inr (some a)) else .ok (.inl e.next)

/-- Where the bisection of a child list ends: at an element with the name, or
with `u < l` and the lower bound it has then. -/
inductive Bisect where
  | found (entry : Ptr)
  | absent (l : Nat)
deriving DecidableEq, Repr

/-- The loop of the labels `b2` to `b5`, shared by the search and the insertion. -/
def bisectBody (db : Database) (childs : Ptr) (name : CStr) :
    Nat × Nat → Exec ((Nat × Nat) ⊕ Bisect)
  | (l, u) => do
      let i := uint (l + u) / 2
      let toFind ← csdbSeek db childs i
      if u < l then .ok (.inr (.absent l))
      else do
        let e ← db.entries.load toFind
        let n ← db.strings.load e.name
        match strcmp name n with
        | .lt => .ok (.inl (l, uint (i + 2 ^ 32 - 1)))
        | .gt => .ok (.inl (uint (i + 1), u))
        | .eq => .ok (.inr (.found toFind))

/-- Two 32-bit bounds: a bisection that has not ended after as many iterations
as there are pairs of them never ends. -/
def bisect (db : Database) (childs : Ptr) (nbrEntries : Nat) (name : CStr) : Exec Bisect :=
  loop (bisectBody db childs name) (2 ^ 64) (1, nbrEntries)

def csdbFindChild (b : Search) (db : Database) (root : Ptr) (name : CStr) : Exec Ptr :=
  match b with
  | .linear => do
      let e ← db.entries.load root
      if strcmp name [dot] = .eq then .ok db.root
      else loop (findBody db name) (db.entries.next + 1) e.childs
  | .binary =>
      if strcmp name [dot] = .eq then .ok db.root
      else do
        let e ← db.entries.load root
        if e.childs = none then .ok none
        else
          match ← bisect db e.childs e.nbrEntries name with
          | .found entry => .ok entry
          | .absent _ => .ok none

/-- The loop `while(entry && *name)` of `csdb_get_entry`. -/
def getEntryLoop (b : Search) (db : Database) : Ptr → List CStr → Exec Ptr
  | none, _ => .ok none
  | some a, [] => .ok (some a)
  | some a, name :: names => do
      let entry ← csdbFindChild b db (some a) name
      getEntryLoop b db entry names

def csdbGetEntry (b : Search) (db : Database) (key : CStr) : Exec Ptr := do
  match ← csdbParseKey key with
  | none => if db.root = none then .ok none else .error .null
  | some names => getEntryLoop b db db.root names

/-! ## Creating and changing entries -/

def csdbSetName (db : Database) (entry : Ptr) (name : Option CStr) : Exec Database :=
  match name with
  | none => .ok db
  | some n => do
      let e ← db.entries.load entry
      let strings ← db.strings.free e.name
      let entries ← db.entries.update entry
        (fun e => { e with name := some strings.next, isLeaf := false })
      .ok { db with entries := entries, strings := strings.alloc n }

def csdbSetValue (db : Database) (entry : Ptr) (value : Option CStr) (now : Int) : Exec Database := do
  let e ← db.entries.load entry
  let strings ← db.strings.free e.value
  match value with
  | some v =>
      let entries ← db.entries.update entry
        (fun e => { e with value := some strings.next, isLeaf := true, mtime := now })
      .ok { db with entries := entries, strings := strings.alloc v }
  | none =>
      let entries ← db.entries.update entry (fun e => { e with value := none, mtime := now })
      .ok { db with entries := entries, strings := strings }

def csdbCreateEntry (db : Database) (name value : Option CStr) (now : Int) : Exec (Ptr × Database) := do
  let new : Ptr := some db.entries.next
  let db := { db with entries := db.entries.alloc .zero }
  let db ← csdbSetName db new name
  let db ← csdbSetValue db new value now
  .ok (new, db)

def linearAppendChild (db : Database) (entry child : Ptr) : Exec Database := do
  let e ← db.entries.load entry
  let entries ← db.entries.update child
    (fun c => { c with next := e.childs, prev := none, parent := entry })
  let c ← entries.load child
  let entries ← if c.next ≠ none then entries.update c.next (fun n => { n with prev := child })
    else .ok entries
  let entries ← entries.update entry (fun e => { e with childs := child })
  .ok { db with entries := entries }

/-- The insertion behind the label `b2` once `u < l` holds. -/
def insertAt (db : Database) (entry child : Ptr) (l : Nat) : Exec Database := do
  let e ← db.entries.load entry
  let toFind ← csdbSeek db e.childs l
  let f ← db.entries.load toFind
  let entries ←
    if l > e.nbrEntries then do
      let entries ← db.entries.update child (fun c => { c with next := f.next, prev := toFind })
      entries.update toFind (fun f => { f with next := child })
    else do
      let entries ← db.entries.update child (fun c => { c with next := toFind, prev := f.prev })
      let entries ← if f.prev ≠ none then entries.update f.prev (fun p => { p with next := child })
        else .ok entries
      let entries ← entries.update toFind (fun f => { f with prev := child })
      let e ← entries.load entry
      if e.childs = toFind then entries.update entry (fun e => { e with childs := child })
      else .ok entries
  let entries ← entries.update child (fun c => { c with parent := entry })
  let entries ← entries.update entry (fun e => { e with nbrEntries := uint (e.nbrEntries + 1) })
  .ok { db with entries := entries }

def binaryAppendChild (db : Database) (entry child : Ptr) : Exec Database := do
  let e ← db.entries.load entry
  if e.childs = none then do
    let entries ← db.entries.update entry (fun e => { e with childs := child })
    let entries ← entries.update child
      (fun c => { c with prev := none, next := none, parent := entry })
    let entries ← entries.update entry (fun e => { e with nbrEntries := uint (e.nbrEntries + 1) })
    .ok { db with entries := entries }
  else do
    let c ← db.entries.load child
    let name ← db.strings.load c.name
    match ← bisect db e.childs e.nbrEntries name with
    | .found _ => .ok db
    | .absent l => insertAt db entry child l

def csdbAppendChild (b : Search) (db : Database) (entry child : Ptr) : Exec Database :=
  match b with
  | .linear => linearAppendChild db entry child
  | .binary => binaryAppendChild db entry child

/-! ## Freeing a subtree -/

/-- The iteration over the children behind the recursive call: the strings of
the child go at once, the child itself when the next one is reached. -/
def freeChild (db : Database) (a : Nat) : Exec ((Database × Ptr) ⊕ Database) := do
  let e ← db.entries.load (some a)
  let strings ← db.strings.free e.name
  let strings ← strings.free e.value
  let db := { db with strings := strings }
  match e.next with
  | none => .ok (.inl (db, none))
  | some n => do
      let f ← db.entries.load (some n)
      let entries ← db.entries.free f.prev
      .ok (.inl ({ db with entries := entries }, some n))

def removeBody (rec : Database → Ptr → Exec Database) : Database × Ptr → Exec ((Database × Ptr) ⊕ Database)
  | (db, none) => .ok (.inr db)
  | (db, some a) => do
      let e ← db.entries.load (some a)
      let db ← if e.childs ≠ none then rec db (some a) else .ok db
      freeChild db a

/-- `__csdb_remove_from_entry` with a bound on the depth of its recursion. -/
def removeFromEntry : Nat → Database → Ptr → Exec Database
  | 0, _, _ => .error .diverge
  | depth + 1, db, root => do
      let e ← db.entries.load root
      loop (removeBody (removeFromEntry depth)) (db.entries.next + 1) (db, e.childs)

def csdbRemoveFromEntry (db : Database) (root : Ptr) : Exec Database :=
  removeFromEntry (db.entries.next + 1) db root

def skipForward (entries : Heap Csdbe) (e : Csdbe) : Exec (Heap Csdbe) :=
  if e.prev ≠ none then entries.update e.prev (fun p => { p with next := e.next })
  else entries.update e.parent (fun p => { p with childs := e.next })

/-- `root->parent->nbr_entries -= 1`, in the binary build only. -/
def uncount (b : Search) (entries : Heap Csdbe) (e : Csdbe) : Exec (Heap Csdbe) :=
  match b with
  | .linear => .ok entries
  | .binary =>
      entries.update e.parent fun p => { p with nbrEntries := uint (p.nbrEntries + (2 ^ 32 - 1)) }

def skipBack (entries : Heap Csdbe) (e : Csdbe) : Exec (Heap Csdbe) :=
  if e.next ≠ none then entries.update e.next (fun n => { n with prev := e.prev })
  else .ok entries

def unlink (b : Search) (db : Database) (root : Ptr) : Exec (Heap Csdbe) := do
  let e ← db.entries.load root
  let entries ← skipForward db.entries e
  let e ← entries.load root
  let entries ← uncount b entries e
  let e ← entries.load root
  skipBack entries e

/-! ## Printing -/

/-- The key of an entry, rebuilt along the parent pointers; the recursion stops
at the entry whose name buffer is that of the root. -/
def listParentsNames (db : Database) : Nat → Ptr → Exec CStr
  | 0, _ => .error .diverge
  | depth + 1, entry => do
      let e ← db.entries.load entry
      let r ← db.entries.load db.root
      let above ← if e.name ≠ r.name then listParentsNames db depth e.parent else .ok []
      if entry ≠ db.root then do
        let n ← db.strings.load e.name
        .ok (above ++ dot :: n)
      else .ok above

def csdbListParentsNames (db : Database) (entry : Ptr) : Exec CStr :=
  listParentsNames db (db.entries.next + 1) entry

/-- The line of an entry that holds a value, written piece by piece. -/
def dumpLine (db : Database) (a : Nat) (e : Csdbe) : Exec CStr :=
  if e.isLeaf then do
    let names ← csdbListParentsNames db (some a)
    let value ← match e.value with
      | none => .ok (lit ['(', 'n', 'u', 'l', 'l', ')'])
      | some v => db.strings.load (some v)
    .ok (names ++ equals :: (value ++ [newline]))
  else .ok []

def dumpChilds (rec : Ptr → Exec CStr) (e : Csdbe) : Exec CStr :=
  if e.childs ≠ none then rec e.childs else .ok []

def dumpBody (db : Database) (rec : Ptr → Exec CStr) : Ptr × CStr → Exec ((Ptr × CStr) ⊕ CStr)
  | (none, out) => .ok (.inr out)
  | (some a, out) => do
      let e ← db.entries.load (some a)
      let line ← dumpLine db a e
      let below ← dumpChilds rec e
      .ok (.inl (e.next, out ++ (line ++ below)))

def dumpFromEntry (db : Database) : Nat → Ptr → Exec CStr
  | 0, _ => .error .diverge
  | depth + 1, entry => loop (dumpBody db (dumpFromEntry db depth)) (db.entries.next + 1) (entry, [])

def csdbDumpFromEntry (db : Database) (entry : Ptr) : Exec CStr :=
  dumpFromEntry db (db.entries.next + 1) entry

end Dkmp.Csdb
