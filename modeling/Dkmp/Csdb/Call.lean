import Dkmp.Csdb.Entry

/-! # The database calls

The functions other parts of the daemon call. Seven of them take
`csdb_root_mutex`; a call that finds it taken is blocked, since within one
sequence of calls nobody else can release it. `now` is what `time(NULL)`
returns during the call.
-/

namespace Dkmp.Csdb

open Machine

def ecsNoentry : Int := 1
def ecsNoleaf : Int := 4
def ecsInvalidkey : Int := 5

def Database.lock (db : Database) : Exec Database :=
  if db.locked then .error .blocked else .ok { db with locked := true }

def Database.unlock (db : Database) : Database := { db with locked := false }

def csdbGetMtimeForKey (b : Search) (db : Database) (key : CStr) : Exec (Int × Database) := do
  let db ← db.lock
  let entry ← csdbGetEntry b db key
  let mtime ←
    if entry ≠ none then do
      let e ← db.entries.load entry
      .ok e.mtime
    else .ok 0
  .ok (mtime, db.unlock)

def csdbKeyExist (b : Search) (db : Database) (key : CStr) : Exec (Int × Database) := do
  let db ← db.lock
  let entry ← csdbGetEntry b db key
  .ok (if entry ≠ none then 1 else 0, db.unlock)

def csdbRemoveFromKey (b : Search) (db : Database) (key : CStr) : Exec (Int × Database) :=
  if strcmp key [dot] = .eq then .ok (-1, db)
  else do
    let db ← db.lock
    let root ← csdbGetEntry b db key
    if root = none then .ok (-ecsNoentry, db.unlock)
    else do
      let db ← csdbRemoveFromEntry db root
      let entries ← unlink b db root
      let e ← entries.load root
      let strings ← db.strings.free e.name
      let strings ← strings.free e.value
      let entries ← entries.free root
      .ok (0, { db with entries := entries, strings := strings }.unlock)

def csdbDumpFromKey (b : Search) (db : Database) (key : CStr) : Exec (Int × CStr × Database) := do
  let db ← db.lock
  let entry ← csdbGetEntry b db key
  let out ←
    if entry ≠ none then do
      let e ← db.entries.load entry
      csdbDumpFromEntry db e.childs
    else .ok []
  .ok (0, out, db.unlock)

/-- The return value and `*val`; on the two error returns behind the lock the
mutex is not released. -/
def csdbGetValueForKey (b : Search) (db : Database) (key : CStr) :
    Exec (Int × Option CStr × Database) :=
  if ¬ csdbIsValidKey key then .ok (-ecsInvalidkey, none, db)
  else do
    let db ← db.lock
    let entry ← csdbGetEntry b db key
    if entry = none then .ok (-ecsInvalidkey, none, db)
    else do
      let e ← db.entries.load entry
      if ¬ e.isLeaf then .ok (-ecsNoleaf, none, db)
      else do
        let value ← db.strings.load e.value
        .ok (0, some value, db.unlock)

def childNamesBody (db : Database) : Ptr × List CStr → Exec ((Ptr × List CStr) ⊕ List CStr)
  | (none, names) => .ok (.inr names)
  | (some a, names) => do
      let e ← db.entries.load (some a)
      let n ← db.strings.load e.name
      .ok (.inl (e.next, names ++ [n]))

def space : CChar := ⟨32, by decide⟩

/-- The number of children with both output forms, the list of the names and
the names each followed by a space; an error leaves the outputs untouched. -/
def csdbGetChildNamesForKey (b : Search) (db : Database) (key : CStr) :
    Exec (Int × Option (List CStr × CStr)) := do
  let entry ← csdbGetEntry b db key
  if entry = none then .ok (-1, none)
  else do
    let e ← db.entries.load entry
    if e.isLeaf then .ok (-1, none)
    else if e.childs = none then .ok (-1, none)
    else do
      let names ← loop (childNamesBody db) (db.entries.next + 1) (e.childs, [])
      .ok (names.length, some (names, names.flatMap (· ++ [space])))

/-- `realloc` moves the old value into a new buffer; an allocation that fails is
outside the model. -/
def csdbAppendValueForKey (b : Search) (db : Database) (key : CStr) (value btwn : Option CStr)
    (now : Int) : Exec (Int × Database) := do
  let db ← db.lock
  let entry ← csdbGetEntry b db key
  match entry, value with
  | none, _ => .ok (-1, db.unlock)
  | some _, none => .ok (-1, db.unlock)
  | some a, some v => do
      let e ← db.entries.load (some a)
      if ¬ e.isLeaf then .ok (-1, db.unlock)
      else if e.value = none then do
        let db ← csdbSetValue db (some a) (some v) now
        .ok (0, db.unlock)
      else do
        let old ← db.strings.load e.value
        let strings ← db.strings.free e.value
        let entries ← db.entries.update (some a) (fun e => { e with value := some strings.next })
        let strings := strings.alloc (old ++ (btwn.getD [] ++ v))
        .ok (0, { db with entries := entries, strings := strings }.unlock)

/-- The entry of one key part, made when it does not exist yet. -/
def findOrCreate (b : Search) (db : Database) (entry : Ptr) (name : CStr) (now : Int) :
    Exec (Ptr × Database) := do
  match ← csdbFindChild b db entry name with
  | none => do
      let (new, db) ← csdbCreateEntry db (some name) none now
      let db ← csdbAppendChild b db entry new
      .ok (new, db)
  | some a => .ok (some a, db)

def setLoop (b : Search) (value : Option CStr) (now : Int) :
    Database → Ptr → List CStr → Exec Database
  | db, _, [] => .ok db
  | db, entry, name :: names => do
      let (entry, db) ← findOrCreate b db entry name now
      let db ← if names = [] then csdbSetValue db entry value now else .ok db
      setLoop b value now db entry names

def csdbSetValueForKey (b : Search) (db : Database) (key : CStr) (value : Option CStr) (now : Int) :
    Exec (Int × Database) := do
  match ← csdbParseKey key with
  | none => .ok (-1, db)
  | some names =>
      let db ← db.lock
      let db ← setLoop b value now db db.root names
      .ok (0, db.unlock)

def blank : Database := ⟨.empty, .empty, none, false⟩

def csdbInit (now : Int) : Exec Database := do
  let db ← blank.lock
  let (root, db) ← csdbCreateEntry db (some [dot]) none now
  let entries ← db.entries.update root (fun e => { e with parent := root })
  .ok { db with entries := entries, root := root }.unlock

/-! ## Calls as data -/

inductive Call where
  | getMtime (key : CStr)
  | keyExist (key : CStr)
  | remove (key : CStr)
  | dump (key : CStr)
  | getValue (key : CStr)
  | childNames (key : CStr)
  | append (key : CStr) (value btwn : Option CStr)
  | set (key : CStr) (value : Option CStr)
deriving DecidableEq, Repr

inductive Reply where
  | ret (value : Int)
  | time (value : Int)
  | text (value : Int) (out : CStr)
  | value (ret : Int) (val : Option CStr)
  | names (ret : Int) (out : Option (List CStr × CStr))
deriving DecidableEq, Repr

def Call.key : Call → CStr
  | .getMtime k | .keyExist k | .remove k | .dump k | .getValue k | .childNames k
  | .append k _ _ | .set k _ => k

def Call.exec (b : Search) (now : Int) (call : Call) (db : Database) : Exec (Reply × Database) :=
  match call with
  | .getMtime key => (csdbGetMtimeForKey b db key).map fun (t, db) => (.time t, db)
  | .keyExist key => (csdbKeyExist b db key).map fun (r, db) => (.ret r, db)
  | .remove key => (csdbRemoveFromKey b db key).map fun (r, db) => (.ret r, db)
  | .dump key => (csdbDumpFromKey b db key).map fun (r, out, db) => (.text r out, db)
  | .getValue key => (csdbGetValueForKey b db key).map fun (r, v, db) => (.value r v, db)
  | .childNames key => (csdbGetChildNamesForKey b db key).map fun (r, out) => (.names r out, db)
  | .append key value btwn =>
      (csdbAppendValueForKey b db key value btwn now).map fun (r, db) => (.ret r, db)
  | .set key value => (csdbSetValueForKey b db key value now).map fun (r, db) => (.ret r, db)

def run (b : Search) (clock : Nat → Int) :
    Nat → List Call → Database → Exec (List Reply × Database)
  | _, [], db => .ok ([], db)
  | k, call :: calls, db => do
      let (reply, db) ← call.exec b (clock k) db
      let (replies, db) ← run b clock (k + 1) calls db
      .ok (reply :: replies, db)

end Dkmp.Csdb
