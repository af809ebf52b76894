import Dkmp.Csdb.Call
import Dkmp.Machine.PathMap

/-! # The abstract store

What the database is for: a finite map from component paths, with a mutex that
`csdb_get_value_for_key` does not give back when it finds no value. The answers
of the store do not depend on a build; a list of child names is a set here.
-/

namespace Dkmp.Csdb

open Machine

abbrev Paths := PathMap CStr CStr

abbrev ValidKey := {key : CStr // csdbIsValidKey key = true}

def ValidKey.path (key : ValidKey) : List CStr := keyPath key.val

inductive Edit where
  | set (key : ValidKey) (value : CStr)
  | append (key : ValidKey) (value btwn : Option CStr)
  | remove (key : ValidKey)
deriving DecidableEq

def Edit.call : Edit → Call
  | .set key value => .set key.val (some value)
  | .append key value btwn => .append key.val value btwn
  | .remove key => .remove key.val

def Edit.spec : Edit → Paths → Int × Paths
  | .set key value, m => (0, m.set key.path value)
  | .append key value btwn, m =>
      match value, m.bound key.path with
      | some value, some (some _) => (0, m.modify key.path (· ++ (btwn.getD [] ++ value)))
      | _, _ => (-1, m)
  | .remove key, m =>
      if hroot : key.path = [] then (-1, m)
      else if m.bound key.path = none then (-ecsNoentry, m)
      else (0, m.remove key.path hroot)

def Edit.specRun : List Edit → Paths → List Int × Paths
  | [], m => ([], m)
  | e :: es, m =>
      let (r, m) := e.spec m
      let (rs, m) := Edit.specRun es m
      (r :: rs, m)

def valueOf : Option (Option CStr) → Int × Option CStr
  | none => (-ecsInvalidkey, none)
  | some none => (-ecsNoleaf, none)
  | some (some v) => (0, some v)

/-! ## The store with its mutex -/

inductive Op where
  | edit (e : Edit)
  | keyExist (key : ValidKey)
  | getValue (key : ValidKey)
  | childNames (key : ValidKey)
deriving DecidableEq

def Op.call : Op → Call
  | .edit e => e.call
  | .keyExist key => .keyExist key.val
  | .getValue key => .getValue key.val
  | .childNames key => .childNames key.val

inductive Answer where
  | ret (value : Int)
  | value (ret : Int) (val : Option CStr)
  | names (out : Option (Set CStr))

structure Store where
  map : Paths
  locked : Bool

/-- An attempt to delete the root returns before the mutex is taken. -/
def Edit.locks : Edit → Bool
  | .remove key => key.val ≠ [dot]
  | _ => true

open Classical in
noncomputable def childrenOf (m : Paths) (path : List CStr) : Option (Set CStr) :=
  if m.bound path = some none ∧ (m.children path).Nonempty then some (m.children path) else none

noncomputable def Op.spec (op : Op) (s : Store) : Exec (Answer × Store) :=
  match op with
  | .edit e =>
      if e.locks ∧ s.locked then .error .blocked
      else .ok (.ret (e.spec s.map).1, { s with map := (e.spec s.map).2 })
  | .keyExist key =>
      if s.locked then .error .blocked
      else .ok (.ret (if (s.map.bound key.path).isSome then 1 else 0), s)
  | .getValue key =>
      if s.locked then .error .blocked
      else
        .ok (.value (valueOf (s.map.bound key.path)).1 (valueOf (s.map.bound key.path)).2,
          { s with locked := (valueOf (s.map.bound key.path)).2.isNone })
  | .childNames key => .ok (.names (childrenOf s.map key.path), s)

noncomputable def Op.specRun : List Op → Store → Exec (List Answer × Store)
  | [], s => .ok ([], s)
  | op :: ops, s => do
      let (answer, s) ← op.spec s
      let (answers, s) ← Op.specRun ops s
      .ok (answer :: answers, s)

/-- A reply of a build that gives this answer; the binary build lists children
in `strcmp` order. -/
def Reply.Gives (b : Search) : Reply → Answer → Prop
  | .ret n, .ret m => n = m
  | .value n v, .value m w => n = m ∧ v = w
  | .names n out, .names none => n = -1 ∧ out = none
  | .names n out, .names (some s) =>
      ∃ l : List CStr, out = some (l, l.flatMap (· ++ [space])) ∧ n = l.length ∧ l.Nodup ∧
        (∀ x, x ∈ l ↔ x ∈ s) ∧ (b = .binary → l.Pairwise (strcmp · · = .lt))
  | _, _ => False

end Dkmp.Csdb
