import Dkmp.Csdb.Refine

/-! # Alive nodes

A node is alive while the database has an entry for it under `.alive`. The
collector pastes the name of the node into a key; a dot in the name therefore
begins another part of the path, and a dot at its end is dropped by the parser.
-/

namespace Dkmp.Csc

open Machine Csdb

def ksize : Nat := 256

/-- `sprintf` into an array: the text and its terminator have to fit. -/
def sprintf (size : Nat) (text : CStr) : Exec CStr :=
  if text.length < size then .ok text else .error .bounds

theorem sprintf_ok {size : Nat} {text : CStr} (h : text.length < size) :
    sprintf size text = .ok text := if_pos h

theorem sprintf_long {size : Nat} {text : CStr} (h : size ≤ text.length) :
    sprintf size text = .error .bounds := if_neg (Nat.not_lt.mpr h)

def alive : CStr := lit ['a', 'l', 'i', 'v', 'e']

def aliveKey (nodeName : CStr) : CStr := dot :: (alive ++ dot :: nodeName)

def cscNodeIsAlive (b : Search) (db : Database) (nodeName : CStr) : Exec (Int × Database) := do
  let key ← sprintf ksize (aliveKey nodeName)
  csdbKeyExist b db key

/-- What `csdb_remove_from_key` returns is dropped. -/
def cscNodeNotAlive (b : Search) (db : Database) (nodeName : Option CStr) :
    Exec (Int × Database) :=
  match nodeName with
  | none => .ok (-1, db)
  | some nodeName => do
      let key ← sprintf ksize (aliveKey nodeName)
      let (_, db) ← csdbRemoveFromKey b db key
      .ok (0, db)

/-! ## The path of a node -/

theorem alive_no_dot : dot ∉ alive := by decide

theorem length_alive : alive.length = 5 := by decide

theorem length_aliveKey (nodeName : CStr) : (aliveKey nodeName).length = 7 + nodeName.length := by
  simp only [aliveKey, List.length_cons, List.length_append, length_alive]
  omega

theorem aliveKey_fits {nodeName : CStr} (hlen : nodeName.length ≤ 248) :
    sprintf ksize (aliveKey nodeName) = .ok (aliveKey nodeName) := by
  apply sprintf_ok
  rw [length_aliveKey, ksize]
  omega

theorem splitOn_alive (nodeName : CStr) :
    (alive ++ dot :: nodeName).splitOn dot = alive :: nodeName.splitOn dot :=
  List.splitOn_append_cons_self_of_not_mem alive_no_dot nodeName

/-- The entry whose existence makes a node alive. -/
def nodePath (nodeName : CStr) : List CStr := readParts (alive :: nodeName.splitOn dot)

theorem nodePath_plain {nodeName : CStr} (hne : nodeName ≠ []) (hdot : dot ∉ nodeName) :
    nodePath nodeName = [alive, nodeName] := by
  rw [nodePath, List.splitOn_eq_singleton hdot, readParts_eq (by simpa using hne)]

variable {db : Database} {t : Tree} {L : Layout}

theorem cscNodeIsAlive_spec (h : Rep .linear db L t) (hfree : db.locked = false) {nodeName : CStr}
    (hlen : nodeName.length < 249) :
    cscNodeIsAlive .linear db nodeName =
      .ok (if (t.record (nodePath nodeName).reverse).isSome then 1 else 0, db) := by
  have hne : alive ++ dot :: nodeName ≠ [] := by simp
  rw [cscNodeIsAlive, aliveKey_fits (Nat.le_of_lt_succ hlen), ok_bind, aliveKey, csdbKeyExist_dot h (bounded_linear t) hfree hne,
    splitOn_alive, nodePath]

theorem nodePath_head (nodeName : CStr) : ∃ rest, nodePath nodeName = alive :: rest := by
  have halive : alive = lit ['a'] ++ lit ['l', 'i', 'v', 'e'] := by decide
  refine ⟨readParts (nodeName.splitOn dot), ?_⟩
  rw [nodePath, halive]
  exact readParts_cons _ _ _

/-- The entry of a node that is not alive is removed with everything below it. -/
theorem cscNodeNotAlive_record (h : Holds .linear db t) (hfree : db.locked = false) {nodeName : CStr}
    {ret : Int} {db' : Database}
    (hok : cscNodeNotAlive .linear db (some nodeName) = .ok (ret, db')) :
    ∃ t', Holds .linear db' t' ∧ db'.locked = false ∧ ∀ q, t'.record q =
      if (nodePath nodeName).reverse <:+ q then none else t.record q := by
  obtain ⟨L, hrep⟩ := h
  have hne : alive ++ dot :: nodeName ≠ [] := by simp
  obtain ⟨ret', db₁, t', hremove, h', hfree', hrec⟩ :=
    csdbRemoveFromKey_dot hrep (bounded_linear t) hfree hne
  obtain ⟨key, hkey, hok⟩ := bind_eq_ok hok
  have hfits : key = aliveKey nodeName := by
    rw [sprintf] at hkey
    split at hkey
    · exact (Except.ok.inj hkey).symm
    · cases hkey
  rw [hfits, aliveKey, hremove, ok_bind] at hok
  obtain rfl : db₁ = db' := (Prod.mk.inj (Except.ok.inj hok)).2
  rw [splitOn_alive] at hrec
  exact ⟨t', h', hfree', hrec⟩

theorem cscNodeNotAlive_returns (h : Holds .linear db t) (hfree : db.locked = false) {nodeName : CStr}
    (hlen : nodeName.length ≤ 248) :
    ∃ db', cscNodeNotAlive .linear db (some nodeName) = .ok (0, db') := by
  obtain ⟨L, hrep⟩ := h
  have hne : alive ++ dot :: nodeName ≠ [] := by simp
  obtain ⟨ret, db', -, hremove, -⟩ := csdbRemoveFromKey_dot hrep (bounded_linear t) hfree hne
  refine ⟨db', ?_⟩
  rw [cscNodeNotAlive, aliveKey_fits hlen, ok_bind, aliveKey, hremove, ok_bind]

/-- What does not lie under `.alive` is kept. -/
theorem cscNodeNotAlive_other (h : Holds .linear db t) (hfree : db.locked = false) {nodeName : CStr}
    {ret : Int} {db' : Database}
    (hok : cscNodeNotAlive .linear db (some nodeName) = .ok (ret, db')) :
    ∃ t', Holds .linear db' t' ∧ db'.locked = false ∧
      ∀ q, q.getLast? ≠ some alive → t'.record q = t.record q := by
  obtain ⟨t', h', hfree', hrec⟩ := cscNodeNotAlive_record h hfree hok
  refine ⟨t', h', hfree', fun q hq => ?_⟩
  rw [hrec, if_neg]
  rintro ⟨front, rfl⟩
  obtain ⟨rest, hpath⟩ := nodePath_head nodeName
  apply hq
  rw [hpath, List.reverse_cons, ← List.append_assoc, List.getLast?_concat]

end Dkmp.Csc
