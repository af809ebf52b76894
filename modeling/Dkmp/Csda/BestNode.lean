import Dkmp.Csc.Libs
import Dkmp.Csdb.Mutex
import Dkmp.Machine.Trace
import Mathlib.Algebra.Order.Field.Rat
import Mathlib.Tactic.Positivity
import Mathlib.Tactic.Linarith

/-! # The best node for an application

The arbiter walks over the nodes that can run an application, skips those that
are not alive, and keeps the first one with the greatest goodness. Loads and
goodness are exact rational numbers here. A thread serves requests for the best
node out of one buffer that it never clears.
-/

namespace Dkmp.Csda

open Machine Csdb Csc

def nodeSize : Nat := 65

def appSize : Nat := 256

/-! ## Numbers -/

def minus : CChar := ⟨45, by decide⟩
def plus : CChar := ⟨43, by decide⟩

def isdigit (c : CChar) : Bool := 48 ≤ c.val ∧ c.val ≤ 57

def digitsValue (digits : CStr) : Nat := digits.foldl (fun n c => 10 * n + (c.val.toNat - 48)) 0

def scanSign : CStr → Bool × CStr
  | [] => (false, [])
  | c :: s => if c = minus then (true, s) else if c = plus then (false, s) else (false, c :: s)

/-- The conversion `%d`, of numbers that an `int` can hold: nothing wraps around here. -/
def scanInt (text : CStr) : Option (Int × CStr) :=
  let (negative, s) := scanSign (text.dropWhile isspace)
  match s.takeWhile isdigit with
  | [] => none
  | digits =>
      let value : Int := digitsValue digits
      some (if negative then -value else value, s.dropWhile isdigit)

def scanFraction : CStr → CStr × CStr
  | [] => ([], [])
  | c :: s => if c = dot then (s.takeWhile isdigit, s.dropWhile isdigit) else ([], c :: s)

def scanExponent : CStr → Int
  | [] => 0
  | c :: s =>
      if c.val = 101 ∨ c.val = 69 then
        let (negative, s) := scanSign s
        let value : Int := digitsValue (s.takeWhile isdigit)
        if negative then -value else value
      else 0

/-- `atof`: the decimal number at the beginning of the text, without rounding. The
hexadecimal forms, `inf` and `nan` are not read here. -/
def atof (text : CStr) : ℚ :=
  let (negative, s) := scanSign (text.dropWhile isspace)
  let (fraction, rest) := scanFraction (s.dropWhile isdigit)
  let value : ℚ := digitsValue (s.takeWhile isdigit ++ fraction) / 10 ^ fraction.length *
    10 ^ scanExponent rest
  if negative then -value else value

def truncate (q : ℚ) : Int := q.num.tdiv q.den

/-! ## The goodness of a node -/

inductive Average where
  | avg1
  | avg5
  | avg15
deriving DecidableEq, Repr

def Average.text : Average → CStr
  | .avg1 => lit ['a', 'v', 'g', '1']
  | .avg5 => lit ['a', 'v', 'g', '5']
  | .avg15 => lit ['a', 'v', 'g', '1', '5']

def nodeLoadKey (node : CStr) (average : Average) : CStr :=
  dot :: (lit ['n', 'o', 'd', 'e', '.'] ++ (node ++ (lit ['.', 'l', 'o', 'a', 'd', '.'] ++ average.text)))

def readLoad (b : Search) (db : Database) (node : CStr) (average : Average) :
    Exec (Option ℚ × Database) := do
  let key ← sprintf ksize (nodeLoadKey node average)
  let (error, value, db) ← csdbGetValueForKey b db key
  if error < 0 then .ok (none, db)
  else
    match value with
    | none => .error .null
    | some value => .ok (some (atof value), db)

def goodness (load1 load5 load15 : ℚ) : ℚ :=
  1 / (1 + load1) * (7 / 10) + 1 / (1 + load5) * (2 / 10) + 1 / (1 + load15) * (1 / 10)

def csdaCalcBench (b : Search) (db : Database) (node : CStr) : Exec (ℚ × Database) := do
  match ← readLoad b db node .avg1 with
  | (none, db) => .ok (0, db)
  | (some load1, db) =>
      match ← readLoad b db node .avg5 with
      | (none, db) => .ok (0, db)
      | (some load5, db) =>
          match ← readLoad b db node .avg15 with
          | (none, db) => .ok (0, db)
          | (some load15, db) => .ok (goodness load1 load5 load15, db)

/-! ## The best node -/

def capKey (appName : CStr) : CStr :=
  dot :: (lit ['a', 'p', 'p', '.'] ++
    (appName ++ lit ['.', 'c', 'a', 'p', 'n', 'o', 'd', 'e', 's']))

/-- `while(node != NULL)`, with `node` the first token of the text; the buffer
`*node_name` holds nothing before its first use. -/
def bestBody (b : Search) : CStr × ℚ × Option CStr × Database →
    Exec ((CStr × ℚ × Option CStr × Database) ⊕ (ℚ × Option CStr × Database))
  | (text, maxBench, nodeName, db) =>
      match strtok [space] text with
      | none => .ok (.inr (maxBench, nodeName, db))
      | some (node, rest) => do
          let (isAlive, db) ← cscNodeIsAlive b db node
          if isAlive = 0 then .ok (.inl (rest, maxBench, nodeName, db))
          else do
            let (bench, db) ← csdaCalcBench b db node
            if maxBench < bench then do
              let nodeName ← sprintf nodeSize node
              .ok (.inl (rest, bench, some nodeName, db))
            else .ok (.inl (rest, maxBench, nodeName, db))

def bestLoop (b : Search) (db : Database) (capNodes : CStr) (nodeName : Option CStr) :
    Exec (Int × Option CStr × Database) := do
  let (maxBench, nodeName, db) ←
    loop (bestBody b) (capNodes.length + 1) (capNodes, -1, nodeName, db)
  .ok (truncate maxBench, nodeName, db)

def csdaBestNodeForApp (b : Search) (db : Database) (appName : CStr) (nodeName : Option CStr) :
    Exec (Int × Option CStr × Database) := do
  let key ← sprintf ksize (capKey appName)
  let (exist, db) ← csdbKeyExist b db key
  if exist = 0 then .ok (-1, nodeName, db)
  else do
    let (error, capNodes, db) ← csdbGetValueForKey b db key
    if error < 0 then .ok (-1, nodeName, db)
    else
      match capNodes with
      | none => .error .null
      | some capNodes => bestLoop b db capNodes nodeName

/-! ## Serving requests -/

structure RequestFields where
  clientId : Option Int
  appName : Option CStr
deriving DecidableEq, Repr

/-- `sscanf(req.msg, "%d %s", &client_id, app_name)`: a conversion that fails leaves
the variables from there on as they were. -/
def sscanfRequest (msg : CStr) (f : RequestFields) : Exec RequestFields :=
  match scanInt msg with
  | none => .ok f
  | some (clientId, text) =>
      match scanString text with
      | none => .ok { f with clientId := some clientId }
      | some (appName, _) => do
          let appName ← sprintf appSize appName
          .ok ⟨some clientId, some appName⟩

structure Server where
  db : Database
  fields : RequestFields
  bestNode : Option CStr
  replies : List (Int × CStr)

/-- `if(error == -1) strcpy(best_node, hostname)`. -/
def orHostname (hostname : Option CStr) (error : Int) (bestNode : Option CStr) :
    Exec (Option CStr) :=
  if error = -1 then
    match hostname with
    | none => .error .null
    | some hostname => (sprintf nodeSize hostname).map some
  else .ok bestNode

def serve (b : Search) (hostname : Option CStr) (s : Server) (msg : CStr) : Exec Server := do
  let fields ← sscanfRequest msg s.fields
  match fields.clientId, fields.appName with
  | some clientId, some appName => do
      let (error, bestNode, db) ← csdaBestNodeForApp b s.db appName s.bestNode
      match ← orHostname hostname error bestNode with
      | none => .error .uninit
      | some bestNode => do
          let reply ← sprintf nodeSize bestNode
          .ok ⟨db, fields, some bestNode, s.replies ++ [(clientId, reply)]⟩
  | _, _ => .error .uninit

inductive Act where
  | request (msg : CStr)
  | call (call : Call) (now : Int)

def step (hostname : Option CStr) (s : Server) : Act → Exec Server
  | .request msg => serve .linear hostname s msg
  | .call call now => do
      let (_, db) ← call.exec .linear now s.db
      .ok { s with db := db }

/-! ## The names in question -/

def loadOf (db : Database) (node : CStr) (average : Average) : Option ℚ :=
  match valueFor .linear db (nodeLoadKey node average) with
  | .ok (some value) => some (atof value)
  | _ => none

theorem loadOf_congr {db db' : Database} {node : CStr} {average : Average}
    (hvalue : valueFor .linear db' (nodeLoadKey node average) =
      valueFor .linear db (nodeLoadKey node average)) :
    loadOf db' node average = loadOf db node average := by
  delta loadOf
  rw [hvalue]

def benchOf (db : Database) (node : CStr) : ℚ :=
  match csdaCalcBench .linear db node with
  | .ok (bench, _) => bench
  | .error _ => 0

def isAlive (db : Database) (node : CStr) : Bool :=
  match cscNodeIsAlive .linear db node with
  | .ok (ret, _) => ret ≠ 0
  | .error _ => false

def capNames (db : Database) (appName : CStr) : List CStr :=
  match valueFor .linear db (capKey appName) with
  | .ok (some value) => tokens [space] value
  | _ => []

theorem capNames_value {db : Database} {appName value : CStr}
    (hvalue : valueFor .linear db (capKey appName) = .ok (some value)) :
    capNames db appName = tokens [space] value := by
  delta capNames
  rw [hvalue]

def NoCandidate (db : Database) (appName : CStr) : Prop :=
  (∀ value, valueFor .linear db (capKey appName) ≠ .ok (some value)) ∨
    ∀ node ∈ capNames db appName, isAlive db node = false

/-- The earliest of the elements that pass `p` with the greatest `f`. -/
def FirstMax {α : Type} (p : α → Bool) (f : α → ℚ) (l : List α) (a : α) : Prop :=
  ∃ pre post, l = pre ++ a :: post ∧ p a = true ∧
    (∀ x ∈ pre, p x = true → f x < f a) ∧ ∀ x ∈ post, p x = true → f x ≤ f a

/-- The best node: the earliest alive name with the greatest goodness, and no alive
name has all three loads lower. -/
structure BestNode (db : Database) (appName node : CStr) : Prop where
  first : FirstMax (isAlive db) (benchOf db) (capNames db appName) node
  undominated : ∀ other ∈ capNames db appName, isAlive db other = true →
    ¬ ∀ average, ∃ load load', loadOf db other average = some load ∧
      loadOf db node average = some load' ∧ load < load'

structure Answers (db : Database) (appName : CStr) (ret : Int) (nodeName : Option CStr) : Prop where
  none : ret = -1 ↔ NoCandidate db appName
  some : ret ≠ -1 → ∃ node, nodeName = some node ∧ BestNode db appName node

/-- The requests the code is up to: the key and the names fit their arrays, the key
has a value or does not exist, and every alive name has its three loads, none of them
negative. A name too long for the buffer comes behind an alive one that is as good. -/
structure Servable (db : Database) (appName : CStr) : Prop where
  app : appName.length ≤ 241
  value : csdbKeyExist .linear db (capKey appName) = .ok (0, db) ∨
    ∃ value, valueFor .linear db (capKey appName) = .ok (some value)
  names : ∀ node ∈ capNames db appName, node.length ≤ 248
  alive : ∀ node ∈ capNames db appName, isAlive db node = true → node.length ≤ 238
  loads : ∀ node ∈ capNames db appName, isAlive db node = true →
    ∀ average, ∃ load, loadOf db node average = some load ∧ 0 ≤ load
  fits : ∀ pre node post, capNames db appName = pre ++ node :: post → isAlive db node = true →
    nodeSize ≤ node.length → ∃ x ∈ pre, isAlive db x = true ∧ benchOf db node ≤ benchOf db x

def requested (msg : CStr) : Option (Int × CStr) :=
  match scanInt msg with
  | none => none
  | some (clientId, text) => (scanString text).map fun (appName, _) => (clientId, appName)

/-- The steps the thread is up to: a request names an application it can serve, and
the name of the host fits when it is needed; a call of another thread has a valid key
and fetches only values that exist. -/
def Meets (hostname : Option CStr) (s : Server) : Act → Prop
  | .request msg => ∃ clientId appName, requested msg = some (clientId, appName) ∧
      Servable s.db appName ∧
      (NoCandidate s.db appName → ∃ name, hostname = some name ∧ name.length < nodeSize)
  | .call call _ => csdbIsValidKey call.key = true ∧
      ∀ key, call = .getValue key → ∃ value, valueFor .linear s.db key = .ok (some value)

/-! ## Goodness -/

section Goodness

variable {l₁ l₅ l₁₅ m₁ m₅ m₁₅ : ℚ}

theorem goodness_nonneg (h₁ : 0 ≤ l₁) (h₅ : 0 ≤ l₅) (h₁₅ : 0 ≤ l₁₅) : 0 ≤ goodness l₁ l₅ l₁₅ := by
  unfold goodness
  positivity

theorem goodness_lt (h₁ : 0 ≤ l₁) (h₅ : 0 ≤ l₅) (h₁₅ : 0 ≤ l₁₅) (hlt₁ : l₁ < m₁) (hlt₅ : l₅ < m₅)
    (hlt₁₅ : l₁₅ < m₁₅) : goodness m₁ m₅ m₁₅ < goodness l₁ l₅ l₁₅ := by
  have hone : ∀ {l m : ℚ}, 0 ≤ l → l < m → 1 / (1 + m) < 1 / (1 + l) := by
    intro l m hl hlt
    exact one_div_lt_one_div_of_lt (by linarith) (by linarith)
  have hg₁ := hone h₁ hlt₁
  have hg₅ := hone h₅ hlt₅
  have hg₁₅ := hone h₁₅ hlt₁₅
  unfold goodness
  linarith

end Goodness

theorem atof_nonneg {text : CStr} (h : (scanSign (text.dropWhile isspace)).1 = false) :
    0 ≤ atof text := by
  unfold atof
  simp only [h, Bool.false_eq_true, if_false]
  exact mul_nonneg (by positivity) (zpow_nonneg (by norm_num) _)

theorem truncate_nonneg {q : ℚ} (h : 0 ≤ q) : 0 ≤ truncate q :=
  Int.tdiv_nonneg (Rat.num_nonneg.mpr h) (Int.natCast_nonneg _)

/-! ## The first maximum -/

section FirstMax

variable {α : Type} {p : α → Bool} {f : α → ℚ} {l : List α} {a x : α}

theorem FirstMax.keep (h : FirstMax p f l a) (hx : p x = true → f x ≤ f a) :
    FirstMax p f (l ++ [x]) a := by
  obtain ⟨pre, post, rfl, ha, hpre, hpost⟩ := h
  refine ⟨pre, post ++ [x], by simp, ha, hpre, ?_⟩
  intro y hy
  rcases List.mem_append.mp hy with hy | hy
  · exact hpost y hy
  · rw [List.mem_singleton.mp hy]
    exact hx

theorem FirstMax.replace (h : FirstMax p f l a) (hx : p x = true) (hlt : f a < f x) :
    FirstMax p f (l ++ [x]) x := by
  obtain ⟨pre, post, rfl, ha, hpre, hpost⟩ := h
  refine ⟨_, [], rfl, hx, ?_, by simp⟩
  intro y hy hp
  simp only [List.mem_append, List.mem_cons] at hy
  rcases hy with hy | rfl | hy
  · exact lt_trans (hpre y hy hp) hlt
  · exact hlt
  · exact lt_of_le_of_lt (hpost y hy hp) hlt

theorem FirstMax.start (hnone : ∀ y ∈ l, p y = false) (hx : p x = true) :
    FirstMax p f (l ++ [x]) x := by
  refine ⟨l, [], rfl, hx, ?_, by simp⟩
  intro y hy hp
  simp [hnone y hy] at hp

theorem FirstMax.mem (h : FirstMax p f l a) : a ∈ l ∧ p a = true := by
  obtain ⟨pre, post, rfl, ha, -⟩ := h
  exact ⟨by simp, ha⟩

theorem FirstMax.le (h : FirstMax p f l a) (hx : x ∈ l) (hp : p x = true) : f x ≤ f a := by
  obtain ⟨pre, post, rfl, -, hpre, hpost⟩ := h
  simp only [List.mem_append, List.mem_cons] at hx
  rcases hx with hx | rfl | hx
  · exact le_of_lt (hpre x hx hp)
  · exact le_rfl
  · exact hpost x hx hp

end FirstMax

/-! ## One call -/

theorem length_nodeLoadKey (node : CStr) (average : Average) :
    (nodeLoadKey node average).length ≤ 17 + node.length := by
  have hnode : (lit ['n', 'o', 'd', 'e', '.']).length = 5 := by decide
  have hload : (lit ['.', 'l', 'o', 'a', 'd', '.']).length = 6 := by decide
  have htext : average.text.length ≤ 5 := by cases average <;> decide
  simp only [nodeLoadKey, List.length_cons, List.length_append, hnode, hload]
  omega

theorem nodeLoadKey_fits {node : CStr} (hlen : node.length ≤ 238) (average : Average) :
    sprintf ksize (nodeLoadKey node average) = .ok (nodeLoadKey node average) := by
  have hkey := length_nodeLoadKey node average
  apply sprintf_ok
  rw [ksize]
  omega

theorem nodeLoadKey_valid (node : CStr) (average : Average) :
    csdbIsValidKey (nodeLoadKey node average) = true := by
  rw [nodeLoadKey, ← List.append_assoc, ← List.append_assoc]
  cases average <;> exact csdbIsValidKey_append _ (by decide) (by decide)

theorem length_capKey (appName : CStr) : (capKey appName).length = 14 + appName.length := by
  have happ : (lit ['a', 'p', 'p', '.']).length = 4 := by decide
  have hcap : (lit ['.', 'c', 'a', 'p', 'n', 'o', 'd', 'e', 's']).length = 9 := by decide
  simp only [capKey, List.length_cons, List.length_append, happ, hcap]
  omega

theorem capKey_fits {appName : CStr} (hlen : appName.length ≤ 241) :
    sprintf ksize (capKey appName) = .ok (capKey appName) := by
  apply sprintf_ok
  rw [length_capKey, ksize]
  omega

theorem capKey_valid (appName : CStr) : csdbIsValidKey (capKey appName) = true := by
  have hsplit : lit ['.', 'c', 'a', 'p', 'n', 'o', 'd', 'e', 's'] =
      lit ['.'] ++ lit ['c', 'a', 'p', 'n', 'o', 'd', 'e', 's'] := rfl
  rw [capKey, hsplit, ← List.append_assoc, ← List.append_assoc]
  exact csdbIsValidKey_append _ (by decide) (by decide)

section OneCall

variable {db : Database} {t : Tree} (h : Holds .linear db t) (hfree : db.locked = false)

include h hfree

theorem cscNodeIsAlive_eq {node : CStr} (hlen : node.length ≤ 248) :
    cscNodeIsAlive .linear db node = .ok (if isAlive db node then 1 else 0, db) := by
  obtain ⟨L, hrep⟩ := h
  have hspec := cscNodeIsAlive_spec hrep hfree (show node.length < 249 by omega)
  rw [isAlive, hspec]
  split <;> simp

theorem readLoad_eq {node : CStr} {average : Average} {load : ℚ} (hlen : node.length ≤ 238)
    (hload : loadOf db node average = some load) :
    readLoad .linear db node average = .ok (some load, db) := by
  have hfit := nodeLoadKey_fits hlen average
  unfold loadOf at hload
  split at hload
  next value hvalue =>
    have hget := csdbGetValueForKey_value h (bounded_linear t) hfree
      (nodeLoadKey_valid node average) hvalue
    rw [readLoad, hfit, ok_bind, hget, ok_bind]
    simpa using hload
  next => cases hload

theorem csdaCalcBench_eq {node : CStr} {l₁ l₅ l₁₅ : ℚ} (hlen : node.length ≤ 238)
    (h₁ : loadOf db node .avg1 = some l₁) (h₅ : loadOf db node .avg5 = some l₅)
    (h₁₅ : loadOf db node .avg15 = some l₁₅) :
    csdaCalcBench .linear db node = .ok (goodness l₁ l₅ l₁₅, db) := by
  simp only [csdaCalcBench, readLoad_eq h hfree hlen h₁, readLoad_eq h hfree hlen h₅,
    readLoad_eq h hfree hlen h₁₅, ok_bind]

/-- The goodness of a node with all its loads. -/
theorem benchOf_eq {node : CStr} {l₁ l₅ l₁₅ : ℚ} (hlen : node.length ≤ 238)
    (h₁ : loadOf db node .avg1 = some l₁) (h₅ : loadOf db node .avg5 = some l₅)
    (h₁₅ : loadOf db node .avg15 = some l₁₅) : benchOf db node = goodness l₁ l₅ l₁₅ := by
  rw [benchOf, csdaCalcBench_eq h hfree hlen h₁ h₅ h₁₅]

end OneCall

/-- The loop behind the names `done`: nothing found yet, or the first maximum of them
in the buffer. -/
def Progress (db : Database) (done : List CStr) (maxBench : ℚ) (nodeName : Option CStr) : Prop :=
  (maxBench = -1 ∧ ∀ node ∈ done, isAlive db node = false) ∨
    ∃ node, nodeName = some node ∧ maxBench = benchOf db node ∧
      FirstMax (isAlive db) (benchOf db) done node

section Loop

variable {db : Database} {t : Tree} {appName : CStr} (h : Holds .linear db t)
  (hfree : db.locked = false) (hs : Servable db appName)

include h hfree hs

theorem bench_alive {node : CStr} (hmem : node ∈ capNames db appName) (halive : isAlive db node = true) :
    csdaCalcBench .linear db node = .ok (benchOf db node, db) ∧ 0 ≤ benchOf db node := by
  have hlen := hs.alive node hmem halive
  obtain ⟨l₁, h₁, hn₁⟩ := hs.loads node hmem halive .avg1
  obtain ⟨l₅, h₅, hn₅⟩ := hs.loads node hmem halive .avg5
  obtain ⟨l₁₅, h₁₅, hn₁₅⟩ := hs.loads node hmem halive .avg15
  rw [csdaCalcBench_eq h hfree hlen h₁ h₅ h₁₅, benchOf_eq h hfree hlen h₁ h₅ h₁₅]
  exact ⟨rfl, goodness_nonneg hn₁ hn₅ hn₁₅⟩

theorem bestBody_spec {done more : List CStr} {node text rest : CStr} {maxBench : ℚ}
    {nodeName : Option CStr} (hcap : capNames db appName = done ++ node :: more)
    (htok : strtok [space] text = some (node, rest)) (hp : Progress db done maxBench nodeName) :
    ∃ maxBench' nodeName', bestBody .linear (text, maxBench, nodeName, db) =
        .ok (.inl (rest, maxBench', nodeName', db)) ∧
      Progress db (done ++ [node]) maxBench' nodeName' := by
  have hmem : node ∈ capNames db appName := by simp [hcap]
  have halive := cscNodeIsAlive_eq h hfree (hs.names node hmem)
  simp only [bestBody, htok, halive, ok_bind]
  cases hlive : isAlive db node with
  | false =>
      refine ⟨maxBench, nodeName, by simp, ?_⟩
      rcases hp with ⟨hm, hnone⟩ | ⟨best, hbest, hm, hfirst⟩
      · refine Or.inl ⟨hm, ?_⟩
        intro x hx
        rcases List.mem_append.mp hx with hx | hx
        · exact hnone x hx
        · rw [List.mem_singleton.mp hx]
          exact hlive
      · exact Or.inr ⟨best, hbest, hm, hfirst.keep (by simp [hlive])⟩
  | true =>
      obtain ⟨hbench, hnonneg⟩ := bench_alive h hfree hs hmem hlive
      simp only [if_true, one_ne_zero, if_false, hbench, ok_bind]
      by_cases hlt : maxBench < benchOf db node
      · -- the new name is copied, so it has to fit
        have hfit : node.length < nodeSize := by
          by_contra hlong
          obtain ⟨x, hx, hxlive, hxle⟩ := hs.fits done node more hcap hlive (by omega)
          rcases hp with ⟨-, hnone⟩ | ⟨best, -, hm, hfirst⟩
          · simp [hnone x hx] at hxlive
          · have hle := hfirst.le hx hxlive
            linarith
        refine ⟨benchOf db node, some node, ?_, Or.inr ⟨node, rfl, rfl, ?_⟩⟩
        · rw [if_pos hlt, sprintf_ok hfit, ok_bind]
        · rcases hp with ⟨-, hnone⟩ | ⟨best, -, hm, hfirst⟩
          · exact .start hnone hlive
          · exact hfirst.replace hlive (hm ▸ hlt)
      · refine ⟨maxBench, nodeName, by rw [if_neg hlt], ?_⟩
        rcases hp with ⟨hm, -⟩ | ⟨best, hbest, hm, hfirst⟩
        · exact absurd (by linarith) hlt
        · exact Or.inr ⟨best, hbest, hm, hfirst.keep (fun _ => hm ▸ not_lt.mp hlt)⟩

theorem bestLoop_progress (more : List CStr) {done : List CStr} {text : CStr} {maxBench : ℚ}
    {nodeName : Option CStr} (hcap : capNames db appName = done ++ more)
    (htext : tokens [space] text = more) (hp : Progress db done maxBench nodeName) {fuel : Nat}
    (hfuel : more.length < fuel) :
    ∃ maxBench' nodeName', loop (bestBody .linear) fuel (text, maxBench, nodeName, db) =
        .ok (maxBench', nodeName', db) ∧
      Progress db (capNames db appName) maxBench' nodeName' := by
  induction more generalizing done text maxBench nodeName fuel with
  | nil =>
      obtain ⟨fuel, rfl⟩ : ∃ f, fuel = f + 1 := ⟨fuel - 1, by omega⟩
      refine ⟨maxBench, nodeName, loop_exit ?_, by rwa [hcap, List.append_nil]⟩
      simp only [bestBody, strtok_eq_none htext]
  | cons node more ih =>
      obtain ⟨fuel, rfl⟩ : ∃ f, fuel = f + 1 := ⟨fuel - 1, by omega⟩
      obtain ⟨rest, htok, hrest⟩ := strtok_eq_some htext
      obtain ⟨m, buf, hbody, hp'⟩ := bestBody_spec h hfree hs hcap htok hp
      rw [loop_next hbody]
      exact ih (by simp [hcap]) hrest hp' (by simpa using hfuel)

/-- Nobody is better than the first maximum in all three loads. -/
theorem best_undominated {node other : CStr}
    (hfirst : FirstMax (isAlive db) (benchOf db) (capNames db appName) node)
    (hother : other ∈ capNames db appName) (halive : isAlive db other = true) :
    ¬ ∀ average, ∃ load load', loadOf db other average = some load ∧
      loadOf db node average = some load' ∧ load < load' := by
  intro hall
  obtain ⟨l₁, m₁, hl₁, hm₁, hlt₁⟩ := hall .avg1
  obtain ⟨l₅, m₅, hl₅, hm₅, hlt₅⟩ := hall .avg5
  obtain ⟨l₁₅, m₁₅, hl₁₅, hm₁₅, hlt₁₅⟩ := hall .avg15
  have hnonneg : ∀ {average load}, loadOf db other average = some load → 0 ≤ load := by
    intro average load hload
    obtain ⟨l, hl, hn⟩ := hs.loads other hother halive average
    rw [hl] at hload
    rwa [← Option.some.inj hload]
  have hle := hfirst.le hother halive
  rw [benchOf_eq h hfree (hs.alive other hother halive) hl₁ hl₅ hl₁₅,
    benchOf_eq h hfree (hs.alive node hfirst.mem.1 hfirst.mem.2) hm₁ hm₅ hm₁₅] at hle
  exact absurd hle (not_le.mpr
    (goodness_lt (hnonneg hl₁) (hnonneg hl₅) (hnonneg hl₁₅) hlt₁ hlt₅ hlt₁₅))

theorem csdaBestNodeForApp_spec (nodeName : Option CStr) :
    ∃ ret nodeName', csdaBestNodeForApp .linear db appName nodeName = .ok (ret, nodeName', db) ∧
      Answers db appName ret nodeName' := by
  have hfit := capKey_fits hs.app
  rcases hs.value with habsent | ⟨value, hvalue⟩
  · -- no such key
    refine ⟨-1, nodeName, ?_, ⟨fun _ => Or.inl ?_, fun _ => rfl⟩, fun hne => absurd rfl hne⟩
    · simp only [csdaBestNodeForApp, hfit, ok_bind, habsent, if_true]
    · intro value hvalue
      rw [csdbKeyExist_value h (bounded_linear t) hfree (capKey_valid appName) hvalue] at habsent
      cases habsent
  · have hget := csdbGetValueForKey_value h (bounded_linear t) hfree (capKey_valid appName) hvalue
    have hexist := csdbKeyExist_value h (bounded_linear t) hfree (capKey_valid appName) hvalue
    have hnames : capNames db appName = tokens [space] value := capNames_value hvalue
    obtain ⟨m, buf, hloop, hp⟩ := bestLoop_progress h hfree hs (tokens [space] value)
      (show capNames db appName = [] ++ tokens [space] value from hnames) rfl
      (show Progress db [] (-1) nodeName from Or.inl ⟨rfl, by simp⟩)
      (Nat.lt_succ_of_le (length_tokens_le [space] value))
    refine ⟨truncate m, buf, ?_, ?_⟩
    · simp only [csdaBestNodeForApp, hfit, ok_bind, hexist, one_ne_zero, if_false, hget,
        lt_self_iff_false, bestLoop, hloop]
    · rcases hp with ⟨rfl, hnone⟩ | ⟨node, rfl, rfl, hfirst⟩
      · exact ⟨iff_of_true rfl (Or.inr hnone), fun hne => absurd rfl hne⟩
      · have hlive := hfirst.mem.2
        have hpos := truncate_nonneg (bench_alive h hfree hs hfirst.mem.1 hlive).2
        refine ⟨iff_of_false (by omega) ?_, fun _ => ⟨node, rfl, hfirst, ?_⟩⟩
        · rintro (hno | hno)
          · exact hno value hvalue
          · rw [hno node hfirst.mem.1] at hlive
            cases hlive
        · exact fun other hother halive => best_undominated h hfree hs hfirst hother halive

end Loop

/-! ## Runs of the thread -/

def Replied (hostname : Option CStr) (s s' : Server) (msg : CStr) : Prop :=
  ∃ clientId appName reply, requested msg = some (clientId, appName) ∧
    s'.replies = s.replies ++ [(clientId, reply)] ∧
    ((NoCandidate s.db appName ∧ hostname = some reply) ∨
      (¬ NoCandidate s.db appName ∧ BestNode s.db appName reply))

theorem sscanfRequest_eq {msg appName : CStr} {clientId : Int}
    (hreq : requested msg = some (clientId, appName)) (hlen : appName.length ≤ 241)
    (f : RequestFields) : sscanfRequest msg f = .ok ⟨some clientId, some appName⟩ := by
  have hfit : sprintf appSize appName = .ok appName := sprintf_ok (by rw [appSize]; omega)
  unfold requested at hreq
  cases hint : scanInt msg with
  | none => simp [hint] at hreq
  | some x =>
      obtain ⟨id, text⟩ := x
      cases hstr : scanString text with
      | none => simp [hint, hstr] at hreq
      | some y =>
          obtain ⟨name, rest⟩ := y
          simp only [hint, hstr, Option.map_some, Option.some.injEq, Prod.mk.injEq] at hreq
          obtain ⟨rfl, rfl⟩ := hreq
          simp only [sscanfRequest, hint, hstr, hfit, ok_bind]

theorem FirstMax.fits {db : Database} {appName node : CStr} (hs : Servable db appName)
    (h : FirstMax (isAlive db) (benchOf db) (capNames db appName) node) : node.length < nodeSize := by
  obtain ⟨pre, post, hsplit, hlive, hpre, -⟩ := h
  by_contra hlong
  obtain ⟨x, hx, hxlive, hle⟩ := hs.fits pre node post hsplit hlive (by omega)
  exact absurd (hpre x hx hxlive) (not_lt.mpr hle)

theorem serve_spec {s : Server} {t : Tree} (h : Holds .linear s.db t)
    (hfree : s.db.locked = false) {hostname : Option CStr} {msg : CStr}
    (hmeets : Meets hostname s (.request msg)) :
    ∃ s', serve .linear hostname s msg = .ok s' ∧ s'.db = s.db ∧ Replied hostname s s' msg := by
  obtain ⟨clientId, appName, hreq, hs, hhost⟩ := hmeets
  obtain ⟨ret, buf, hbest, hnone, hsome⟩ := csdaBestNodeForApp_spec h hfree hs s.bestNode
  simp only [serve, sscanfRequest_eq hreq hs.app, ok_bind, hbest, orHostname]
  by_cases hret : ret = -1
  · obtain ⟨name, rfl, hfit⟩ := hhost (hnone.mp hret)
    refine ⟨⟨s.db, ⟨some clientId, some appName⟩, some name, s.replies ++ [(clientId, name)]⟩,
      by simp only [hret, if_true, sprintf_ok hfit, Except.map, ok_bind], rfl, ?_⟩
    exact ⟨clientId, appName, name, hreq, rfl, Or.inl ⟨hnone.mp hret, rfl⟩⟩
  · obtain ⟨node, rfl, hnode⟩ := hsome hret
    refine ⟨⟨s.db, ⟨some clientId, some appName⟩, some node, s.replies ++ [(clientId, node)]⟩,
      by simp only [if_neg hret, sprintf_ok (hnode.first.fits hs), ok_bind], rfl, ?_⟩
    exact ⟨clientId, appName, node, hreq, rfl, Or.inr ⟨fun hno => hret (hnone.mpr hno), hnode⟩⟩

def Idle (s : Server) : Prop := (∃ t, Holds .linear s.db t) ∧ s.db.locked = false

theorem step_spec {hostname : Option CStr} (s : Server) (act : Act) (hidle : Idle s)
    (hmeets : Meets hostname s act) :
    ∃ s', step hostname s act = .ok s' ∧ Idle s' := by
  obtain ⟨⟨t, h⟩, hfree⟩ := hidle
  cases act with
  | request msg =>
      obtain ⟨s', hserve, hdb, -⟩ := serve_spec h hfree hmeets
      exact ⟨s', hserve, ⟨t, by rwa [hdb]⟩, by rwa [hdb]⟩
  | call call now =>
      obtain ⟨hv, hget⟩ := hmeets
      by_cases hkey : ∃ key, call = .getValue key
      · obtain ⟨key, rfl⟩ := hkey
        obtain ⟨value, hvalue⟩ := hget key rfl
        have hkey : csdbIsValidKey key = true := hv
        have hok := csdbGetValueForKey_value h (bounded_linear t) hfree hkey hvalue
        refine ⟨s, ?_, ⟨t, h⟩, hfree⟩
        simp only [step, Call.exec, hok, Except.map, ok_bind]
      · obtain ⟨reply, db', t', hok, h', hfree'⟩ :=
          exec_keeps_free h hfree call hv (fun key he => hkey ⟨key, he⟩) now
        exact ⟨{ s with db := db' }, by simp only [step, hok, ok_bind], ⟨t', h'⟩, hfree'⟩

/-- **The best node.** On a reachable database with a free mutex, a call that the code
is up to returns -1 exactly when no capable node is alive, and otherwise leaves the
earliest alive node with the greatest goodness in the buffer. In every run of the
thread whose steps all meet the condition, whatever the buffer held before, every
request is answered with the best node for its application at that time, or with the
name of the host when there is none. -/
theorem best_node_served {db : Database} (hreach : Reachable db) (hfree : db.locked = false) :
    (∀ (appName : CStr) (nodeName : Option CStr), Servable db appName →
      ∃ ret nodeName', csdaBestNodeForApp .linear db appName nodeName = .ok (ret, nodeName', db) ∧
        Answers db appName ret nodeName') ∧
    ∀ (hostname : Option CStr) (fields : RequestFields) (bestNode : Option CStr) (acts : List Act),
      Along (step hostname) (Meets hostname) acts ⟨db, fields, bestNode, []⟩ →
      (∃ s', steps (step hostname) acts ⟨db, fields, bestNode, []⟩ = .ok s') ∧
      ∀ (pre : List Act) (msg : CStr) (post : List Act), acts = pre ++ .request msg :: post →
        ∃ s₁ s₂, steps (step hostname) pre ⟨db, fields, bestNode, []⟩ = .ok s₁ ∧
          step hostname s₁ (.request msg) = .ok s₂ ∧ Replied hostname s₁ s₂ msg := by
  obtain ⟨t, h⟩ := hreach.holds
  refine ⟨fun appName nodeName hs => csdaBestNodeForApp_spec h hfree hs nodeName, ?_⟩
  intro hostname fields bestNode acts halong
  have hidle : Idle ⟨db, fields, bestNode, []⟩ := ⟨⟨t, h⟩, hfree⟩
  have htotal := @steps_total _ _ (step hostname) (Meets hostname) Idle step_spec
  constructor
  · obtain ⟨s', hrun, -⟩ := htotal acts _ hidle halong
    exact ⟨s', hrun⟩
  · rintro pre msg post rfl
    obtain ⟨s₁, hrun, ⟨t₁, h₁⟩, hfree₁⟩ := htotal pre _ hidle halong.append_left
    obtain ⟨s₂, hserve, -, hreply⟩ := serve_spec h₁ hfree₁ (halong.append_right hrun).1
    exact ⟨s₁, s₂, hrun, hserve, hreply⟩

def idleCalls : List Call :=
  [.set (capKey (lit ['x'])) (some (lit ['a', ' ', 'b'])),
    .set (aliveKey (lit ['a'])) (some (lit ['1'])),
    .set (nodeLoadKey (lit ['a']) .avg1) (some (lit ['0'])),
    .set (nodeLoadKey (lit ['a']) .avg5) (some (lit ['0'])),
    .set (nodeLoadKey (lit ['a']) .avg15) (some (lit ['0']))]

/-- Client 7 asks for `x`. -/
theorem best_node_served_idle :
    ∃ db₀ replies db s₁ s₂, csdbInit 0 = .ok db₀ ∧
      run .linear (fun _ => 0) 0 idleCalls db₀ = .ok (replies, db) ∧
      Servable db (lit ['x']) ∧
      (∃ ret nodeName', csdaBestNodeForApp .linear db (lit ['x']) none = .ok (ret, nodeName', db) ∧
        Answers db (lit ['x']) ret nodeName') ∧
      steps (step none) [] ⟨db, ⟨none, none⟩, none, []⟩ = .ok s₁ ∧
      step none s₁ (.request (lit ['7', ' ', 'x'])) = .ok s₂ ∧
      Replied none s₁ s₂ (lit ['7', ' ', 'x']) := by
  obtain ⟨db₀, replies, db, hinit, hrun, hvalue, hfree, hnames, ha, hb, hload⟩ :
      ∃ db₀ replies db, csdbInit 0 = .ok db₀ ∧
        run .linear (fun _ => 0) 0 idleCalls db₀ = .ok (replies, db) ∧
        valueFor .linear db (capKey (lit ['x'])) = .ok (some (lit ['a', ' ', 'b'])) ∧
        db.locked = false ∧ capNames db (lit ['x']) = [lit ['a'], lit ['b']] ∧
        isAlive db (lit ['a']) = true ∧ isAlive db (lit ['b']) = false ∧
        ∀ average, loadOf db (lit ['a']) average = some (atof (lit ['0'])) := by
    refine ⟨_, _, _, rfl, rfl, rfl, rfl, rfl, rfl, rfl, ?_⟩
    intro average
    cases average <;> rfl
  have hreach : Reachable db := (Reachable.init 0 db₀ hinit).run (by decide) hrun
  have honly : ∀ node ∈ capNames db (lit ['x']), isAlive db node = true → node = lit ['a'] := by
    intro node hmem hlive
    rw [hnames] at hmem
    simp only [List.mem_cons, List.not_mem_nil, or_false] at hmem
    rcases hmem with rfl | rfl
    · rfl
    · simp [hb] at hlive
  have hs : Servable db (lit ['x']) := by
    refine ⟨by decide, Or.inr ⟨_, hvalue⟩, ?_, ?_, ?_, ?_⟩
    · rw [hnames]
      decide
    · intro node hmem hlive
      rw [honly node hmem hlive]
      decide
    · intro node hmem hlive average
      rw [honly node hmem hlive]
      exact ⟨_, hload average, atof_nonneg rfl⟩
    · intro pre node post hsplit hlive hlong
      rw [honly node (by rw [hsplit]; simp) hlive] at hlong
      exact absurd hlong (by decide)
  have hsome : ¬ NoCandidate db (lit ['x']) := by
    rintro (hno | hno)
    · exact hno _ hvalue
    · have := hno (lit ['a']) (by rw [hnames]; simp)
      rw [ha] at this
      cases this
  obtain ⟨hcall, hserve⟩ := best_node_served hreach hfree
  obtain ⟨-, hall⟩ := hserve none ⟨none, none⟩ none [.request (lit ['7', ' ', 'x'])]
    ⟨⟨7, lit ['x'], rfl, hs, fun hno => absurd hno hsome⟩, fun _ _ => trivial⟩
  obtain ⟨s₁, s₂, h₁, h₂, hreply⟩ := hall [] _ [] rfl
  exact ⟨db₀, replies, db, s₁, s₂, hinit, hrun, hs, hcall (lit ['x']) none hs, h₁, h₂, hreply⟩

/-- A call that sets a value, but no load. -/
def SetsElsewhere (call : Call) : Prop :=
  ∃ key value, call = .set key (some value) ∧ csdbIsValidKey key = true ∧
    ∀ node average, nodeLoadKey node average ≠ key

theorem loadOf_run {db db' : Database} {t : Tree} {clock : Nat → Int} {calls : List Call}
    {replies : List Reply} {k : Nat} (h : Holds .linear db t) (hfree : db.locked = false)
    (hcalls : ∀ call ∈ calls, SetsElsewhere call)
    (hrun : run .linear clock k calls db = .ok (replies, db')) (node : CStr) (average : Average) :
    loadOf db' node average = loadOf db node average := by
  induction calls generalizing db t k replies with
  | nil =>
      rw [run, Except.ok.injEq, Prod.mk.injEq] at hrun
      rw [hrun.2]
  | cons call calls ih =>
      obtain ⟨key, value, rfl, hv, hkey⟩ := hcalls call (by simp)
      obtain ⟨db₁, t₁, hset, h₁, hfree₁, -, hvalues⟩ :=
        csdbSetValueForKey_values h (bounded_linear t) hfree hv value (clock k)
      rw [run] at hrun
      obtain ⟨⟨reply, db₂⟩, hcall, hrest⟩ := bind_eq_ok hrun
      obtain ⟨⟨more, db₃⟩, hmore, hend⟩ := bind_eq_ok hrest
      rw [Except.ok.injEq, Prod.mk.injEq] at hend
      rw [Call.exec, hset, Except.map, Except.ok.injEq, Prod.mk.injEq] at hcall
      rw [hend.2, ← hcall.2] at hmore
      rw [ih h₁ hfree₁ (fun c hc => hcalls c (by simp [hc])) hmore]
      apply loadOf_congr
      rw [hvalues _ (nodeLoadKey_valid node average) (bounded_linear t₁),
        if_neg (hkey node average)]

theorem loadOf_init {db : Database} {now : Int} (h : Holds .linear db (Tree.init now))
    (hfree : db.locked = false) (node : CStr) (average : Average) :
    loadOf db node average = none := by
  delta loadOf
  rw [valueFor_init h (bounded_linear _) hfree (nodeLoadKey_valid node average)]

def aliveCalls : List Call :=
  [.set (capKey (lit ['x'])) (some (lit ['a', ' ', 'b'])),
    .set (aliveKey (lit ['a'])) (some (lit ['1'])),
    .set (aliveKey (lit ['b'])) (some (lit ['1']))]

theorem aliveCalls_elsewhere : ∀ call ∈ aliveCalls, SetsElsewhere call := by
  have hne : ∀ (key : CStr), key[1]? = some ⟨97, by decide⟩ → ∀ node average,
      nodeLoadKey node average ≠ key := by
    intro key hkey node average he
    have hn : (nodeLoadKey node average)[1]? = some ⟨110, by decide⟩ := rfl
    rw [he, hkey] at hn
    cases hn
  intro call hcall
  simp only [aliveCalls, List.mem_cons, List.not_mem_nil, or_false] at hcall
  rcases hcall with rfl | rfl | rfl
  · exact ⟨_, _, rfl, capKey_valid _, hne _ rfl⟩
  · exact ⟨_, _, rfl, by decide, hne _ rfl⟩
  · exact ⟨_, _, rfl, by decide, hne _ rfl⟩

/-- The load of `a` is not in the database: fetching it leaves the mutex taken, and
asking whether `b` is alive waits for it. -/
theorem best_node_waits :
    ¬ ∀ db, Reachable db → db.locked = false →
      (∀ node average load, loadOf db node average = some load → 0 ≤ load) →
      ∀ appName nodeName, ∃ ret nodeName' db',
        csdaBestNodeForApp .linear db appName nodeName = .ok (ret, nodeName', db') ∧
        Answers db appName ret nodeName' := by
  intro hall
  obtain ⟨db₀, replies, db, hinit, hrun, hfree, hbest⟩ :
      ∃ db₀ replies db, csdbInit 0 = .ok db₀ ∧
        run .linear (fun _ => 0) 0 aliveCalls db₀ = .ok (replies, db) ∧
        db.locked = false ∧ csdaBestNodeForApp .linear db (lit ['x']) none = .error .blocked :=
    ⟨_, _, _, rfl, rfl, rfl, rfl⟩
  have hreach : Reachable db := (Reachable.init 0 db₀ hinit).run (by decide) hrun
  have hloads : ∀ node average, loadOf db node average = none := by
    intro node average
    obtain ⟨db₁, hinit₁, h₁, hfree₁⟩ := csdbInit_spec .linear 0
    rw [hinit, Except.ok.injEq] at hinit₁
    rw [loadOf_run (hinit₁ ▸ h₁) (hinit₁ ▸ hfree₁) aliveCalls_elsewhere hrun,
      loadOf_init (hinit₁ ▸ h₁) (hinit₁ ▸ hfree₁)]
  obtain ⟨ret, nodeName', db', hok, -⟩ := hall db hreach hfree
    (fun node average load hload => by simp [hloads] at hload) (lit ['x']) none
  rw [hbest] at hok
  cases hok

end Dkmp.Csda
