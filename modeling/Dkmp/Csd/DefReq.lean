import Dkmp.Csd.CapNodes
import Dkmp.Machine.Tokens

/-! # The default requests to the alive nodes

`csc_do_def_req_for_alive_nodes` asks every alive node but this one for each key in
`.config.def_db_req` and stores what it answers under `.node.<name>`. A request that fails ends
the requests to its node, and only these.
-/

namespace Dkmp.Csd

open Machine Csdb Csp Csc

def nodes : CStr := lit ['n', 'o', 'd', 'e']

/-- `.node.%s%s`; a request is a key itself. -/
def nodeReqKey (node req : CStr) : CStr := dot :: (nodes ++ dot :: (node ++ req))

def defReqKey : CStr :=
  lit ['.', 'c', 'o', 'n', 'f', 'i', 'g', '.', 'd', 'e', 'f', '_', 'd', 'b', '_', 'r', 'e', 'q']

/-! ## One request -/

/-- `resolved` says whether `gethostbyname` knows the node, and `net` what becomes of the
request; `behind` is what lies behind its block, where the announced length reaches. A
success without data leaves the pointer to the value unassigned. -/
def csDoDbRequestForNode (b : Search) (db : Database) (resolved : Bool) (nodeName key : CStr)
    (reqPacket behind respPacket : Bytes) (net : Bytes → Exec Delivery) (now : Int) :
    Exec (Int × Database) :=
  if resolved then do
    let (n, packet) ← cspPackDbreqPacket reqPacket (some key) none csGet
    match ← net ((packet ++ behind).take n.toNat) with
    | .unsent => .ok (-1, db)
    | .timeout | .failed => do
        let (_, db) ← cscNodeNotAlive b db (some nodeName)
        .ok (-1, db)
    | .reply datagram => do
        let (_, respErr, respData, _) ← cspUnpackRespPacket (recvfrom respPacket datagram)
        if respErr = csRespSucc then
          match respData with
          | none => .error .uninit
          | some value => do
              let (_, db) ← csdbSetValueForKey b db key (some value) now
              .ok (0, db)
        else .ok (-1, db)
  else .ok (-1, db)

/-! ## All requests -/

/-- `cs_do_db_request_for_node` for a node and a key, with whatever the network makes of it. -/
abbrev DbRequest := Database → CStr → CStr → Exec (Int × Database)

/-- `while(req != NULL && strcmp(this_hostname, *node) != 0)`; `request k` is the `k`-th
request of all. -/
def defReqBody (request : Nat → DbRequest) (thisHostname : Option CStr) (node : CStr) :
    Nat × Database → CStr → Exec ((Nat × Database) ⊕ (Nat × Database))
  | (k, db), req =>
      match thisHostname with
      | none => .error .null
      | some thisHostname =>
          if thisHostname = node then .ok (.inr (k, db))
          else do
            let key ← sprintf ksize (nodeReqKey node req)
            let (error, db) ← request k db node key
            if error < 0 then .ok (.inr (k + 1, db)) else .ok (.inl (k + 1, db))

/-- The text of the requests is copied again for each node. -/
def defReqNode (request : Nat → DbRequest) (thisHostname : Option CStr) (reqStr : CStr)
    (s : Nat × Database) (node : CStr) : Exec (Nat × Database) :=
  tokenLoop [space] (defReqBody request thisHostname node) reqStr s

def cscDoDefReqForAliveNodes (b : Search) (request : Nat → DbRequest) (thisHostname : Option CStr)
    (db : Database) : Exec (Int × Database) := do
  let (nrNodes, aliveNodes) ← csdbGetChildNamesForKey b db aliveRoot
  if nrNodes < 1 then .ok (-1, db)
  else
    match aliveNodes with
    | none => .error .uninit
    | some (aliveNodes, _) => do
        let (error, reqStr, db) ← csdbGetValueForKey b db defReqKey
        if error < 0 then .ok (-1, db)
        else
          match reqStr with
          | none => .error .null
          | some reqStr => do
              let (_, db) ← steps (defReqNode request thisHostname reqStr) aliveNodes (0, db)
              .ok (0, db)

/-! ## What is stored -/

abbrev Content := Option (Bool × Option CStr)

def content (t : Tree) (q : UpPath) : Content := (t.record q).map fun r => (r.leaf, r.value)

def store (q target : UpPath) (value : CStr) (x : Content) : Content :=
  if q = target then some (true, some value)
  else if q <:+ target then some (x.getD (false, none))
  else x

/-- The requests that a node answers, up to the first one that fails. -/
def answeredReqs (answer : CStr → Option CStr) (reqs : List CStr) : List CStr :=
  reqs.takeWhile fun req => (answer req).isSome

def storeNode (answer : CStr → CStr → Option CStr) (thisHostname : CStr) (reqs : List CStr)
    (q : UpPath) (x : Content) (node : CStr) : Content :=
  if thisHostname = node then x
  else (answeredReqs (answer node) reqs).foldl
    (fun x req => store q (keyPath (nodeReqKey node req)).reverse ((answer node req).getD []) x) x

variable {db : Database} {t : Tree}

/-- What every step keeps and some step of a fold brings about holds at its end. -/
theorem foldl_establish {α β : Type} {f : β → α → β} (P : β → Prop) {l : List α} {a : α}
    (ha : a ∈ l) (hkeep : ∀ b, ∀ x ∈ l, P b → P (f b x)) (hmake : ∀ b, P (f b a)) (b : β) :
    P (l.foldl f b) := by
  have hall : ∀ (m : List α) (b : β), m ⊆ l → P b → P (m.foldl f b) := by
    intro m
    induction m with
    | nil => exact fun _ _ hb => hb
    | cons x m ih => exact fun b hsub hb => ih _ (fun y hy => hsub (by simp [hy])) (hkeep b x (hsub (by simp)) hb)
  obtain ⟨pre, post, rfl⟩ := List.append_of_mem ha
  rw [List.foldl_append, List.foldl_cons]
  exact hall post _ (fun y hy => by simp [hy]) (hmake _)

theorem nodes_no_dot : dot ∉ nodes := by decide

theorem nodes_ne_alive : some nodes ≠ some alive := by decide

/-- What lies under the name of a node lies under `.node`. -/
theorem under_node_ne_alive {node : CStr} {q : UpPath} (hq : [node, nodes] <:+ q) :
    q.getLast? ≠ some alive := by
  obtain ⟨front, rfl⟩ := hq
  rw [List.getLast?_append]
  exact nodes_ne_alive

theorem nodeReqKey_valid {node req : CStr} (hdot : dot ∉ node) (hv : csdbIsValidKey req = true)
    (hroot : req ≠ [dot]) :
    csdbIsValidKey (nodeReqKey node req) = true ∧
      keyPath (nodeReqKey node req) = nodes :: node :: keyPath req := by
  obtain ⟨hpath, hkey⟩ := keyPath_valid hv hroot
  have hpath' : IsPath (nodes :: node :: keyPath req) := by
    refine ⟨by simp, ?_, ?_⟩
    · intro name hname
      rcases List.mem_cons.mp hname with rfl | hname
      · exact nodes_no_dot
      rcases List.mem_cons.mp hname with rfl | hname
      · exact hdot
      · exact hpath.no_dot name hname
    · rw [List.getLast?_cons_of_ne_nil (by simp), List.getLast?_cons_of_ne_nil hpath.ne_nil]
      exact hpath.last_ne_nil
  have hkey' : pathKey (nodes :: node :: keyPath req) = nodeReqKey node req := by
    rw [pathKey_cons, pathKey_cons, hkey, nodeReqKey]
  rw [← hkey']
  exact ⟨(pathKey_valid hpath').1, keyPath_pathKey hpath'⟩

theorem nodeReqKey_inj {node req req' : CStr} (h : nodeReqKey node req = nodeReqKey node req') :
    req = req' := by
  have htail := (List.cons.inj (List.append_cancel_left (List.cons.inj h).2)).2
  exact List.append_cancel_left htail

theorem content_setRecord {t' : Tree} {target : UpPath} {value : CStr} {now : Int}
    (hrec : ∀ q, t'.record q = setRecord (some value) now target t.record q) (q : UpPath) :
    content t' q = store q target value (content t q) := by
  rw [content, hrec, setRecord, store, content]
  split
  · cases t.record q <;> rfl
  · split
    · cases t.record q <;> rfl
    · rfl

/-! ## The requests to one node -/

/-- The answers to the requests: a value is stored under the key, and a failure may have taken
the node from the list of alive ones. -/
def Answers (clock : Nat → Int) (request : Nat → DbRequest) (aliveNodes reqs : List CStr)
    (answer : CStr → CStr → Option CStr) : Prop :=
  ∀ k, ∀ node ∈ aliveNodes, ∀ req ∈ reqs, ∀ db t, Holds .linear db t → db.locked = false →
    match answer node req with
    | some value => request k db node (nodeReqKey node req) = do
        let (_, db) ← csdbSetValueForKey .linear db (nodeReqKey node req) (some value) (clock k)
        .ok (0, db)
    | none =>
        request k db node (nodeReqKey node req) = .ok (-1, db) ∨
          ∃ db', cscNodeNotAlive .linear db (some node) = .ok (0, db') ∧
            request k db node (nodeReqKey node req) = .ok (-1, db')

section Run

variable {clock : Nat → Int} {request : Nat → DbRequest} {aliveNodes reqs : List CStr}
  {answer : CStr → CStr → Option CStr} {thisHostname : CStr}

/-- One request: an answer is stored and a failure ends the requests to the node. -/
theorem defReqBody_spec (hans : Answers clock request aliveNodes reqs answer) {node req : CStr}
    (hnode : node ∈ aliveNodes) (hreq : req ∈ reqs) (hdot : dot ∉ node)
    (hv : csdbIsValidKey req = true) (hroot : req ≠ [dot]) (hlen : node.length + req.length ≤ 249)
    (hother : thisHostname ≠ node) (h : Holds .linear db t) (hfree : db.locked = false) (k : Nat) :
    ∃ db' t', Holds .linear db' t' ∧ db'.locked = false ∧
      match answer node req with
      | some value =>
          defReqBody request (some thisHostname) node (k, db) req = .ok (.inl (k + 1, db')) ∧
            ∀ q, content t' q =
              store q (keyPath (nodeReqKey node req)).reverse value (content t q)
      | none =>
          defReqBody request (some thisHostname) node (k, db) req = .ok (.inr (k + 1, db')) ∧
            ∀ q, q.getLast? ≠ some alive → content t' q = content t q := by
  obtain ⟨L, hrep⟩ := id h
  have hkey : sprintf ksize (nodeReqKey node req) = .ok (nodeReqKey node req) := by
    apply sprintf_ok
    have hnodes : nodes.length = 4 := by decide
    simp only [nodeReqKey, List.length_cons, List.length_append, hnodes, ksize]
    omega
  have hans' := hans k node hnode req hreq db t h hfree
  cases hvalue : answer node req with
  | some value =>
      rw [hvalue] at hans'
      obtain ⟨db', t', hset, h', hfree', hrec⟩ :=
        csdbSetValueForKey_spec hrep (bounded_linear t) hfree (nodeReqKey_valid hdot hv hroot).1
          (some value) (clock k)
      refine ⟨db', t', h', hfree', ?_, content_setRecord hrec⟩
      simp [defReqBody, hother, hkey, hans', hset]
  | none =>
      rw [hvalue] at hans'
      rcases hans' with hok | ⟨db', hgone, hok⟩
      · exact ⟨db, t, h, hfree, by simp [defReqBody, hother, hkey, hok], fun _ _ => rfl⟩
      · obtain ⟨t', h', hfree', hrec⟩ := cscNodeNotAlive_other h hfree hgone
        refine ⟨db', t', h', hfree', by simp [defReqBody, hother, hkey, hok], fun q hq => ?_⟩
        rw [content, hrec q hq, content]

theorem defReqNode_self (reqStr : CStr) (s : Nat × Database) (node : CStr) :
    defReqNode request (some node) reqStr s node = .ok s := by
  rw [defReqNode, tokenLoop_eq]
  cases tokens [space] reqStr with
  | nil => rfl
  | cons req reqs => exact stepsUntil_stop (by simp [defReqBody]) reqs

section Node

variable (hans : Answers clock request aliveNodes reqs answer)
  (hdots : ∀ node ∈ aliveNodes, dot ∉ node)
  (hvalid : ∀ req ∈ reqs, csdbIsValidKey req = true ∧ req ≠ [dot])
  (hfits : ∀ node ∈ aliveNodes, ∀ req ∈ reqs, node.length + req.length ≤ 249)

include hans hdots hvalid hfits

theorem defReqLoop_spec {node : CStr} (hnode : node ∈ aliveNodes) (hother : thisHostname ≠ node)
    (rs : List CStr) (hsub : rs ⊆ reqs) (h : Holds .linear db t) (hfree : db.locked = false)
    (k : Nat) :
    ∃ k' db' t', stepsUntil (defReqBody request (some thisHostname) node) rs (k, db) = .ok (k', db') ∧
      Holds .linear db' t' ∧ db'.locked = false ∧
      ∀ q, q.getLast? ≠ some alive → content t' q =
        (answeredReqs (answer node) rs).foldl
          (fun x req => store q (keyPath (nodeReqKey node req)).reverse ((answer node req).getD []) x)
          (content t q) := by
  induction rs generalizing db t k with
  | nil => exact ⟨k, db, t, rfl, h, hfree, fun _ _ => rfl⟩
  | cons req rs ih =>
      have hreq : req ∈ reqs := hsub (by simp)
      obtain ⟨db₁, t₁, h₁, hfree₁, hbody⟩ := defReqBody_spec hans hnode hreq (hdots node hnode)
        (hvalid req hreq).1 (hvalid req hreq).2 (hfits node hnode req hreq) hother h hfree k
      cases hvalue : answer node req with
      | some value =>
          rw [hvalue] at hbody
          obtain ⟨hnext, hcontent⟩ := hbody
          obtain ⟨k', db', t', hrest, h', hfree', hcontent'⟩ :=
            ih (fun r hr => hsub (by simp [hr])) h₁ hfree₁ (k + 1)
          refine ⟨k', db', t', by rw [stepsUntil_next hnext, hrest], h', hfree', fun q hq => ?_⟩
          rw [hcontent' q hq, hcontent q, answeredReqs, answeredReqs,
            List.takeWhile_cons_of_pos (by simp [hvalue]), List.foldl_cons, hvalue, Option.getD_some]
      | none =>
          rw [hvalue] at hbody
          obtain ⟨hstop, hcontent⟩ := hbody
          refine ⟨k + 1, db₁, t₁, stepsUntil_stop hstop rs, h₁, hfree₁, fun q hq => ?_⟩
          rw [hcontent q hq, answeredReqs, List.takeWhile_cons_of_neg (by simp [hvalue]),
            List.foldl_nil]

theorem defReqNode_spec {reqStr : CStr} (hreqs : tokens [space] reqStr = reqs) {node : CStr}
    (hnode : node ∈ aliveNodes) (h : Holds .linear db t) (hfree : db.locked = false) (k : Nat) :
    ∃ k' db' t', defReqNode request (some thisHostname) reqStr (k, db) node = .ok (k', db') ∧
      Holds .linear db' t' ∧ db'.locked = false ∧
      ∀ q, q.getLast? ≠ some alive →
        content t' q = storeNode answer thisHostname reqs q (content t q) node := by
  by_cases hself : thisHostname = node
  · refine ⟨k, db, t, by rw [hself, defReqNode_self], h, hfree, fun q _ => ?_⟩
    rw [storeNode, if_pos hself]
  · rw [defReqNode, tokenLoop_eq, hreqs]
    obtain ⟨k', db', t', hrun, h', hfree', hcontent⟩ :=
      defReqLoop_spec hans hdots hvalid hfits hnode hself reqs (List.Subset.refl _) h hfree k
    refine ⟨k', db', t', hrun, h', hfree', fun q hq => ?_⟩
    rw [hcontent q hq, storeNode, if_neg hself]

theorem defReqNodes_spec {reqStr : CStr} (hreqs : tokens [space] reqStr = reqs) (ns : List CStr)
    (hsub : ns ⊆ aliveNodes) (h : Holds .linear db t) (hfree : db.locked = false) (k : Nat) :
    ∃ k' db' t', steps (defReqNode request (some thisHostname) reqStr) ns (k, db) = .ok (k', db') ∧
      Holds .linear db' t' ∧ db'.locked = false ∧
      ∀ q, q.getLast? ≠ some alive →
        content t' q = ns.foldl (storeNode answer thisHostname reqs q) (content t q) := by
  induction ns generalizing db t k with
  | nil => exact ⟨k, db, t, rfl, h, hfree, fun _ _ => rfl⟩
  | cons node ns ih =>
      obtain ⟨k₁, db₁, t₁, hstep, h₁, hfree₁, hcontent₁⟩ :=
        @defReqNode_spec _ _ _ _ _ _ _ thisHostname hans hdots hvalid hfits _ hreqs node
          (hsub (by simp)) h hfree k
      obtain ⟨k', db', t', hrest, h', hfree', hcontent'⟩ :=
        ih (fun n hn => hsub (by simp [hn])) h₁ hfree₁ k₁
      refine ⟨k', db', t', by rw [steps, hstep, ok_bind, hrest], h', hfree', fun q hq => ?_⟩
      rw [hcontent' q hq, hcontent₁ q hq, List.foldl_cons]

end Node

end Run

/-! ## Independence -/

section Independent

variable {reqs : List CStr} {answer : CStr → CStr → Option CStr} {thisHostname node : CStr}

theorem reqPath {req : CStr} (hdot : dot ∉ node) (hv : csdbIsValidKey req = true)
    (hroot : req ≠ [dot]) :
    (keyPath (nodeReqKey node req)).reverse = (keyPath req).reverse ++ [node, nodes] := by
  rw [(nodeReqKey_valid hdot hv hroot).2]
  simp

/-- An entry of one node is not on the way to an entry of another. -/
theorem not_suffix_of_other {other : CStr} {p q : UpPath} (hne : other ≠ node)
    (hq : [node, nodes] <:+ q) : ¬ q <:+ p ++ [other, nodes] := by
  intro hs
  have hboth : [node, nodes] <:+ p ++ [other, nodes] := hq.trans hs
  have heq := List.suffix_of_suffix_length_le hboth (List.suffix_append p _) (le_refl 2)
  exact hne (suffix_pair_iff.mp heq).symm

theorem storeNode_other (hvalid : ∀ req ∈ reqs, csdbIsValidKey req = true ∧ req ≠ [dot])
    {other : CStr} (hdot : dot ∉ other) (hne : other ≠ node) {q : UpPath}
    (hq : [node, nodes] <:+ q) (x : Content) :
    storeNode answer thisHostname reqs q x other = x := by
  rw [storeNode]
  split
  · rfl
  · have hall : ∀ rs : List CStr, rs ⊆ reqs → rs.foldl (fun x req =>
        store q (keyPath (nodeReqKey other req)).reverse ((answer other req).getD []) x) x = x := by
      intro rs
      induction rs with
      | nil => exact fun _ => rfl
      | cons req rs ih =>
          intro hsub
          obtain ⟨hv, hroot⟩ := hvalid req (hsub (by simp))
          have hno := @not_suffix_of_other _ other (keyPath req).reverse _ hne hq
          rw [List.foldl_cons, reqPath hdot hv hroot, store, if_neg, if_neg hno]
          · exact ih fun r hr => hsub (by simp [hr])
          · rintro rfl
            exact hno List.suffix_rfl
    exact hall _ (List.takeWhile_sublist _).subset

/-- The node answers the request, and whatever is asked behind it keeps the answer. -/
theorem storeNode_answered (hvalid : ∀ req ∈ reqs, csdbIsValidKey req = true ∧ req ≠ [dot])
    (hdot : dot ∉ node) {req value : CStr} (hreq : req ∈ answeredReqs (answer node) reqs)
    (hvalue : answer node req = some value) :
    (thisHostname ≠ node → ∀ x, storeNode answer thisHostname reqs
      (keyPath (nodeReqKey node req)).reverse x node = some (true, some value)) ∧
    storeNode answer thisHostname reqs (keyPath (nodeReqKey node req)).reverse
      (some (true, some value)) node = some (true, some value) := by
  have hmem : ∀ r ∈ answeredReqs (answer node) reqs, r ∈ reqs :=
    fun r hr => (List.takeWhile_sublist _).subset hr
  have hv := hvalid req (hmem req hreq)
  have hkeep : ∀ x : Content, ∀ r ∈ answeredReqs (answer node) reqs, x = some (true, some value) →
      store (keyPath (nodeReqKey node req)).reverse (keyPath (nodeReqKey node r)).reverse
        ((answer node r).getD []) x = some (true, some value) := by
    rintro x r hr rfl
    have hvr := hvalid r (hmem r hr)
    rw [store]
    split
    · rename_i heq
      have hkeys := keyPath_inj (nodeReqKey_valid hdot hv.1 hv.2).1
        (nodeReqKey_valid hdot hvr.1 hvr.2).1 (List.reverse_injective heq)
      rw [← nodeReqKey_inj hkeys, hvalue, Option.getD_some]
    · split <;> rfl
  constructor
  · intro hother x
    rw [storeNode, if_neg hother]
    refine foldl_establish (· = some (true, some value)) hreq hkeep (fun x => ?_) x
    rw [store, if_pos rfl, hvalue, Option.getD_some]
  · rw [storeNode]
    split
    · rfl
    · refine foldl_establish (· = some (true, some value)) hreq hkeep (fun x => ?_) _
      rw [store, if_pos rfl, hvalue, Option.getD_some]

theorem storeNodes_answered (hvalid : ∀ req ∈ reqs, csdbIsValidKey req = true ∧ req ≠ [dot])
    {ns : List CStr} (hdots : ∀ n ∈ ns, dot ∉ n) (hnode : node ∈ ns) (hother : thisHostname ≠ node)
    {req value : CStr} (hreq : req ∈ answeredReqs (answer node) reqs)
    (hvalue : answer node req = some value) (x : Content) :
    ns.foldl (storeNode answer thisHostname reqs (keyPath (nodeReqKey node req)).reverse) x =
      some (true, some value) := by
  have hdot := hdots node hnode
  obtain ⟨hmake, hkeep⟩ := @storeNode_answered _ _ thisHostname _ hvalid hdot _ _ hreq hvalue
  refine foldl_establish (· = some (true, some value)) hnode ?_ (hmake hother) x
  rintro x other hmem rfl
  by_cases hsame : other = node
  · rw [hsame]
    exact hkeep
  · apply storeNode_other hvalid (hdots other hmem) hsame
    obtain ⟨hv, hroot⟩ := hvalid req ((List.takeWhile_sublist _).subset hreq)
    rw [reqPath hdot hv hroot]
    exact List.suffix_append _ _

/-- Under the name of a node only its own answers count. -/
theorem storeNodes_congr (hvalid : ∀ req ∈ reqs, csdbIsValidKey req = true ∧ req ≠ [dot])
    {ns : List CStr} (hdots : ∀ n ∈ ns, dot ∉ n) {answer' : CStr → CStr → Option CStr}
    (hagree : answer' node = answer node) {q : UpPath} (hq : [node, nodes] <:+ q) (x : Content) :
    ns.foldl (storeNode answer thisHostname reqs q) x =
      ns.foldl (storeNode answer' thisHostname reqs q) x := by
  apply List.foldl_ext
  intro x other hmem
  by_cases hsame : other = node
  · rw [hsame, storeNode, storeNode, hagree]
  · rw [storeNode_other hvalid (hdots other hmem) hsame hq,
      storeNode_other hvalid (hdots other hmem) hsame hq]

end Independent

structure SameAt (db db' : Database) (key : CStr) : Prop where
  value : valueFor .linear db key = valueFor .linear db' key
  exist : (csdbKeyExist .linear db key).map Prod.fst = (csdbKeyExist .linear db' key).map Prod.fst

theorem SameAt.of_content {db' : Database} {t' : Tree} (h : Holds .linear db t)
    (hfree : db.locked = false) (h' : Holds .linear db' t') (hfree' : db'.locked = false) {key : CStr}
    (hv : csdbIsValidKey key = true)
    (hcontent : content t (keyPath key).reverse = content t' (keyPath key).reverse) :
    SameAt db db' key := by
  have hvalue := valueFor_eq h (bounded_linear t) hfree hv
  have hvalue' := valueFor_eq h' (bounded_linear t') hfree' hv
  obtain ⟨L, hrep⟩ := h
  obtain ⟨L', hrep'⟩ := h'
  have hexist := csdbKeyExist_spec hrep (bounded_linear t) hfree hv
  have hexist' := csdbKeyExist_spec hrep' (bounded_linear t') hfree' hv
  unfold content at hcontent
  constructor
  · rw [hvalue, hvalue']
    cases hr : t.record (keyPath key).reverse with
    | none =>
        cases hr' : t'.record (keyPath key).reverse with
        | none => rfl
        | some r' => simp [hr, hr'] at hcontent
    | some r =>
        cases hr' : t'.record (keyPath key).reverse with
        | none => simp [hr, hr'] at hcontent
        | some r' =>
            obtain ⟨leaf, value, mtime⟩ := r
            obtain ⟨leaf', value', mtime'⟩ := r'
            simp only [hr, hr', Option.map_some, Option.some.injEq, Prod.mk.injEq] at hcontent
            obtain ⟨rfl, rfl⟩ := hcontent
            cases leaf <;> cases value <;> rfl
  · have hsome : (t.record (keyPath key).reverse).isSome = (t'.record (keyPath key).reverse).isSome := by
      simpa using congrArg Option.isSome hcontent
    rw [hexist, hexist', hsome]
    rfl

section Main

variable {nodeNames : List CStr} {reqStr thisHostname : CStr}

/-- The whole pass, entry by entry. -/
theorem cscDoDefReqForAliveNodes_spec (h : Holds .linear db t) (hfree : db.locked = false)
    {clock : Nat → Int} {request : Nat → DbRequest} {answer : CStr → CStr → Option CStr}
    (hnodes : aliveNames db = .ok nodeNames) (hne : nodeNames ≠ [])
    (hreqStr : valueFor .linear db defReqKey = .ok (some reqStr))
    (hvalid : ∀ req ∈ tokens [space] reqStr, csdbIsValidKey req = true ∧ req ≠ [dot])
    (hfits : ∀ node ∈ nodeNames, ∀ req ∈ tokens [space] reqStr, node.length + req.length ≤ 249)
    (hans : Answers clock request nodeNames (tokens [space] reqStr) answer) :
    ∃ db' t', cscDoDefReqForAliveNodes .linear request (some thisHostname) db = .ok (0, db') ∧
      Holds .linear db' t' ∧ db'.locked = false ∧
      ∀ q, q.getLast? ≠ some alive → content t' q =
        nodeNames.foldl (storeNode answer thisHostname (tokens [space] reqStr) q) (content t q) := by
  have hdots := listed_no_dot h hnodes
  have hkey : csdbIsValidKey defReqKey = true := by decide
  have hget := csdbGetValueForKey_value h (bounded_linear t) hfree hkey hreqStr
  have hpos : ¬ (nodeNames.length : Int) < 1 := by
    have := List.length_pos_of_ne_nil hne
    omega
  obtain ⟨k', db', t', hrun, h', hfree', hcontent⟩ :=
    defReqNodes_spec hans hdots hvalid hfits rfl nodeNames (List.Subset.refl _) h hfree 0
  refine ⟨db', t', ?_, h', hfree', hcontent⟩
  rw [cscDoDefReqForAliveNodes, aliveNames_reply h hnodes, ok_bind]
  simp [hne, hpos, hget, hrun]

/-- **Default requests.** Every other alive node has what it answered before its first failure
stored under its own name, and what is stored under a name does not depend on the answers and
failures of the other nodes. -/
theorem defRequests_independent (hreach : Reachable db) (hfree : db.locked = false)
    {clock : Nat → Int} {request : Nat → DbRequest} {answer : CStr → CStr → Option CStr}
    (hnodes : aliveNames db = .ok nodeNames) (hne : nodeNames ≠ [])
    (hreqStr : valueFor .linear db defReqKey = .ok (some reqStr))
    (hvalid : ∀ req ∈ tokens [space] reqStr, csdbIsValidKey req = true ∧ req ≠ [dot])
    (hfits : ∀ node ∈ nodeNames, ∀ req ∈ tokens [space] reqStr, node.length + req.length ≤ 249)
    (hans : Answers clock request nodeNames (tokens [space] reqStr) answer) :
    ∃ db', cscDoDefReqForAliveNodes .linear request (some thisHostname) db = .ok (0, db') ∧
      (∀ node ∈ nodeNames, node ≠ thisHostname →
        ∀ req ∈ answeredReqs (answer node) (tokens [space] reqStr),
          valueFor .linear db' (nodeReqKey node req) = .ok (answer node req)) ∧
      ∀ (clock' : Nat → Int) (request' : Nat → DbRequest) (answer' : CStr → CStr → Option CStr),
        Answers clock' request' nodeNames (tokens [space] reqStr) answer' →
        ∃ db'', cscDoDefReqForAliveNodes .linear request' (some thisHostname) db = .ok (0, db'') ∧
          ∀ node, answer' node = answer node → ∀ key, csdbIsValidKey key = true →
            [nodes, node] <+: keyPath key → SameAt db' db'' key := by
  obtain ⟨t, h⟩ := hreach.holds
  have hdots := listed_no_dot h hnodes
  obtain ⟨db', t', hrun, h', hfree', hcontent⟩ :=
    @cscDoDefReqForAliveNodes_spec _ _ _ _ thisHostname h hfree _ _ _ hnodes hne hreqStr hvalid hfits hans
  refine ⟨db', hrun, ?_, ?_⟩
  · intro node hnode hother req hreq
    obtain ⟨value, hvalue⟩ : ∃ value, answer node req = some value := by
      exact Option.isSome_iff_exists.mp (by simpa using List.mem_takeWhile_imp hreq)
    obtain ⟨hv, hroot⟩ := hvalid req ((List.takeWhile_sublist _).subset hreq)
    have hdot := hdots node hnode
    have hunder : [node, nodes] <:+ (keyPath (nodeReqKey node req)).reverse := by
      rw [reqPath hdot hv hroot]
      exact List.suffix_append _ _
    have hstored : content t' (keyPath (nodeReqKey node req)).reverse = some (true, some value) := by
      rw [hcontent _ (under_node_ne_alive hunder)]
      exact storeNodes_answered hvalid hdots hnode (Ne.symm hother) hreq hvalue _
    rw [valueFor_eq h' (bounded_linear t') hfree' (nodeReqKey_valid hdot hv hroot).1, hvalue]
    obtain ⟨⟨leaf, v, mtime⟩, hr, heq⟩ := Option.map_eq_some_iff.mp hstored
    obtain ⟨rfl, rfl⟩ := Prod.mk.inj heq
    rw [hr, recordValue]
  · intro clock' request' answer' hans'
    obtain ⟨db'', t'', hrun', h'', hfree'', hcontent'⟩ :=
      @cscDoDefReqForAliveNodes_spec _ _ _ _ thisHostname h hfree _ _ _ hnodes hne hreqStr hvalid hfits hans'
    refine ⟨db'', hrun', ?_⟩
    intro node hagree key hv hunder
    have hq : [node, nodes] <:+ (keyPath key).reverse := by
      simpa using List.reverse_suffix.mpr hunder
    have hlast := under_node_ne_alive hq
    apply SameAt.of_content h' hfree' h'' hfree'' hv
    rw [hcontent _ hlast, hcontent' _ hlast]
    exact storeNodes_congr hvalid hdots hagree hq _

end Main

/-! ## Requests over the network -/

/-- `cs_do_db_request_for_node` where `resolves` says which names are known and `net` what
becomes of the request to each. -/
def dbRequestTo (clock : Nat → Int) (resolves : CStr → Bool) (behind : Bytes)
    (net : CStr → Bytes → Exec Delivery) : Nat → DbRequest :=
  fun k db node key =>
    csDoDbRequestForNode .linear db (resolves node) node key (List.replicate (key.length + 6) 0) behind
      (List.replicate maxline 0) (net node) (clock k)

/-- A request that returns stores the data of a response, or fails and at most takes the node
from the list of alive ones, whatever the database is. -/
theorem csDoDbRequestForNode_returns {asker asker' : Database} {resolved : Bool} {node key : CStr}
    {req behind respPacket : Bytes} {net : Bytes → Exec Delivery} {now ret : Int}
    (hok : csDoDbRequestForNode .linear asker resolved node key req behind respPacket net now =
      .ok (ret, asker')) :
    (ret = 0 ∧ ∃ value, ∀ db,
      csDoDbRequestForNode .linear db resolved node key req behind respPacket net now =
        do let (_, db) ← csdbSetValueForKey .linear db key (some value) now; .ok (0, db)) ∨
    ret = -1 ∧
      ((∀ db, csDoDbRequestForNode .linear db resolved node key req behind respPacket net now =
          .ok (-1, db)) ∨
        ∀ db, csDoDbRequestForNode .linear db resolved node key req behind respPacket net now =
          do let (_, db) ← cscNodeNotAlive .linear db (some node); .ok (-1, db)) := by
  cases resolved with
  | false =>
      obtain rfl : -1 = ret := (Prod.mk.inj (Except.ok.inj hok)).1
      exact Or.inr ⟨rfl, Or.inl fun _ => rfl⟩
  | true =>
      simp only [csDoDbRequestForNode, if_true] at hok ⊢
      obtain ⟨⟨n, packet⟩, hpack, hok⟩ := bind_eq_ok hok
      obtain ⟨delivery, hnet, hok⟩ := bind_eq_ok hok
      simp only [hpack, ok_bind, hnet]
      cases delivery with
      | unsent =>
          obtain rfl : -1 = ret := (Prod.mk.inj (Except.ok.inj hok)).1
          exact Or.inr ⟨rfl, Or.inl (by simp)⟩
      | timeout | failed =>
          obtain ⟨_, -, hok⟩ := bind_eq_ok hok
          obtain rfl : -1 = ret := (Prod.mk.inj (Except.ok.inj hok)).1
          exact Or.inr ⟨rfl, Or.inr (by simp)⟩
      | reply datagram =>
          obtain ⟨⟨_, err, data, _⟩, hunpack, hok⟩ := bind_eq_ok hok
          simp only [hunpack, ok_bind]
          by_cases hsucc : err = csRespSucc
          · simp only [if_pos hsucc] at hok ⊢
            cases data with
            | none => cases hok
            | some value =>
                obtain ⟨_, -, hok⟩ := bind_eq_ok hok
                obtain rfl : 0 = ret := (Prod.mk.inj (Except.ok.inj hok)).1
                exact Or.inl ⟨rfl, value, fun _ => rfl⟩
          · simp only [if_neg hsucc] at hok ⊢
            obtain rfl : -1 = ret := (Prod.mk.inj (Except.ok.inj hok)).1
            exact Or.inr ⟨rfl, Or.inl (by simp)⟩

/-- Requests that return, and after an answer leave it in the database, make answers. -/
theorem dbRequestTo_answers {clock : Nat → Int} {resolves : CStr → Bool} {behind : Bytes}
    {net : CStr → Bytes → Exec Delivery} {aliveNodes reqs : List CStr}
    {answer : CStr → CStr → Option CStr}
    (hvalid : ∀ node ∈ aliveNodes, ∀ req ∈ reqs, csdbIsValidKey (nodeReqKey node req) = true)
    (hfits : ∀ node ∈ aliveNodes, node.length ≤ 248)
    (hreturns : ∀ k, ∀ node ∈ aliveNodes, ∀ req ∈ reqs, ∃ db t db',
      Holds .linear db t ∧ db.locked = false ∧
      dbRequestTo clock resolves behind net k db node (nodeReqKey node req) =
        .ok (if (answer node req).isSome then 0 else -1, db') ∧
      ∀ value, answer node req = some value →
        valueFor .linear db' (nodeReqKey node req) = .ok (some value)) :
    Answers clock (dbRequestTo clock resolves behind net) aliveNodes reqs answer := by
  intro k node hnode req hreq db t h hfree
  obtain ⟨db₁, t₁, db', h₁, hfree₁, hok, hvalue⟩ := hreturns k node hnode req hreq
  have hv := hvalid node hnode req hreq
  rcases csDoDbRequestForNode_returns hok with ⟨hret, data, hall⟩ | ⟨hret, hall⟩
  · cases ha : answer node req with
    | none =>
        rw [ha] at hret
        cases hret
    | some value =>
        -- what was stored is what is found
        obtain ⟨L, hrep⟩ := id h₁
        obtain ⟨db₂, t₂, hset, h₂, hfree₂, hrec⟩ :=
          csdbSetValueForKey_spec hrep (bounded_linear t₁) hfree₁ hv (some data) (clock k)
        have hdb := hall db₁
        rw [hset, ok_bind] at hdb
        obtain rfl : db₂ = db' := (Prod.mk.inj (Except.ok.inj (hdb.symm.trans hok))).2
        have hfound := hvalue value ha
        rw [valueFor_eq h₂ (bounded_linear t₂) hfree₂ hv, hrec, setRecord, if_pos rfl] at hfound
        obtain rfl : data = value := by simpa [Record.set, recordValue] using hfound
        exact hall db
  · cases ha : answer node req with
    | some value =>
        rw [ha] at hret
        cases hret
    | none =>
        rcases hall with hsame | hgone
        · exact Or.inl (hsame db)
        · obtain ⟨db₂, hdb₂⟩ := cscNodeNotAlive_returns h hfree (hfits node hnode)
          exact Or.inr ⟨db₂, hdb₂, by rw [dbRequestTo, hgone db, hdb₂]; rfl⟩

def oneRequest : List Call :=
  [.set defReqKey (some (lit ['.', 'l'])),
    .set (lit ['.', 'a', 'l', 'i', 'v', 'e', '.', 'a']) (some (lit ['1'])),
    .set (lit ['.', 'a', 'l', 'i', 'v', 'e', '.', 'b']) (some (lit ['1']))]

theorem oneRequest_nodes :
    ∃ db, Reachable db ∧ db.locked = false ∧ aliveNames db = .ok [lit ['b'], lit ['a']] ∧
      valueFor .linear db defReqKey = .ok (some (lit ['.', 'l'])) := by
  apply @run_nodes oneRequest
  · decide
  · decide

def onlyA (node _req : CStr) : Option CStr := if node = lit ['a'] then some (lit ['7']) else none

theorem onlyA_answers : ∃ datagram,
    Answers (fun _ => 0)
      (dbRequestTo (fun _ => 0) (fun node => node = lit ['a']) [] fun _ _ => .ok (.reply datagram))
      [lit ['b'], lit ['a']] [lit ['.', 'l']] onlyA := by
  obtain ⟨n, packet, after, -, -, hunpack⟩ :=
    @resp_received (List.replicate 6 0) (List.replicate maxline 0) List.length_replicate csRespSucc
      (lit ['7']) (by decide) (by decide)
  obtain ⟨db, hinit, h, hfree⟩ := csdbInit_spec .linear 0
  obtain ⟨L, hrep⟩ := id h
  have hv : csdbIsValidKey (nodeReqKey (lit ['a']) (lit ['.', 'l'])) = true := by decide
  obtain ⟨db', t', hset, h', hfree', hrec⟩ :=
    csdbSetValueForKey_spec hrep (bounded_linear _) hfree hv (some (lit ['7'])) 0
  obtain ⟨request, hpack⟩ : ∃ request, cspPackDbreqPacket
      (List.replicate ((nodeReqKey (lit ['a']) (lit ['.', 'l'])).length + 6) 0)
      (some (nodeReqKey (lit ['a']) (lit ['.', 'l']))) none csGet = .ok request := ⟨_, rfl⟩
  refine ⟨packet.take n, dbRequestTo_answers (by decide) (by decide) ?_⟩
  intro k node hnode req hreq
  obtain rfl : req = lit ['.', 'l'] := List.mem_singleton.mp hreq
  by_cases ha : node = lit ['a']
  · refine ⟨db, _, db', h, hfree, ?_, fun value hvalue => ?_⟩
    · rw [ha]
      simp only [dbRequestTo, csDoDbRequestForNode, decide_true, if_true, hpack, ok_bind, hunpack,
        hset]
      rfl
    · rw [onlyA, if_pos ha, Option.some.injEq] at hvalue
      rw [ha, ← hvalue, valueFor_eq h' (bounded_linear t') hfree' hv, hrec,
        recordValue_setRecord_self]
  · refine ⟨db, _, db, h, hfree, ?_, fun value hvalue => ?_⟩
    · simp [dbRequestTo, csDoDbRequestForNode, onlyA, ha]
    · rw [onlyA, if_neg ha] at hvalue
      cases hvalue

theorem defRequests_independent_two :
    ∃ db datagram db', cscDoDefReqForAliveNodes .linear
        (dbRequestTo (fun _ => 0) (fun node => node = lit ['a']) [] fun _ _ => .ok (.reply datagram))
        (some (lit ['h'])) db = .ok (0, db') ∧
      valueFor .linear db' (nodeReqKey (lit ['a']) (lit ['.', 'l'])) = .ok (some (lit ['7'])) := by
  obtain ⟨db, hreach, hfree, hnodes, hreqStr⟩ := oneRequest_nodes
  obtain ⟨datagram, hans⟩ := onlyA_answers
  have htoks : tokens [space] (lit ['.', 'l']) = [lit ['.', 'l']] := by decide
  rw [← htoks] at hans
  obtain ⟨db', hrun, hstored, -⟩ := @defRequests_independent _ _ _ (lit ['h']) hreach hfree _ _ _
    hnodes (by decide) hreqStr (by rw [htoks]; decide) (by rw [htoks]; decide) hans
  refine ⟨db, datagram, db', hrun, ?_⟩
  exact hstored (lit ['a']) (by decide) (by decide) (lit ['.', 'l']) (by rw [htoks]; decide)

end Dkmp.Csd
