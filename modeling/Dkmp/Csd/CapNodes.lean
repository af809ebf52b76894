import Dkmp.Csd.AliveSet
import Dkmp.Csd.Capability
import Dkmp.Csd.TokenLoops

/-! # The capable nodes of an application

`csc_update_cap_nodes_for_app` asks every alive node for the libraries of an application
and keeps the names of those that have them in one value, in the order of the list. A
request that fails ends the loop.
-/

namespace Dkmp.Csd

open Machine Csdb Csp Csc

def appKey (appname suffix : CStr) : CStr :=
  dot :: (lit ['a', 'p', 'p'] ++ dot :: (appname ++ dot :: suffix))

def capnodes : CStr := lit ['c', 'a', 'p', 'n', 'o', 'd', 'e', 's']

def cscGetLibsForApp (b : Search) (db : Database) (appname : CStr) :
    Exec (Int × Option CStr × Database) := do
  let key ← sprintf ksize (appKey appname lib)
  csdbGetValueForKey b db key

/-- Begin the list of names under a key, or append one to it. -/
def addName (b : Search) (db : Database) (key name : CStr) (now : Int) : Exec Database := do
  let (exist, db) ← csdbKeyExist b db key
  if exist ≠ 0 then do
    let (_, db) ← csdbAppendValueForKey b db key (some name) (some [space]) now
    .ok db
  else do
    let (_, db) ← csdbSetValueForKey b db key (some name) now
    .ok db

/-- `cs_do_cap_request_for_node` for a node and the libraries, with whatever the network
makes of it. -/
abbrev CapRequest := Database → CStr → CStr → Exec (Int × Database)

/-- `while(node != NULL)`, with `node` the first token of the text; the `k`-th node is stored
at the time `clock k`. -/
def capNodesBody (b : Search) (clock : Nat → Int) (request : CapRequest) (libs key : CStr) :
    Nat × CStr × Database → Exec ((Nat × CStr × Database) ⊕ Database)
  | (k, text, db) =>
      match strtok [space] text with
      | none => .ok (.inr db)
      | some (node, rest) => do
          let (error, db) ← request db node libs
          let db ← if 0 < error then addName b db key node (clock k) else .ok db
          if error = -1 then .ok (.inr db) else .ok (.inl (k + 1, rest, db))

/-- `alive_nodes` is freed at the end; a listing that fails has not written to it. -/
def cscUpdateCapNodesForApp (b : Search) (clock : Nat → Int) (request : CapRequest)
    (db : Database) (appname : CStr) : Exec (Int × Database) := do
  let (_, libsForApp, db) ← cscGetLibsForApp b db appname
  match libsForApp with
  | none => .ok (-1, db)
  | some libs => do
      let (nrNodes, aliveNodes) ← csdbGetChildNamesForKey b db aliveRoot
      let key ← sprintf ksize (appKey appname capnodes)
      let (_, db) ← csdbRemoveFromKey b db key
      match aliveNodes with
      | none => .error .uninit
      | some (_, text) => do
          let db ←
            if 0 < nrNodes then
              loop (capNodesBody b clock request libs key) (text.length + 1) (0, text, db)
            else .ok db
          .ok (0, db)

variable {db : Database} {t : Tree}

/-! ## Lists of names -/

theorem length_appKey (appname suffix : CStr) :
    (appKey appname suffix).length = 6 + appname.length + suffix.length := by
  have happ : (lit ['a', 'p', 'p']).length = 3 := by decide
  simp only [appKey, List.length_cons, List.length_append, happ]
  omega

theorem libsKey_fits {appname : CStr} (hlen : appname.length ≤ 246) :
    sprintf ksize (appKey appname lib) = .ok (appKey appname lib) := by
  have hlib : lib.length = 3 := by decide
  apply sprintf_ok
  rw [length_appKey, hlib, ksize]
  omega

theorem capnodesKey_fits {appname : CStr} (hlen : appname.length ≤ 241) :
    sprintf ksize (appKey appname capnodes) = .ok (appKey appname capnodes) := by
  have hcap : capnodes.length = 8 := by decide
  apply sprintf_ok
  rw [length_appKey, hcap, ksize]
  omega

theorem appKey_valid (appname : CStr) {suffix : CStr} (hdot : dot ∉ suffix) (hne : suffix ≠ []) :
    csdbIsValidKey (appKey appname suffix) = true ∧
      (keyPath (appKey appname suffix)).reverse =
        suffix :: ((appname.splitOn dot).reverse ++ [lit ['a', 'p', 'p']]) := by
  obtain ⟨hv, hpath⟩ := nestedKey_valid appname (by decide : dot ∉ lit ['a', 'p', 'p']) hdot hne
  refine ⟨hv, ?_⟩
  rw [appKey, hpath]
  simp

def ListAt (t : Tree) (q : UpPath) (names : List CStr) : Prop :=
  if names = [] then t.record q = none
  else ∃ mtime, t.record q = some ⟨true, some ([space].intercalate names), mtime⟩

def Stored (t t' : Tree) (q : UpPath) (value : CStr) : Prop :=
  ∃ mtime now, ∀ q', t'.record q' =
    if q' = q then some ⟨true, some value, mtime⟩
    else if q' <:+ q then some ((t.record q').getD (.fresh now))
    else t.record q'

theorem intercalate_concat {names : List CStr} (hne : names ≠ []) (name : CStr) :
    [space].intercalate (names ++ [name]) = [space].intercalate names ++ space :: name := by
  induction names with
  | nil => exact absurd rfl hne
  | cons n names ih =>
      cases names with
      | nil => simp [List.intercalate_cons_cons]
      | cons m names =>
          rw [List.cons_append, List.cons_append, List.intercalate_cons_cons, ← List.cons_append,
            ih (by simp), List.intercalate_cons_cons]
          simp

theorem addName_spec (h : Holds .linear db t) (hfree : db.locked = false) {key : CStr}
    (hv : csdbIsValidKey key = true) {names : List CStr}
    (hlist : ListAt t (keyPath key).reverse names) (name : CStr) (now : Int) :
    ∃ db' t', addName .linear db key name now = .ok db' ∧ Holds .linear db' t' ∧
      db'.locked = false ∧
      Stored t t' (keyPath key).reverse ([space].intercalate (names ++ [name])) := by
  obtain ⟨L, hrep⟩ := h
  have hexist := csdbKeyExist_spec hrep (bounded_linear t) hfree hv
  by_cases hnil : names = []
  · rw [ListAt, if_pos hnil] at hlist
    obtain ⟨db', t', hset, h', hfree', hrec⟩ :=
      csdbSetValueForKey_spec hrep (bounded_linear t) hfree hv (some name) now
    rw [hlist] at hexist
    refine ⟨db', t', by simp [addName, hexist, hset], h', hfree', now, now, fun q' => ?_⟩
    rw [hrec, setRecord, hnil, List.nil_append, List.intercalate_singleton]
    rfl
  · rw [ListAt, if_neg hnil] at hlist
    obtain ⟨mtime, hrecord⟩ := hlist
    obtain ⟨db', t', happend, h', hfree', hrec⟩ :=
      csdbAppendValueForKey_spec hrep (hrep.finds (bounded_linear t) hv) hfree name (some [space])
        now hrecord rfl
    rw [hrecord] at hexist
    refine ⟨db', t', by simp [addName, hexist, happend], h', hfree', mtime, now, fun q' => ?_⟩
    rw [hrec]
    by_cases hq : q' = (keyPath key).reverse
    · rw [if_pos hq, if_pos hq, intercalate_concat hnil]
      simp [Record.append]
    · rw [if_neg hq, if_neg hq]
      split
      · obtain ⟨r, hr⟩ : ∃ r, t.record q' = some r := by
          apply Option.isSome_iff_exists.mp
          rw [Tree.record_isSome]
          apply t.suffix_isSome ‹_›
          rw [← Tree.record_isSome, hrecord]
          rfl
        rw [hr, Option.getD_some]
      · rfl

theorem Stored.listAt {t' : Tree} {q : UpPath} {names : List CStr} {name : CStr}
    (h : Stored t t' q ([space].intercalate (names ++ [name]))) : ListAt t' q (names ++ [name]) := by
  obtain ⟨mtime, now, hrec⟩ := h
  rw [ListAt, if_neg (by simp)]
  exact ⟨mtime, by rw [hrec, if_pos rfl]⟩

theorem Stored.other {t' : Tree} {q q' : UpPath} {value : CStr} (h : Stored t t' q value)
    (hs : ¬ q' <:+ q) : t'.record q' = t.record q' := by
  obtain ⟨mtime, now, hrec⟩ := h
  rw [hrec, if_neg, if_neg hs]
  rintro rfl
  exact hs List.suffix_rfl

/-! ## The loop over the nodes -/

/-- Results of the requests to some nodes: each is 1, 0 or -1, and a node that does not
answer may have been taken from the list of alive ones. -/
def Assigned (request : CapRequest) (libs : CStr) (nodes : List CStr) (outcome : CStr → Int) : Prop :=
  ∀ node ∈ nodes, (outcome node = 1 ∨ outcome node = 0 ∨ outcome node = -1) ∧
    ∀ db t, Holds .linear db t → db.locked = false →
      request db node libs = .ok (outcome node, db) ∨
      outcome node = -1 ∧ ∃ db', cscNodeNotAlive .linear db (some node) = .ok (0, db') ∧
        request db node libs = .ok (-1, db')

theorem capResult_cases {data : Option CStr} {ret : Int} (h : capResult data = .ok ret) :
    ret = 1 ∨ ret = 0 := by
  unfold capResult at h
  split at h
  · split at h
    · exact Or.inr (Except.ok.inj h).symm
    · split at h
      · exact Or.inl (Except.ok.inj h).symm
      · cases h
  · cases h

/-- What a request returns does not depend on the database, which only loses a node that does
not answer. -/
theorem csDoCapRequestForNode_returns {asker asker' : Database} {resolved : Bool} {node libs : CStr}
    {req respPacket : Bytes} {net : Bytes → Exec Delivery} {ret : Int}
    (hok : csDoCapRequestForNode .linear asker resolved node (some libs) req respPacket net =
      .ok (ret, asker')) :
    (ret = 1 ∨ ret = 0 ∨ ret = -1) ∧
      ((∀ db, csDoCapRequestForNode .linear db resolved node (some libs) req respPacket net =
          .ok (ret, db)) ∨
        ret = -1 ∧ ∀ db, csDoCapRequestForNode .linear db resolved node (some libs) req respPacket net =
          do let (_, db) ← cscNodeNotAlive .linear db (some node); .ok (-1, db)) := by
  cases resolved with
  | false =>
      obtain rfl : -1 = ret := (Prod.mk.inj (Except.ok.inj hok)).1
      exact ⟨by simp, Or.inl fun _ => rfl⟩
  | true =>
      simp only [csDoCapRequestForNode] at hok ⊢
      obtain ⟨⟨n, packet⟩, hpack, hok⟩ := bind_eq_ok hok
      obtain ⟨delivery, hnet, hok⟩ := bind_eq_ok hok
      simp only [hpack, ok_bind, hnet]
      cases delivery with
      | unsent =>
          obtain rfl : -1 = ret := (Prod.mk.inj (Except.ok.inj hok)).1
          exact ⟨by simp, Or.inl fun _ => rfl⟩
      | timeout | failed =>
          obtain ⟨_, -, hok⟩ := bind_eq_ok hok
          obtain rfl : -1 = ret := (Prod.mk.inj (Except.ok.inj hok)).1
          exact ⟨by simp, Or.inr ⟨rfl, fun _ => rfl⟩⟩
      | reply datagram =>
          obtain ⟨⟨_, _, data, _⟩, hunpack, hok⟩ := bind_eq_ok hok
          obtain ⟨result, hresult, hok⟩ := bind_eq_ok hok
          obtain rfl : result = ret := (Prod.mk.inj (Except.ok.inj hok)).1
          refine ⟨?_, Or.inl fun db => ?_⟩
          · rcases capResult_cases hresult with hone | hzero
            · exact Or.inl hone
            · exact Or.inr (Or.inl hzero)
          · simp only [hunpack, ok_bind, hresult]

/-- `cs_do_cap_request_for_node` where `resolves` says which names are known and `net` what
becomes of the request to each. -/
def capRequestTo (resolves : CStr → Bool) (net : CStr → Bytes → Exec Delivery) : CapRequest :=
  fun db node libs =>
    csDoCapRequestForNode .linear db (resolves node) node (some libs)
      (List.replicate (libs.length + 6) 0) (List.replicate maxline 0) (net node)

theorem capRequestTo_assigned {resolves : CStr → Bool} {net : CStr → Bytes → Exec Delivery}
    {libs : CStr} {nodes : List CStr} {outcome : CStr → Int}
    (hfits : ∀ node ∈ nodes, node.length ≤ 248)
    (hreturns : ∀ node ∈ nodes, ∃ db db',
      capRequestTo resolves net db node libs = .ok (outcome node, db')) :
    Assigned (capRequestTo resolves net) libs nodes outcome := by
  intro node hnode
  obtain ⟨_, _, hok⟩ := hreturns node hnode
  obtain ⟨hcases, hall⟩ := csDoCapRequestForNode_returns hok
  refine ⟨hcases, fun db t h hfree => ?_⟩
  rcases hall with hsame | ⟨hminus, hgone⟩
  · exact Or.inl (hsame db)
  · obtain ⟨db', hdb'⟩ := cscNodeNotAlive_returns h hfree (hfits node hnode)
    exact Or.inr ⟨hminus, db', hdb', by rw [capRequestTo, hgone db, hdb']; rfl⟩

/-- The nodes that are asked, up to the first one whose request fails. -/
def asked (outcome : CStr → Int) (nodes : List CStr) : List CStr :=
  nodes.takeWhile (outcome · ≠ -1)

def capable (outcome : CStr → Int) (nodes : List CStr) : List CStr :=
  nodes.filter (outcome · = 1)

section Loop

variable {request : CapRequest} {libs appname : CStr} {outcome : CStr → Int}

theorem request_step {node : CStr} {nodes : List CStr} (hassign : Assigned request libs nodes outcome)
    (hnode : node ∈ nodes) (h : Holds .linear db t) (hfree : db.locked = false) :
    ∃ db' t', request db node libs = .ok (outcome node, db') ∧ Holds .linear db' t' ∧
      db'.locked = false ∧ ∀ q, q.getLast? ≠ some alive → t'.record q = t.record q := by
  rcases (hassign node hnode).2 db t h hfree with hok | ⟨houtcome, db', hgone, hok⟩
  · exact ⟨db, t, hok, h, hfree, fun _ _ => rfl⟩
  · obtain ⟨t', h', hfree', hrec⟩ := cscNodeNotAlive_other h hfree hgone
    exact ⟨db', t', by rw [hok, houtcome], h', hfree', hrec⟩

/-- The loop over the names in the text, in their order, and what it leaves alone. -/
theorem capNodesLoop_spec (clock : Nat → Int) {nodes : List CStr}
    (hassign : Assigned request libs nodes outcome) (text : CStr)
    (htokens : tokens [space] text = nodes) {names : List CStr} (k fuel : Nat)
    (hfuel : nodes.length < fuel) (h : Holds .linear db t) (hfree : db.locked = false)
    (hlist : ListAt t (keyPath (appKey appname capnodes)).reverse names) :
    ∃ db' t', loop (capNodesBody .linear clock request libs (appKey appname capnodes)) fuel
        (k, text, db) = .ok db' ∧ Holds .linear db' t' ∧ db'.locked = false ∧
      ListAt t' (keyPath (appKey appname capnodes)).reverse
        (names ++ capable outcome (asked outcome nodes)) ∧
      ∀ q, q.getLast? ≠ some alive → ¬ q <:+ (keyPath (appKey appname capnodes)).reverse →
        t'.record q = t.record q := by
  obtain ⟨hv, hpath⟩ := appKey_valid appname (by decide : dot ∉ capnodes) (by decide)
  have hlast : (keyPath (appKey appname capnodes)).reverse.getLast? ≠ some alive := by
    rw [hpath, ← List.cons_append, List.getLast?_concat]
    decide
  induction nodes generalizing text db t names k fuel with
  | nil =>
      obtain ⟨fuel, rfl⟩ : ∃ f, fuel = f + 1 := ⟨fuel - 1, by omega⟩
      have hnone := strtok_eq_none htokens
      refine ⟨db, t, loop_exit (by rw [capNodesBody, hnone]), h, hfree, ?_, fun _ _ _ => rfl⟩
      simpa [asked, capable] using hlist
  | cons node nodes ih =>
      obtain ⟨fuel, rfl⟩ : ∃ f, fuel = f + 1 := ⟨fuel - 1, by omega⟩
      obtain ⟨rest, htok, hmore⟩ := strtok_eq_some htokens
      obtain ⟨db₁, t₁, hreq, h₁, hfree₁, hrec₁⟩ := request_step hassign (List.mem_cons_self (a := node)) h hfree
      have hlist₁ : ListAt t₁ (keyPath (appKey appname capnodes)).reverse names := by
        rw [ListAt, hrec₁ _ hlast]
        exact hlist
      have hbody : capNodesBody .linear clock request libs (appKey appname capnodes) (k, text, db) =
          (do
            let db ← if 0 < outcome node then
                addName .linear db₁ (appKey appname capnodes) node (clock k) else .ok db₁
            if outcome node = -1 then .ok (.inr db) else .ok (.inl (k + 1, rest, db))) := by
        simp only [capNodesBody, htok, hreq, ok_bind]
      have hrest : ∀ {db₂ t₂ names₂}, Holds .linear db₂ t₂ → db₂.locked = false →
          ListAt t₂ (keyPath (appKey appname capnodes)).reverse names₂ → _ :=
        fun h₂ hfree₂ hlist₂ => ih (fun n hn => hassign n (by simp [hn])) rest hmore (k + 1) fuel
          (by simpa using hfuel) h₂ hfree₂ hlist₂
      rw [loop_succ, hbody]
      rcases (hassign node (by simp)).1 with hone | hzero | hminus
      · obtain ⟨db₂, t₂, hadd, h₂, hfree₂, hstored⟩ :=
          addName_spec h₁ hfree₁ hv hlist₁ node (clock k)
        obtain ⟨db', t', hloop, h', hfree', hlist', hrec'⟩ := hrest h₂ hfree₂ hstored.listAt
        refine ⟨db', t', ?_, h', hfree', ?_, ?_⟩
        · simp [hone, hadd, hloop]
        · simpa [asked, capable, hone] using hlist'
        · intro q hq hs
          rw [hrec' q hq hs, hstored.other hs, hrec₁ q hq]
      · obtain ⟨db', t', hloop, h', hfree', hlist', hrec'⟩ := hrest h₁ hfree₁ hlist₁
        refine ⟨db', t', ?_, h', hfree', ?_, ?_⟩
        · simp [hzero, hloop]
        · simpa [asked, capable, hzero] using hlist'
        · intro q hq hs
          rw [hrec' q hq hs, hrec₁ q hq]
      · refine ⟨db₁, t₁, ?_, h₁, hfree₁, ?_, fun q hq _ => hrec₁ q hq⟩
        · simp [hminus]
        · simpa [asked, capable, hminus] using hlist₁

/-- What is stored is all there is to store exactly if nothing is missed behind a request
that fails. -/
theorem capable_asked_iff (nodes : List CStr) :
    capable outcome (asked outcome nodes) = capable outcome nodes ↔
      nodes.Pairwise fun m n => outcome m = -1 → outcome n ≠ 1 := by
  induction nodes with
  | nil => simp [capable, asked]
  | cons node nodes ih =>
      rw [List.pairwise_cons, ← ih]
      by_cases hminus : outcome node = -1
      · have hnone : capable outcome (asked outcome (node :: nodes)) = [] := by
          simp [capable, asked, hminus]
        have hskip : capable outcome (node :: nodes) = capable outcome nodes := by
          simp [capable, hminus]
        have hempty : [] = capable outcome nodes ↔ ∀ n ∈ nodes, outcome n ≠ 1 := by
          rw [eq_comm, capable, List.filter_eq_nil_iff]
          simp
        rw [hnone, hskip, hempty]
        constructor
        · intro hall
          refine ⟨fun n hn _ => hall n hn, ?_⟩
          have hnil : capable outcome nodes = [] := (hempty.mpr hall).symm
          have hsub : (capable outcome (asked outcome nodes)).Sublist (capable outcome nodes) :=
            (List.takeWhile_sublist _).filter _
          rw [hnil] at hsub ⊢
          exact List.sublist_nil.mp hsub
        · rintro ⟨hall, -⟩ n hn
          exact hall n hn hminus
      · have hkeep : capable outcome (asked outcome (node :: nodes)) =
            capable outcome (node :: asked outcome nodes) := by
          simp [capable, asked, hminus]
        rw [hkeep, and_iff_right (fun n _ h => absurd h hminus)]
        by_cases hone : outcome node = 1
        · simp [capable, hone]
        · simp [capable, hone]

end Loop

/-! ## The list of an application -/

/-- The value under a key is the names, with a space between each two, and there is no such
key without names. -/
def HoldsNames (db : Database) (key : CStr) (names : List CStr) : Prop :=
  if names = [] then csdbKeyExist .linear db key = .ok (0, db)
  else valueFor .linear db key = .ok (some ([space].intercalate names))

def CapNodesListed (clock : Nat → Int) (request : CapRequest) (appname : CStr)
    (nodes : List CStr) (outcome : CStr → Int) (db : Database) : Prop :=
  ∃ ret db', cscUpdateCapNodesForApp .linear clock request db appname = .ok (ret, db') ∧
    HoldsNames db' (appKey appname capnodes) (capable outcome nodes)

theorem ListAt.holdsNames (h : Holds .linear db t) (hfree : db.locked = false) {key : CStr}
    (hv : csdbIsValidKey key = true) {names : List CStr} (hlist : ListAt t (keyPath key).reverse names) :
    HoldsNames db key names := by
  obtain ⟨L, hrep⟩ := id h
  have hexist := csdbKeyExist_spec hrep (bounded_linear t) hfree hv
  have hvalue := valueFor_eq h (bounded_linear t) hfree hv
  unfold ListAt at hlist
  unfold HoldsNames
  split
  · rename_i hnil
    rw [if_pos hnil] at hlist
    rw [hexist, hlist]
    rfl
  · rename_i hne
    rw [if_neg hne] at hlist
    obtain ⟨mtime, hrec⟩ := hlist
    rw [hvalue, hrec]
    rfl

theorem HoldsNames.inj (hfree : db.locked = false) (h : Holds .linear db t) {key : CStr}
    (hv : csdbIsValidKey key = true) {names names' : List CStr}
    (hnames : ∀ name ∈ names, space ∉ name) (hnames' : ∀ name ∈ names', space ∉ name)
    (hheld : HoldsNames db key names) (hheld' : HoldsNames db key names') : names = names' := by
  obtain ⟨L, hrep⟩ := id h
  have hexist := csdbKeyExist_spec hrep (bounded_linear t) hfree hv
  have hvalue := valueFor_eq h (bounded_linear t) hfree hv
  have hclash : csdbKeyExist .linear db key = .ok (0, db) →
      ∀ v, valueFor .linear db key ≠ .ok (some v) := by
    intro habsent v hv'
    rw [hvalue] at hv'
    rw [hexist] at habsent
    cases hr : t.record (keyPath key).reverse with
    | none => simp [hr, recordValue] at hv'
    | some r => simp [hr] at habsent
  unfold HoldsNames at hheld hheld'
  by_cases hnil : names = []
  · by_cases hnil' : names' = []
    · rw [hnil, hnil']
    · rw [if_pos hnil] at hheld
      rw [if_neg hnil'] at hheld'
      exact absurd hheld' (hclash hheld _)
  · rw [if_neg hnil] at hheld
    by_cases hnil' : names' = []
    · rw [if_pos hnil'] at hheld'
      exact absurd hheld (hclash hheld' _)
    · rw [if_neg hnil', hheld, Except.ok.injEq, Option.some.injEq] at hheld'
      rw [← List.splitOn_intercalate space hnames hnil, hheld',
        List.splitOn_intercalate space hnames' hnil']

/-- The names that a listing gives: all children of an entry that holds no value, and none
of one that holds a value. -/
theorem childNames_reply (h : Holds .linear db t) {key : CStr} (hv : csdbIsValidKey key = true) :
    ∃ names, csdbGetChildNamesForKey .linear db key =
        .ok (if names = [] then (-1, none)
          else (names.length, some (names, names.flatMap (· ++ [space])))) ∧
      names.Nodup ∧ (∀ n ∈ names, (t.record (n :: (keyPath key).reverse)).isSome) ∧
      if recordValue (t.record (keyPath key).reverse) = .ok none then
        ∀ n, (t.record (n :: (keyPath key).reverse)).isSome → n ∈ names
      else names = [] := by
  obtain ⟨L, hrep⟩ := h
  rw [csdbGetChildNamesForKey_spec hrep (bounded_linear t) hv]
  simp only [Tree.record_isSome]
  cases hn : t.node (keyPath key).reverse with
  | none =>
      refine ⟨[], rfl, List.nodup_nil, by simp, ?_⟩
      rw [Tree.record, hn, Option.map_none, recordValue, if_pos rfl]
      intro n hsome
      have hparent := t.parent_isSome hsome
      rw [hn] at hparent
      cases hparent
  | some d =>
      by_cases hleaf : d.leaf = true
      · refine ⟨[], by simp [namesReply, hleaf], List.nodup_nil, by simp, ?_⟩
        rw [if_neg]
        obtain ⟨⟨leaf, value, mtime⟩, kids⟩ := d
        obtain rfl : leaf = true := hleaf
        cases value <;> simp [Tree.record, hn, recordValue]
      · refine ⟨d.kids, ?_, t.nodup _ d hn, fun n hmem => t.kid_isSome hn hmem, ?_⟩
        · by_cases hnil : d.kids = []
          · simp [namesReply, hnil]
          · simp [namesReply, hnil, hleaf]
        · obtain ⟨⟨leaf, value, mtime⟩, kids⟩ := d
          obtain rfl : leaf = false := by simpa using hleaf
          rw [Tree.record, hn, Option.map_some, recordValue, if_pos rfl]
          exact fun n hsome => (t.mem_kids_iff hn).mpr hsome

theorem aliveNames_reply {nodes : List CStr} (h : Holds .linear db t)
    (hnodes : aliveNames db = .ok nodes) :
    csdbGetChildNamesForKey .linear db aliveRoot =
      .ok (if nodes = [] then (-1, none) else (nodes.length, some (nodes, nodes.flatMap (· ++ [space])))) := by
  obtain ⟨names, hreply, -⟩ := childNames_reply h aliveRoot_valid
  rw [aliveNames, hreply, ok_bind] at hnodes
  by_cases hnil : names = []
  · simp only [if_pos hnil, Except.ok.injEq] at hnodes
    rw [hreply, hnil, ← hnodes]
  · simp only [if_neg hnil, Except.ok.injEq] at hnodes
    rw [hreply, hnodes]

section Update

variable (h : Holds .linear db t) (hfree : db.locked = false) (clock : Nat → Int)
  {request : CapRequest} {libs appname : CStr} {nodes : List CStr} {outcome : CStr → Int}
  (hlibs : valueFor .linear db (appKey appname lib) = .ok (some libs))
  (hnodes : aliveNames db = .ok nodes)

include h hfree hlibs hnodes

/-- The update up to the loop. -/
theorem cscUpdateCapNodesForApp_start (hlen : appname.length ≤ 246) :
    cscUpdateCapNodesForApp .linear clock request db appname = (do
      let key ← sprintf ksize (appKey appname capnodes)
      let (_, db) ← csdbRemoveFromKey .linear db key
      if nodes = [] then .error .uninit
      else do
        let db ← loop (capNodesBody .linear clock request libs key)
          ((nodes.flatMap (· ++ [space])).length + 1) (0, nodes.flatMap (· ++ [space]), db)
        .ok (0, db)) := by
  have hvalid := (appKey_valid appname lib_no_dot (by decide)).1
  have hget := csdbGetValueForKey_value h (bounded_linear t) hfree hvalid hlibs
  simp only [cscUpdateCapNodesForApp, cscGetLibsForApp, libsKey_fits hlen, ok_bind, hget,
    aliveNames_reply h hnodes]
  by_cases hnil : nodes = []
  · simp only [hnil, if_true]
  · have hpos : (0 : Int) < nodes.length := by
      have := List.length_pos_of_ne_nil hnil
      omega
    simp only [if_neg hnil, if_pos hpos]

/-- The names in the list of alive nodes, as `strtok` finds them. -/
theorem cscUpdateCapNodesForApp_spec (hlen : appname.length ≤ 241) (hne : nodes ≠ [])
    (hassign : Assigned request libs (tokens [space] (nodes.flatMap (· ++ [space]))) outcome) :
    ∃ db' t', cscUpdateCapNodesForApp .linear clock request db appname = .ok (0, db') ∧
      Holds .linear db' t' ∧ db'.locked = false ∧
      ListAt t' (keyPath (appKey appname capnodes)).reverse
        (capable outcome (asked outcome (tokens [space] (nodes.flatMap (· ++ [space]))))) ∧
      ∀ q, q.getLast? ≠ some alive → ¬ q <:+ (keyPath (appKey appname capnodes)).reverse →
        ¬ (keyPath (appKey appname capnodes)).reverse <:+ q → t'.record q = t.record q := by
  obtain ⟨L, hrep⟩ := id h
  have hvalid := (appKey_valid appname (by decide : dot ∉ capnodes) (by decide)).1
  obtain ⟨ret, db₁, t₁, hremove, h₁, hfree₁, hrec₁⟩ :=
    csdbRemoveFromKey_valid hrep (bounded_linear t) hfree hvalid (by simp [appKey])
  have hlist₁ : ListAt t₁ (keyPath (appKey appname capnodes)).reverse [] := by
    rw [ListAt, if_pos rfl, hrec₁, if_pos List.suffix_rfl]
  obtain ⟨db', t', hloop, h', hfree', hlist', hrec'⟩ :=
    capNodesLoop_spec clock hassign _ rfl 0 _ (Nat.lt_succ_of_le (length_tokens_le _ _)) h₁ hfree₁
      hlist₁
  refine ⟨db', t', ?_, h', hfree', hlist', fun q hq hs hp => ?_⟩
  · rw [cscUpdateCapNodesForApp_start h hfree clock hlibs hnodes (by omega),
      capnodesKey_fits hlen, ok_bind, hremove, ok_bind]
    simp only [if_neg hne, hloop, ok_bind]
  · rw [hrec' q hq hs, hrec₁, if_neg hp]

theorem cscUpdateCapNodesForApp_long (hlen : 241 < appname.length) :
    cscUpdateCapNodesForApp .linear clock request db appname = .error .bounds := by
  have hoverflow : sprintf ksize (appKey appname capnodes) = .error .bounds := by
    have hcap : capnodes.length = 8 := by decide
    apply sprintf_long
    rw [length_appKey, hcap, ksize]
    omega
  by_cases hlong : appname.length ≤ 246
  · rw [cscUpdateCapNodesForApp_start h hfree clock hlibs hnodes hlong, hoverflow]
    rfl
  · have hget : sprintf ksize (appKey appname lib) = .error .bounds := by
      have hlib : lib.length = 3 := by decide
      apply sprintf_long
      rw [length_appKey, hlib, ksize]
      omega
    rw [cscUpdateCapNodesForApp, cscGetLibsForApp, hget]
    rfl

theorem cscUpdateCapNodesForApp_none (hlen : appname.length ≤ 241) (hnil : nodes = []) :
    cscUpdateCapNodesForApp .linear clock request db appname = .error .uninit := by
  obtain ⟨L, hrep⟩ := id h
  have hvalid := (appKey_valid appname (by decide : dot ∉ capnodes) (by decide)).1
  obtain ⟨ret, db₁, t₁, hremove, -⟩ :=
    csdbRemoveFromKey_valid hrep (bounded_linear t) hfree hvalid (by simp [appKey])
  rw [cscUpdateCapNodesForApp_start h hfree clock hlibs hnodes (by omega),
    capnodesKey_fits hlen, ok_bind, hremove, ok_bind]
  simp only [if_pos hnil]

end Update

section Listed

variable {request : CapRequest} {libs appname : CStr} {nodes : List CStr} {outcome : CStr → Int}

theorem CapNodesListed.complete (h : Holds .linear db t) (hfree : db.locked = false)
    {clock : Nat → Int} (hlibs : valueFor .linear db (appKey appname lib) = .ok (some libs))
    (hnodes : aliveNames db = .ok nodes) (hwords : ∀ node ∈ nodes, node ≠ [] ∧ space ∉ node)
    (hassign : Assigned request libs nodes outcome)
    (hlisted : CapNodesListed clock request appname nodes outcome db) :
    nodes ≠ [] ∧ appname.length ≤ 241 ∧
      nodes.Pairwise fun m n => outcome m = -1 → outcome n ≠ 1 := by
  have hspaces : ∀ names : List CStr, names.Sublist nodes → ∀ name ∈ names, space ∉ name :=
    fun names hsub name hname => (hwords name (hsub.subset hname)).2
  have hvalid := (appKey_valid appname (by decide : dot ∉ capnodes) (by decide)).1
  obtain ⟨ret, db', hupdate, hheld⟩ := hlisted
  have hlen : appname.length ≤ 241 := by
    by_contra hlong
    rw [cscUpdateCapNodesForApp_long h hfree clock hlibs hnodes (by omega)] at hupdate
    cases hupdate
  have hne : nodes ≠ [] := by
    intro hnil
    rw [cscUpdateCapNodesForApp_none h hfree clock hlibs hnodes hlen hnil] at hupdate
    cases hupdate
  have hassign' := hassign
  rw [← tokens_names hwords] at hassign'
  obtain ⟨db₁, t', hspec, h', hfree', hlist', -⟩ :=
    cscUpdateCapNodesForApp_spec h hfree clock hlibs hnodes hlen hne hassign'
  rw [tokens_names hwords] at hlist'
  obtain rfl : db₁ = db' := (Prod.mk.inj (Except.ok.inj (hspec.symm.trans hupdate))).2
  refine ⟨hne, hlen, (capable_asked_iff nodes).mp ?_⟩
  apply HoldsNames.inj hfree' h' hvalid _ _ (hlist'.holdsNames h' hfree' hvalid) hheld
  · exact hspaces _ (List.filter_sublist.trans (List.takeWhile_sublist _))
  · exact hspaces _ List.filter_sublist

/-- The list holds every node that answers with 1 exactly if no such node comes behind one
whose request fails, there is a node at all, and the application's name fits the key. -/
theorem capNodesListed_iff (hreach : Reachable db) (hfree : db.locked = false) (clock : Nat → Int)
    (hlibs : valueFor .linear db (appKey appname lib) = .ok (some libs))
    (hnodes : aliveNames db = .ok nodes) (hwords : ∀ node ∈ nodes, node ≠ [] ∧ space ∉ node)
    (hassign : Assigned request libs nodes outcome) :
    CapNodesListed clock request appname nodes outcome db ↔
      nodes ≠ [] ∧ appname.length ≤ 241 ∧
        nodes.Pairwise fun m n => outcome m = -1 → outcome n ≠ 1 := by
  obtain ⟨t, h⟩ := hreach.holds
  have hvalid := (appKey_valid appname (by decide : dot ∉ capnodes) (by decide)).1
  constructor
  · exact CapNodesListed.complete h hfree hlibs hnodes hwords hassign
  · rintro ⟨hne, hlen, hpair⟩
    rw [← tokens_names hwords] at hassign
    obtain ⟨db', t', hspec, h', hfree', hlist', -⟩ :=
      cscUpdateCapNodesForApp_spec h hfree clock hlibs hnodes hlen hne hassign
    rw [tokens_names hwords, (capable_asked_iff nodes).mpr hpair] at hlist'
    exact ⟨0, db', hspec, hlist'.holdsNames h' hfree' hvalid⟩

end Listed

theorem run_nodes {calls : List Call} {key value : CStr} {names : List CStr}
    (hv : ∀ call ∈ calls, csdbIsValidKey call.key = true)
    (hall : (do
      let db ← csdbInit 0
      let (_, db) ← run .linear (fun _ => 0) 0 calls db
      let names ← aliveNames db
      let value ← valueFor .linear db key
      Except.ok (db.locked, names, value) : Exec (Bool × List CStr × Option CStr)) =
      .ok (false, names, some value)) :
    ∃ db, Reachable db ∧ db.locked = false ∧ aliveNames db = .ok names ∧
      valueFor .linear db key = .ok (some value) := by
  obtain ⟨db₀, hinit, hall⟩ := bind_eq_ok hall
  obtain ⟨⟨replies, db⟩, hrun, hall⟩ := bind_eq_ok hall
  obtain ⟨names', hnames, hall⟩ := bind_eq_ok hall
  obtain ⟨value', hvalue, hall⟩ := bind_eq_ok hall
  simp only [Except.ok.injEq, Prod.mk.injEq] at hall
  obtain ⟨hfree, rfl, rfl⟩ := hall
  exact ⟨db, (Reachable.init 0 db₀ hinit).run hv hrun, hfree, hnames, hvalue⟩

/-- The libraries of an application, and two nodes that are listed as `b` and `a`. -/
def twoAlive : List Call :=
  [.set (appKey (lit ['x']) lib) (some (lit ['l'])),
    .set (lit ['.', 'a', 'l', 'i', 'v', 'e', '.', 'a']) (some (lit ['1'])),
    .set (lit ['.', 'a', 'l', 'i', 'v', 'e', '.', 'b']) (some (lit ['1']))]

theorem twoAlive_nodes :
    ∃ db, Reachable db ∧ db.locked = false ∧ aliveNames db = .ok [lit ['b'], lit ['a']] ∧
      valueFor .linear db (appKey (lit ['x']) lib) = .ok (some (lit ['l'])) := by
  apply @run_nodes twoAlive
  · decide
  · decide

/-- There is a datagram that says 1. -/
theorem capRequestTo_answers :
    ∃ datagram, ∀ (resolves : CStr → Bool) (db : Database) (node : CStr),
      capRequestTo resolves (fun _ _ => .ok (.reply datagram)) db node (lit ['l']) =
        .ok (if resolves node then 1 else -1, db) := by
  obtain ⟨n, packet, after, -, -, hunpack⟩ :=
    @resp_received (List.replicate 6 0) (List.replicate maxline 0) List.length_replicate csRespSucc
      (lit ['1']) (by decide) (by decide)
  obtain ⟨m, request, hpack, -⟩ :=
    @capreq_received (List.replicate 7 0) (List.replicate maxline 0) List.length_replicate csCapexec
      (lit ['l']) (by decide) (by decide)
  refine ⟨packet.take n, fun resolves db node => ?_⟩
  have hlen : (lit ['l']).length + 6 = 7 := by decide
  cases hres : resolves node with
  | true =>
      simp only [capRequestTo, csDoCapRequestForNode, hres, hlen, hpack, ok_bind, hunpack]
      rfl
  | false => simp [capRequestTo, csDoCapRequestForNode, hres]

theorem capNodesListed_iff_two :
    ∃ db net, CapNodesListed (fun _ => 0) (capRequestTo (fun _ => true) net) (lit ['x'])
      [lit ['b'], lit ['a']] (fun _ => 1) db := by
  obtain ⟨db, hreach, hfree, hnodes, hlibs⟩ := twoAlive_nodes
  obtain ⟨datagram, hanswers⟩ := capRequestTo_answers
  have hassign : Assigned (capRequestTo (fun _ => true) fun _ _ => .ok (.reply datagram)) (lit ['l'])
      [lit ['b'], lit ['a']] (fun _ => 1) :=
    capRequestTo_assigned (by decide) fun node _ => ⟨db, db, hanswers (fun _ => true) db node⟩
  exact ⟨db, _, (capNodesListed_iff hreach hfree (fun _ => 0) hlibs hnodes (by decide) hassign).mpr
    ⟨by decide, by decide, by decide⟩⟩

/-- The name `b` does not resolve, so `a` is not asked. -/
theorem unresolved_node_hides_capable :
    ∃ db net, Reachable db ∧ db.locked = false ∧
      valueFor .linear db (appKey (lit ['x']) lib) = .ok (some (lit ['l'])) ∧
      aliveNames db = .ok [lit ['b'], lit ['a']] ∧
      Assigned (capRequestTo (· ≠ lit ['b']) net) (lit ['l']) [lit ['b'], lit ['a']]
        (fun node => if node ≠ lit ['b'] then 1 else -1) ∧
      ¬ CapNodesListed (fun _ => 0) (capRequestTo (· ≠ lit ['b']) net) (lit ['x'])
        [lit ['b'], lit ['a']] (fun node => if node ≠ lit ['b'] then 1 else -1) db := by
  obtain ⟨db, hreach, hfree, hnodes, hlibs⟩ := twoAlive_nodes
  obtain ⟨datagram, hanswers⟩ := capRequestTo_answers
  have hassign : Assigned (capRequestTo (· ≠ lit ['b']) fun _ _ => .ok (.reply datagram))
      (lit ['l']) [lit ['b'], lit ['a']] (fun node => if node ≠ lit ['b'] then 1 else -1) := by
    refine capRequestTo_assigned (by decide) fun node _ => ⟨db, db, ?_⟩
    rw [hanswers]
    simp
  obtain ⟨t, h⟩ := hreach.holds
  refine ⟨db, _, hreach, hfree, hlibs, hnodes, hassign, fun hlisted => ?_⟩
  have hpair := (hlisted.complete h hfree hlibs hnodes (by decide) hassign).2.2
  exact (List.pairwise_cons.mp hpair).1 (lit ['a']) (by decide) (by decide) (by decide)

end Dkmp.Csd
