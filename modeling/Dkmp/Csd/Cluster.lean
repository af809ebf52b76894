import Dkmp.Csd.DefReq
import Dkmp.Csd.ReplySize
import Dkmp.Machine.Replica

/-! # A cluster of daemons

Every node runs a daemon with a database of its own. The daemon collects the load of
its node, sends it to all nodes in hello packets, and asks other nodes for the values of
single keys. Datagrams can be lost, doubled and delivered in any order. The threads of a
daemon interleave between two calls of the database.
-/

namespace Dkmp.Csd

open Machine Csdb Csp Csc

/-! ## Load figures -/

inductive Minutes where
  | one
  | five
  | fifteen
deriving DecidableEq

def Minutes.text : Minutes → List Char
  | .one => ['1']
  | .five => ['5']
  | .fifteen => ['1', '5']

def nodeLoadKey (hostname : CStr) (minutes : Minutes) : CStr :=
  dot :: (nodes ++ dot :: ((hostname ++ dot :: lit ['l', 'o', 'a', 'd']) ++
    dot :: lit (['a', 'v', 'g'] ++ minutes.text)))

/-- A load of a node: as the node itself keeps it, and as the others know it. -/
inductive Figure where
  | node (hostname : CStr) (minutes : Minutes)
  | alive (hostname : CStr) (minutes : Minutes)
deriving DecidableEq

def Figure.key : Figure → CStr
  | .node hostname minutes => nodeLoadKey hostname minutes
  | .alive hostname minutes => loadKey hostname minutes.text

def Figure.hostname : Figure → CStr
  | .node hostname _ => hostname
  | .alive hostname _ => hostname

def Figure.minutes : Figure → Minutes
  | .node _ minutes => minutes
  | .alive _ minutes => minutes

def Passes (f g : Figure) : Prop := ∃ hostname minutes, f = .node hostname minutes ∧ g = .alive hostname minutes

/-! ## The daemons and the network -/

/-- The hello thread in its round, with the values it has read. -/
inductive HelloPhase where
  | start
  | one (loadavg1 : Option CStr)
  | five (loadavg1 loadavg5 : Option CStr)
  | all (loadavg1 loadavg5 loadavg15 : Option CStr)

/-- The receiving thread between two datagrams, or in the loop over the fields of a hello
packet. -/
inductive Receiver where
  | waiting
  | hello (packet : Bytes) (len : Option Nat) (field : Int) (nodename : CStr)

/-- A database request that is under way, and the socket that waits for its answer. -/
structure Asking (ι : Type) where
  asker : ι
  asked : ι
  node : CStr
  req : CStr
deriving DecidableEq

/-- The datagrams are those that were ever sent. -/
structure Cluster (ι : Type) where
  db : ι → Database
  hello : ι → HelloPhase
  receiver : ι → Receiver
  hellos : List Bytes
  requests : List (Asking ι × Bytes)
  replies : List (Asking ι × Bytes)

inductive ClusterAction (ι : Type) where
  | call (i : ι) (call : Call) (now : Int)
  | hello (i : ι) (out : Bytes)
  | receive (i : ι) (datagram resp buf : Bytes) (clock : Nat → Int)
  | proceed (i : ι) (now : Int)
  | ask (q : Asking ι) (reqPacket behind : Bytes)
  | serve (q : Asking ι) (datagram resp buf : Bytes) (clock : Nat → Int)
  | answered (q : Asking ι) (datagram reqPacket behind resp : Bytes) (now : Int)

section Step

variable {ι : Type} [DecidableEq ι]

def Cluster.start (db : ι → Database) : Cluster ι := ⟨db, fun _ => .start, fun _ => .waiting, [], [], []⟩

def Cluster.setDb (s : Cluster ι) (i : ι) (db : Database) : Cluster ι :=
  { s with db := fun j => if j = i then db else s.db j }

def Cluster.setHello (s : Cluster ι) (i : ι) (phase : HelloPhase) : Cluster ι :=
  { s with hello := fun j => if j = i then phase else s.hello j }

def Cluster.setReceiver (s : Cluster ι) (i : ι) (receiver : Receiver) : Cluster ι :=
  { s with receiver := fun j => if j = i then receiver else s.receiver j }

/-- The hello thread reads one of its keys; what the call returns is not looked at. -/
def readLoad (hostname : CStr) (db : Database) (minutes : Minutes) : Exec (Option CStr × Database) := do
  let key ← sprintf ksize (nodeLoadKey hostname minutes)
  let (_, value, db) ← csdbGetValueForKey .linear db key
  .ok (value, db)

/-- The next step of `cs_send_hello_loop`. `out` is the packet array. -/
def helloStep (hostname : CStr) (s : Cluster ι) (i : ι) (out : Bytes) : Exec (Cluster ι) :=
  match s.hello i with
  | .start => do
      let (loadavg1, db) ← readLoad hostname (s.db i) .one
      .ok ((s.setDb i db).setHello i (.one loadavg1))
  | .one loadavg1 => do
      let (loadavg5, db) ← readLoad hostname (s.db i) .five
      .ok ((s.setDb i db).setHello i (.five loadavg1 loadavg5))
  | .five loadavg1 loadavg5 => do
      let (loadavg15, db) ← readLoad hostname (s.db i) .fifteen
      .ok ((s.setDb i db).setHello i (.all loadavg1 loadavg5 loadavg15))
  | .all loadavg1 loadavg5 loadavg15 => do
      let (n, packet) ← cspPackHelloPacket out hostname loadavg1 loadavg5 loadavg15
      let sent := if loadavg1.isSome ∧ loadavg5.isSome ∧ loadavg15.isSome then [packet.take n.toNat] else []
      .ok ({ s with hellos := s.hellos ++ sent }.setHello i .start)

/-- A datagram comes in: the fields of a hello packet are left to the steps that follow. -/
def receiveStep (s : Cluster ι) (i : ι) (datagram resp buf : Bytes) (clock : Nat → Int) : Exec (Cluster ι) := do
  let packet ← writeByte (recvfrom buf datagram) (min datagram.length maxline) 0
  let csVersion ← readByte packet 0
  let csType ← readByte packet 1
  if csVersion = csVer ∧ csType = csHello then .ok (s.setReceiver i (.hello packet (some 2) 0 []))
  else do
    let (_, db) ← csReceivePackets .linear clock resp buf datagram (s.db i)
    .ok (s.setDb i db)

/-- One iteration of the loop in `cs_proceed_hello`, which makes at most one call of the
database. -/
def proceedStep (s : Cluster ι) (i : ι) (now : Int) : Exec (Cluster ι) :=
  match s.receiver i with
  | .waiting => .error .blocked
  | .hello packet len field nodename => do
      match ← helloBody .linear (fun _ => now) packet ⟨len, field, nodename, s.db i⟩ with
      | .inl h => .ok ((s.setDb i h.db).setReceiver i (.hello packet h.len h.field h.nodename))
      | .inr db => .ok ((s.setDb i db).setReceiver i .waiting)

def Receiver.isWaiting : Receiver → Bool
  | .waiting => true
  | .hello _ _ _ _ => false

/-- A step of one thread of one daemon. An array has the size the source gives it; a
call of another thread names a valid key. -/
def clusterStep (hostname : ι → CStr) (s : Cluster ι) : ClusterAction ι → Exec (Cluster ι)
  | .call i call now =>
      if csdbIsValidKey call.key then do
        let (_, db) ← call.exec .linear now (s.db i)
        .ok (s.setDb i db)
      else .error .blocked
  | .hello i out =>
      if out.length = helloPacketSize then helloStep (hostname i) s i out else .error .blocked
  | .receive i datagram resp buf clock =>
      if datagram ∈ s.hellos ∧ buf.length = maxline ∧ (s.receiver i).isWaiting then
        receiveStep s i datagram resp buf clock
      else .error .blocked
  | .proceed i now => proceedStep s i now
  | .ask q reqPacket behind => do
      let key ← sprintf ksize (nodeReqKey q.node q.req)
      if reqPacket.length = key.length + 6 ∧ 3 ≤ behind.length then do
        let (n, packet) ← cspPackDbreqPacket reqPacket (some key) none csGet
        .ok { s with requests := s.requests ++ [(q, (packet ++ behind).take n.toNat)] }
      else .error .blocked
  | .serve q datagram resp buf clock =>
      if (q, datagram) ∈ s.requests ∧ resp.length = cspMaxpacketSize ∧ buf.length = maxline ∧
          (s.receiver q.asked).isWaiting then do
        let (reply, db) ← csReceivePackets .linear clock resp buf datagram (s.db q.asked)
        .ok { s.setDb q.asked db with replies := s.replies ++ (reply.map fun r => (q, r)).toList }
      else .error .blocked
  | .answered q datagram reqPacket behind resp now => do
      let key ← sprintf ksize (nodeReqKey q.node q.req)
      if (q, datagram) ∈ s.replies ∧ reqPacket.length = key.length + 6 ∧ resp.length = maxline then do
        let (_, db) ← csDoDbRequestForNode .linear (s.db q.asker) true q.node key reqPacket behind resp
          (fun _ => .ok (.reply datagram)) now
        .ok (s.setDb q.asker db)
      else .error .blocked

end Step

/-! ## Keys of figures -/

def avg (minutes : Minutes) : CStr := lit (['a', 'v', 'g'] ++ minutes.text)

theorem avg_inj {minutes minutes' : Minutes} (h : avg minutes = avg minutes') : minutes = minutes' := by
  cases minutes <;> cases minutes' <;> first | rfl | exact absurd h (by decide)

theorem loadavg_inj {minutes minutes' : Minutes} (h : loadavg minutes.text = loadavg minutes'.text) :
    minutes = minutes' := by
  cases minutes <;> cases minutes' <;> first | rfl | exact absurd h (by decide)

theorem nodeLoadKey_path (hostname : CStr) (minutes : Minutes) :
    csdbIsValidKey (nodeLoadKey hostname minutes) = true ∧
      keyPath (nodeLoadKey hostname minutes) =
        nodes :: ((hostname ++ dot :: lit ['l', 'o', 'a', 'd']).splitOn dot ++ [avg minutes]) := by
  refine nestedKey_valid _ nodes_no_dot ?_ ?_
  · cases minutes <;> decide
  · cases minutes <;> decide

theorem alive_path (hostname : CStr) (minutes : Minutes) :
    csdbIsValidKey (loadKey hostname minutes.text) = true ∧
      keyPath (loadKey hostname minutes.text) = loadPath hostname minutes.text := by
  cases minutes <;>
    exact ⟨loadKey_valid hostname (by decide) (by decide), keyPath_loadKey hostname (by decide) (by decide)⟩

theorem Figure.key_valid (f : Figure) : csdbIsValidKey f.key = true := by
  cases f with
  | node hostname minutes => exact (nodeLoadKey_path hostname minutes).1
  | alive hostname minutes => exact (alive_path hostname minutes).1

theorem split_snoc_inj {s s' last last' : CStr}
    (h : s.splitOn dot ++ [last] = s'.splitOn dot ++ [last']) : s = s' ∧ last = last' := by
  obtain ⟨hsplit, hlast⟩ := List.append_inj' h rfl
  have hjoin := congrArg (List.intercalate [dot]) hsplit
  rw [List.intercalate_splitOn, List.intercalate_splitOn] at hjoin
  exact ⟨hjoin, (List.cons.inj hlast).1⟩

/-- Different figures have different keys, whatever the nodes are called. -/
theorem Figure.key_inj {f g : Figure} (h : f.key = g.key) : f = g := by
  have hpath := congrArg keyPath h
  cases f with
  | node hostname minutes =>
      cases g with
      | node hostname' minutes' =>
          rw [Figure.key, Figure.key, (nodeLoadKey_path _ _).2, (nodeLoadKey_path _ _).2] at hpath
          obtain ⟨hsplit, hlast⟩ := split_snoc_inj (List.cons.inj hpath).2
          rw [List.append_cancel_right hsplit, avg_inj hlast]
      | alive hostname' minutes' =>
          rw [Figure.key, Figure.key, (nodeLoadKey_path _ _).2, (alive_path _ _).2] at hpath
          exact absurd (List.cons.inj hpath).1 (by decide)
  | alive hostname minutes =>
      cases g with
      | node hostname' minutes' =>
          rw [Figure.key, Figure.key, (nodeLoadKey_path _ _).2, (alive_path _ _).2] at hpath
          exact absurd (List.cons.inj hpath).1 (by decide)
      | alive hostname' minutes' =>
          rw [Figure.key, Figure.key, (alive_path _ _).2, (alive_path _ _).2] at hpath
          obtain ⟨hsplit, hlast⟩ := split_snoc_inj (List.cons.inj hpath).2
          rw [hsplit, loadavg_inj hlast]

/-! ## What a database holds for a key -/

/-- The value at a key, also while the mutex is taken. -/
def stored (db : Database) (key : CStr) : Option CStr :=
  match valueFor .linear { db with locked := false } key with
  | .ok value => value
  | .error _ => none

def leafText : Option Record → Option CStr
  | some ⟨true, value, _⟩ => value
  | _ => none

section Stored

variable {db db' : Database} {t t' : Tree} {key : CStr}

theorem stored_eq (h : Holds .linear db t) (hv : csdbIsValidKey key = true) :
    stored db key = leafText (t.record (keyPath key).reverse) := by
  have hfree : Holds .linear { db with locked := false } t := by
    obtain ⟨L, hrep⟩ := h
    exact ⟨L, hrep.setLocked false⟩
  rw [stored, valueFor_eq hfree (bounded_linear t) rfl hv]
  rcases t.record (keyPath key).reverse with _ | ⟨leaf, value, mtime⟩
  · rfl
  · cases leaf <;> cases value <;> rfl

theorem stored_value (hfree : db.locked = false) {value : Option CStr}
    (hvalue : valueFor .linear db key = .ok value) : stored db key = value := by
  obtain ⟨entries, strings, root, locked⟩ := db
  subst hfree
  rw [stored, hvalue]

theorem free_of_value (hv : csdbIsValidKey key = true) {value : Option CStr}
    (hvalue : valueFor .linear db key = .ok value) : db.locked = false := by
  by_contra hlocked
  rw [valueFor, csdbGetValueForKey, if_neg (not_not.mpr hv), lock_taken (by simpa using hlocked),
    error_bind] at hvalue
  cases hvalue

theorem leafText_set (value : Option CStr) (now : Int) (r : Record) :
    leafText (some (r.set value now)) = value := by
  cases value with
  | some v => rfl
  | none =>
      rw [Record.set]
      cases r.leaf <;> rfl

theorem leafText_setRecord {value : Option CStr} {now : Int} {target q : UpPath}
    {r : UpPath → Option Record} (hq : q ≠ target) :
    leafText (setRecord value now target r q) = leafText (r q) := by
  unfold setRecord
  rw [if_neg hq]
  split
  · cases r q <;> rfl
  · rfl

/-- Outside of some keys nothing comes in: each key keeps its value or loses it. -/
structure Within (db db' : Database) (P : CStr → Prop) : Prop where
  holds : ∃ t, Holds .linear db' t
  others : ∀ key, csdbIsValidKey key = true → ¬ P key →
    stored db' key = stored db key ∨ stored db' key = none

theorem Within.refl (h : Holds .linear db t) (P : CStr → Prop) : Within db db P where
  holds := ⟨t, h⟩
  others := fun _ _ _ => .inl rfl

theorem Within.of_records {P : CStr → Prop} (h : Holds .linear db t) (h' : Holds .linear db' t')
    (hrec : ∀ key, csdbIsValidKey key = true → ¬ P key →
      leafText (t'.record (keyPath key).reverse) = leafText (t.record (keyPath key).reverse) ∨
        leafText (t'.record (keyPath key).reverse) = none) : Within db db' P where
  holds := ⟨t', h'⟩
  others := by
    intro key hv hP
    rw [stored_eq h hv, stored_eq h' hv]
    exact hrec key hv hP

theorem reverse_keyPath_ne (hv : csdbIsValidKey key = true) {key' : CStr} (hv' : csdbIsValidKey key' = true)
    (hne : key' ≠ key) : (keyPath key').reverse ≠ (keyPath key).reverse :=
  fun he => hne (keyPath_inj hv' hv (List.reverse_injective he))

theorem set_within (h : Holds .linear db t) (hv : csdbIsValidKey key = true) {value : Option CStr}
    {now ret : Int} (hrun : csdbSetValueForKey .linear db key value now = .ok (ret, db')) :
    Within db db' (· = key) ∧ stored db' key = value := by
  obtain ⟨L, hrep⟩ := h
  rcases csdbSetValueForKey_cases ⟨L, hrep⟩ hv value now with ⟨hfree, -⟩ | ⟨-, hblocked⟩
  · obtain ⟨db₁, t₁, hset, h₁, -, hrec⟩ := csdbSetValueForKey_spec hrep (bounded_linear t) hfree hv value now
    rw [hrun, Except.ok.injEq, Prod.mk.injEq] at hset
    obtain ⟨-, rfl⟩ := hset
    refine ⟨.of_records ⟨L, hrep⟩ h₁ ?_, ?_⟩
    · intro key' hv' hne
      rw [hrec, leafText_setRecord (reverse_keyPath_ne hv hv' hne)]
      exact .inl rfl
    · rw [stored_eq h₁ hv, hrec, setRecord, if_pos rfl]
      exact leafText_set _ _ _
  · rw [hrun] at hblocked
    cases hblocked

theorem append_within (h : Holds .linear db t) (hfree : db.locked = false) (hv : csdbIsValidKey key = true)
    {value btwn : Option CStr} {now ret : Int}
    (hrun : csdbAppendValueForKey .linear db key value btwn now = .ok (ret, db')) :
    Within db db' (· = key) := by
  obtain ⟨L, hrep⟩ := h
  have hfind := hrep.finds (bounded_linear t) hv
  by_cases hcan : Appendable value (t.record (keyPath key).reverse)
  · obtain ⟨hvalue, r, hr, hleaf⟩ := hcan
    obtain ⟨v, rfl⟩ := Option.isSome_iff_exists.mp hvalue
    obtain ⟨db₁, t₁, happend, h₁, -, hrec⟩ := csdbAppendValueForKey_spec hrep hfind hfree v btwn now hr hleaf
    rw [hrun, Except.ok.injEq, Prod.mk.injEq] at happend
    obtain ⟨-, rfl⟩ := happend
    refine .of_records ⟨L, hrep⟩ h₁ ?_
    intro key' hv' hne
    rw [hrec, if_neg (reverse_keyPath_ne hv hv' hne)]
    exact .inl rfl
  · have hsame := csdbAppendValueForKey_fail hrep hfind hfree value btwn now hcan
    rw [hrun, Except.ok.injEq, Prod.mk.injEq] at hsame
    rw [hsame.2]
    exact .refl ⟨L, hrep⟩ _

/-- A removal gives no key a value. -/
theorem remove_within (h : Holds .linear db t) (hfree : db.locked = false) (hv : csdbIsValidKey key = true)
    {ret : Int} (hrun : csdbRemoveFromKey .linear db key = .ok (ret, db')) :
    Within db db' fun _ => False := by
  obtain ⟨L, hrep⟩ := h
  by_cases hroot : key = [dot]
  · rw [hroot, csdbRemoveFromKey_root, Except.ok.injEq, Prod.mk.injEq] at hrun
    rw [← hrun.2]
    exact .refl ⟨L, hrep⟩ _
  · obtain ⟨ret₁, db₁, t₁, hremove, h₁, -, hrec⟩ :=
      csdbRemoveFromKey_valid hrep (bounded_linear t) hfree hv hroot
    rw [hrun, Except.ok.injEq, Prod.mk.injEq] at hremove
    obtain ⟨-, rfl⟩ := hremove
    refine .of_records ⟨L, hrep⟩ h₁ ?_
    intro key' hv' _
    rw [hrec]
    split
    · exact .inr rfl
    · exact .inl rfl

theorem get_within (h : Holds .linear db t) {ret : Int} {value : Option CStr}
    (hrun : csdbGetValueForKey .linear db key = .ok (ret, value, db')) :
    Within db db' (fun _ => False) ∧ ∀ v, value = some v → stored db key = some v := by
  by_cases hv : csdbIsValidKey key = true
  · by_cases hfree : db.locked = false
    · obtain ⟨L, hrep⟩ := h
      rw [csdbGetValueForKey_spec hrep (bounded_linear t) hfree hv] at hrun
      have hlocked : Within db { db with locked := true } fun _ => False :=
        ⟨⟨t, L, hrep.setLocked true⟩, fun _ _ _ => .inl rfl⟩
      rw [stored_eq ⟨L, hrep⟩ hv]
      generalize t.record (keyPath key).reverse = r at hrun ⊢
      rcases r with _ | ⟨leaf, text, mtime⟩
      · cases hrun
        exact ⟨hlocked, nofun⟩
      · cases leaf with
        | false =>
            cases hrun
            exact ⟨hlocked, nofun⟩
        | true =>
            cases text with
            | none => cases hrun
            | some v =>
                cases hrun
                exact ⟨.refl ⟨L, hrep⟩ _, fun w hw => hw⟩
    · rw [csdbGetValueForKey, if_neg (not_not.mpr hv), lock_taken (by simpa using hfree), error_bind] at hrun
      cases hrun
  · rw [csdbGetValueForKey, if_pos hv] at hrun
    cases hrun
    exact ⟨.refl h _, nofun⟩

theorem exec_eq_ok {α : Type} {x : Exec (α × Database)} {f : α → Reply} {reply : Reply}
    (h : x.map (fun r => (f r.1, r.2)) = .ok (reply, db')) : ∃ a, x = .ok (a, db') := by
  cases x with
  | error e => cases h
  | ok r =>
      obtain ⟨a, db₁⟩ := r
      cases h
      exact ⟨a, rfl⟩

def Call.gives : Call → CStr → Prop
  | .set key _, key' => key' = key
  | .append key _ _, key' => key' = key
  | _, _ => False

theorem call_within (h : Holds .linear db t) {call : Call} (hv : csdbIsValidKey call.key = true) {now : Int}
    {reply : Reply} (hrun : call.exec .linear now db = .ok (reply, db')) :
    Within db db' (Call.gives call) := by
  by_cases hfree : db.locked = false
  · obtain ⟨L, hrep⟩ := h
    have hb := bounded_linear t
    have hsame : ∀ {reply' : Reply}, call.exec .linear now db = .ok (reply', db) →
        Within db db' (Call.gives call) := by
      intro reply' hok
      rw [hok, Except.ok.injEq, Prod.mk.injEq] at hrun
      rw [← hrun.2]
      exact .refl ⟨L, hrep⟩ _
    cases call with
    | getMtime key => exact hsame (map_of_ok _ (csdbGetMtimeForKey_spec hrep hb hfree hv))
    | keyExist key => exact hsame (map_of_ok _ (csdbKeyExist_spec hrep hb hfree hv))
    | remove key =>
        obtain ⟨ret, hok⟩ := exec_eq_ok hrun
        exact remove_within ⟨L, hrep⟩ hfree hv hok
    | dump key => exact hsame (map_of_ok _ (csdbDumpFromKey_spec hrep hb hfree hv))
    | getValue key =>
        simp only [Call.exec] at hrun
        cases hget : csdbGetValueForKey .linear db key with
        | error e =>
            rw [hget] at hrun
            cases hrun
        | ok r =>
            obtain ⟨ret, value, db₁⟩ := r
            rw [hget] at hrun
            cases hrun
            exact (get_within ⟨L, hrep⟩ hget).1
    | childNames key => exact hsame (map_of_ok _ (csdbGetChildNamesForKey_spec hrep hb hv))
    | append key value btwn =>
        obtain ⟨ret, hok⟩ := exec_eq_ok hrun
        exact append_within ⟨L, hrep⟩ hfree hv hok
    | set key value =>
        obtain ⟨ret, hok⟩ := exec_eq_ok hrun
        exact (set_within ⟨L, hrep⟩ hv hok).1
  · rw [exec_locked (by simpa using hfree) call hv now hrun]
    exact .refl h _

end Stored

end Dkmp.Csd
