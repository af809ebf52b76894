import Dkmp.Csd.Hello
import Dkmp.Machine.Trace

/-! # The set of alive nodes

Membership under `.alive` is written by hellos, erased by
`csc_node_not_alive`, and read in two ways: as the existence of one key and as the
list of child names. For nodes whose names have no dot, the two views agree after
every sequence of events.
-/

namespace Dkmp.Csd

open Machine Csdb Csp Csc

/-- A hello packet on its way: what the two arrays held before, the fields, and the times
at which the loads are set. -/
structure Hello where
  out : Bytes
  buf : Bytes
  node : CStr
  loadavg1 : CStr
  loadavg5 : CStr
  loadavg15 : CStr
  clock : Nat → Int

inductive Event where
  | hello (h : Hello)
  | notAlive (node : CStr)

def Event.node : Event → CStr
  | .hello h => h.node
  | .notAlive node => node

def Event.exec (db : Database) : Event → Exec Database
  | .hello h => do
      let (n, packet) ←
        cspPackHelloPacket h.out h.node (some h.loadavg1) (some h.loadavg5) (some h.loadavg15)
      let (_, db) ← csProceedHello .linear h.clock (recvfrom h.buf (packet.take n.toNat)) 2 db
      .ok db
  | .notAlive node => do
      let (_, db) ← cscNodeNotAlive .linear db (some node)
      .ok db

def aliveRoot : CStr := dot :: alive

/-- The names the two callers of `csdb_get_child_names_for_key(".alive")` work with: none
when the call fails. -/
def aliveNames (db : Database) : Exec (List CStr) := do
  let (_, out) ← csdbGetChildNamesForKey .linear db aliveRoot
  match out with
  | none => .ok []
  | some (names, _) => .ok names

def LastHello (events : List Event) (node : CStr) : Prop :=
  ∃ pre h post, events = pre ++ .hello h :: post ∧ h.node = node ∧ ∀ e ∈ post, e.node ≠ node

structure PlainName (node : CStr) : Prop where
  ne_nil : node ≠ []
  length : node.length ≤ 126
  no_dot : dot ∉ node

structure Hello.Fits (h : Hello) : Prop where
  out : h.out.length = helloPacketSize
  buf : h.buf.length = maxline
  node : h.node.length ≤ 126
  loadavg1 : h.loadavg1.length ≤ 126
  loadavg5 : h.loadavg5.length ≤ 126
  loadavg15 : h.loadavg15.length ≤ 126

structure Event.Plain (e : Event) : Prop where
  name : PlainName e.node
  fits : ∀ h, e = .hello h → h.Fits

/-! ## Histories -/

theorem lastHello_nil (node : CStr) : ¬ LastHello [] node := by
  rintro ⟨pre, h, post, he, -⟩
  simp at he

theorem split_snoc {α : Type} {l pre post : List α} {a b : α} (h : l ++ [a] = pre ++ b :: post) :
    (post = [] ∧ b = a) ∨ ∃ post', post = post' ++ [a] ∧ l = pre ++ b :: post' := by
  cases List.eq_nil_or_concat post with
  | inl hnil =>
      subst hnil
      have hlast := (List.append_inj' h rfl).2
      exact Or.inl ⟨rfl, (List.cons.inj hlast).1.symm⟩
  | inr hsnoc =>
      obtain ⟨post', c, rfl⟩ := hsnoc
      rw [List.concat_eq_append, ← List.cons_append, ← List.append_assoc] at h
      obtain ⟨hinit, hlast⟩ := List.append_inj' h rfl
      rw [(List.cons.inj hlast).1]
      exact Or.inr ⟨post', List.concat_eq_append, hinit⟩

theorem lastHello_hello (events : List Event) (h : Hello) (node : CStr) :
    LastHello (events ++ [.hello h]) node ↔ node = h.node ∨ LastHello events node := by
  constructor
  · rintro ⟨pre, h', post, he, rfl, hpost⟩
    rcases split_snoc he with ⟨-, hlast⟩ | ⟨post', rfl, hinit⟩
    · exact Or.inl (by rw [Event.hello.inj hlast])
    · exact Or.inr ⟨pre, h', post', hinit, rfl, fun e he => hpost e (by simp [he])⟩
  · rintro (rfl | ⟨pre, h', post, rfl, rfl, hpost⟩)
    · exact ⟨events, h, [], rfl, rfl, by simp⟩
    · by_cases hn : h.node = h'.node
      · exact ⟨_, h, [], rfl, hn, by simp⟩
      · refine ⟨pre, h', post ++ [.hello h], by simp, rfl, ?_⟩
        intro e he
        rcases List.mem_append.mp he with he | he
        · exact hpost e he
        · rw [List.mem_singleton.mp he]
          exact hn

theorem lastHello_notAlive (events : List Event) (gone node : CStr) :
    LastHello (events ++ [.notAlive gone]) node ↔ node ≠ gone ∧ LastHello events node := by
  constructor
  · rintro ⟨pre, h', post, he, rfl, hpost⟩
    rcases split_snoc he with ⟨-, hlast⟩ | ⟨post', rfl, hinit⟩
    · cases hlast
    · exact ⟨fun hn => hpost (.notAlive gone) (by simp) hn.symm, pre, h', post', hinit, rfl,
        fun e he => hpost e (by simp [he])⟩
  · rintro ⟨hne, pre, h', post, rfl, rfl, hpost⟩
    refine ⟨pre, h', post ++ [.notAlive gone], by simp, rfl, ?_⟩
    intro e he
    rcases List.mem_append.mp he with he | he
    · exact hpost e he
    · rw [List.mem_singleton.mp he]
      exact Ne.symm hne

/-! ## The entries under `.alive` -/

/-- The nodes with an entry under `.alive` are those of `S`, and `.alive` is no leaf. -/
structure AliveTree (t : Tree) (S : CStr → Prop) : Prop where
  mem : ∀ node, (t.record [node, alive]).isSome ↔ S node
  inner : ∀ r, t.record [alive] = some r → r.leaf = false

variable {db : Database} {t t' : Tree} {S : CStr → Prop}

theorem loadPath_plain {node : CStr} (hdot : dot ∉ node) (minutes : List Char) :
    (loadPath node minutes).reverse = [loadavg minutes, node, alive] := by
  rw [loadPath, List.splitOn_eq_singleton hdot]
  rfl

theorem suffix_load_iff {node name : CStr} {load : CStr} :
    [name, alive] <:+ [load, node, alive] ↔ name = node := by
  rw [List.suffix_cons_iff, suffix_pair_iff]
  simp

theorem AliveTree.hello (h : AliveTree t S) {node loadavg1 loadavg5 loadavg15 : CStr}
    (hdot : dot ∉ node) (clock : Nat → Int)
    (hrec : ∀ q, t'.record q = helloRecord node loadavg1 loadavg5 loadavg15 clock t.record q) :
    AliveTree t' (fun n => n = node ∨ S n) where
  mem := by
    intro n
    rw [hrec, helloRecord, setRecord_isSome, setRecord_isSome, setRecord_isSome, h.mem,
      loadPath_plain hdot, loadPath_plain hdot, loadPath_plain hdot, suffix_load_iff,
      suffix_load_iff, suffix_load_iff]
    tauto
  inner := by
    have hne : ∀ minutes, ([alive] : UpPath) ≠ (loadPath node minutes).reverse := by
      intro minutes he
      rw [loadPath_plain hdot] at he
      simp at he
    intro r hr
    rw [hrec] at hr
    exact setRecord_leaf (hne _) (setRecord_leaf (hne _) (setRecord_leaf (hne _) h.inner)) r hr

theorem AliveTree.prune (h : AliveTree t S) (node : CStr) :
    AliveTree (t.prune node [alive]) (fun n => n ≠ node ∧ S n) where
  mem := by
    intro n
    rw [Tree.prune_record, ← h.mem]
    by_cases hn : n = node
    · subst hn
      simp
    · have hs : ¬ [node, alive] <:+ [n, alive] := by
        intro hs
        exact hn (List.cons.inj (hs.eq_of_length rfl)).1.symm
      simp [hs, hn]
  inner := by
    intro r hr
    rw [Tree.prune_record] at hr
    split at hr
    · cases hr
    · exact h.inner r hr

def AliveDb (db : Database) (S : CStr → Prop) : Prop :=
  ∃ t, Holds .linear db t ∧ db.locked = false ∧ AliveTree t S

theorem aliveKey_plain {node : CStr} (h : PlainName node) :
    csdbIsValidKey (aliveKey node) = true ∧ aliveKey node ≠ [dot] ∧
      keyPath (aliveKey node) = [alive, node] :=
  pairKey_valid alive_no_dot h.no_dot h.ne_nil

theorem hello_exec (h : Holds .linear db t) (hfree : db.locked = false) {m : Hello} (hm : m.Fits) :
    ∃ db' t', Event.exec db (.hello m) = .ok db' ∧ Holds .linear db' t' ∧ db'.locked = false ∧
      ∀ q, t'.record q =
        helloRecord m.node m.loadavg1 m.loadavg5 m.loadavg15 m.clock t.record q := by
  obtain ⟨n, packet, rest, hpack, hrecv⟩ :=
    hello_received hm.node hm.loadavg1 hm.loadavg5 hm.loadavg15 hm.out hm.buf
  obtain ⟨db', t', hproceed, -, hholds', hfree', hrec, -⟩ :=
    csProceedHello_spec hm.node hm.loadavg1 hm.loadavg5 hm.loadavg15 h hfree m.clock rest
  refine ⟨db', t', ?_, hholds', hfree', hrec⟩
  simp only [Event.exec, hpack, ok_bind, Int.toNat_natCast, hrecv, hproceed]

theorem hello_step (h : AliveDb db S) {m : Hello} (hplain : (Event.hello m).Plain) :
    ∃ db', Event.exec db (.hello m) = .ok db' ∧ AliveDb db' (fun n => n = m.node ∨ S n) := by
  obtain ⟨t, hholds, hfree, htree⟩ := h
  obtain ⟨db', t', hexec, hholds', hfree', hrec⟩ := hello_exec hholds hfree (hplain.fits m rfl)
  exact ⟨db', hexec, t', hholds', hfree', htree.hello hplain.name.no_dot m.clock hrec⟩

theorem notAlive_step (h : AliveDb db S) {node : CStr} (hname : PlainName node) :
    ∃ db', Event.exec db (.notAlive node) = .ok db' ∧ AliveDb db' (fun n => n ≠ node ∧ S n) := by
  obtain ⟨t, ⟨L, hrep⟩, hfree, htree⟩ := h
  obtain ⟨hv, hroot, hpath⟩ := aliveKey_plain hname
  have hlen := hname.length
  have hkey := aliveKey_fits (show node.length ≤ 248 by omega)
  have hb := bounded_linear t
  have hrev : (keyPath (aliveKey node)).reverse = [node, alive] := by rw [hpath]; rfl
  cases hr : t.record [node, alive] with
  | none =>
      have hremove := csdbRemoveFromKey_absent hrep (hrep.finds hb hv) hfree hroot (by rw [hrev]; exact hr)
      refine ⟨db, ?_, t, ⟨L, hrep⟩, hfree, ?_, htree.inner⟩
      · simp only [Event.exec, cscNodeNotAlive, hkey, hremove, ok_bind]
      · intro n
        have hgone : ¬ S node := fun hs => by
          have := (htree.mem node).mpr hs
          simp [hr] at this
        rw [htree.mem]
        exact ⟨fun hs => ⟨fun he => hgone (he ▸ hs), hs⟩, fun hs => hs.2⟩
  | some r =>
      have hsome : (t.record (node :: [alive])).isSome := by
        rw [hr]
        rfl
      obtain ⟨db', hremove, hholds', hfree'⟩ :=
        csdbRemoveFromKey_spec hrep (hrep.finds hb hv) hfree hroot hrev hsome
      refine ⟨db', ?_, _, hholds', hfree', htree.prune node⟩
      simp only [Event.exec, cscNodeNotAlive, hkey, hremove, ok_bind]

/-- Every run of plain events succeeds and keeps the tree of alive nodes. -/
theorem events_keep (h : AliveDb db (fun _ => False)) (events : List Event)
    (hplain : ∀ e ∈ events, e.Plain) :
    ∃ db', steps Event.exec events db = .ok db' ∧ AliveDb db' (LastHello events) := by
  induction events using List.reverseRecOn with
  | nil =>
      obtain ⟨t, hholds, hfree, hmem, hinner⟩ := h
      refine ⟨db, rfl, t, hholds, hfree, ?_, hinner⟩
      intro node
      rw [hmem]
      exact ⟨False.elim, lastHello_nil node⟩
  | append_singleton events e ih =>
      obtain ⟨db₁, hrun, h₁⟩ := ih (fun e he => hplain e (by simp [he]))
      have hlast := hplain e (by simp)
      have hsteps : ∀ db', Event.exec db₁ e = .ok db' →
          steps Event.exec (events ++ [e]) db = .ok db' := by
        intro db' hexec
        rw [steps_append, hrun, ok_bind, steps, hexec, ok_bind, steps]
      cases e with
      | hello m =>
          obtain ⟨db', hexec, t, hholds, hfree, htree⟩ := hello_step h₁ hlast
          refine ⟨db', hsteps db' hexec, t, hholds, hfree, ?_, htree.inner⟩
          intro node
          rw [lastHello_hello]
          exact htree.mem node
      | notAlive gone =>
          obtain ⟨db', hexec, t, hholds, hfree, htree⟩ := notAlive_step h₁ hlast.name
          refine ⟨db', hsteps db' hexec, t, hholds, hfree, ?_, htree.inner⟩
          intro node
          rw [lastHello_notAlive]
          exact htree.mem node

/-! ## The two views -/

theorem aliveRoot_valid : csdbIsValidKey aliveRoot = true := by decide

theorem keyPath_aliveRoot : (keyPath aliveRoot).reverse = [alive] := by decide

/-- The list of the children is the set. -/
theorem aliveNames_spec (h : AliveDb db S) :
    ∃ names, aliveNames db = .ok names ∧ names.Nodup ∧ ∀ node, node ∈ names ↔ S node := by
  obtain ⟨t, ⟨L, hrep⟩, -, hmem, hinner⟩ := h
  have hspec := csdbGetChildNamesForKey_spec hrep (bounded_linear t) aliveRoot_valid
  rw [keyPath_aliveRoot] at hspec
  simp only [aliveNames, hspec, ok_bind]
  cases hn : t.node [alive] with
  | none =>
      refine ⟨[], rfl, List.nodup_nil, ?_⟩
      intro node
      rw [← hmem, Tree.record_isSome]
      constructor
      · intro hin
        simp at hin
      · intro hin
        have hparent := t.parent_isSome hin
        simp [hn] at hparent
  | some d =>
      have hleaf : d.leaf = false := hinner d.toRecord (by simp [Tree.record, hn])
      have hkids : ∀ node, node ∈ d.kids ↔ S node := by
        intro node
        rw [← hmem, Tree.record_isSome]
        exact t.mem_kids_iff hn
      refine ⟨d.kids, ?_, t.nodup _ d hn, hkids⟩
      by_cases hnil : d.kids = []
      · simp [namesReply, hnil]
      · simp [namesReply, hleaf, hnil]

theorem cscNodeIsAlive_iff (h : AliveDb db S) [DecidablePred S] {node : CStr}
    (hname : PlainName node) :
    cscNodeIsAlive .linear db node = .ok (if S node then 1 else 0, db) := by
  obtain ⟨t, ⟨L, hrep⟩, hfree, hmem, -⟩ := h
  have hlen := hname.length
  rw [cscNodeIsAlive_spec hrep hfree (by omega), nodePath_plain hname.ne_nil hname.no_dot]
  simp only [List.reverse_cons, List.reverse_nil, List.nil_append, List.singleton_append, hmem]

structure NothingAlive (db : Database) : Prop where
  names : csdbGetChildNamesForKey .linear db aliveRoot = .ok (-1, none)
  value : valueFor .linear db aliveRoot = .ok none

theorem aliveDb_start (h : Holds .linear db t) (hfree : db.locked = false) (hnone : NothingAlive db) :
    AliveDb db (fun _ => False) := by
  obtain ⟨L, hrep⟩ := id h
  have hspec := csdbGetChildNamesForKey_spec hrep (bounded_linear t) aliveRoot_valid
  have hvalue := valueFor_eq h (bounded_linear t) hfree aliveRoot_valid
  rw [keyPath_aliveRoot] at hspec hvalue
  rw [hnone.names, Except.ok.injEq] at hspec
  rw [hnone.value] at hvalue
  have hinner : ∀ r, t.record [alive] = some r → r.leaf = false := by
    intro r hr
    rw [hr] at hvalue
    obtain ⟨leaf, value, mtime⟩ := r
    cases leaf with
    | false => rfl
    | true => cases value <;> simp [recordValue] at hvalue
  refine ⟨t, h, hfree, ?_, hinner⟩
  intro node
  rw [Tree.record_isSome]
  constructor
  · intro hsome
    obtain ⟨d, hd⟩ := Option.isSome_iff_exists.mp (t.parent_isSome hsome)
    have hleaf : d.leaf = false := hinner d.toRecord (by simp [Tree.record, hd])
    have hmem := (t.mem_kids_iff hd).mpr hsome
    have hkids : d.kids ≠ [] := List.ne_nil_of_mem hmem
    simp [namesReply, hd, hleaf, hkids] at hspec
  · exact False.elim

open Classical in
/-- **The alive set.** From a database with nothing under `.alive`, after any sequence of
hellos and removals of nodes whose names have no dot, the child names of `.alive` are
the nodes whose last event is a hello, and `csc_node_is_alive` says the same. -/
theorem alive_set (hreach : Reachable db) (hfree : db.locked = false) (hnone : NothingAlive db)
    (events : List Event) (hplain : ∀ e ∈ events, e.Plain) :
    ∃ db', steps Event.exec events db = .ok db' ∧
      (∃ names, aliveNames db' = .ok names ∧ names.Nodup ∧
        ∀ node, node ∈ names ↔ LastHello events node) ∧
      ∀ node, PlainName node →
        cscNodeIsAlive .linear db' node = .ok (if LastHello events node then 1 else 0, db') := by
  obtain ⟨t, h⟩ := hreach.holds
  obtain ⟨db', hrun, hdb⟩ := events_keep (aliveDb_start h hfree hnone) events hplain
  exact ⟨db', hrun, aliveNames_spec hdb, fun node hname => cscNodeIsAlive_iff hdb hname⟩

theorem nothingAlive_init {now : Int} (h : Holds .linear db (Tree.init now))
    (hfree : db.locked = false) : NothingAlive db := by
  obtain ⟨L, hrep⟩ := id h
  have hnode : (Tree.init now).node [alive] = none := by simp [Tree.init]
  constructor
  · rw [csdbGetChildNamesForKey_spec hrep (bounded_linear _) aliveRoot_valid, keyPath_aliveRoot,
      hnode]
    rfl
  · rw [valueFor_eq h (bounded_linear _) hfree aliveRoot_valid, keyPath_aliveRoot, Tree.record, hnode]
    rfl

def shortHello (node : CStr) : Hello :=
  ⟨List.replicate helloPacketSize 0, List.replicate maxline 0, node, lit ['1'], lit ['2'],
    lit ['3'], fun _ => 0⟩

theorem shortHello_fits {node : CStr} (h : node.length ≤ 126) : (shortHello node).Fits where
  out := List.length_replicate
  buf := List.length_replicate
  node := h
  loadavg1 := (by decide : (lit ['1']).length ≤ 126)
  loadavg5 := (by decide : (lit ['2']).length ≤ 126)
  loadavg15 := (by decide : (lit ['3']).length ≤ 126)

theorem shortHello_plain {node : CStr} (h : PlainName node) :
    (Event.hello (shortHello node)).Plain where
  name := h
  fits := by
    intro m hm
    rw [← Event.hello.inj hm]
    exact shortHello_fits h.length

theorem alive_set_two :
    ∃ db db' names, csdbInit 0 = .ok db ∧
      steps Event.exec [.hello (shortHello (lit ['a'])), .hello (shortHello (lit ['b'])),
        .notAlive (lit ['a'])] db = .ok db' ∧
      aliveNames db' = .ok names ∧ lit ['b'] ∈ names ∧ lit ['a'] ∉ names := by
  obtain ⟨db, hinit, h, hfree⟩ := csdbInit_spec .linear 0
  have ha : PlainName (lit ['a']) := ⟨by decide, by decide, by decide⟩
  have hb : PlainName (lit ['b']) := ⟨by decide, by decide, by decide⟩
  obtain ⟨db', hrun, ⟨names, hnames, -, hmem⟩, -⟩ := alive_set (Reachable.init 0 db hinit) hfree
    (nothingAlive_init h hfree)
    [.hello (shortHello (lit ['a'])), .hello (shortHello (lit ['b'])), .notAlive (lit ['a'])] (by
      intro e he
      simp only [List.mem_cons, List.not_mem_nil, or_false] at he
      rcases he with rfl | rfl | rfl
      · exact shortHello_plain ha
      · exact shortHello_plain hb
      · exact ⟨ha, fun m hm => by cases hm⟩)
  refine ⟨db, db', names, hinit, hrun, hnames, (hmem _).mpr ?_, fun hin => ?_⟩
  · refine ⟨[.hello (shortHello (lit ['a']))], shortHello (lit ['b']), [.notAlive (lit ['a'])], rfl,
      rfl, ?_⟩
    intro e he
    rw [List.mem_singleton.mp he]
    show lit ['a'] ≠ lit ['b']
    decide
  · exact ((lastHello_notAlive [.hello (shortHello (lit ['a'])), .hello (shortHello (lit ['b']))]
      (lit ['a']) (lit ['a'])).mp ((hmem _).mp hin)).1 rfl

/-- A part of a key has no dot, so neither has a child name. -/
theorem aliveNames_no_dot (h : Holds .linear db t) :
    ∃ names, aliveNames db = .ok names ∧ ∀ node ∈ names, dot ∉ node := by
  obtain ⟨L, hrep⟩ := h
  have hspec := csdbGetChildNamesForKey_spec hrep (bounded_linear t) aliveRoot_valid
  rw [keyPath_aliveRoot] at hspec
  simp only [aliveNames, hspec, ok_bind]
  cases hn : t.node [alive] with
  | none => exact ⟨[], rfl, by simp⟩
  | some d =>
      by_cases hcond : d.leaf = true ∨ d.kids = []
      · exact ⟨[], by simp [namesReply, hcond], by simp⟩
      · refine ⟨d.kids, by simp [namesReply, hcond], ?_⟩
        exact fun node hnode => t.no_dot node _ (t.kid_isSome hn hnode)

theorem listed_no_dot (h : Holds .linear db t) {names : List CStr}
    (hnames : aliveNames db = .ok names) : ∀ node ∈ names, dot ∉ node := by
  obtain ⟨names', hnames', hdot⟩ := aliveNames_no_dot h
  obtain rfl : names' = names := Except.ok.inj (hnames'.symm.trans hnames)
  exact hdot

/-- A node whose name has a dot says hello and is not in the list. -/
theorem dotted_node_not_listed :
    ∃ db db' names, csdbInit 0 = .ok db ∧ NothingAlive db ∧
      steps Event.exec [.hello (shortHello (lit ['a', '.', 'b']))] db = .ok db' ∧
      aliveNames db' = .ok names ∧
      LastHello [.hello (shortHello (lit ['a', '.', 'b']))] (lit ['a', '.', 'b']) ∧
      lit ['a', '.', 'b'] ∉ names := by
  obtain ⟨db, hinit, h, hfree⟩ := csdbInit_spec .linear 0
  obtain ⟨db', t', hexec, hholds', -⟩ :=
    hello_exec h hfree (@shortHello_fits (lit ['a', '.', 'b']) (by decide))
  obtain ⟨names, hnames, hdot⟩ := aliveNames_no_dot hholds'
  refine ⟨db, db', names, hinit, nothingAlive_init h hfree, ?_, hnames, ?_, ?_⟩
  · rw [steps, hexec, ok_bind, steps]
  · exact ⟨[], _, [], rfl, rfl, by simp⟩
  · exact fun hin => hdot _ hin (by decide)

end Dkmp.Csd
