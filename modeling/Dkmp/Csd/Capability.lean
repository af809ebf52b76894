import Dkmp.Csc.Libs
import Dkmp.Csdb.Mutex
import Dkmp.Csp.Packet

/-! # Capability requests

One daemon asks another whether it has the libraries an application needs. The
question and the answer are packets; the node asked looks the names up among the
libraries it has scanned.
-/

namespace Dkmp.Csd

open Machine Csdb Csp Csc

/-! ## The node that is asked -/

def capResponse (respPacket : Bytes) (ret : Int) : Exec (Nat × Bytes) :=
  if ret < 0 then cspPackRespPacket respPacket csRespNdata csRespErr none
  else if ret = 1 then cspPackRespPacket respPacket csRespWdata csRespSucc (some (lit ['1']))
  else if ret = 0 then cspPackRespPacket respPacket csRespWdata csRespSucc (some (lit ['0']))
  else .error .uninit

/-- The datagram sent back for the request at `p`; for another request type the length of
the response is never written. -/
def csProceedCapRequest (b : Search) (keySize : Nat) (db : Database) (respPacket packet : Bytes)
    (p : Nat) : Exec (Bytes × Database) := do
  let (reqType, reqData) ← capRequestData packet p
  if reqType = csCapexec then do
    let (ret, db) ← cscCapToExec b keySize db reqData
    let (respLen, resp) ← capResponse respPacket ret
    .ok (resp.take respLen, db)
  else .error .uninit

/-! ## The node that asks -/

inductive Delivery where
  | unsent
  | timeout
  | failed
  | reply (datagram : Bytes)

/-- The result of the request from the data of the response; a function without
`return` and a pointer that was never written have no value. -/
def capResult : Option CStr → Exec Int
  | some (c :: _) => if c.val = 48 then .ok 0 else if c.val = 49 then .ok 1 else .error .uninit
  | _ => .error .uninit

/-- `resolved` says whether `gethostbyname` knows the node, and `net` what becomes of the
request. -/
def csDoCapRequestForNode (b : Search) (db : Database) (resolved : Bool) (nodeName : CStr)
    (libs : Option CStr) (reqPacket respPacket : Bytes) (net : Bytes → Exec Delivery) :
    Exec (Int × Database) :=
  match resolved, libs with
  | true, some libs => do
      let (n, packet) ← cspPackCapreqPacket reqPacket csCapexec libs
      match ← net (packet.take n) with
      | .unsent => .ok (-1, db)
      | .timeout | .failed => do
          let (_, db) ← cscNodeNotAlive b db (some nodeName)
          .ok (-1, db)
      | .reply datagram => do
          let (_, _, respData, _) ← cspUnpackRespPacket (recvfrom respPacket datagram)
          let ret ← capResult respData
          .ok (ret, db)
  | _, _ => .ok (-1, db)

/-- A node with the database `db`: its receive array held `buf` and its response array
`resp`. -/
def capNode (b : Search) (keySize : Nat) (db : Database) (buf resp datagram : Bytes) :
    Exec Delivery := do
  let (answer, _) ← csProceedCapRequest b keySize db resp (recvfrom buf datagram) 2
  .ok (.reply answer)

/-! ## One question -/

variable {db : Database} {S : CStr → Prop}

def NoLibs (db : Database) : Prop :=
  ∀ name, name ≠ [] → dot ∉ name → csdbKeyExist .linear db (libKey name) = .ok (0, db)

theorem libDb_start {t : Tree} (h : Holds .linear db t) (hfree : db.locked = false)
    (hnone : NoLibs db) : LibDb db (fun _ => False) := by
  have habsent : ∀ name, name ≠ [] → ¬ (t.record [name, lib]).isSome := by
    intro name hne hsome
    have hdot : dot ∉ name := by
      rw [Tree.record_isSome] at hsome
      exact t.no_dot name _ hsome
    obtain ⟨L, hrep⟩ := h
    obtain ⟨hv, -, hpath⟩ := libKey_plain hne hdot
    have hexist := csdbKeyExist_spec hrep (bounded_linear t) hfree hv
    rw [hnone name hne hdot, hpath] at hexist
    simp [hsome] at hexist
  refine ⟨t, h, hfree, ?_, ?_⟩
  · intro name hne
    exact ⟨fun hs => habsent name hne hs, False.elim⟩
  · intro name r hne hr
    exact absurd (by rw [hr]; rfl) (habsent name hne)

theorem capResponse_received {resp respPacket : Bytes} (hresp : resp.length = cspMaxpacketSize)
    (hrespPacket : respPacket.length = maxline) (P : Prop) [Decidable P] :
    ∃ (n : Nat) (packet after : Bytes),
      capResponse resp (if P then 1 else 0) = .ok (n, packet) ∧
      cspUnpackRespPacket (recvfrom respPacket (packet.take n)) =
        .ok (csRespWdata, csRespSucc, some (if P then lit ['1'] else lit ['0']), after) := by
  have hsize : cspMaxpacketSize = 65535 := rfl
  by_cases hP : P
  · obtain ⟨n, packet, after, hpack, -, hunpack⟩ :=
      @resp_received resp respPacket hrespPacket csRespSucc (lit ['1'])
        (by rw [hresp, hsize]; decide) (by decide)
    refine ⟨n, packet, after, ?_, ?_⟩
    · rw [if_pos hP, ← hpack]
      rfl
    · rw [if_pos hP]
      exact hunpack
  · obtain ⟨n, packet, after, hpack, -, hunpack⟩ :=
      @resp_received resp respPacket hrespPacket csRespSucc (lit ['0'])
        (by rw [hresp, hsize]; decide) (by decide)
    refine ⟨n, packet, after, ?_, ?_⟩
    · rw [if_neg hP, ← hpack]
      rfl
    · rw [if_neg hP]
      exact hunpack

/-- A node with the libraries `S` is asked for `libs`. -/
theorem csDoCapRequestForNode_spec (h : LibDb db S) [DecidablePred S] {libs : CStr} {keySize : Nat}
    (hkey : libs.length + 6 ≤ keySize) (hlen : libs.length + 5 < maxline) (asker : Database)
    (nodeName : CStr) {req respPacket buf resp : Bytes} (hreq : libs.length + 5 ≤ req.length)
    (hrespPacket : respPacket.length = maxline) (hbuf : buf.length = maxline)
    (hresp : resp.length = cspMaxpacketSize) :
    csDoCapRequestForNode .linear asker true nodeName (some libs) req respPacket
        (capNode .linear keySize db buf resp) =
      .ok (if ∀ tok ∈ tokens capDelims libs, S (replacePoints tok) then 1 else 0, asker) := by
  obtain ⟨n, packet, hpack, -, hdata⟩ := capreq_received hbuf csCapexec hreq hlen
  obtain ⟨m, answer, after, hanswer, hunpack⟩ := capResponse_received hresp hrespPacket
    (∀ tok ∈ tokens capDelims libs, S (replacePoints tok))
  have hnode : capNode .linear keySize db buf resp (packet.take n) = .ok (.reply (answer.take m)) := by
    simp only [capNode, csProceedCapRequest, hdata, ok_bind, if_true, cscCapToExec_spec h hkey,
      hanswer]
  simp only [csDoCapRequestForNode, hpack, ok_bind, hnode, hunpack]
  split
  · rfl
  · rfl

open Classical in
/-- **Capability answers.** A listing is scanned into a database without libraries; then
every question for libraries is answered with 1 exactly when each name in the question is
listed, up to the dots. -/
theorem capability_answers (hreach : Reachable db) (hfree : db.locked = false) (hnone : NoLibs db)
    (clock : Nat → Int) {header : CStr} (hheader : tab ∉ header) {lines : List LibLine}
    (hlines : lines ≠ []) :
    ∃ db', cscScanLibs .linear clock (listing header lines) db = .ok (0, db') ∧
      ∀ (libs : CStr) (keySize : Nat) (asker : Database) (nodeName : CStr)
        (req respPacket buf resp : Bytes),
        libs.length + 5 < maxline → libs.length + 6 ≤ keySize → req.length = libs.length + 1 + 5 →
        respPacket.length = maxline → buf.length = maxline → resp.length = cspMaxpacketSize →
        csDoCapRequestForNode .linear asker true nodeName (some libs) req respPacket
            (capNode .linear keySize db' buf resp) =
          .ok (if ∀ tok ∈ tokens capDelims libs,
              ∃ l ∈ lines, replacePoints l.name = replacePoints tok then 1 else 0, asker) := by
  obtain ⟨t, h⟩ := hreach.holds
  obtain ⟨db', hscan, hdb'⟩ :=
    cscScanLibs_spec clock hheader hlines (libDb_start h hfree hnone)
  refine ⟨db', hscan, ?_⟩
  intro libs keySize asker nodeName req respPacket buf resp hlen hkey hreq hrespPacket hbuf hresp
  exact csDoCapRequestForNode_spec hdb' hkey hlen asker nodeName (by omega) hrespPacket hbuf hresp

def libcLine : LibLine where
  name := lit ['l', 'i', 'b', 'c', '.', 's', 'o', '.', '6']
  type := lit ['(', 'l', 'i', 'b', 'c', '6', ')']
  path := lit ['/', 'l', 'i', 'b']
  name_ne := by decide
  type_ne := by decide
  path_ne := by decide
  name_word := word_of_all rfl
  type_word := word_of_all rfl
  path_word := word_of_all rfl
  name_fits := by decide
  fits := by decide

def libmLine : LibLine where
  name := lit ['l', 'i', 'b', 'm', '.', 's', 'o', '.', '6']
  type := lit ['(', 'l', 'i', 'b', 'c', '6', ')']
  path := lit ['/', 'l', 'i', 'b']
  name_ne := by decide
  type_ne := by decide
  path_ne := by decide
  name_word := word_of_all rfl
  type_word := word_of_all rfl
  path_word := word_of_all rfl
  name_fits := by decide
  fits := by decide

theorem noLibs_init {now : Int} (h : Holds .linear db (Tree.init now)) (hfree : db.locked = false) :
    NoLibs db := by
  obtain ⟨L, hrep⟩ := h
  intro name hne hdot
  obtain ⟨hv, -, hpath⟩ := libKey_plain hne hdot
  rw [csdbKeyExist_spec hrep (bounded_linear _) hfree hv, hpath, Tree.init_record]
  rfl

/-- Two libraries that are listed, one of them in the other spelling, are found; one that is
not listed is missing, also beside one that is. -/
theorem capability_answers_twoLibs :
    ∃ db db', csdbInit 0 = .ok db ∧ NoLibs db ∧
      cscScanLibs .linear (fun _ => 0) (listing (lit ['2']) [libcLine, libmLine]) db = .ok (0, db') ∧
      csDoCapRequestForNode .linear db true (lit ['n'])
          (some (lit ['l', 'i', 'b', 'c', '_', 's', 'o', '.', '6', ' ', 'l', 'i', 'b', 'm', '.', 's', 'o', '.', '6']))
          (List.replicate 25 0) (List.replicate maxline 0)
          (capNode .linear 25 db' (List.replicate maxline 0) (List.replicate cspMaxpacketSize 0)) =
        .ok (1, db) ∧
      csDoCapRequestForNode .linear db true (lit ['n'])
          (some (lit ['l', 'i', 'b', 'm', '.', 's', 'o', '.', '6', ' ', 'm'])) (List.replicate 17 0)
          (List.replicate maxline 0)
          (capNode .linear 17 db' (List.replicate maxline 0) (List.replicate cspMaxpacketSize 0)) =
        .ok (0, db) := by
  obtain ⟨db, hinit, h, hfree⟩ := csdbInit_spec .linear 0
  have hnone := noLibs_init h hfree
  obtain ⟨db', hscan, hask⟩ := capability_answers (Reachable.init 0 db hinit) hfree hnone
    (fun _ => 0) (by decide : tab ∉ lit ['2']) (List.cons_ne_nil libcLine [libmLine])
  refine ⟨db, db', hinit, hnone, hscan, ?_, ?_⟩
  · rw [hask _ 25 db (lit ['n']) (List.replicate 25 0) _ _ _ (by decide) (by decide) (by decide)
      List.length_replicate List.length_replicate List.length_replicate, if_pos]
    intro tok htok
    have htoks : tokens capDelims (lit ['l', 'i', 'b', 'c', '_', 's', 'o', '.', '6', ' ', 'l', 'i', 'b', 'm', '.', 's', 'o',
        '.', '6']) = [lit ['l', 'i', 'b', 'c', '_', 's', 'o', '.', '6'], lit ['l', 'i', 'b', 'm', '.', 's', 'o', '.', '6']] := by
      decide
    rw [htoks, List.mem_cons, List.mem_singleton] at htok
    rcases htok with rfl | rfl
    · exact ⟨libcLine, List.mem_cons_self, by decide⟩
    · exact ⟨libmLine, List.mem_cons_of_mem _ List.mem_cons_self, rfl⟩
  · rw [hask _ 17 db (lit ['n']) (List.replicate 17 0) _ _ _ (by decide) (by decide) (by decide)
      List.length_replicate List.length_replicate List.length_replicate, if_neg]
    intro hall
    obtain ⟨l, hl, hname⟩ := hall (lit ['m']) (by decide)
    rw [List.mem_cons, List.mem_singleton] at hl
    rcases hl with rfl | rfl <;> exact absurd hname (by decide)

end Dkmp.Csd
