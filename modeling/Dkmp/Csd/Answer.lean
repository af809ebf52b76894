import Dkmp.Csd.Bounds
import Dkmp.Csd.Capability

/-! # Answering requests

A datagram that is a request or a capability request asks for one operation on the
database, and the sender waits for the response. The response is packed inside nested
branches; where none of them is taken, neither its bytes nor its length are written and
both are sent nevertheless.
-/

namespace Dkmp.Csd

open Machine Csdb Csp Csc

/-! ## The node that is asked -/

/-- The branches of `cs_proceed_db_request`: the length of the response and the array it
is packed into. -/
def dbResponse (b : Search) (now : Int) (db : Database) (responsePacket : Bytes) (reqType : UInt8)
    (key : CStr) (value : Option CStr) : Exec ((Nat × Bytes) × Database) :=
  if csdbIsValidKey key then
    if reqType = csSet then
      match value with
      | none => .error .null
      | some [] => do
          let response ← cspPackRespPacket responsePacket csRespNdata csRespErr none
          .ok (response, db)
      | some (c :: value) => do
          let (_, db) ← csdbSetValueForKey b db key (some (c :: value)) now
          let response ← cspPackRespPacket responsePacket csRespNdata csRespSucc none
          .ok (response, db)
    else if reqType = csGet then do
      let (err, value, db) ← csdbGetValueForKey b db key
      let response ←
        if 0 ≤ err then cspPackRespPacket responsePacket csRespWdata csRespSucc value
        else cspPackRespPacket responsePacket csRespNdata csRespErr none
      .ok (response, db)
    else if reqType = csDel then do
      let (err, db) ← csdbRemoveFromKey b db key
      let response ←
        if err < 0 then cspPackRespPacket responsePacket csRespNdata csRespErr none
        else cspPackRespPacket responsePacket csRespNdata csRespSucc none
      .ok (response, db)
    else if reqType = csLs then do
      let (ret, names) ← csdbGetChildNamesForKey b db key
      let response ←
        if ret ≤ 0 then cspPackRespPacket responsePacket csRespNdata csRespErr none
        else cspPackRespPacket responsePacket csRespWdata csRespSucc (names.map Prod.snd)
      .ok (response, db)
    else .error .uninit
  else .error .uninit

def csProceedDbRequest (b : Search) (now : Int) (db : Database) (responsePacket packet : Bytes)
    (p : Nat) : Exec (Bytes × Database) := do
  let reqType ← readByte packet p
  let (key, value, _) ← cspUnpackDbreqRequest packet (p + 1) reqType
  let ((respLen, response), db) ← dbResponse b now db responsePacket reqType key value
  .ok (response.take respLen, db)

def capKeySize (libs : CStr) : Nat := libs.length + 1

/-- One iteration of `cs_receive_packets`: the response it sends, if it sends one. `buf`
is what the receive array held before, `respPacket` what the array for the response did. -/
def csReceivePackets (b : Search) (clock : Nat → Int) (respPacket buf datagram : Bytes)
    (db : Database) : Exec (Option Bytes × Database) := do
  let packet ← writeByte (recvfrom buf datagram) (min datagram.length maxline) 0
  let csVersion ← readByte packet 0
  let csType ← readByte packet 1
  if csVersion ≠ csVer then .ok (none, db)
  else if csType = csHello then do
    let (_, db) ← csProceedHello b clock packet 2 db
    .ok (none, db)
  else if csType = csReq then do
    let (response, db) ← csProceedDbRequest b (clock 0) db respPacket packet 2
    .ok (some response, db)
  else if csType = csCap then do
    let (_, libs) ← capRequestData packet 2
    let (response, db) ← csProceedCapRequest b (capKeySize libs) db respPacket packet 2
    .ok (some response, db)
  else .ok (none, db)

/-! ## Requests and their answers -/

inductive Request where
  | db (type : UInt8) (key : CStr) (value : Option CStr)
  | cap (type : UInt8) (libs : CStr)

def requestOf (buf datagram : Bytes) : Exec Request := do
  let packet ← writeByte (recvfrom buf datagram) (min datagram.length maxline) 0
  let csType ← readByte packet 1
  if csType = csReq then do
    let reqType ← readByte packet 2
    let (key, value, _) ← cspUnpackDbreqRequest packet 3 reqType
    .ok (.db reqType key value)
  else do
    let (reqType, libs) ← capRequestData packet 2
    .ok (.cap reqType libs)

inductive Answer where
  | failed
  | done
  | data (text : CStr)

def Answer.bytes : Answer → Bytes
  | .failed => [1, csRespNdata, csRespErr]
  | .done => [1, csRespNdata, csRespSucc]
  | .data text => [1, csRespWdata, csRespSucc] ++ field text

def Answer.ofText : Option CStr → Exec Answer
  | none => .error .null
  | some text => .ok (.data text)

/-- The operation a request asks for. A key that is not valid, a type that is not known
and an operation that fails have the same answer. -/
def Request.perform (b : Search) (now : Int) (db : Database) : Request → Exec (Answer × Database)
  | .db type key value =>
      if csdbIsValidKey key then
        if type = csSet then
          match value with
          | none => .error .null
          | some [] => .ok (.failed, db)
          | some (c :: value) => do
              let (ret, db) ← csdbSetValueForKey b db key (some (c :: value)) now
              .ok (if ret < 0 then .failed else .done, db)
        else if type = csGet then do
          let (err, value, db) ← csdbGetValueForKey b db key
          let answer ← if 0 ≤ err then Answer.ofText value else .ok .failed
          .ok (answer, db)
        else if type = csDel then do
          let (err, db) ← csdbRemoveFromKey b db key
          .ok (if err < 0 then .failed else .done, db)
        else if type = csLs then do
          let (ret, names) ← csdbGetChildNamesForKey b db key
          let answer ← if ret ≤ 0 then .ok .failed else Answer.ofText (names.map Prod.snd)
          .ok (answer, db)
        else .ok (.failed, db)
      else .ok (.failed, db)
  | .cap type libs =>
      if type = csCapexec then do
        let (ret, db) ← cscCapToExec b (capKeySize libs) db libs
        .ok (if ret < 0 then .failed else .data (if ret = 1 then lit ['1'] else lit ['0']), db)
      else .ok (.failed, db)

/-- One iteration sends exactly one datagram, and that is the answer to the request. -/
def Answered (clock : Nat → Int) (respPacket buf datagram : Bytes) (db : Database) : Prop :=
  ∃ request answer db', requestOf buf datagram = .ok request ∧
    request.perform .linear (clock 0) db = .ok (answer, db') ∧
    csReceivePackets .linear clock respPacket buf datagram db = .ok (some answer.bytes, db')

/-! ## Packing an answer -/

def Answer.pack (respPacket : Bytes) : Answer → Exec (Nat × Bytes)
  | .failed => cspPackRespPacket respPacket csRespNdata csRespErr none
  | .done => cspPackRespPacket respPacket csRespNdata csRespSucc none
  | .data text => cspPackRespPacket respPacket csRespWdata csRespSucc (some text)

theorem length_of_writeBytes {b data b' : Bytes} {i : Nat} (h : writeBytes b i data = .ok b') :
    b'.length = b.length := by
  unfold writeBytes at h
  split at h
  · rw [← Except.ok.inj h]
    simp only [List.length_append, List.length_take, List.length_drop]
    omega
  · cases h

theorem length_of_writeHeader {b b' : Bytes} {x y z : UInt8} (h : writeHeader b x y z = .ok b') :
    b'.length = b.length := by
  obtain ⟨b₁, h₁, h⟩ := bind_eq_ok h
  obtain ⟨b₂, h₂, h₃⟩ := bind_eq_ok h
  rw [length_of_writeBytes h₃, length_of_writeBytes h₂, length_of_writeBytes h₁]

theorem length_of_cspPackRespPacket {out packet : Bytes} {type err : UInt8} {data : Option CStr}
    {n : Nat} (h : cspPackRespPacket out type err data = .ok (n, packet)) :
    packet.length = out.length := by
  obtain ⟨b₁, hheader, h⟩ := bind_eq_ok h
  rw [← length_of_writeHeader hheader]
  split at h
  · cases data with
    | none => cases h
    | some text =>
        obtain ⟨b₂, hfield, h⟩ := bind_eq_ok h
        obtain ⟨b₃, hlength, hdata⟩ := bind_eq_ok hfield
        rw [← (Prod.mk.inj (Except.ok.inj h)).2, length_of_writeBytes hdata,
          length_of_writeBytes hlength]
  · rw [← (Prod.mk.inj (Except.ok.inj h)).2]

theorem cspPackRespPacket_none {out : Bytes} (hout : 3 ≤ out.length) (err : UInt8) :
    cspPackRespPacket out csRespNdata err none = .ok (3, [1, csRespNdata, err] ++ out.drop 3) := by
  unfold cspPackRespPacket
  rw [writeHeader_eq hout, ok_bind, if_neg (by decide)]

theorem length_bytes_data (text : CStr) : (Answer.data text).bytes.length = 5 + text.length := by
  rw [Answer.bytes, List.length_append, length_field, ← Nat.add_assoc]
  rfl

theorem length_bytes_lt {limit : Nat} (hlimit : 6 < limit) {answer : Answer}
    (hanswer : answer = .failed ∨ answer = .done) : answer.bytes.length < limit := by
  have hlength : answer.bytes.length = 3 := by
    rcases hanswer with rfl | rfl <;> rfl
  omega

/-- The response is the answer exactly when that fits the array for it. A longer text is
cut, or written behind the end of the array. -/
theorem Answer.pack_iff {resp : Bytes} (hresp : resp.length = cspMaxpacketSize) (answer : Answer) :
    (∃ n packet, answer.pack resp = .ok (n, packet) ∧ packet.take n = answer.bytes) ↔
      answer.bytes.length ≤ cspMaxpacketSize := by
  have hsize : cspMaxpacketSize = 65535 := rfl
  constructor
  · rintro ⟨n, packet, hpack, hbytes⟩
    have hlen : packet.length = resp.length := by
      cases answer with
      | failed => exact @length_of_cspPackRespPacket resp packet _ _ none n hpack
      | done => exact @length_of_cspPackRespPacket resp packet _ _ none n hpack
      | data text => exact @length_of_cspPackRespPacket resp packet _ _ (some text) n hpack
    rw [← hbytes, List.length_take]
    omega
  · intro hfits
    cases answer with
    | failed => exact ⟨_, _, cspPackRespPacket_none (by omega) _, rfl⟩
    | done => exact ⟨_, _, cspPackRespPacket_none (by omega) _, rfl⟩
    | data text =>
        rw [length_bytes_data] at hfits
        refine ⟨_, _, cspPackRespPacket_data _ (by omega) (by omega), ?_⟩
        apply List.take_left'
        exact (length_bytes_data text).trans (Nat.add_comm _ _)

/-! ## The response to a request -/

/-- A type and a key that `cs_proceed_db_request` has a branch for, and the one type of
`cs_proceed_cap_request`. -/
def Request.Known : Request → Prop
  | .db type key _ => csdbIsValidKey key = true ∧ type ∈ [csSet, csGet, csDel, csLs]
  | .cap type _ => type = csCapexec

/-- What `cs_proceed_db_request` and `cs_proceed_cap_request` do once a request is
decoded. -/
def Request.respond (b : Search) (now : Int) (db : Database) (respPacket : Bytes) :
    Request → Exec (Bytes × Database)
  | .db type key value => do
      let ((respLen, response), db) ← dbResponse b now db respPacket type key value
      .ok (response.take respLen, db)
  | .cap type libs =>
      if type = csCapexec then do
        let (ret, db) ← cscCapToExec b (capKeySize libs) db libs
        let (respLen, response) ← capResponse respPacket ret
        .ok (response.take respLen, db)
      else .error .uninit

theorem lock_taken {db : Database} (h : db.locked = true) : db.lock = .error .blocked := by
  simp [Database.lock, h]

variable {db : Database} {t : Tree}

theorem csdbSetValueForKey_cases (h : Holds .linear db t) {key : CStr}
    (hv : csdbIsValidKey key = true) (value : Option CStr) (now : Int) :
    (db.locked = false ∧ ∃ db', csdbSetValueForKey .linear db key value now = .ok (0, db')) ∨
      (db.locked = true ∧ csdbSetValueForKey .linear db key value now = .error .blocked) := by
  cases hlock : db.locked with
  | false =>
      obtain ⟨L, hrep⟩ := h
      obtain ⟨db', -, hset, -⟩ :=
        csdbSetValueForKey_spec hrep (bounded_linear t) hlock hv value now
      exact .inl ⟨rfl, db', hset⟩
  | true =>
      obtain ⟨names, hparse⟩ : ∃ names, csdbParseKey key = .ok (some names) := by
        by_cases hk : key = [dot]
        · exact ⟨_, hk ▸ csdbParseKey_root⟩
        · exact ⟨_, csdbParseKey_valid hv hk⟩
      exact .inr ⟨rfl, by simp [csdbSetValueForKey, hparse, lock_taken hlock]⟩

theorem pack_ofText {out : Bytes} (hout : 3 ≤ out.length) (text : Option CStr) :
    cspPackRespPacket out csRespWdata csRespSucc text = (do
      let answer ← Answer.ofText text
      answer.pack out) := by
  cases text with
  | none =>
      unfold cspPackRespPacket
      rw [writeHeader_eq hout]
      rfl
  | some text => rfl

theorem dbResponse_eq (h : Holds .linear db t) (now : Int) {resp : Bytes}
    (hresp : resp.length = cspMaxpacketSize) {type : UInt8} {key : CStr} {value : Option CStr}
    (hknown : (Request.db type key value).Known) :
    dbResponse .linear now db resp type key value = (do
      let (answer, db) ← (Request.db type key value).perform .linear now db
      let response ← answer.pack resp
      .ok (response, db)) := by
  have hroom : 3 ≤ resp.length := by
    rw [hresp]
    decide
  obtain ⟨hv, htype⟩ := hknown
  simp only [dbResponse, Request.perform, hv, if_true]
  by_cases hset : type = csSet
  · simp only [hset, if_true]
    match value with
    | none => rfl
    | some [] => rfl
    | some (c :: value) =>
        rcases csdbSetValueForKey_cases h hv (some (c :: value)) now with ⟨-, db', hok⟩ | ⟨-, hblocked⟩
        · simp only [hok, ok_bind]
          rfl
        · simp only [hblocked, error_bind]
  simp only [hset, if_false]
  by_cases hget : type = csGet
  · simp only [hget, if_true]
    cases csdbGetValueForKey .linear db key with
    | error e => rfl
    | ok x =>
        obtain ⟨err, text, db'⟩ := x
        by_cases herr : 0 ≤ err
        · simp only [ok_bind, herr, if_true, pack_ofText hroom, bind_assoc]
        · simp only [ok_bind, herr, if_false]
          rfl
  simp only [hget, if_false]
  by_cases hdel : type = csDel
  · simp only [hdel, if_true]
    cases csdbRemoveFromKey .linear db key with
    | error e => rfl
    | ok x =>
        obtain ⟨err, db'⟩ := x
        by_cases herr : err < 0
        · simp only [ok_bind, herr, if_true]
          rfl
        · simp only [ok_bind, herr, if_false]
          rfl
  simp only [hdel, if_false]
  have hls : type = csLs := by simpa [hset, hget, hdel] using htype
  simp only [hls, if_true]
  cases csdbGetChildNamesForKey .linear db key with
  | error e => rfl
  | ok x =>
      obtain ⟨ret, names⟩ := x
      by_cases hret : ret ≤ 0
      · simp only [ok_bind, hret, if_true]
        rfl
      · simp only [ok_bind, hret, if_false, pack_ofText hroom, bind_assoc]

/-! ## Capability requests -/

/-- Every name up to the first one that is missing has a key that fits an array for
`n` characters. -/
def KeysFit (t : Tree) (n : Nat) : List CStr → Prop
  | [] => True
  | tok :: toks => tok.length + 5 ≤ n ∧ ((t.record [tok, lib]).isSome → KeysFit t n toks)

/-- The loop over the names returns 0 or 1, or writes behind the end of `key`. -/
theorem capLoop_cases (h : Holds .linear db t) (hfree : db.locked = false) (n : Nat)
    (toks : List CStr) (text : CStr) (htoks : tokens capDelims text = toks)
    (hdot : ∀ tok ∈ toks, dot ∉ tok) (fuel : Nat) (hfuel : toks.length < fuel) :
    (KeysFit t n toks ∧ ∃ ret, (ret = 0 ∨ ret = 1) ∧
      loop (capBody .linear (n + 1)) fuel (text, 1, db) = .ok (ret, db)) ∨
    (¬ KeysFit t n toks ∧ loop (capBody .linear (n + 1)) fuel (text, 1, db) = .error .bounds) := by
  induction toks generalizing text fuel with
  | nil =>
      obtain ⟨fuel, rfl⟩ : ∃ f, fuel = f + 1 := ⟨fuel - 1, by omega⟩
      refine .inl ⟨trivial, 1, .inr rfl, ?_⟩
      apply loop_exit
      simp [capBody, strtok_eq_none htoks]
  | cons tok toks ih =>
      obtain ⟨fuel, rfl⟩ : ∃ f, fuel = f + 2 := by
        rw [List.length_cons] at hfuel
        exact ⟨fuel - 2, by omega⟩
      rw [List.length_cons] at hfuel
      obtain ⟨rest, hs, hrest⟩ := strtok_eq_some htoks
      have hne : tok ≠ [] := token_ne_nil (by rw [htoks]; simp)
      obtain ⟨hv, -, hpath⟩ := libKey_plain hne (hdot tok (by simp))
      have hexist : csdbKeyExist .linear db (libKey tok) =
          .ok (if (t.record [tok, lib]).isSome then 1 else 0, db) := by
        obtain ⟨L, hrep⟩ := h
        rw [csdbKeyExist_spec hrep (bounded_linear t) hfree hv, hpath]
        rfl
      by_cases hfit : tok.length + 5 ≤ n
      · have hkey : sprintf (n + 1) (libKey tok) = .ok (libKey tok) :=
          sprintf_ok (by rw [length_libKey]; omega)
        have hbody : capBody .linear (n + 1) (text, 1, db) =
            .ok (.inl (rest, if (t.record [tok, lib]).isSome then 1 else 0, db)) := by
          simp [capBody, hs, hkey, hexist]
        rw [loop_next hbody]
        by_cases hin : (t.record [tok, lib]).isSome
        · rw [if_pos hin]
          rcases ih rest hrest (fun x hx => hdot x (by simp [hx])) (fuel + 1) (by omega) with
            ⟨hfits, hok⟩ | ⟨hfits, herr⟩
          · exact .inl ⟨⟨hfit, fun _ => hfits⟩, hok⟩
          · exact .inr ⟨fun hall => hfits (hall.2 hin), herr⟩
        · rw [if_neg hin]
          refine .inl ⟨⟨hfit, fun hin' => absurd hin' hin⟩, 0, .inl rfl, ?_⟩
          apply loop_exit
          cases hs' : strtok capDelims rest with
          | none => simp [capBody, hs']
          | some x => simp [capBody, hs']
      · refine .inr ⟨fun hall => hfit hall.1, ?_⟩
        have hkey : sprintf (n + 1) (libKey tok) = .error .bounds :=
          if_neg (by rw [length_libKey]; omega)
        simp [loop, capBody, hs, hkey]

def capTokens (libs : CStr) : List CStr := tokens capDelims (replacePoints libs)

theorem capTokens_eq (libs : CStr) : capTokens libs = (tokens capDelims libs).map replacePoints :=
  tokens_map replacePoints_delims libs

theorem capTokens_no_dot (libs : CStr) : ∀ tok ∈ capTokens libs, dot ∉ tok := by
  intro tok htok
  rw [capTokens_eq] at htok
  obtain ⟨x, -, rfl⟩ := List.mem_map.mp htok
  exact replacePoints_no_dot x

theorem length_capTokens (libs : CStr) : (capTokens libs).length < libs.length + 1 := by
  have := length_tokens_le capDelims libs
  rw [capTokens_eq, List.length_map]
  omega

/-- With a mutex that is taken only a request without names comes back. -/
theorem cscCapToExec_cases (h : Holds .linear db t) (libs : CStr) :
    ((capTokens libs = [] ∨ db.locked = false ∧ KeysFit t libs.length (capTokens libs)) ∧
      ∃ ret, (ret = 0 ∨ ret = 1) ∧
        cscCapToExec .linear (capKeySize libs) db libs = .ok (ret, db)) ∨
    (¬ (capTokens libs = [] ∨ db.locked = false ∧ KeysFit t libs.length (capTokens libs)) ∧
      ∃ e, cscCapToExec .linear (capKeySize libs) db libs = .error e) := by
  cases hlock : db.locked with
  | false =>
      rcases capLoop_cases h hlock libs.length (capTokens libs) (replacePoints libs) rfl
        (capTokens_no_dot libs) _ (length_capTokens libs) with ⟨hfits, hok⟩ | ⟨hfits, herr⟩
      · exact .inl ⟨.inr ⟨rfl, hfits⟩, hok⟩
      · refine .inr ⟨?_, .bounds, herr⟩
        rintro (hnil | ⟨-, hall⟩)
        · rw [hnil] at hfits
          exact hfits trivial
        · exact hfits hall
  | true =>
      cases hlist : capTokens libs with
      | nil =>
          refine .inl ⟨.inl rfl, 1, .inr rfl, ?_⟩
          apply loop_exit
          simp [capBody, strtok_eq_none hlist]
      | cons tok toks =>
          refine .inr ⟨by simp, ?_⟩
          obtain ⟨rest, hs, -⟩ := strtok_eq_some hlist
          have hbody : ∃ e, capBody .linear (capKeySize libs) (replacePoints libs, 1, db) = .error e := by
            cases hkey : sprintf (capKeySize libs) (libKey tok) with
            | error e => exact ⟨e, by simp [capBody, hs, hkey]⟩
            | ok key => exact ⟨.blocked, by simp [capBody, hs, hkey, csdbKeyExist, lock_taken hlock]⟩
          obtain ⟨e, he⟩ := hbody
          exact ⟨e, by simp [cscCapToExec, loop, he]⟩

/-! ## What an operation needs -/

/-- The mutex, the value and the room that a request needs for an answer of fewer than
`limit` bytes. -/
def Request.Served (limit : Nat) (t : Tree) (locked : Bool) : Request → Prop
  | .db type key value =>
      csdbIsValidKey key = true ∧ type ∈ [csSet, csGet, csDel, csLs] ∧
      (type = csSet → ∃ v, value = some v ∧ (v = [] ∨ locked = false)) ∧
      (type = csGet → locked = false ∧ ∀ r, t.record (keyPath key).reverse = some r →
        r.leaf = true → ∃ v, r.value = some v ∧ 5 + v.length < limit) ∧
      (type = csDel → key = [dot] ∨ locked = false) ∧
      (type = csLs → ∀ d, t.node (keyPath key).reverse = some d → d.leaf = false →
        5 + (d.kids.flatMap (· ++ [space])).length < limit)
  | .cap type libs =>
      type = csCapexec ∧
        (capTokens libs = [] ∨ locked = false ∧ KeysFit t libs.length (capTokens libs))

def Request.Performs (limit : Nat) (now : Int) (db : Database) (request : Request) : Prop :=
  ∃ answer db', request.perform .linear now db = .ok (answer, db') ∧ answer.bytes.length < limit

section Performs

variable {limit : Nat} (hlimit : 6 < limit) (h : Holds .linear db t) (now : Int) {key : CStr}
  (hv : csdbIsValidKey key = true)

include hlimit h hv

theorem performs_set (value : Option CStr) :
    (Request.db csSet key value).Performs limit now db ↔
      ∃ v, value = some v ∧ (v = [] ∨ db.locked = false) := by
  match value with
  | none => simp [Request.Performs, Request.perform, hv]
  | some [] =>
      refine iff_of_true ⟨.failed, db, by simp [Request.perform, hv], ?_⟩ ⟨[], rfl, .inl rfl⟩
      exact length_bytes_lt hlimit (.inl rfl)
  | some (c :: v) =>
      rcases csdbSetValueForKey_cases h hv (some (c :: v)) now with
        ⟨hfree, db', hset⟩ | ⟨hlock, hset⟩
      · refine iff_of_true ⟨.done, db', by simp [Request.perform, hv, hset], ?_⟩
          ⟨_, rfl, .inr hfree⟩
        exact length_bytes_lt hlimit (.inr rfl)
      · simp [Request.Performs, Request.perform, hv, hset, hlock]

theorem performs_get (value : Option CStr) :
    (Request.db csGet key value).Performs limit now db ↔
      db.locked = false ∧ ∀ r, t.record (keyPath key).reverse = some r → r.leaf = true →
        ∃ v, r.value = some v ∧ 5 + v.length < limit := by
  have hother : ¬ csGet = csSet := by decide
  have hshort : Answer.failed.bytes.length < limit := length_bytes_lt hlimit (.inl rfl)
  simp only [Request.Performs, Request.perform, hv, if_true, if_neg hother]
  cases hlock : db.locked with
  | true => simp [csdbGetValueForKey, hv, lock_taken hlock]
  | false =>
      obtain ⟨L, hrep⟩ := h
      rw [csdbGetValueForKey_spec hrep (bounded_linear t) hlock hv]
      cases t.record (keyPath key).reverse with
      | none => simp [valueReply, ecsInvalidkey, hshort]
      | some r =>
          obtain ⟨leaf, value, mtime⟩ := r
          cases leaf with
          | false => simp [valueReply, ecsNoleaf, hshort]
          | true =>
              cases value with
              | none => simp [valueReply]
              | some v => simp [valueReply, Answer.ofText, length_bytes_data]

theorem performs_del (value : Option CStr) :
    (Request.db csDel key value).Performs limit now db ↔ key = [dot] ∨ db.locked = false := by
  have hother : ¬ csDel = csSet ∧ ¬ csDel = csGet := by decide
  have hshort : ∀ err : Int,
      (if err < 0 then Answer.failed else Answer.done).bytes.length < limit := by
    intro err
    apply length_bytes_lt hlimit
    split
    · exact .inl rfl
    · exact .inr rfl
  simp only [Request.Performs, Request.perform, hv, if_true, if_neg hother.1, if_neg hother.2]
  by_cases hroot : key = [dot]
  · rw [hroot, csdbRemoveFromKey_root]
    exact iff_of_true ⟨_, _, rfl, hshort _⟩ (.inl rfl)
  cases hlock : db.locked with
  | true => simp [csdbRemoveFromKey, strcmp_eq_iff, hroot, lock_taken hlock]
  | false =>
      obtain ⟨L, hrep⟩ := h
      have hfind := hrep.finds (bounded_linear t) hv
      refine iff_of_true ?_ (.inr rfl)
      cases hr : t.record (keyPath key).reverse with
      | none =>
          rw [csdbRemoveFromKey_absent hrep hfind hlock hroot hr]
          exact ⟨_, _, rfl, hshort _⟩
      | some r =>
          obtain ⟨n, p, hnp⟩ := keyPath_reverse_cons hv hroot
          obtain ⟨db', hok, -⟩ := csdbRemoveFromKey_spec hrep hfind hlock hroot hnp
            (by rw [← hnp, hr]; rfl)
          rw [hok]
          exact ⟨_, _, rfl, hshort _⟩

theorem performs_ls (value : Option CStr) :
    (Request.db csLs key value).Performs limit now db ↔
      ∀ d, t.node (keyPath key).reverse = some d → d.leaf = false →
        5 + (d.kids.flatMap (· ++ [space])).length < limit := by
  have hother : ¬ csLs = csSet ∧ ¬ csLs = csGet ∧ ¬ csLs = csDel := by decide
  have hshort : Answer.failed.bytes.length < limit := length_bytes_lt hlimit (.inl rfl)
  obtain ⟨L, hrep⟩ := h
  simp only [Request.Performs, Request.perform, hv, if_true, if_neg hother.1, if_neg hother.2.1,
    if_neg hother.2.2, csdbGetChildNamesForKey_spec hrep (bounded_linear t) hv, ok_bind]
  cases t.node (keyPath key).reverse with
  | none => simp [namesReply, hshort]
  | some d =>
      cases hleaf : d.leaf with
      | true => simp [namesReply, hleaf, hshort]
      | false =>
          by_cases hkids : d.kids = []
          · have hroom : 5 < limit := by omega
            simp [namesReply, hleaf, hkids, hshort, hroom]
          · simp [namesReply, hleaf, hkids, Answer.ofText, length_bytes_data]

end Performs

theorem Request.Served.known {limit : Nat} {locked : Bool} {request : Request}
    (hserved : request.Served limit t locked) : request.Known := by
  cases request with
  | db type key value => exact ⟨hserved.1, hserved.2.1⟩
  | cap type libs => exact hserved.1

theorem performs_iff {limit : Nat} (hlimit : 6 < limit) (h : Holds .linear db t) (now : Int)
    {request : Request} (hknown : request.Known) :
    request.Performs limit now db ↔ request.Served limit t db.locked := by
  cases request with
  | db type key value =>
      obtain ⟨hv, htype⟩ := hknown
      rw [Request.Served, and_iff_right hv, and_iff_right htype]
      simp only [List.mem_cons, List.not_mem_nil, or_false] at htype
      rcases htype with rfl | rfl | rfl | rfl
      · rw [performs_set hlimit h now hv]
        simp [csSet, csGet, csDel, csLs]
      · rw [performs_get hlimit h now hv]
        simp [csSet, csGet, csDel, csLs]
      · rw [performs_del hlimit h now hv]
        simp [csSet, csGet, csDel, csLs]
      · rw [performs_ls hlimit h now hv]
        simp [csSet, csGet, csDel, csLs]
  | cap type libs =>
      have htype : type = csCapexec := hknown
      rw [Request.Served, and_iff_right htype]
      rcases cscCapToExec_cases h libs with ⟨hfits, ret, -, hok⟩ | ⟨hfits, e, herr⟩
      · refine iff_of_true ⟨_, db, by simp only [Request.perform, htype, if_true, hok]; rfl, ?_⟩ hfits
        split
        · exact length_bytes_lt hlimit (.inl rfl)
        · split <;> exact hlimit
      · refine iff_of_false ?_ hfits
        rintro ⟨answer, db', hperform, -⟩
        simp [Request.perform, htype, herr] at hperform

/-- Once decoded, a known request is answered with its answer, packed. -/
theorem respond_eq (h : Holds .linear db t) (now : Int) {resp : Bytes}
    (hresp : resp.length = cspMaxpacketSize) {request : Request} (hknown : request.Known) :
    request.respond .linear now db resp = (do
      let (answer, db) ← request.perform .linear now db
      let (n, packet) ← answer.pack resp
      .ok (packet.take n, db)) := by
  cases request with
  | db type key value => simp [Request.respond, dbResponse_eq h now hresp hknown]
  | cap type libs =>
      have htype : type = csCapexec := hknown
      simp only [Request.respond, Request.perform, htype, if_true]
      rcases cscCapToExec_cases h libs with ⟨-, ret, rfl | rfl, hok⟩ | ⟨-, e, herr⟩
      · rw [hok]
        rfl
      · rw [hok]
        rfl
      · rw [herr]
        rfl

/-- For another request the length of the response is never written. -/
theorem respond_unknown (now : Int) (resp : Bytes) {request : Request} (hunknown : ¬ request.Known) :
    request.respond .linear now db resp = .error .uninit := by
  cases request with
  | db type key value =>
      by_cases hv : csdbIsValidKey key = true
      · have htype : type ∉ [csSet, csGet, csDel, csLs] := fun hin => hunknown ⟨hv, hin⟩
        simp only [List.mem_cons, List.not_mem_nil, or_false, not_or] at htype
        simp [Request.respond, dbResponse, hv, htype]
      · simp [Request.respond, dbResponse, hv]
  | cap type libs =>
      have htype : ¬ type = csCapexec := hunknown
      simp [Request.respond, htype]

/-- The response is the answer exactly when the operation returns and the answer fits. -/
theorem respond_iff (h : Holds .linear db t) (now : Int) {resp : Bytes}
    (hresp : resp.length = cspMaxpacketSize) (request : Request) :
    (∃ answer db', request.perform .linear now db = .ok (answer, db') ∧
      request.respond .linear now db resp = .ok (answer.bytes, db')) ↔
      request.Served (cspMaxpacketSize + 1) t db.locked := by
  by_cases hknown : request.Known
  · rw [← performs_iff (by decide) h now hknown]
    simp only [Request.Performs, Nat.lt_succ_iff]
    refine exists_congr fun answer => exists_congr fun db' => and_congr_right fun hperform => ?_
    rw [← answer.pack_iff hresp, respond_eq h now hresp hknown, hperform, ok_bind]
    dsimp only
    constructor
    · intro hok
      obtain ⟨⟨n, packet⟩, hpack, hbytes⟩ := bind_eq_ok hok
      exact ⟨n, packet, hpack, (Prod.mk.inj (Except.ok.inj hbytes)).1⟩
    · rintro ⟨n, packet, hpack, hbytes⟩
      rw [hpack, ok_bind, hbytes]
  · refine iff_of_false ?_ (fun hserved => hknown hserved.known)
    rintro ⟨answer, db', -, hok⟩
    rw [respond_unknown now resp hknown] at hok
    cases hok

/-! ## One iteration -/

theorem writeByte_full {d buf : Bytes} (hd : ¬ d.length < maxline) (hbuf : buf.length = maxline) :
    writeByte (recvfrom buf d) (min d.length maxline) 0 = .error .bounds := by
  apply if_neg
  simp only [recvfrom, List.length_append, List.length_take, List.length_drop, List.length_singleton]
  omega

theorem csReceivePackets_request (clock : Nat → Int) (resp : Bytes) {buf d : Bytes}
    (hbuf : buf.length = maxline) (hd : d.take 2 = [csVer, csReq] ∨ d.take 2 = [csVer, csCap])
    (db : Database) :
    csReceivePackets .linear clock resp buf d db = (do
      let request ← requestOf buf d
      let (response, db) ← request.respond .linear (clock 0) db resp
      .ok (some response, db)) := by
  by_cases hlt : d.length < maxline
  · obtain ⟨rest, hwrite, hlen⟩ := writeByte_received hlt hbuf
    obtain ⟨version, type, hversion, htype, hheader⟩ := version_type hlen
    rw [hheader _ (by decide), hheader _ (by decide)] at hd
    simp only [csReceivePackets, requestOf, Nat.min_eq_left (Nat.le_of_lt hlt), hwrite, hversion,
      htype, ok_bind]
    rcases hd with ⟨rfl, rfl⟩ | ⟨rfl, rfl⟩
    · simp only [ne_eq, not_true_eq_false, if_false, if_true, if_neg (by decide : ¬ csReq = csHello),
        csProceedDbRequest, Request.respond, bind_assoc, ok_bind]
    · simp only [ne_eq, not_true_eq_false, if_false, if_true, if_neg (by decide : ¬ csCap = csHello),
        if_neg (by decide : ¬ csCap = csReq), csProceedCapRequest, Request.respond, bind_assoc]
      cases capRequestData (d ++ 0 :: rest) 2 with
      | error e => rfl
      | ok x =>
          obtain ⟨reqType, libs⟩ := x
          by_cases hcap : reqType = csCapexec
          · simp only [ok_bind, hcap, if_true, bind_assoc]
          · simp only [ok_bind, hcap, if_false, error_bind]
  · simp only [csReceivePackets, requestOf, writeByte_full hlt hbuf, error_bind]

section Iteration

variable (clock : Nat → Int) {buf resp d : Bytes} (hbuf : buf.length = maxline)
  (hresp : resp.length = cspMaxpacketSize)
  (hd : d.take 2 = [csVer, csReq] ∨ d.take 2 = [csVer, csCap])

include hbuf hd

theorem answered_iff_respond (db : Database) :
    Answered clock resp buf d db ↔ ∃ request, requestOf buf d = .ok request ∧
      ∃ answer db', request.perform .linear (clock 0) db = .ok (answer, db') ∧
        request.respond .linear (clock 0) db resp = .ok (answer.bytes, db') := by
  unfold Answered
  rw [csReceivePackets_request clock resp hbuf hd]
  constructor
  · rintro ⟨request, answer, db', hrequest, hperform, hsent⟩
    rw [hrequest, ok_bind] at hsent
    obtain ⟨⟨bytes, db₁⟩, hrespond, hsent⟩ := bind_eq_ok hsent
    obtain ⟨hbytes, hdb⟩ := Prod.mk.inj (Except.ok.inj hsent)
    rw [Option.some.inj hbytes, hdb] at hrespond
    exact ⟨request, hrequest, answer, db', hperform, hrespond⟩
  · rintro ⟨request, hrequest, answer, db', hperform, hrespond⟩
    refine ⟨request, answer, db', hrequest, hperform, ?_⟩
    rw [hrequest, ok_bind, hrespond, ok_bind]

include hresp

theorem answered_iff_served (h : Holds .linear db t) :
    Answered clock resp buf d db ↔ ∃ request, requestOf buf d = .ok request ∧
      request.Served (cspMaxpacketSize + 1) t db.locked := by
  rw [answered_iff_respond clock hbuf hd]
  exact exists_congr fun request => and_congr_right fun _ => respond_iff h (clock 0) hresp request

/-- **Every request is answered** exactly when its key is valid and its type known, its
operation does not wait for the mutex nor meet a value that is not there, and the answer
fits the array it is packed into. -/
theorem request_answered_iff (hreach : Reachable db) :
    Answered clock resp buf d db ↔ ∃ request t, requestOf buf d = .ok request ∧
      Holds .linear db t ∧ request.Served (cspMaxpacketSize + 1) t db.locked := by
  constructor
  · intro hanswered
    obtain ⟨t, h⟩ := hreach.holds
    obtain ⟨request, hrequest, hserved⟩ :=
      (answered_iff_served clock hbuf hresp hd h).mp hanswered
    exact ⟨request, t, hrequest, h, hserved⟩
  · rintro ⟨request, t, hrequest, h, hserved⟩
    exact (answered_iff_served clock hbuf hresp hd h).mpr ⟨request, hrequest, hserved⟩

end Iteration

/-! ## Two kinds of requests -/

/-- A request without a value is decoded, whatever the array held. -/
theorem requestOf_key {buf : Bytes} (hbuf : buf.length = maxline) {type : UInt8}
    (htype : type ≠ csSet) {key : CStr} (hlen : key.length + 5 < maxline) :
    requestOf buf ([csVer, csReq, type] ++ field key) = .ok (.db type key none) := by
  have hfits : ([csVer, csReq, type] ++ field key).length < maxline := by
    rw [length_request]
    omega
  obtain ⟨rest, hwrite, -⟩ := writeByte_received hfits hbuf
  rw [List.append_assoc] at hwrite
  have hunpack := @cspUnpackDbreqRequest_key [csVer, csReq, type] rest rfl type htype key
  have hkind : readByte ([csVer, csReq, type] ++ (field key ++ 0 :: rest)) 1 = .ok csReq := rfl
  have hread : readByte ([csVer, csReq, type] ++ (field key ++ 0 :: rest)) 2 = .ok type := rfl
  simp only [requestOf, Nat.min_eq_left (Nat.le_of_lt hfits), hwrite, ok_bind, hkind, if_true,
    hread, hunpack]

theorem requestOf_cap {buf : Bytes} (hbuf : buf.length = maxline) (type : UInt8) {libs : CStr}
    (hlen : libs.length + 5 < maxline) :
    requestOf buf ([csVer, csCap, type] ++ field libs) = .ok (.cap type libs) := by
  have hmax : maxline = 4096 := rfl
  have hfits : ([csVer, csCap, type] ++ field libs).length < maxline := by
    rw [List.length_append, length_field]
    show 3 + _ < _
    omega
  obtain ⟨rest, hwrite, -⟩ := writeByte_received hfits hbuf
  rw [List.append_assoc] at hwrite
  have hdata := @capRequestData_eq [csVer, csCap, type] (0 :: rest) rfl type rfl libs (by omega)
  have hkind : readByte ([csVer, csCap, type] ++ (field libs ++ 0 :: rest)) 1 = .ok csCap := rfl
  simp only [requestOf, Nat.min_eq_left (Nat.le_of_lt hfits), hwrite, ok_bind, hkind,
    if_neg (by decide : ¬ csCap = csReq), hdata]

/-- A request that no branch is there for is not answered. -/
theorem unanswered_of_unknown (clock : Nat → Int) (resp : Bytes) {buf d : Bytes}
    (hbuf : buf.length = maxline) (hd : d.take 2 = [csVer, csReq] ∨ d.take 2 = [csVer, csCap])
    {request : Request} (hrequest : requestOf buf d = .ok request) (hunknown : ¬ request.Known)
    (db : Database) : ¬ Answered clock resp buf d db := by
  rw [answered_iff_respond clock hbuf hd]
  rintro ⟨request', hrequest', answer, db', -, hrespond⟩
  rw [hrequest] at hrequest'
  rw [← Except.ok.inj hrequest', respond_unknown _ _ hunknown] at hrespond
  cases hrespond

/-- The value of a key that was set is sent back. -/
theorem request_answered_iff_value :
    ∃ db₀ db db', csdbInit 0 = .ok db₀ ∧
      csdbSetValueForKey .linear db₀ (lit ['.', 'k']) (some (lit ['v'])) 0 = .ok (0, db) ∧
      csReceivePackets .linear (fun _ => 0) (List.replicate cspMaxpacketSize 0) (List.replicate maxline 0)
        ([csVer, csReq, csGet] ++ field (lit ['.', 'k'])) db = .ok (some (Answer.data (lit ['v'])).bytes, db') := by
  have hv : csdbIsValidKey (lit ['.', 'k']) = true := by decide
  have hbuf : (List.replicate maxline (0 : UInt8)).length = maxline := List.length_replicate
  obtain ⟨db₀, hinit, ⟨L₀, hrep₀⟩, hfree₀⟩ := csdbInit_spec .linear 0
  obtain ⟨db, t, hset, h, hfree, hrec⟩ :=
    csdbSetValueForKey_spec hrep₀ (bounded_linear _) hfree₀ hv (some (lit ['v'])) 0
  have hreach : Reachable db := .call 0 (.set _ _) (.ret 0) db₀ db (.init 0 db₀ hinit) hv (map_of_ok _ hset)
  have hkept := hrec (keyPath (lit ['.', 'k'])).reverse
  rw [setRecord, if_pos rfl] at hkept
  have hrequest := requestOf_key hbuf (by decide : csGet ≠ csSet) (by decide : (lit ['.', 'k']).length + 5 < maxline)
  have hserved : (Request.db csGet (lit ['.', 'k']) none).Served (cspMaxpacketSize + 1) t db.locked := by
    refine ⟨hv, by decide, fun h => absurd h (by decide), fun _ => ⟨hfree, fun r hr _ => ?_⟩,
      fun h => absurd h (by decide), fun h => absurd h (by decide)⟩
    cases hkept.symm.trans hr
    exact ⟨_, rfl, by decide⟩
  obtain ⟨request, answer, db', hrequest', hperform, hsent⟩ := (request_answered_iff (fun _ => 0) hbuf
    List.length_replicate (.inl rfl) hreach).mpr ⟨_, t, hrequest, h, hserved⟩
  cases hrequest.symm.trans hrequest'
  refine ⟨db₀, db, db', hinit, hset, ?_⟩
  obtain ⟨L, hrep⟩ := h
  rw [Request.perform, if_pos hv, if_neg (by decide), if_pos rfl,
    csdbGetValueForKey_spec hrep (bounded_linear t) hfree hv, hkept] at hperform
  cases hperform
  exact hsent

/-- A key without a dot, the type that asks for nothing, and a capability request of that
type. -/
theorem requests_unanswered :
    ∃ db, csdbInit 0 = .ok db ∧ ∀ d ∈ [[csVer, csReq, csGet] ++ field (lit ['k']),
        [csVer, csReq, csNop] ++ field [dot], [csVer, csCap, csNop] ++ field []],
      ¬ Answered (fun _ => 0) (List.replicate cspMaxpacketSize 0) (List.replicate maxline 0) d db := by
  obtain ⟨db, hinit, -⟩ := csdbInit_spec .linear 0
  have hbuf : (List.replicate maxline (0 : UInt8)).length = maxline := List.length_replicate
  refine ⟨db, hinit, ?_⟩
  intro d hd
  simp only [List.mem_cons, List.not_mem_nil, or_false] at hd
  rcases hd with rfl | rfl | rfl
  · exact unanswered_of_unknown _ _ hbuf (.inl rfl) (requestOf_key hbuf (by decide) (by decide))
      (fun hknown => absurd hknown.1 (by decide)) db
  · exact unanswered_of_unknown _ _ hbuf (.inl rfl) (requestOf_key hbuf (by decide) (by decide))
      (fun hknown => absurd hknown.2 (by decide)) db
  · exact unanswered_of_unknown _ _ hbuf (.inr rfl) (requestOf_cap hbuf csNop (by decide))
      (fun hknown => absurd hknown (by decide : ¬ csNop = csCapexec)) db

end Dkmp.Csd
