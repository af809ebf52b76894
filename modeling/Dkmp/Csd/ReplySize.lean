import Dkmp.Csd.Answer

/-! # Answers and the arrays of their readers

`csm` and `cs_do_db_request_for_node` receive a response into an array of `MAXLINE` bytes
and terminate its text there. The sender packs the text into an array of
`CSP_MAXPACKET_SIZE` bytes, and values and child lists grow without a bound.
-/

namespace Dkmp.Csd

open Machine Csdb Csp Csc

/-- What a requester has after `csp_unpack_resp_packet`: the data of a response that tells
of success. `buf` is what its array held before. -/
def responseData (buf datagram : Bytes) : Exec (Option CStr) := do
  let (_, respErr, respData, _) ← cspUnpackRespPacket (recvfrom buf datagram)
  if respErr = csRespSucc then
    match respData with
    | none => .error .uninit
    | some text => .ok (some text)
  else .ok none

def Answer.text : Answer → Option CStr
  | .data text => some text
  | _ => none

/-- The response is the answer to the request, it is shorter than the array it is received
in, and the requester gets the whole text, whatever that array held. -/
def Delivered (clock : Nat → Int) (respPacket buf datagram : Bytes) (db : Database) : Prop :=
  ∃ request answer db', requestOf buf datagram = .ok request ∧
    request.perform .linear (clock 0) db = .ok (answer, db') ∧
    csReceivePackets .linear clock respPacket buf datagram db = .ok (some answer.bytes, db') ∧
    answer.bytes.length < maxline ∧
    ∀ recvline, recvline.length = maxline → responseData recvline answer.bytes = .ok answer.text

/-! ## Reading an answer -/

theorem recvfrom_short {b d : Bytes} (h : d.length ≤ b.length) :
    recvfrom b d = d ++ b.drop d.length := by
  rw [recvfrom, List.take_of_length_le h]

theorem responseData_failed {buf : Bytes} (hbuf : buf.length = maxline) :
    responseData buf Answer.failed.bytes = .ok none := by
  rw [responseData, recvfrom_short (by rw [hbuf]; decide)]
  rfl

theorem responseData_data {buf : Bytes} (hbuf : buf.length = maxline) {text : CStr}
    (hfits : (Answer.data text).bytes.length < maxline) :
    responseData buf (Answer.data text).bytes = .ok (some text) := by
  have hmax : maxline = 4096 := rfl
  have hlen := length_bytes_data text
  have hunpack := @cspUnpackRespPacket_data [1, csRespWdata, csRespSucc]
    (buf.drop (Answer.data text).bytes.length) rfl csRespSucc rfl rfl text (by omega)
    (by rw [List.length_drop]; omega)
  rw [responseData, recvfrom_short (by omega), Answer.bytes, List.append_assoc, ← Answer.bytes,
    hunpack]
  rfl

/-! ## Requests for a text -/

theorem requestOf_type {buf d : Bytes} {type : UInt8} (hbuf : buf.length = maxline)
    (hd : d.take 3 = [csVer, csReq, type]) {request : Request}
    (hrequest : requestOf buf d = .ok request) : ∃ key value, request = .db type key value := by
  by_cases hlt : d.length < maxline
  · obtain ⟨rest, hwrite, -⟩ := writeByte_received hlt hbuf
    obtain ⟨tail, rfl⟩ : ∃ tail, d = csVer :: csReq :: type :: tail := by
      refine ⟨d.drop 3, ?_⟩
      rw [← List.take_append_drop 3 d, hd]
      rfl
    have hkind : readByte (csVer :: csReq :: type :: tail ++ 0 :: rest) 1 = .ok csReq := rfl
    have hread : readByte (csVer :: csReq :: type :: tail ++ 0 :: rest) 2 = .ok type := rfl
    simp only [requestOf, Nat.min_eq_left (Nat.le_of_lt hlt), hwrite, ok_bind, hkind, if_true,
      hread] at hrequest
    obtain ⟨⟨key, value, packet⟩, -, hok⟩ := bind_eq_ok hrequest
    exact ⟨key, value, (Except.ok.inj hok).symm⟩
  · simp [requestOf, writeByte_full hlt hbuf] at hrequest

theorem ofText_ne_done {text : Option CStr} {answer : Answer}
    (h : Answer.ofText text = .ok answer) : answer ≠ .done := by
  cases text with
  | none => cases h
  | some text =>
      rw [← Except.ok.inj h]
      exact Answer.noConfusion

theorem perform_ne_done {type : UInt8} (htype : type = csGet ∨ type = csLs) {key : CStr}
    {value : Option CStr} {now : Int} {db db' : Database} {answer : Answer}
    (h : (Request.db type key value).perform .linear now db = .ok (answer, db')) :
    answer ≠ .done := by
  have hfailed : ∀ answer : Answer, Answer.failed = answer → answer ≠ .done := by
    rintro answer rfl
    exact Answer.noConfusion
  unfold Request.perform at h
  dsimp only at h
  split at h
  · rcases htype with rfl | rfl
    · rw [if_neg (by decide), if_pos rfl] at h
      obtain ⟨⟨err, text, db₁⟩, -, h⟩ := bind_eq_ok h
      dsimp only at h
      split at h
      · obtain ⟨answer', htext, h⟩ := bind_eq_ok h
        rw [← (Prod.mk.inj (Except.ok.inj h)).1]
        exact ofText_ne_done htext
      · exact hfailed answer (Prod.mk.inj (Except.ok.inj h)).1
    · rw [if_neg (by decide), if_neg (by decide), if_neg (by decide), if_pos rfl] at h
      obtain ⟨⟨ret, names⟩, -, h⟩ := bind_eq_ok h
      dsimp only at h
      split at h
      · exact hfailed answer (Prod.mk.inj (Except.ok.inj h)).1
      · obtain ⟨answer', htext, h⟩ := bind_eq_ok h
        rw [← (Prod.mk.inj (Except.ok.inj h)).1]
        exact ofText_ne_done htext
  · exact hfailed answer (Prod.mk.inj (Except.ok.inj h)).1

/-- An answer with room for the terminator is read as it is. -/
theorem responseData_answer {answer : Answer} (hne : answer ≠ .done)
    (hfits : answer.bytes.length < maxline) {buf : Bytes} (hbuf : buf.length = maxline) :
    responseData buf answer.bytes = .ok answer.text := by
  cases answer with
  | failed => exact responseData_failed hbuf
  | done => exact absurd rfl hne
  | data text => exact responseData_data hbuf hfits

/-! ## The whole text -/

theorem Request.Served.mono {limit limit' : Nat} {t : Tree} {locked : Bool} {request : Request}
    (hlimit : limit ≤ limit') (h : request.Served limit t locked) :
    request.Served limit' t locked := by
  cases request with
  | cap type libs => exact h
  | db type key value =>
      obtain ⟨hv, htype, hset, hget, hdel, hls⟩ := h
      refine ⟨hv, htype, hset, ?_, hdel, ?_⟩
      · intro htype
        obtain ⟨hfree, hrecord⟩ := hget htype
        refine ⟨hfree, fun r hr hleaf => ?_⟩
        obtain ⟨v, hv, hlen⟩ := hrecord r hr hleaf
        exact ⟨v, hv, by omega⟩
      · intro htype d hd hleaf
        have hlen := hls htype d hd hleaf
        omega

section Delivery

variable {db : Database} {t : Tree} (clock : Nat → Int) {buf resp d : Bytes}
  (hbuf : buf.length = maxline) (hresp : resp.length = cspMaxpacketSize)
  (hd : d.take 3 = [csVer, csReq, csGet] ∨ d.take 3 = [csVer, csReq, csLs])

include hbuf hresp hd

theorem delivered_iff_served (h : Holds .linear db t) :
    Delivered clock resp buf d db ↔ ∃ request, requestOf buf d = .ok request ∧
      request.Served maxline t db.locked := by
  have hd₂ : d.take 2 = [csVer, csReq] := by
    have htake : d.take 2 = (d.take 3).take 2 := by
      rw [List.take_take]
      rfl
    rcases hd with hd | hd <;> rw [htake, hd] <;> rfl
  have htype : ∀ request, requestOf buf d = .ok request →
      ∃ type key value, request = .db type key value ∧ (type = csGet ∨ type = csLs) := by
    intro request hrequest
    rcases hd with hd | hd
    · obtain ⟨key, value, rfl⟩ := requestOf_type hbuf hd hrequest
      exact ⟨_, key, value, rfl, .inl rfl⟩
    · obtain ⟨key, value, rfl⟩ := requestOf_type hbuf hd hrequest
      exact ⟨_, key, value, rfl, .inr rfl⟩
  constructor
  · rintro ⟨request, answer, db', hrequest, hperform, hsent, hfits, -⟩
    obtain ⟨request', hrequest', hserved⟩ := (answered_iff_served clock hbuf hresp (.inl hd₂) h).mp
      ⟨request, answer, db', hrequest, hperform, hsent⟩
    obtain rfl : request = request' := Except.ok.inj (hrequest.symm.trans hrequest')
    refine ⟨request, hrequest, ?_⟩
    exact (performs_iff (by decide) h (clock 0) hserved.known).mp ⟨answer, db', hperform, hfits⟩
  · rintro ⟨request, hrequest, hserved⟩
    obtain ⟨request', answer, db', hrequest', hperform, hsent⟩ :=
      (answered_iff_served clock hbuf hresp (.inl hd₂) h).mpr
        ⟨request, hrequest, hserved.mono (by decide)⟩
    obtain rfl : request = request' := Except.ok.inj (hrequest.symm.trans hrequest')
    obtain ⟨answer', db₁, hperform', hfits⟩ :=
      (performs_iff (by decide) h (clock 0) hserved.known).mpr hserved
    obtain rfl : answer' = answer :=
      (Prod.mk.inj (Except.ok.inj (hperform'.symm.trans hperform))).1
    obtain ⟨type, key, value, rfl, htext⟩ := htype request hrequest
    exact ⟨_, answer', db', hrequest, hperform, hsent, hfits, fun recvline hrecvline =>
      responseData_answer (perform_ne_done htext hperform) hfits hrecvline⟩

/-- **Replies fit their readers** exactly when the request is one that is answered and the
text it asks for leaves room, in an array of `MAXLINE` bytes, for the five bytes in front
of it and for its terminator. -/
theorem reply_delivered_iff (hreach : Reachable db) :
    Delivered clock resp buf d db ↔ ∃ request t, requestOf buf d = .ok request ∧
      Holds .linear db t ∧ request.Served maxline t db.locked := by
  constructor
  · intro hdelivered
    obtain ⟨t, h⟩ := hreach.holds
    obtain ⟨request, hrequest, hserved⟩ :=
      (delivered_iff_served clock hbuf hresp hd h).mp hdelivered
    exact ⟨request, t, hrequest, h, hserved⟩
  · rintro ⟨request, t, hrequest, h, hserved⟩
    exact (delivered_iff_served clock hbuf hresp hd h).mpr ⟨request, hrequest, hserved⟩

end Delivery

def twoChildren : List Call :=
  [.set (lit ['.', 'k', '.', 'a']) (some (lit ['1'])), .set (lit ['.', 'k', '.', 'b']) (some (lit ['2']))]

/-- The requester has the names of both. -/
theorem reply_delivered_iff_children :
    ∃ db₀ replies db answer, csdbInit 0 = .ok db₀ ∧
      run .linear (fun _ => 0) 0 twoChildren db₀ = .ok (replies, db) ∧
      csReceivePackets .linear (fun _ => 0) (List.replicate cspMaxpacketSize 0) (List.replicate maxline 0)
        ([csVer, csReq, csLs] ++ field (lit ['.', 'k'])) db = .ok (some answer, db) ∧
      ∀ recvline, recvline.length = maxline →
        responseData recvline answer = .ok (some (lit ['b', ' ', 'a', ' '])) := by
  have hv : csdbIsValidKey (lit ['.', 'k']) = true := by decide
  have hbuf : (List.replicate maxline (0 : UInt8)).length = maxline := List.length_replicate
  obtain ⟨db₀, replies, db, hinit, hrun, hnames⟩ : ∃ db₀ replies db, csdbInit 0 = .ok db₀ ∧
      run .linear (fun _ => 0) 0 twoChildren db₀ = .ok (replies, db) ∧
      csdbGetChildNamesForKey .linear db (lit ['.', 'k']) =
        .ok (2, some ([lit ['b'], lit ['a']], lit ['b', ' ', 'a', ' '])) := ⟨_, _, _, rfl, rfl, rfl⟩
  have hreach : Reachable db := (Reachable.init 0 db₀ hinit).run (by decide) hrun
  obtain ⟨t, h⟩ := hreach.holds
  have hrequest := requestOf_key hbuf (by decide : csLs ≠ csSet) (by decide : (lit ['.', 'k']).length + 5 < maxline)
  have hserved : (Request.db csLs (lit ['.', 'k']) none).Served maxline t db.locked := by
    refine ⟨hv, by decide, fun h => absurd h (by decide), fun h => absurd h (by decide),
      fun h => absurd h (by decide), fun _ d hd hleaf => ?_⟩
    obtain ⟨L, hrep⟩ := h
    rw [csdbGetChildNamesForKey_spec hrep (bounded_linear t) hv, hd, namesReply] at hnames
    split at hnames
    · cases hnames
    · simp only [Except.ok.injEq, Prod.mk.injEq, Option.some.injEq] at hnames
      rw [hnames.2.2]
      decide
  obtain ⟨request, answer, db', hrequest', hperform, hsent, -, hread⟩ := (reply_delivered_iff (fun _ => 0) hbuf
    List.length_replicate (.inr rfl) hreach).mpr ⟨_, t, hrequest, h, hserved⟩
  cases hrequest.symm.trans hrequest'
  rw [Request.perform, if_pos hv, if_neg (by decide), if_neg (by decide), if_neg (by decide), if_pos rfl, hnames] at hperform
  cases hperform
  exact ⟨db₀, replies, db, _, hinit, hrun, hsent, hread⟩

/-! ## A value that grows -/

/-- A value is set and another one appended. -/
theorem grown_value {key : CStr} (hv : csdbIsValidKey key = true) (first second : CStr) :
    ∃ db t mtime, Reachable db ∧ Holds .linear db t ∧
      t.record (keyPath key).reverse = some ⟨true, some (first ++ (space :: second)), mtime⟩ := by
  obtain ⟨db₀, hinit, ⟨L₀, hrep₀⟩, hfree₀⟩ := csdbInit_spec .linear 0
  obtain ⟨db₁, t₁, hset, ⟨L₁, hrep₁⟩, hfree₁, hrec₁⟩ :=
    csdbSetValueForKey_spec hrep₀ (bounded_linear _) hfree₀ hv (some first) 0
  have hreach₁ : Reachable db₁ :=
    .call 0 (.set key (some first)) (.ret 0) db₀ db₁ (.init 0 db₀ hinit) hv (map_of_ok _ hset)
  have hr₁ := hrec₁ (keyPath key).reverse
  rw [setRecord, if_pos rfl] at hr₁
  obtain ⟨db₂, t₂, happend, hholds₂, -, hrec₂⟩ := csdbAppendValueForKey_spec hrep₁
    (hrep₁.finds (bounded_linear _) hv) hfree₁ second (some [space]) 0 hr₁ rfl
  have hreach₂ : Reachable db₂ :=
    .call 0 (.append key (some second) (some [space])) (.ret 0) db₁ db₂ hreach₁ hv
      (map_of_ok _ happend)
  refine ⟨db₂, t₂, 0, hreach₂, hholds₂, ?_⟩
  rw [hrec₂, if_pos rfl]
  rfl

/-- A value that leaves no room for its terminator is not delivered. -/
theorem long_value_not_delivered {db : Database} {t : Tree} (h : Holds .linear db t)
    (clock : Nat → Int) {buf resp : Bytes} (hbuf : buf.length = maxline)
    (hresp : resp.length = cspMaxpacketSize) {key v : CStr} {mtime : Int}
    (hr : t.record (keyPath key).reverse = some ⟨true, some v, mtime⟩)
    (hkey : key.length + 5 < maxline) (hlong : maxline ≤ 5 + v.length) :
    ¬ Delivered clock resp buf ([csVer, csReq, csGet] ++ field key) db := by
  rw [delivered_iff_served clock hbuf hresp (.inl rfl) h, requestOf_key hbuf (by decide) hkey]
  rintro ⟨request, hrequest, hserved⟩
  rw [← Except.ok.inj hrequest] at hserved
  obtain ⟨v', hvalue, hlen⟩ := (hserved.2.2.2.1 rfl).2 _ hr rfl
  rw [← Option.some.inj hvalue] at hlen
  exact Nat.not_lt.mpr hlong hlen

/-- Two values of 2045 bytes and the space between them make a response of `MAXLINE`
bytes. -/
theorem grown_value_not_delivered :
    ∃ db, Reachable db ∧ ∀ clock, ¬ Delivered clock (List.replicate cspMaxpacketSize 0)
      (List.replicate maxline 0) ([csVer, csReq, csGet] ++ field (lit ['.', 'k'])) db := by
  obtain ⟨half, hhalf⟩ : ∃ half : CStr, half.length = 2045 :=
    ⟨List.replicate 2045 dot, List.length_replicate⟩
  obtain ⟨db, t, mtime, hreach, hholds, hr⟩ :=
    grown_value (by decide : csdbIsValidKey (lit ['.', 'k']) = true) half half
  have hlong : maxline ≤ 5 + (half ++ (space :: half)).length := by
    rw [List.length_append, List.length_cons, hhalf]
    decide
  exact ⟨db, hreach, fun clock => long_value_not_delivered hholds clock List.length_replicate
    List.length_replicate hr (by decide) hlong⟩

end Dkmp.Csd
