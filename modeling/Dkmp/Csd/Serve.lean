import Dkmp.Csd.Wire
import Dkmp.Csd.ReplySize
import Dkmp.Csdb.Agree

/-! # Requests as operations of the store

A database request that the daemon answers is one operation of the abstract store, and
its answer is what that operation gives. Only the length of a text is not kept: it is
sent modulo 2^16.
-/

namespace Dkmp.Csd

open Machine Csdb Csp Csc

inductive Request.Asks : Request → Op → Prop where
  | set (key : ValidKey) (c : CChar) (value : CStr) :
      Request.Asks (.db csSet key.val (some (c :: value))) (.edit (.set key (c :: value)))
  | get (key : ValidKey) (value : Option CStr) : Request.Asks (.db csGet key.val value) (.getValue key)
  | del (key : ValidKey) (value : Option CStr) : Request.Asks (.db csDel key.val value) (.edit (.remove key))
  | ls (key : ValidKey) (value : Option CStr) : Request.Asks (.db csLs key.val value) (.childNames key)

/-- What an answer says about the result of an operation. A list of names is given in some
order. -/
inductive Answer.Tells : Answer → Csdb.Answer → Prop where
  | done (n : Int) : 0 ≤ n → Answer.Tells .done (.ret n)
  | failed (n : Int) : n < 0 → Answer.Tells .failed (.ret n)
  | value (n : Int) (v : CStr) : Answer.Tells (.data v) (.value n (some v))
  | noValue (n : Int) : Answer.Tells .failed (.value n none)
  | names (names : Set CStr) (l : List CStr) : l.Nodup → (∀ x, x ∈ l ↔ x ∈ names) →
      Answer.Tells (.data (l.flatMap (· ++ [space]))) (.names (some names))
  | noNames : Answer.Tells .failed (.names none)

/-- A set of the empty string is refused before the database is asked. -/
inductive Request.Does : Request → Store → Answer → Store → Prop where
  | op (request : Request) (op : Op) (s : Store) (result : Csdb.Answer) (s' : Store) (answer : Answer) :
      request.Asks op → op.spec s = .ok (result, s') → answer.Tells result → request.Does s answer s'
  | setEmpty (key : ValidKey) (s : Store) : Request.Does (.db csSet key.val (some [])) s .failed s

def InState (db : Database) (s : Store) : Prop :=
  db.locked = s.locked ∧ ∃ t, Holds .linear db t ∧ Models t s.map

section Does

variable {db db' : Database} {s : Store}

theorem op_inState (h : InState db s) (op : Op) {now : Int} {reply : Reply}
    (hexec : op.call.exec .linear now db = .ok (reply, db')) :
    ∃ result s', op.spec s = .ok (result, s') ∧ reply.Gives .linear result ∧ InState db' s' := by
  obtain ⟨hl, t, ht, hm⟩ := h
  have houtcome := op_refines ht (bounded_linear t) hm hl op now
  rw [hexec] at houtcome
  cases hspec : op.spec s with
  | error e =>
      rw [hspec] at houtcome
      exact houtcome.elim
  | ok y =>
      rw [hspec] at houtcome
      exact ⟨y.1, y.2, rfl, houtcome.1, houtcome.2⟩

theorem tells_ret {n : Int} {result : Csdb.Answer} (h : (Reply.ret n).Gives .linear result) :
    (if n < 0 then Answer.failed else .done).Tells result := by
  cases result with
  | ret m =>
      have hnm : n = m := h
      subst hnm
      split
      · next hneg => exact .failed n hneg
      · next hpos => exact .done n (by omega)
  | value m w => exact False.elim h
  | names out =>
      cases out <;> exact False.elim h

/-- A value is there exactly when the call does not fail. -/
theorem getValue_result {key : ValidKey} {s' : Store} {result : Csdb.Answer}
    (hspec : (Op.getValue key).spec s = .ok (result, s')) {n : Int} {value : Option CStr}
    (hgives : (Reply.value n value).Gives .linear result) : result = .value n value ∧ (0 ≤ n ↔ value.isSome) := by
  simp only [Op.spec] at hspec
  split at hspec
  · cases hspec
  · cases hspec
    obtain ⟨rfl, rfl⟩ := hgives
    refine ⟨rfl, ?_⟩
    unfold valueOf
    split <;> simp [ecsInvalidkey, ecsNoleaf]

theorem childNames_nonempty {key : ValidKey} {s' : Store} {names : Set CStr}
    (hspec : (Op.childNames key).spec s = .ok (.names (some names), s')) : names.Nonempty := by
  simp only [Op.spec, Except.ok.injEq, Prod.mk.injEq, Csdb.Answer.names.injEq, childrenOf] at hspec
  obtain ⟨hnames, -⟩ := hspec
  split at hnames
  · next hchildren =>
    rw [← Option.some.inj hnames]
    exact hchildren.2
  · cases hnames

theorem perform_does (h : InState db s) {type : UInt8} {key : CStr} {value : Option CStr}
    (hknown : (Request.db type key value).Known) {now : Int} {answer : Answer}
    (hrun : (Request.db type key value).perform .linear now db = .ok (answer, db')) :
    ∃ s', (Request.db type key value).Does s answer s' ∧ InState db' s' := by
  obtain ⟨hvalid, htype⟩ := hknown
  simp only [List.mem_cons, List.not_mem_nil, or_false] at htype
  rcases htype with rfl | rfl | rfl | rfl
  · simp only [Request.perform, if_pos hvalid, if_true] at hrun
    rcases value with _ | _ | ⟨c, value⟩
    · cases hrun
    · cases hrun
      exact ⟨s, .setEmpty ⟨key, hvalid⟩ s, h⟩
    · obtain ⟨⟨ret, db₁⟩, hcall, hret⟩ := bind_eq_ok hrun
      have hexec : (Op.edit (.set ⟨key, hvalid⟩ (c :: value))).call.exec .linear now db = .ok (.ret ret, db₁) :=
        map_of_ok _ hcall
      obtain ⟨result, s', hspec, hgives, hstate⟩ := op_inState h _ hexec
      cases hret
      exact ⟨s', .op _ _ s result s' _ (.set ⟨key, hvalid⟩ c value) hspec (tells_ret hgives), hstate⟩
  · simp only [Request.perform, if_pos hvalid, if_neg (by decide : ¬ csGet = csSet), if_true] at hrun
    obtain ⟨⟨err, found, db₁⟩, hcall, hret⟩ := bind_eq_ok hrun
    have hexec : (Op.getValue ⟨key, hvalid⟩).call.exec .linear now db = .ok (.value err found, db₁) :=
      map_of_ok _ hcall
    obtain ⟨result, s', hspec, hgives, hstate⟩ := op_inState h _ hexec
    obtain ⟨rfl, hsome⟩ := getValue_result hspec hgives
    dsimp only at hret
    cases found with
    | none =>
        rw [if_neg (by simpa using hsome)] at hret
        cases hret
        exact ⟨s', .op _ _ s _ s' _ (.get ⟨key, hvalid⟩ value) hspec (.noValue err), hstate⟩
    | some v =>
        rw [if_pos (hsome.mpr rfl)] at hret
        cases hret
        exact ⟨s', .op _ _ s _ s' _ (.get ⟨key, hvalid⟩ value) hspec (.value err v), hstate⟩
  · simp only [Request.perform, if_pos hvalid, if_neg (by decide : ¬ csDel = csSet),
      if_neg (by decide : ¬ csDel = csGet), if_true] at hrun
    obtain ⟨⟨err, db₁⟩, hcall, hret⟩ := bind_eq_ok hrun
    have hexec : (Op.edit (.remove ⟨key, hvalid⟩)).call.exec .linear now db = .ok (.ret err, db₁) :=
      map_of_ok _ hcall
    obtain ⟨result, s', hspec, hgives, hstate⟩ := op_inState h _ hexec
    cases hret
    exact ⟨s', .op _ _ s result s' _ (.del ⟨key, hvalid⟩ value) hspec (tells_ret hgives), hstate⟩
  · simp only [Request.perform, if_pos hvalid, if_neg (by decide : ¬ csLs = csSet),
      if_neg (by decide : ¬ csLs = csGet), if_neg (by decide : ¬ csLs = csDel), if_true] at hrun
    obtain ⟨⟨ret, names⟩, hcall, hret⟩ := bind_eq_ok hrun
    have hexec : (Op.childNames ⟨key, hvalid⟩).call.exec .linear now db = .ok (.names ret names, db) :=
      map_of_ok _ hcall
    obtain ⟨result, s', hspec, hgives, hstate⟩ := op_inState h _ hexec
    dsimp only at hret
    cases result with
    | ret m => exact False.elim hgives
    | value m w => exact False.elim hgives
    | names out =>
        cases out with
        | none =>
            obtain ⟨rfl, rfl⟩ := hgives
            cases hret
            exact ⟨s', .op _ _ s _ s' _ (.ls ⟨key, hvalid⟩ value) hspec .noNames, hstate⟩
        | some set =>
            obtain ⟨l, rfl, rfl, hnodup, hmem, -⟩ := hgives
            obtain ⟨x, hx⟩ := childNames_nonempty hspec
            have hpos : ¬ (l.length : Int) ≤ 0 := by
              have hlen := List.length_pos_of_mem ((hmem x).mpr hx)
              omega
            rw [if_neg hpos] at hret
            cases hret
            exact ⟨s', .op _ _ s _ s' _ (.ls ⟨key, hvalid⟩ value) hspec (.names set l hnodup hmem), hstate⟩

theorem op_runs (h : InState db s) (hfree : s.locked = false) (op : Op) (now : Int) :
    ∃ reply db', op.call.exec .linear now db = .ok (reply, db') := by
  obtain ⟨hl, t, ht, hm⟩ := h
  have houtcome := op_refines ht (bounded_linear t) hm hl op now
  obtain ⟨y, hspec⟩ : ∃ y, op.spec s = .ok y := by
    cases op <;> simp [Op.spec, hfree]
  rw [hspec] at houtcome
  cases hexec : op.call.exec .linear now db with
  | error e =>
      rw [hexec] at houtcome
      exact houtcome.elim
  | ok x => exact ⟨x.1, x.2, rfl⟩

theorem of_map_ok {α β : Type} {x : Exec α} {f : α → β} {b : β} (h : x.map f = .ok b) : ∃ a, x = .ok a ∧ f a = b := by
  cases x with
  | error e => cases h
  | ok a => exact ⟨a, rfl, Except.ok.inj h⟩

theorem perform_runs (h : InState db s) (hfree : s.locked = false) {type : UInt8} {key : CStr} {value : Option CStr}
    (hknown : (Request.db type key value).Known) (hset : type = csSet → value.isSome) (now : Int) :
    ∃ answer db', (Request.db type key value).perform .linear now db = .ok (answer, db') := by
  obtain ⟨hvalid, htype⟩ := hknown
  simp only [List.mem_cons, List.not_mem_nil, or_false] at htype
  rcases htype with rfl | rfl | rfl | rfl
  · simp only [Request.perform, if_pos hvalid, if_true]
    rcases value with _ | _ | ⟨c, value⟩
    · cases hset rfl
    · exact ⟨_, _, rfl⟩
    · obtain ⟨reply, db', hexec⟩ := op_runs h hfree (.edit (.set ⟨key, hvalid⟩ (c :: value))) now
      obtain ⟨⟨ret, db₁⟩, hcall, -⟩ := of_map_ok hexec
      dsimp only at hcall
      simp only [hcall, ok_bind]
      exact ⟨_, _, rfl⟩
  · simp only [Request.perform, if_pos hvalid, if_neg (by decide : ¬ csGet = csSet), if_true]
    obtain ⟨reply, db', hexec⟩ := op_runs h hfree (.getValue ⟨key, hvalid⟩) now
    obtain ⟨⟨err, found, db₁⟩, hcall, hreply⟩ := of_map_ok hexec
    obtain ⟨result, s', hspec, hgives, -⟩ := op_inState h _ hexec
    cases hreply
    obtain ⟨-, hsome⟩ := getValue_result hspec hgives
    dsimp only at hcall
    simp only [hcall, ok_bind]
    cases found with
    | none =>
        rw [if_neg (by simpa using hsome)]
        exact ⟨_, _, rfl⟩
    | some v =>
        rw [if_pos (hsome.mpr rfl)]
        exact ⟨_, _, rfl⟩
  · simp only [Request.perform, if_pos hvalid, if_neg (by decide : ¬ csDel = csSet),
      if_neg (by decide : ¬ csDel = csGet), if_true]
    obtain ⟨reply, db', hexec⟩ := op_runs h hfree (.edit (.remove ⟨key, hvalid⟩)) now
    obtain ⟨⟨ret, db₁⟩, hcall, -⟩ := of_map_ok hexec
    dsimp only at hcall
    simp only [hcall, ok_bind]
    exact ⟨_, _, rfl⟩
  · simp only [Request.perform, if_pos hvalid, if_neg (by decide : ¬ csLs = csSet),
      if_neg (by decide : ¬ csLs = csGet), if_neg (by decide : ¬ csLs = csDel), if_true]
    obtain ⟨reply, db', hexec⟩ := op_runs h hfree (.childNames ⟨key, hvalid⟩) now
    obtain ⟨⟨ret, out⟩, hcall, hreply⟩ := of_map_ok hexec
    obtain ⟨result, s', -, hgives, -⟩ := op_inState h _ hexec
    cases hreply
    dsimp only at hcall
    simp only [hcall, ok_bind]
    cases out with
    | some names => split <;> exact ⟨_, _, rfl⟩
    | none =>
        have hneg : ret ≤ 0 := by
          cases result with
          | ret m => exact False.elim hgives
          | value m w => exact False.elim hgives
          | names set =>
              cases set with
              | none =>
                  have hret : ret = -1 := hgives.1
                  omega
              | some names =>
                  obtain ⟨l, hl, -⟩ := hgives
                  cases hl
        rw [if_pos hneg]
        exact ⟨_, _, rfl⟩

/-! ## The datagram sent back -/

/-- What the requester gets of an answer. -/
def Answer.cut : Answer → Answer
  | .data text => .data (cut16 text)
  | answer => answer

theorem pack_cut {resp packet : Bytes} (hresp : resp.length = cspMaxpacketSize) {answer : Answer} {n : Nat}
    (hpack : answer.pack resp = .ok (n, packet)) :
    packet.take n = answer.cut.bytes ∧ answer.cut.bytes.length ≤ cspMaxpacketSize := by
  have hcut : answer.pack resp = answer.cut.pack resp ∧ answer.cut.bytes.length ≤ cspMaxpacketSize := by
    cases answer with
    | failed => exact ⟨rfl, by decide⟩
    | done => exact ⟨rfl, by decide⟩
    | data text =>
        have hsize : cspMaxpacketSize = 65535 := rfl
        have hlen := length_bytes_data (cut16 text)
        rw [length_cut16] at hlen
        by_cases hfits : text.length % 65536 + 5 ≤ cspMaxpacketSize
        · refine ⟨?_, by rw [Answer.cut]; omega⟩
          have htext := cspPackRespPacket_cut csRespSucc (hresp.symm ▸ hfits) (by omega)
          have hshort := @cspPackRespPacket_data resp csRespSucc (cut16 text) (by rw [length_cut16]; omega)
            (by rw [length_cut16]; omega)
          rw [length_cut16] at hshort
          exact htext.trans hshort.symm
        · rw [Answer.pack, cspPackRespPacket_overflow csRespSucc hresp (by omega)] at hpack
          cases hpack
  obtain ⟨n', packet', hpack', hbytes⟩ := (answer.cut.pack_iff hresp).mpr hcut.2
  rw [← hcut.1, hpack, Except.ok.injEq, Prod.mk.injEq] at hpack'
  rw [hpack'.1, hpack'.2]
  exact ⟨hbytes, hcut.2⟩

/-- The daemon takes a request: what it sends back is the answer of the store. -/
theorem csReceivePackets_does (h : InState db s) {clock : Nat → Int} {resp buf d : Bytes}
    (hresp : resp.length = cspMaxpacketSize) (hbuf : buf.length = maxline) {type : UInt8}
    (hheader : d.take 3 = [csVer, csReq, type]) {reply : Option Bytes}
    (hrun : csReceivePackets .linear clock resp buf d db = .ok (reply, db')) :
    ∃ request answer s', requestOf buf d = .ok request ∧ request.Does s answer s' ∧ InState db' s' ∧
      reply = some answer.cut.bytes ∧ answer.cut.bytes.length ≤ cspMaxpacketSize := by
  have htwo : d.take 2 = [csVer, csReq] := by
    have := congrArg (List.take 2) hheader
    simpa [List.take_take] using this
  rw [csReceivePackets_request clock resp hbuf (.inl htwo)] at hrun
  obtain ⟨request, hrequest, hrun⟩ := bind_eq_ok hrun
  obtain ⟨⟨response, db₁⟩, hrespond, hret⟩ := bind_eq_ok hrun
  cases hret
  obtain ⟨key, value, rfl⟩ := requestOf_type hbuf hheader hrequest
  have hknown : (Request.db type key value).Known := by
    by_contra hunknown
    rw [respond_unknown (clock 0) resp hunknown] at hrespond
    cases hrespond
  obtain ⟨t, ht, -⟩ := h.2
  rw [respond_eq ht (clock 0) hresp hknown] at hrespond
  obtain ⟨⟨answer, db₂⟩, hperform, hcont⟩ := bind_eq_ok hrespond
  obtain ⟨⟨n, packet⟩, hpack, hret⟩ := bind_eq_ok hcont
  cases hret
  obtain ⟨s', hdoes, hstate⟩ := perform_does h hknown hperform
  obtain ⟨hbytes, hlength⟩ := pack_cut hresp hpack
  exact ⟨_, answer, s', hrequest, hdoes, hstate, congrArg some hbytes, hlength⟩

/-- A request that the daemon knows, with an answer that fits its array, is answered. -/
theorem csReceivePackets_runs (h : InState db s) (hfree : s.locked = false) (clock : Nat → Int) {resp buf d : Bytes}
    (hresp : resp.length = cspMaxpacketSize) (hbuf : buf.length = maxline) {type : UInt8}
    (hheader : d.take 3 = [csVer, csReq, type]) {key : CStr} {value : Option CStr}
    (hrequest : requestOf buf d = .ok (.db type key value)) (hknown : (Request.db type key value).Known)
    (hset : type = csSet → value.isSome)
    (hfits : ∀ answer s', (Request.db type key value).Does s answer s' → answer.bytes.length ≤ cspMaxpacketSize) :
    ∃ answer s' db', csReceivePackets .linear clock resp buf d db = .ok (some answer.bytes, db') ∧
      (Request.db type key value).Does s answer s' ∧ InState db' s' := by
  obtain ⟨answer, db', hperform⟩ := perform_runs h hfree hknown hset (clock 0)
  obtain ⟨s', hdoes, hstate⟩ := perform_does h hknown hperform
  obtain ⟨n, packet, hpack, hbytes⟩ := (answer.pack_iff hresp).mpr (hfits answer s' hdoes)
  obtain ⟨t, ht, -⟩ := h.2
  have htwo : d.take 2 = [csVer, csReq] := by
    have := congrArg (List.take 2) hheader
    simpa [List.take_take] using this
  refine ⟨answer, s', db', ?_, hdoes, hstate⟩
  simp only [csReceivePackets_request clock resp hbuf (.inl htwo), hrequest, ok_bind,
    respond_eq ht (clock 0) hresp hknown, hperform, hpack, hbytes]

end Does

end Dkmp.Csd
