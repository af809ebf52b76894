import Dkmp.Csm.Session

/-! # A command that reaches the daemon

When neither datagram is lost, a line with a command of csm runs to its answer: nothing
on the way leaves an array, the daemon answers, and the client prints what the store
gives. A command that answers without data needs an earlier one that answered with some:
`resp_data` is printed for both.
-/

namespace Dkmp.Csm

open Machine Csdb Csp Csd Csc

/-! ## The client sends -/

theorem fgets_length {n : Nat} {input line rest : CStr} (h : fgets n input = (line, rest)) : line.length ≤ n := by
  induction n generalizing input line rest with
  | zero =>
      rw [fgets, Prod.mk.injEq] at h
      rw [← h.1]
      exact le_rfl
  | succ n ih =>
      cases input with
      | nil =>
          rw [fgets, Prod.mk.injEq] at h
          rw [← h.1]
          exact Nat.zero_le _
      | cons c input =>
          by_cases hc : c = newline
          · rw [fgets, if_pos hc, Prod.mk.injEq] at h
            rw [← h.1]
            exact Nat.succ_le_succ (Nat.zero_le n)
          · rw [fgets, if_neg hc, Prod.mk.injEq] at h
            rw [← h.1]
            exact Nat.succ_le_succ (ih (Prod.mk.eta (p := fgets n input)).symm)

theorem length_of_scanString {text word rest : CStr} (h : scanString text = some (word, rest)) :
    word.length ≤ text.length ∧ rest.length ≤ text.length := by
  have hdrop := (List.dropWhile_sublist (isspace ·) (l := text)).length_le
  rw [scanString] at h
  split at h
  · cases h
  · next c s heq =>
    rw [Option.some.injEq, Prod.mk.injEq] at h
    rw [heq] at hdrop
    rw [← h.1, ← h.2]
    exact ⟨((List.takeWhile_sublist _).length_le).trans hdrop, ((List.dropWhile_sublist _).length_le).trans hdrop⟩

theorem scanInto_fits {array : Bytes} {s : CStr} (h : s.length < array.length) :
    ∃ array', scanInto array s = .ok array' := by
  refine ⟨_, if_pos ?_⟩
  rw [List.length_append, length_chars, List.length_singleton]
  omega

theorem sscanfCommand_total {line : CStr} {c : Cli} (hsized : c.Sized) (hline : line.length < maxline) :
    ∃ c', sscanfCommand line c = .ok c' := by
  rw [sscanfCommand]
  cases hfirst : scanString line with
  | none => exact ⟨c, rfl⟩
  | some first =>
      obtain ⟨type, rest⟩ := first
      have hlen := length_of_scanString hfirst
      obtain ⟨typeArray, htype⟩ := @scanInto_fits c.type type (by rw [hsized.type]; omega)
      simp only [htype, ok_bind]
      cases hsecond : scanString rest with
      | none => exact ⟨_, rfl⟩
      | some second =>
          obtain ⟨key, rest'⟩ := second
          have hlen' := length_of_scanString hsecond
          obtain ⟨keyArray, hkey⟩ := @scanInto_fits c.key key (by rw [hsized.key]; omega)
          simp only [hkey, ok_bind]
          cases hthird : (rest'.dropWhile isspace).takeWhile (· ≠ newline) with
          | nil => exact ⟨_, rfl⟩
          | cons x value =>
              have htake := (List.takeWhile_sublist (· ≠ newline) (l := rest'.dropWhile isspace)).length_le
              have hdrop := (List.dropWhile_sublist isspace (l := rest')).length_le
              rw [hthird] at htake
              obtain ⟨valueArray, hvalue⟩ := @scanInto_fits c.value (x :: value) (by rw [hsized.value]; omega)
              simp only [hvalue, ok_bind]
              exact ⟨_, rfl⟩

structure Command.Proper (c : Command) : Prop where
  key : csdbIsValidKey c.key = true
  type : c.type ∈ [csSet, csGet, csDel, csLs]
  value : c.type = csSet → c.value ≠ []
  fits : 9 + c.key.length + c.value.length < maxline

theorem ne_nil_of_valid {key : CStr} (h : csdbIsValidKey key = true) : key ≠ [] := by
  rintro rfl
  cases h

theorem csdCliSend_total {c : Cli} (hsized : c.Sized) {line rest : CStr}
    (hline : fgets (maxline - 1) c.input = (line, rest)) (hne : line ≠ []) {command : Command}
    (hreaction : (c.words.scan (line.takeWhile (· ≠ newline))).reaction = .ok (.send command))
    (hproper : command.Proper) :
    ∃ c' d, csdCliSend c = .ok (c', some d) ∧ d.length < maxline ∧
      ∀ before, before.length = maxline → ∃ value after,
        cspUnpackDbreqRequest (recvfrom before d) 3 command.type = .ok (command.key, value, after) ∧
        (command.type = csSet → value = some command.value) := by
  have hmax : maxline = 4096 := rfl
  have hlength := fgets_length hline
  have hcut := (List.takeWhile_sublist (· ≠ newline) (l := line)).length_le
  obtain ⟨c₁, hscan⟩ := @sscanfCommand_total (line.takeWhile (· ≠ newline)) _ (hsized.withInput rest) (by omega)
  obtain ⟨hsized₁, hwords, -⟩ := sscanfCommand_scan (hsized.withInput rest) hscan
  have hwords₁ : c₁.words = c.words.scan (line.takeWhile (· ≠ newline)) := hwords
  rw [← hwords₁] at hreaction
  obtain ⟨type, htype, hreaction⟩ := bind_eq_ok hreaction
  split at hreaction
  · cases hreaction
  next hquit =>
  split at hreaction
  · cases hreaction
  next hnop =>
  obtain ⟨key, hkey, hreaction⟩ := bind_eq_ok hreaction
  obtain ⟨value, hvalue, hreaction⟩ := bind_eq_ok hreaction
  cases hreaction
  obtain ⟨hvalid, -, hset, hfits⟩ := hproper
  have hpacked : ∀ before, before.length = maxline → ∃ n packet after, cspPackDbreqPacket c₁.packet (some key) (some value)
      (csTypeOf type) = .ok ((n : Nat), packet) ∧ n < maxline ∧
      cspUnpackDbreqRequest (recvfrom before (packet.take n)) 3 (csTypeOf type) =
        .ok (key, if csTypeOf type = csSet then some value else none, after) := fun before hbefore =>
    (csp_round_trip hsized₁.packet hbefore).1 (csTypeOf type) key (some value)
      (ne_nil_of_valid hvalid) hset hfits
  obtain ⟨n, packet, -, hpack, hn, -⟩ := hpacked zeros List.length_replicate
  have hpacketLength : packet.length = maxline := by
    rw [(keeps_of_cspPackDbreqPacket (by rw [hsized₁.packet]; decide) hpack).1, hsized₁.packet]
  have hread : readBytes packet 0 (n : Int).toNat = .ok (packet.take n) := by
    rw [readBytes, Int.toNat_natCast, if_pos (by omega), List.drop_zero]
  obtain ⟨x, more, rfl⟩ := List.exists_cons_of_ne_nil hne
  refine ⟨{ c₁ with packet := packet, phase := .waiting }, packet.take n, ?_, ?_, ?_⟩
  · simp only [csdCliSend, hline, hscan, ok_bind]
    have htype' : readString c₁.type 0 = .ok type := htype
    have hkey' : readString c₁.key 0 = .ok key := hkey
    have hvalue' : readString c₁.value 0 = .ok value := hvalue
    simp only [htype', ok_bind, if_neg hquit, if_neg hnop, hkey', hvalue', hpack, hread]
  · rw [List.length_take]
    omega
  · intro before hbefore
    obtain ⟨n', packet', after, hpack', -, hunpack⟩ := hpacked before hbefore
    rw [hpack, Except.ok.injEq, Prod.mk.injEq, Nat.cast_inj] at hpack'
    rw [← hpack'.1, ← hpack'.2] at hunpack
    exact ⟨_, after, hunpack, fun hs => if_pos hs⟩

/-! ## The daemon answers -/

theorem requestOf_of_unpack {buf d : Bytes} (hbuf : buf.length = maxline) (hd : d.length < maxline) {type : UInt8}
    (hheader : d.take 3 = [csVer, csReq, type]) {key : CStr} {P : Option CStr → Prop}
    (hunpack : ∀ before, before.length = maxline → ∃ value after,
      cspUnpackDbreqRequest (recvfrom before d) 3 type = .ok (key, value, after) ∧ P value) :
    ∃ value, requestOf buf d = .ok (.db type key value) ∧ P value := by
  obtain ⟨rest, hwrite, hlength⟩ := writeByte_received hd hbuf
  have hbefore : recvfrom (List.replicate d.length 0 ++ 0 :: rest) d = d ++ 0 :: rest := by
    rw [recvfrom_short (by simp)]
    simp
  obtain ⟨value, after, hvalue, hP⟩ := hunpack (List.replicate d.length 0 ++ 0 :: rest)
    (by rw [← hlength, List.length_append, List.length_append, List.length_replicate])
  rw [hbefore] at hvalue
  obtain ⟨tail, rfl⟩ : ∃ tail, d = csVer :: csReq :: type :: tail := by
    refine ⟨d.drop 3, ?_⟩
    rw [← List.take_append_drop 3 d, hheader]
    rfl
  have hkind : readByte (csVer :: csReq :: type :: tail ++ 0 :: rest) 1 = .ok csReq := rfl
  have hread : readByte (csVer :: csReq :: type :: tail ++ 0 :: rest) 2 = .ok type := rfl
  refine ⟨value, ?_, hP⟩
  simp only [requestOf, Nat.min_eq_left (Nat.le_of_lt hd), hwrite, ok_bind, hkind, if_true, hread, hvalue]

/-- Only a set and a removal are answered without data. -/
theorem does_done {type : UInt8} {key : CStr} {value : Option CStr} {x x' : Store}
    (h : (Request.db type key value).Does x .done x') : type = csSet ∨ type = csDel := by
  generalize hrequest : Request.db type key value = request at h
  generalize hdone : Csd.Answer.done = answer at h
  cases h with
  | setEmpty key s => cases hdone
  | op request op s result s' answer hasks hspec htells =>
      cases hasks with
      | set key c value =>
          cases hrequest
          exact .inl rfl
      | del key value =>
          cases hrequest
          exact .inr rfl
      | get key value =>
          cases htells with
          | done n hn =>
              simp only [Op.spec] at hspec
              split at hspec <;> cases hspec
          | _ => cases hdone
      | ls key value =>
          cases htells with
          | done n hn => cases hspec
          | _ => cases hdone

/-! ## The client prints -/

theorem csdCliReceive_total {c : Cli} (hsized : c.Sized) (hwiped : c.Wiped) {answer : Csd.Answer}
    (hfits : answer.bytes.length < maxline) (hpoint : answer = .done → c.respData ≠ none) :
    ∃ respData, csdCliReceive c answer.bytes = .ok (c.told (answerText answer) respData) := by
  have hmax : maxline ≤ cspMaxpacketSize := by decide
  suffices hok : ∃ c', csdCliReceive c answer.bytes = .ok c' by
    obtain ⟨c', hreceive⟩ := hok
    obtain ⟨respData, -, rfl⟩ := csdCliReceive_answer hsized hwiped (Nat.le_trans (Nat.le_of_lt hfits) hmax) hreceive
    exact ⟨respData, hreceive⟩
  cases answer with
  | failed =>
      rw [csdCliReceive, recvfrom_short (by rw [hsized.recvline]; decide)]
      exact ⟨_, rfl⟩
  | done =>
      rcases hwiped with hnone | ⟨hsome, hzeros⟩
      · exact absurd hnone (hpoint rfl)
      · rw [csdCliReceive, hzeros, recvfrom_short (by rw [zeros, List.length_replicate]; decide), hsome]
        exact ⟨_, rfl⟩
  | data text =>
      have hlen := length_bytes_data text
      obtain ⟨packet, hunpack, hstring⟩ := unpack_short hsized.recvline (by omega : 5 + text.length < maxline)
      rw [csdCliReceive, hunpack]
      simp only [ok_bind, Option.isSome_some, if_true, hstring]
      exact ⟨_, rfl⟩

/-! ## A whole command -/

section Command

variable {ι : Type} [DecidableEq ι]

structure Sends (c : Cli) (command : Command) : Prop where
  reading : c.phase = .reading
  line : ∃ line rest, fgets (maxline - 1) c.input = (line, rest) ∧ line ≠ [] ∧
    (c.words.scan (line.takeWhile (· ≠ newline))).reaction = .ok (.send command)
  proper : command.Proper
  point : command.type = csSet ∨ command.type = csDel → c.respData ≠ none

/-- The three steps of a command that is neither lost on the way nor back. -/
theorem command_steps {s : Site ι} {i : ι} (hsized : (s.cli i).Sized) (hwiped : (s.cli i).Wiped) {command : Command}
    (hsends : Sends (s.cli i) command) {x : Store} (hx : InState s.db x) (hfree : x.locked = false)
    (hfits : ∀ answer x', storeBehaviour.call x command answer x' → answer.bytes.length < maxline)
    {resp buf : Bytes} (hresp : resp.length = cspMaxpacketSize) (hbuf : buf.length = maxline) (clock : Nat → Int) :
    ∃ d answer x' s', storeBehaviour.call x command answer x' ∧
      steps siteStep [.send i, .serve i d resp buf clock, .receive i answer.bytes] s = .ok s' ∧
      InState s'.db x' ∧ (s'.cli i).phase = .reading ∧
      (s'.cli i).stdout = ((s.cli i).stdout ++ answerText answer) ++ promptText := by
  obtain ⟨line, rest, hline, hne, hreaction⟩ := hsends.line
  obtain ⟨c, d, hsend, hd, hunpack⟩ := csdCliSend_total hsized hline hne hreaction hsends.proper
  obtain ⟨htook, hpacked, hwaits, hout, hrecv⟩ : (s.cli i).Took c line ∧ command.Packed d ∧ c.phase = .waiting ∧
      c.stdout = (s.cli i).stdout ∧ c.recvline = (s.cli i).recvline := by
    rcases csdCliSend_cases hsized hsend with ⟨hnone, -⟩ | ⟨line', htook, hcases⟩
    · cases hnone
    obtain rfl : line = line' := (Prod.mk.inj (hline.symm.trans htook.read)).1
    rcases hcases with ⟨hnone, -⟩ | ⟨hnone, -⟩ | ⟨command', d', hd', hreaction', hpacked, hwaits, hout, hrecv⟩
    · cases hnone
    · cases hnone
    · cases hd'
      rw [htook.words, hreaction] at hreaction'
      cases hreaction'
      exact ⟨htook, hpacked, hwaits, hout, hrecv⟩
  -- what the daemon makes of the datagram
  obtain ⟨value, hrequest, hvalue⟩ := requestOf_of_unpack hbuf hd hpacked.header hunpack
  have hmeans : command.Means (.db command.type command.key value) :=
    ⟨command.key, value, rfl, fun _ => rfl, fun htype _ _ => hvalue htype⟩
  have hmax : maxline ≤ cspMaxpacketSize := by decide
  obtain ⟨answer, x', db', hserve, hdoes, hstate⟩ := csReceivePackets_runs hx hfree clock hresp hbuf hpacked.header
    hrequest ⟨hsends.proper.key, hsends.proper.type⟩ (fun htype => by rw [hvalue htype]; rfl)
    fun answer x' hdoes => Nat.le_trans (Nat.le_of_lt (hfits answer x' ⟨_, hmeans, hdoes⟩)) hmax
  have hwiped' : c.Wiped :=
    hwiped.imp (htook.respData.trans ·) fun hfive => ⟨htook.respData.trans hfive.1, hrecv.trans hfive.2⟩
  obtain ⟨respData, hreceive⟩ := csdCliReceive_total htook.sized hwiped' (hfits answer x' ⟨_, hmeans, hdoes⟩)
    fun hdone => by
      rw [htook.respData]
      subst hdone
      exact hsends.point (does_done hdoes)
  have hsent : siteStep s (.send i) = .ok ((s.setCli i c).setRequests i (s.requests i ++ [d])) := by
    simp only [siteStep, if_pos hsends.reading, hsend, ok_bind, Option.toList_some]
  generalize hs₁ : (s.setCli i c).setRequests i (s.requests i ++ [d]) = s₁ at hsent
  have hrequests₁ : (s₁.requests i).contains d := by
    rw [← hs₁]
    simp [Site.setRequests]
  have hcli₁ : s₁.cli i = c := by
    rw [← hs₁]
    simp [Site.setRequests, Site.setCli]
  have hdb₁ : s₁.db = s.db := by
    rw [← hs₁]
    rfl
  have hserved : ∃ s₂, siteStep s₁ (.serve i d resp buf clock) = .ok s₂ ∧ s₂.db = db' ∧ s₂.cli i = c ∧
      (s₂.replies i).contains answer.bytes := by
    simp only [siteStep, if_pos (⟨hrequests₁, hresp, hbuf⟩ : _ ∧ _ ∧ _), hdb₁, hserve, ok_bind]
    refine ⟨_, rfl, rfl, hcli₁, ?_⟩
    simp [Site.setReplies]
  obtain ⟨s₂, hstep₂, hdb₂, hcli₂, hreplies₂⟩ := hserved
  refine ⟨d, answer, x', (s₂.setCli i (c.told (answerText answer) respData)).setReplies i
    ((s₂.replies i).erase answer.bytes), ⟨_, hmeans, hdoes⟩, ?_, hdb₂ ▸ hstate, ?_, ?_⟩
  · have hreceived : siteStep s₂ (.receive i answer.bytes) = .ok ((s₂.setCli i (c.told (answerText answer) respData)).setReplies i
        ((s₂.replies i).erase answer.bytes)) := by
      simp only [siteStep, hcli₂, if_pos (⟨hwaits, hreplies₂⟩ : _ ∧ _), hreceive, ok_bind]
    simp only [steps, hsent, hstep₂, hreceived, ok_bind]
  · simp [Site.setReplies, Site.setCli, Cli.told]
  · simp [Site.setReplies, Site.setCli, Cli.told, hout]

/-- From any state that a site can be in, such a command is answered by what the store
gives, if the database is not locked and the answer fits `recvline`. -/
theorem command_answered (s₀ : Site ι) (hfresh : s₀.Fresh) (acts : List (SiteAction ι)) (s : Site ι)
    (hrun : steps siteStep acts s₀ = .ok s) (i : ι) (command : Command) (hsends : Sends (s.cli i) command)
    (x : Store) (hx : InState s.db x) (hfree : x.locked = false)
    (hfits : ∀ answer x', storeBehaviour.call x command answer x' → answer.bytes.length < maxline)
    (resp buf : Bytes) (hresp : resp.length = cspMaxpacketSize) (hbuf : buf.length = maxline)
    (clock : Nat → Int) :
    ∃ d answer x' s', storeBehaviour.call x command answer x' ∧
      steps siteStep [.send i, .serve i d resp buf clock, .receive i answer.bytes] s = .ok s' ∧
      InState s'.db x' ∧ (s'.cli i).phase = .reading ∧
      (s'.cli i).stdout = ((s.cli i).stdout ++ answerText answer) ++ promptText := by
  obtain ⟨a, -, hserves, -⟩ := hfresh.serves.steps hrun
  obtain ⟨words, input, shown, -, -, -, hstands⟩ := hserves.client i
  obtain ⟨hsized, hwiped⟩ : (s.cli i).Sized ∧ (s.cli i).Wiped := by
    generalize a.standing i = standing at hstands
    cases hstands with
    | reading _ hsized hwiped => exact ⟨hsized, hwiped⟩
    | asked _ _ _ hsized hwiped => exact ⟨hsized, hwiped⟩
    | served _ _ _ _ hsized hwiped => exact ⟨hsized, hwiped⟩
    | ended hended => exact absurd (hsends.reading.symm.trans hended) (by decide)
  exact command_steps hsized hwiped hsends hx hfree hfits hresp hbuf clock

end Command

/-! ## One client asks for a key -/

def getLine : CStr := lit ['g', 'e', 't', ' ', '.', 'k', '\n']

def getCommand : Command := ⟨csGet, lit ['.', 'k'], []⟩

def oneClient (db : Database) : Site Unit where
  db := db
  cli := fun _ => Cli.start getLine zeros zeros zeros zeros zeros
  requests := fun _ => []
  replies := fun _ => []

theorem oneClient_fresh {db : Database} (hdb : csdbInit 0 = .ok db) : (oneClient db).Fresh where
  db := ⟨0, hdb⟩
  cli := fun _ => ⟨⟨List.length_replicate, List.length_replicate, List.length_replicate, List.length_replicate,
    List.length_replicate⟩, rfl, rfl, rfl⟩
  requests := fun _ => rfl
  replies := fun _ => rfl

theorem oneClient_sends (db : Database) : Sends ((oneClient db).cli ()) getCommand where
  reading := rfl
  line := ⟨getLine, [], rfl, by decide, rfl⟩
  proper := ⟨by decide, by decide, by decide, by decide⟩
  point := fun h => absurd h (by decide)

def setKey : Op := .edit (.set ⟨lit ['.', 'k'], by decide⟩ (lit ['v']))

def storedValue : Store := ⟨((PathMap.init : Paths).set [lit ['k']] (lit ['v'])), false⟩

theorem oneClient_stored :
    ∃ db s, csdbInit 0 = .ok db ∧ siteStep (oneClient db) (.call setKey 0) = .ok s ∧ s.cli = (oneClient db).cli ∧
      InState s.db storedValue := by
  obtain ⟨db, hdb, hholds, hfree⟩ := csdbInit_spec .linear 0
  have hstate : InState db ⟨.init, false⟩ := ⟨hfree, _, hholds, Models.init 0⟩
  obtain ⟨reply, db', hexec⟩ := op_runs hstate rfl setKey 0
  obtain ⟨result, x, hspec, -, hstate'⟩ := op_inState hstate setKey hexec
  have hpath : ValidKey.path ⟨lit ['.', 'k'], by decide⟩ = [lit ['k']] := by decide
  simp only [setKey, Op.spec, Bool.false_eq_true, and_false, if_false, Edit.spec, hpath] at hspec
  cases hspec
  exact ⟨db, { oneClient db with db := db' }, hdb, by simp only [siteStep, oneClient, hexec, ok_bind], rfl, hstate'⟩

theorem getCommand_answer {answer : Csd.Answer} {x' : Store} (h : storeBehaviour.call storedValue getCommand answer x') :
    answer = .data (lit ['v']) := by
  obtain ⟨request, ⟨key, value, hrequest, hkey, -⟩, hdoes⟩ := h
  obtain rfl := hkey (by decide)
  cases hdoes with
  | setEmpty key s => exact absurd (Request.db.inj hrequest).1 (by decide)
  | op request op s result s' answer hasks hspec htells =>
      cases hasks with
      | set key c value => exact absurd (Request.db.inj hrequest).1 (by decide)
      | del key value => exact absurd (Request.db.inj hrequest).1 (by decide)
      | ls key value => exact absurd (Request.db.inj hrequest).1 (by decide)
      | get key value =>
          have hpath : key.path = [lit ['k']] := congrArg keyPath (Request.db.inj hrequest).2.1
          simp only [Op.spec, storedValue, hpath, PathMap.set_bound, if_true, valueOf, Bool.false_eq_true, if_false] at hspec
          cases hspec
          cases htells
          rfl

/-- The three steps of the command, behind the call that gave the key its value. -/
theorem command_answered_get :
    ∃ (s₀ s s' : Site Unit) (d : Bytes), s₀.Fresh ∧ siteStep s₀ (.call setKey 0) = .ok s ∧
      steps siteStep [.send (), .serve () d (List.replicate cspMaxpacketSize 0) zeros fun _ => 0,
        .receive () (Csd.Answer.data (lit ['v'])).bytes] s = .ok s' ∧
      (s'.cli ()).stdout = (promptText ++ lit ['v']) ++ promptText := by
  obtain ⟨db, s, hdb, hcall, hcli, hstate⟩ := oneClient_stored
  have hrun : steps siteStep [.call setKey 0] (oneClient db) = .ok s := by
    simp only [steps, hcall, ok_bind]
  have hsends : Sends (s.cli ()) getCommand := hcli ▸ oneClient_sends db
  obtain ⟨d, answer, x', s', hanswer, hsteps, -, -, hout⟩ := command_answered (oneClient db) (oneClient_fresh hdb) _ s hrun
    () getCommand hsends storedValue hstate rfl (fun _ _ h => by rw [getCommand_answer h]; decide)
    (List.replicate cspMaxpacketSize 0) zeros List.length_replicate List.length_replicate fun _ => 0
  obtain rfl := getCommand_answer hanswer
  refine ⟨oneClient db, s, s', d, oneClient_fresh hdb, hcall, hsteps, ?_⟩
  rw [hout, hcli]
  rfl

end Dkmp.Csm
