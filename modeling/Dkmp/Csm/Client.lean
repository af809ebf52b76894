import Dkmp.Csd.ReplySize
import Dkmp.Csd.Wire

/-! # The client csm

`csd_cli` reads lines from its standard input, sends each as a request to the daemon and
prints the answer. The arrays `type`, `key` and `value` keep what they held when a line
has fewer words, so a short line repeats parts of the line before it.
-/

namespace Dkmp.Csm

open Machine Csdb Csp Csd Csc

/-! ## csd_cli -/

/-- `fgets`: up to `n` characters, and not beyond a newline; what is read and what is left. -/
def fgets : Nat → CStr → CStr × CStr
  | 0, rest => ([], rest)
  | _ + 1, [] => ([], [])
  | n + 1, c :: rest =>
      if c = newline then ([c], rest)
      else
        let (line, rest) := fgets n rest
        (c :: line, rest)

inductive CliPhase where
  | reading
  | waiting
  | ended
deriving DecidableEq

/-- The variables of `csd_cli` and its streams. `respData` is the place in `recvline` to
which `resp_data` points; nothing has been assigned to it at first. -/
structure Cli where
  input : CStr
  stdout : CStr
  type : Bytes
  key : Bytes
  value : Bytes
  packet : Bytes
  recvline : Bytes
  respData : Option Nat
  phase : CliPhase

def promptText : CStr := lit ['\n', 'c', 's', 'm', '>', ' ']

def invalidText : CStr :=
  lit ['i', 'n', 'v', 'a', 'l', 'i', 'd', ' ', 'a', 'c', 't', 'i', 'o', 'n', ' ', 's', 'p', 'e', 'c', 'i', 'f', 'i',
    'e', 'd', '\n']

def errorText : CStr := lit ['e', 'r', 'r', 'o', 'r', ' ', 'f', 'r', 'o', 'm', ' ', 'c', 's', 'd', '\n']

def quit : CStr := lit ['q', 'u', 'i', 't']

def csTypeOf (type : CStr) : UInt8 :=
  if type = lit ['s', 'e', 't'] then csSet
  else if type = lit ['g', 'e', 't'] then csGet
  else if type = lit ['d', 'e', 'l'] then csDel
  else if type = lit ['l', 's'] then csLs
  else if type = lit ['c', 'a', 'p'] then csCapexec
  else csNop

def scanInto (array : Bytes) (s : CStr) : Exec Bytes := writeBytes array 0 (chars s ++ [0])

/-- `sscanf(fromuser, "%s %s %[^\n]s", &type, &key, &value)`. -/
def sscanfCommand (fromuser : CStr) (c : Cli) : Exec Cli :=
  match scanString fromuser with
  | none => .ok c
  | some (type, rest) => do
      let type ← scanInto c.type type
      match scanString rest with
      | none => .ok { c with type := type }
      | some (key, rest) => do
          let key ← scanInto c.key key
          match (rest.dropWhile isspace).takeWhile (· ≠ newline) with
          | [] => .ok { c with type := type, key := key }
          | x :: value => do
              let value ← scanInto c.value (x :: value)
              .ok { c with type := type, key := key, value := value }

def Cli.print (c : Cli) (text : CStr) : Cli := { c with stdout := c.stdout ++ text }

def Cli.clear (c : Cli) : Cli :=
  { c with recvline := List.replicate maxline 0, packet := List.replicate maxline 0 }

/-- The loop body up to `recvfrom`, and the datagram that it sends. -/
def csdCliSend (c : Cli) : Exec (Cli × Option Bytes) :=
  match fgets (maxline - 1) c.input with
  | ([], _) => .ok ({ c with phase := .ended }, none)
  | (x :: line, input) => do
      let c ← sscanfCommand ((x :: line).takeWhile (· ≠ newline)) { c with input := input }
      let type ← readString c.type 0
      if type = quit then .ok ({ c with phase := .ended }, none)
      else if csTypeOf type = csNop then .ok ((c.print invalidText).clear, none)
      else do
        let key ← readString c.key 0
        let value ← readString c.value 0
        let (n, packet) ← cspPackDbreqPacket c.packet (some key) (some value) (csTypeOf type)
        let datagram ← readBytes packet 0 n.toNat
        .ok ({ c with packet := packet, phase := .waiting }, some datagram)

def csdCliReceive (c : Cli) (datagram : Bytes) : Exec Cli := do
  let (_, respErr, data, recvline) ← cspUnpackRespPacket (recvfrom c.recvline datagram)
  let respData := if data.isSome then some 5 else c.respData
  let text ←
    if respErr = csRespSucc then
      match respData with
      | none => .error .uninit
      | some i => readString recvline i
    else .ok errorText
  .ok (({ c with recvline := recvline, respData := respData, phase := .reading }.print text).print promptText).clear

def Cli.start (input : CStr) (type key value packet recvline : Bytes) : Cli where
  input := input
  stdout := promptText
  type := type
  key := key
  value := value
  packet := packet
  recvline := recvline
  respData := none
  phase := .reading

/-! ## Lines as commands -/

/-- The strings in the three arrays. An array in which nothing has been stored may hold no
string. -/
structure Words where
  type : Exec CStr
  key : Exec CStr
  value : Exec CStr

def Cli.words (c : Cli) : Words := ⟨readString c.type 0, readString c.key 0, readString c.value 0⟩

/-- A line leaves the words it does not give as they are. -/
def Words.scan (w : Words) (line : CStr) : Words :=
  match scanString line with
  | none => w
  | some (type, rest) =>
      match scanString rest with
      | none => { w with type := .ok type }
      | some (key, rest) =>
          match (rest.dropWhile isspace).takeWhile (· ≠ newline) with
          | [] => { w with type := .ok type, key := .ok key }
          | x :: value => ⟨.ok type, .ok key, .ok (x :: value)⟩

structure Command where
  type : UInt8
  key : CStr
  value : CStr

inductive Reaction where
  | quit
  | invalid
  | send (command : Command)

def Words.reaction (w : Words) : Exec Reaction := do
  let type ← w.type
  if type = Csm.quit then .ok .quit
  else if csTypeOf type = csNop then .ok .invalid
  else do
    let key ← w.key
    let value ← w.value
    .ok (.send ⟨csTypeOf type, key, value⟩)

structure Cli.Sized (c : Cli) : Prop where
  type : c.type.length = maxline
  key : c.key.length = maxline
  value : c.value.length = maxline
  packet : c.packet.length = maxline
  recvline : c.recvline.length = maxline

theorem Cli.Sized.withInput {c : Cli} (h : c.Sized) (input : CStr) : ({ c with input := input } : Cli).Sized :=
  ⟨h.type, h.key, h.value, h.packet, h.recvline⟩

theorem readString_of_writeBytes {array array' : Bytes} {s : CStr} (h : scanInto array s = .ok array') :
    readString array' 0 = .ok s ∧ array'.length = array.length := by
  refine ⟨?_, length_of_writeBytes h⟩
  rw [scanInto, writeBytes] at h
  split at h
  · rw [← Except.ok.inj h]
    have hread := @readString_append [] (array.drop (0 + (chars s ++ [0]).length)) s
    simpa using hread
  · cases h

/-- What scanning a line changes, in the arrays and as words. -/
theorem sscanfCommand_scan {line : CStr} {c c' : Cli} (hsized : c.Sized)
    (h : sscanfCommand line c = .ok c') :
    c'.Sized ∧ c'.words = c.words.scan line ∧
      c' = { c with type := c'.type, key := c'.key, value := c'.value } := by
  rw [sscanfCommand] at h
  rw [Words.scan]
  cases hfirst : scanString line with
  | none =>
      rw [hfirst] at h
      cases h
      exact ⟨hsized, rfl, rfl⟩
  | some first =>
      obtain ⟨type, rest⟩ := first
      simp only [hfirst] at h
      obtain ⟨typeArray, htype, h⟩ := bind_eq_ok h
      obtain ⟨htypeRead, htypeLength⟩ := readString_of_writeBytes htype
      cases hsecond : scanString rest with
      | none =>
          simp only [hsecond] at h
          cases h
          refine ⟨{ hsized with type := htypeLength.trans hsized.type }, ?_, rfl⟩
          simp only [Cli.words, hsecond, htypeRead]
      | some second =>
          obtain ⟨key, rest⟩ := second
          simp only [hsecond] at h
          obtain ⟨keyArray, hkey, h⟩ := bind_eq_ok h
          obtain ⟨hkeyRead, hkeyLength⟩ := readString_of_writeBytes hkey
          cases hthird : (rest.dropWhile isspace).takeWhile (· ≠ newline) with
          | nil =>
              simp only [hthird] at h
              cases h
              refine ⟨{ hsized with type := htypeLength.trans hsized.type, key := hkeyLength.trans hsized.key }, ?_, rfl⟩
              simp only [Cli.words, hsecond, hthird, htypeRead, hkeyRead]
          | cons x value =>
              simp only [hthird] at h
              obtain ⟨valueArray, hvalue, h⟩ := bind_eq_ok h
              obtain ⟨hvalueRead, hvalueLength⟩ := readString_of_writeBytes hvalue
              cases h
              refine ⟨{ hsized with
                type := htypeLength.trans hsized.type
                key := hkeyLength.trans hsized.key
                value := hvalueLength.trans hsized.value }, ?_, rfl⟩
              simp only [Cli.words, hsecond, hthird, htypeRead, hkeyRead, hvalueRead]

/-! ## Commands as requests -/

/-- What the daemon may decode a command as. Where the command gives no key, or sets no
value, further bytes of the packet array are decoded. -/
def Command.Means (c : Command) (request : Request) : Prop :=
  ∃ key value, request = .db c.type key value ∧ (c.key ≠ [] → key = c.key) ∧
    (c.type = csSet → c.key ≠ [] → c.value ≠ [] → value = some c.value)

structure Command.Packed (c : Command) (d : Bytes) : Prop where
  header : d.take 3 = [csVer, csReq, c.type]
  means : ∀ buf request, buf.length = maxline → requestOf buf d = .ok request → c.Means request

theorem take_of_writeBytes {b data b' : Bytes} {i k : Nat} (h : writeBytes b i data = .ok b') (hk : k ≤ i) :
    b'.take k = b.take k := by
  unfold writeBytes at h
  split at h
  next hfits =>
    rw [← Except.ok.inj h, List.take_append_of_le_length (by rw [List.length_take]; omega), List.take_take,
      Nat.min_eq_left hk]
  next => cases h

theorem keeps_of_writeTerminated {packet packet' : Bytes} {i k : Nat} {len : UInt16} {s : CStr}
    (h : writeTerminated packet i len s = .ok (k, packet')) :
    i ≤ k ∧ packet'.length = packet.length ∧ packet'.take i = packet.take i := by
  rw [writeTerminated] at h
  split at h
  · obtain ⟨b₂, hfield, h⟩ := bind_eq_ok h
    obtain ⟨b₁, hlength, hdata⟩ := bind_eq_ok hfield
    obtain ⟨b₃, hend, h⟩ := bind_eq_ok h
    cases h
    refine ⟨by omega, ?_, ?_⟩
    · rw [length_of_writeBytes hend, length_of_writeBytes hdata, length_of_writeBytes hlength]
    · rw [take_of_writeBytes hend (by omega), take_of_writeBytes hdata (by omega), take_of_writeBytes hlength le_rfl]
  · cases h
    exact ⟨le_rfl, rfl, rfl⟩

theorem keeps_of_cspPackDbreqPacket {out packet : Bytes} (hout : 3 ≤ out.length) {key : CStr} {value : Option CStr}
    {type : UInt8} {n : Int} (h : cspPackDbreqPacket out (some key) value type = .ok (n, packet)) :
    packet.length = out.length ∧ packet.take 3 = [csVer, csReq, type] := by
  unfold cspPackDbreqPacket at h
  dsimp only at h
  rw [writeHeader_eq hout, ok_bind] at h
  obtain ⟨⟨i, b₁⟩, hkey, h⟩ := bind_eq_ok h
  obtain ⟨⟨k, b₂⟩, hvalue, h⟩ := bind_eq_ok h
  cases h
  obtain ⟨hi, hkeyLength, hkeyTake⟩ := keeps_of_writeTerminated hkey
  obtain ⟨-, hvalueLength, hvalueTake⟩ := keeps_of_writeTerminated hvalue
  constructor
  · rw [hvalueLength, hkeyLength]
    simp only [List.length_append, List.length_cons, List.length_nil, List.length_drop]
    omega
  · have htake := congrArg (List.take 3) hvalueTake
    rw [List.take_take, List.take_take, Nat.min_eq_left hi, hkeyTake] at htake
    rw [htake]
    rfl

theorem requestOf_short {buf d : Bytes} (hbuf : buf.length = maxline) {request : Request}
    (h : requestOf buf d = .ok request) : d.length < maxline := by
  by_contra hlong
  simp [requestOf, writeByte_full hlong hbuf] at h

/-- The array of the daemon behind a datagram, as if it had held this before. -/
theorem requestOf_unpack {buf d : Bytes} (hbuf : buf.length = maxline) {type : UInt8}
    (hheader : d.take 3 = [csVer, csReq, type]) {request : Request} (h : requestOf buf d = .ok request) :
    ∃ before key value after, before.length = maxline ∧
      cspUnpackDbreqRequest (recvfrom before d) 3 type = .ok (key, value, after) ∧
      request = .db type key value := by
  have hd := requestOf_short hbuf h
  obtain ⟨rest, hwrite, hlength⟩ := writeByte_received hd hbuf
  have hbefore : recvfrom (List.replicate d.length 0 ++ 0 :: rest) d = d ++ 0 :: rest := by
    rw [recvfrom_short (by simp)]
    simp
  obtain ⟨tail, rfl⟩ : ∃ tail, d = csVer :: csReq :: type :: tail := by
    refine ⟨d.drop 3, ?_⟩
    rw [← List.take_append_drop 3 d, hheader]
    rfl
  have hkind : readByte (csVer :: csReq :: type :: tail ++ 0 :: rest) 1 = .ok csReq := rfl
  have hread : readByte (csVer :: csReq :: type :: tail ++ 0 :: rest) 2 = .ok type := rfl
  simp only [requestOf, Nat.min_eq_left (Nat.le_of_lt hd), hwrite, ok_bind, hkind, if_true, hread] at h
  obtain ⟨⟨key, value, after⟩, hunpack, hok⟩ := bind_eq_ok h
  refine ⟨_, key, value, after, ?_, hbefore.symm ▸ hunpack, (Except.ok.inj hok).symm⟩
  rw [← hlength, List.length_append, List.length_append, List.length_replicate]

/-- Wherever the value of a set ends, its key is the one in front. -/
theorem unpack_set_key {b : Bytes} {key : CStr} (hkey : key.length < 65536)
    (hb : b.take (6 + key.length) = [csVer, csReq, csSet] ++ (field key ++ [0])) {k : CStr} {value : Option CStr}
    {after : Bytes} (h : cspUnpackDbreqRequest b 3 csSet = .ok (k, value, after)) : k = key := by
  have hsplit : ∀ b' : Bytes, b'.take (6 + key.length) = b.take (6 + key.length) →
      ∃ rest, b' = [csVer, csReq, csSet] ++ (field key ++ 0 :: rest) := by
    intro b' hb'
    refine ⟨b'.drop (6 + key.length), ?_⟩
    calc b' = b'.take (6 + key.length) ++ b'.drop (6 + key.length) := (List.take_append_drop _ b').symm
      _ = [csVer, csReq, csSet] ++ (field key ++ 0 :: b'.drop (6 + key.length)) := by
        rw [hb', hb, List.append_assoc, List.append_assoc, List.singleton_append]
  obtain ⟨rest, rfl⟩ := hsplit b rfl
  have hlength : read16 ([csVer, csReq, csSet] ++ (field key ++ 0 :: rest)) 3 = .ok (.ofNat key.length) :=
    read16_field rfl key
  rw [cspUnpackDbreqRequest, hlength, ok_bind, if_pos rfl] at h
  simp only [toNat_ofNat_length hkey] at h
  obtain ⟨valLen, -, h⟩ := bind_eq_ok h
  obtain ⟨b₁, hend, h⟩ := bind_eq_ok h
  obtain ⟨b₂, hvalueEnd, h⟩ := bind_eq_ok h
  obtain ⟨keyRead, hread, h⟩ := bind_eq_ok h
  obtain ⟨valueRead, -, h⟩ := bind_eq_ok h
  have hk : keyRead = k := (Prod.mk.inj (Except.ok.inj h)).1
  -- the first terminator falls on the one that is there
  have hfirst : b₁ = [csVer, csReq, csSet] ++ (field key ++ 0 :: rest) := by
    have hterm := @writeByte_terminator ([csVer, csReq, csSet] ++ field key) (0 :: rest) (3 + 2 + key.length)
      (by rw [length_request]) (by simp)
    rw [List.append_assoc, hend] at hterm
    simpa using Except.ok.inj hterm
  obtain ⟨rest', rfl⟩ := hsplit b₂ (by rw [take_of_writeBytes hvalueEnd (by omega), hfirst])
  have hstring : readString ([csVer, csReq, csSet] ++ (field key ++ 0 :: rest')) 5 = .ok key :=
    readString_field rfl key
  exact hk.symm.trans (Except.ok.inj (hread.symm.trans hstring))

theorem packed_of_pack {out packet d : Bytes} (hout : out.length = maxline) {c : Command}
    (hkey : c.key.length < maxline) (hvalue : c.value.length < maxline) {n : Int}
    (hpack : cspPackDbreqPacket out (some c.key) (some c.value) c.type = .ok (n, packet))
    (hread : readBytes packet 0 n.toNat = .ok d) : c.Packed d := by
  have hmax : maxline = 4096 := rfl
  obtain ⟨hlength, htake⟩ := keeps_of_cspPackDbreqPacket (by omega) hpack
  have hn : n = ((9 + c.key.length + c.value.length : Nat) : Int) := by
    have hmod := (getElem?_of_cspPackDbreqPacket hpack).1
    simp only [Option.getD_some] at hmod
    rw [hmod]
    congr 1
    omega
  have hd : d = packet.take (9 + c.key.length + c.value.length) := by
    rw [readBytes, hn, Int.toNat_natCast] at hread
    split at hread
    · exact (Except.ok.inj hread).symm
    · cases hread
  have hheader : d.take 3 = [csVer, csReq, c.type] := by
    rw [hd, List.take_take, Nat.min_eq_left (by omega), htake]
  refine ⟨hheader, fun buf request hbuf hrequest => ?_⟩
  have hshort := requestOf_short hbuf hrequest
  have hfits : 9 + c.key.length + c.value.length < maxline := by
    rw [readBytes, hn, Int.toNat_natCast] at hread
    split at hread
    next hle =>
      rw [hd, List.length_take] at hshort
      omega
    next => cases hread
  obtain ⟨before, key, value, after, hbefore, hunpack, rfl⟩ := requestOf_unpack hbuf hheader hrequest
  have hsame : ∀ {n' : Nat} {packet' : Bytes}, cspPackDbreqPacket out (some c.key) (some c.value) c.type =
      .ok (n', packet') → packet'.take n' = d := by
    intro n' packet' hpack'
    rw [hpack, Except.ok.injEq, Prod.mk.injEq, hn, Nat.cast_inj] at hpack'
    rw [hd, ← hpack'.1, ← hpack'.2]
  by_cases hne : c.key = []
  · exact ⟨key, value, rfl, fun h => absurd hne h, fun _ h => absurd hne h⟩
  by_cases htype : c.type = csSet
  · rw [htype] at hpack hunpack hsame
    by_cases hvalueNe : c.value = []
    · refine ⟨key, value, rfl, fun _ => ?_, fun _ _ h => absurd hvalueNe h⟩
      rw [hvalueNe, cspPackDbreqPacket_eq (some []) csSet hne (by simpa [hout, hvalueNe] using hfits) (by omega)] at hpack
      have hpacket : ([csVer, csReq, csSet] ++ field c.key) ++ 0 :: out.drop (6 + c.key.length) = packet :=
        (Prod.mk.inj (Except.ok.inj hpack)).2
      refine unpack_set_key (by omega) ?_ hunpack
      have hfront : (([csVer, csReq, csSet] ++ field c.key) ++ [0]).length = 6 + c.key.length := by
        rw [List.length_append, length_request, List.length_singleton]
        omega
      rw [recvfrom_short (by omega), hd, List.take_append_of_le_length (by rw [List.length_take]; omega),
        List.take_take, Nat.min_eq_left (by omega), ← hpacket, List.append_cons,
        List.take_append_of_le_length (by omega), List.take_of_length_le (by omega), List.append_assoc]
    · obtain ⟨n', packet', after', hpack', -, hunpack'⟩ := dbreq_set_received hout hbefore hne hvalueNe hfits
      rw [hsame hpack', hunpack, Except.ok.injEq, Prod.mk.injEq, Prod.mk.injEq] at hunpack'
      exact ⟨key, value, rfl, fun _ => hunpack'.1, fun _ _ _ => hunpack'.2.1⟩
  · obtain ⟨n', packet', after', hpack', -, hunpack'⟩ :=
      dbreq_key_received hout hbefore (some c.value) htype hne hfits
    rw [hsame hpack', hunpack, Except.ok.injEq, Prod.mk.injEq] at hunpack'
    exact ⟨key, value, rfl, fun _ => hunpack'.1, fun h => absurd h htype⟩

/-! ## One pass of the loop -/

def zeros : Bytes := List.replicate maxline 0

structure Cli.Took (c c' : Cli) (line : CStr) : Prop where
  read : fgets (maxline - 1) c.input = (line, c'.input)
  nonempty : line ≠ []
  sized : c'.Sized
  words : c'.words = c.words.scan (line.takeWhile (· ≠ newline))
  respData : c'.respData = c.respData

theorem length_stringOf_lt {b : Bytes} (h : 0 ∈ b) : (stringOf b).length < b.length := by
  induction b with
  | nil => cases h
  | cons x b ih =>
      by_cases hx : x = 0
      · simp [stringOf, hx]
      · rcases List.mem_cons.mp h with h0 | h
        · exact absurd h0.symm hx
        · simpa [stringOf, hx] using ih h

theorem readString_lt {b : Bytes} {s : CStr} (h : readString b 0 = .ok s) : s.length < b.length := by
  rw [readString, List.drop_zero] at h
  split at h
  next hmem =>
    rw [← Except.ok.inj h]
    exact length_stringOf_lt hmem
  next => cases h

/-- The three ways in which a pass goes on after its line, and the end of the input. -/
theorem csdCliSend_cases {c c' : Cli} {out : Option Bytes} (hsized : c.Sized) (h : csdCliSend c = .ok (c', out)) :
    (out = none ∧ c' = { c with phase := .ended }) ∨
    ∃ line, c.Took c' line ∧
      ((out = none ∧ c'.words.reaction = .ok .quit ∧ c'.phase = .ended ∧ c'.stdout = c.stdout) ∨
      (out = none ∧ c'.words.reaction = .ok .invalid ∧ c'.phase = c.phase ∧
        c'.stdout = c.stdout ++ invalidText ∧ c'.recvline = zeros) ∨
      ∃ command d, out = some d ∧ c'.words.reaction = .ok (.send command) ∧ command.Packed d ∧
        c'.phase = .waiting ∧ c'.stdout = c.stdout ∧ c'.recvline = c.recvline) := by
  rw [csdCliSend] at h
  split at h
  · cases h
    exact .inl ⟨rfl, rfl⟩
  · next x line input hfgets =>
    obtain ⟨c₁, hscan, h⟩ := bind_eq_ok h
    obtain ⟨hsized₁, hwords₁, hc₁⟩ := sscanfCommand_scan (hsized.withInput input) hscan
    obtain ⟨type, htype, h⟩ := bind_eq_ok h
    have hinput : c₁.input = input := by rw [hc₁]
    have hresp : c₁.respData = c.respData := by rw [hc₁]
    have hstdout : c₁.stdout = c.stdout := by rw [hc₁]
    have hrecv : c₁.recvline = c.recvline := by rw [hc₁]
    have hphase : c₁.phase = c.phase := by rw [hc₁]
    refine .inr ⟨x :: line, ?_⟩
    split at h
    next hquit =>
      cases h
      refine ⟨⟨hfgets.trans (by rw [hinput]), List.cons_ne_nil _ _, ⟨hsized₁.type, hsized₁.key, hsized₁.value,
        hsized₁.packet, hsized₁.recvline⟩, hwords₁, hresp⟩, .inl ⟨rfl, ?_, rfl, hstdout⟩⟩
      simp only [Words.reaction, Cli.words, htype, ok_bind, if_pos hquit]
    next hquit =>
      split at h
      next hnop =>
        cases h
        refine ⟨⟨hfgets.trans (by rw [← hinput]; rfl), List.cons_ne_nil _ _, ⟨hsized₁.type, hsized₁.key, hsized₁.value,
          List.length_replicate, List.length_replicate⟩, hwords₁, hresp⟩, .inr (.inl ⟨rfl, ?_, hphase, ?_, rfl⟩)⟩
        · simp only [Words.reaction, Cli.words, Cli.clear, Cli.print, htype, ok_bind, if_neg hquit, if_pos hnop]
        · rw [← hstdout]
          rfl
      next hnop =>
        obtain ⟨key, hkey, h⟩ := bind_eq_ok h
        obtain ⟨value, hvalue, h⟩ := bind_eq_ok h
        obtain ⟨⟨n, packet⟩, hpack, h⟩ := bind_eq_ok h
        obtain ⟨d, hread, h⟩ := bind_eq_ok h
        cases h
        have hpacket : packet.length = maxline := by
          rw [(keeps_of_cspPackDbreqPacket (by rw [hsized₁.packet]; decide) hpack).1, hsized₁.packet]
        have hkeyLt : key.length < maxline := hsized₁.key ▸ readString_lt hkey
        have hvalueLt : value.length < maxline := hsized₁.value ▸ readString_lt hvalue
        refine ⟨⟨hfgets.trans (by rw [← hinput]), List.cons_ne_nil _ _, ⟨hsized₁.type, hsized₁.key, hsized₁.value,
          hpacket, hsized₁.recvline⟩, hwords₁, hresp⟩,
          .inr (.inr ⟨⟨csTypeOf type, key, value⟩, d, rfl, ?_, ?_, rfl, hstdout, hrecv⟩)⟩
        · simp only [Words.reaction, Cli.words, htype, hkey, hvalue, ok_bind, if_neg hquit, if_neg hnop]
        · exact @packed_of_pack _ _ _ hsized₁.packet ⟨csTypeOf type, key, value⟩ hkeyLt hvalueLt _ hpack hread

def answerText : Csd.Answer → CStr
  | .failed => errorText
  | .done => []
  | .data text => text

def Cli.told (c : Cli) (text : CStr) (respData : Option Nat) : Cli :=
  { c with
    stdout := (c.stdout ++ text) ++ promptText
    respData := respData
    phase := .reading
    recvline := zeros
    packet := zeros }

/-- `resp_data` points nowhere or into an array of zeros. -/
def Cli.Wiped (c : Cli) : Prop := c.respData = none ∨ c.respData = some 5 ∧ c.recvline = zeros

theorem unpack_short {buf : Bytes} (hbuf : buf.length = maxline) {text : CStr} (hshort : 5 + text.length < maxline) :
    ∃ packet, cspUnpackRespPacket (recvfrom buf (Csd.Answer.data text).bytes) =
      .ok (csRespWdata, csRespSucc, some text, packet) ∧ readString packet 5 = .ok text := by
  have hmax : maxline = 4096 := rfl
  have hlen := length_bytes_data text
  rw [recvfrom_short (by omega), Csd.Answer.bytes, List.append_assoc, ← Csd.Answer.bytes]
  refine ⟨_, @cspUnpackRespPacket_data [1, csRespWdata, csRespSucc] (buf.drop (Csd.Answer.data text).bytes.length) rfl
    csRespSucc rfl rfl text (by omega) (by rw [List.length_drop]; omega), ?_⟩
  exact readString_field rfl text

/-- The terminator of a longer text lies behind the array. -/
theorem unpack_long {buf : Bytes} (hbuf : buf.length = maxline) {text : CStr} (hlong : maxline ≤ 5 + text.length)
    (hlength : text.length < 65536) :
    cspUnpackRespPacket (recvfrom buf (Csd.Answer.data text).bytes) = .error .bounds := by
  have hmax : maxline = 4096 := rfl
  have htext := length_bytes_data text
  have hrecv : recvfrom buf (Csd.Answer.data text).bytes =
      [1, csRespWdata, csRespSucc] ++ (bytes16 (.ofNat text.length) ++ (chars text).take 4091) := by
    rw [recvfrom, List.drop_of_length_le (by omega), List.append_nil, hbuf, Csd.Answer.bytes, field,
      List.take_append, List.take_of_length_le (by decide), List.take_append,
      List.take_of_length_le (by rw [length_bytes16]; decide)]
    rfl
  have hcount : ([1, csRespWdata, csRespSucc] ++ (bytes16 (.ofNat text.length) ++ (chars text).take 4091)).length =
      4096 := by
    rw [List.length_append, List.length_append, length_bytes16, List.length_take, length_chars,
      Nat.min_eq_left (by omega)]
    rfl
  have hread : read16 ([1, csRespWdata, csRespSucc] ++ (bytes16 (.ofNat text.length) ++ (chars text).take 4091)) 3 =
      .ok (.ofNat text.length) := @read16_append [1, csRespWdata, csRespSucc] _ _
  have htype : readByte ([1, csRespWdata, csRespSucc] ++ (bytes16 (.ofNat text.length) ++ (chars text).take 4091)) 1 =
      .ok csRespWdata := rfl
  have herr : readByte ([1, csRespWdata, csRespSucc] ++ (bytes16 (.ofNat text.length) ++ (chars text).take 4091)) 2 =
      .ok csRespSucc := rfl
  rw [hrecv, cspUnpackRespPacket, htype, ok_bind, herr, ok_bind, if_pos rfl, hread, ok_bind,
    toNat_ofNat_length hlength, writeByte, writeBytes, if_neg (by rw [hcount, List.length_singleton]; omega)]
  rfl

/-- An answer without data leaves `resp_data` where it points. -/
theorem csdCliReceive_answer {c c' : Cli} (hsized : c.Sized) (hwiped : c.Wiped) {answer : Csd.Answer}
    (hlength : answer.bytes.length ≤ cspMaxpacketSize) (h : csdCliReceive c answer.bytes = .ok c') :
    ∃ respData, (respData = none ∨ respData = some 5) ∧ c' = c.told (answerText answer) respData := by
  have hresp : c.respData = none ∨ c.respData = some 5 := hwiped.imp_right And.left
  cases answer with
  | failed =>
      have hunpack : cspUnpackRespPacket (recvfrom c.recvline Csd.Answer.failed.bytes) =
          .ok (csRespNdata, csRespErr, none, recvfrom c.recvline Csd.Answer.failed.bytes) := by
        rw [recvfrom_short (by rw [hsized.recvline]; decide)]
        rfl
      rw [csdCliReceive, hunpack, ok_bind] at h
      exact ⟨c.respData, hresp, (Except.ok.inj h).symm⟩
  | done =>
      have hunpack : cspUnpackRespPacket (recvfrom c.recvline Csd.Answer.done.bytes) =
          .ok (csRespNdata, csRespSucc, none, recvfrom c.recvline Csd.Answer.done.bytes) := by
        rw [recvfrom_short (by rw [hsized.recvline]; decide)]
        rfl
      rw [csdCliReceive, hunpack, ok_bind] at h
      rcases hwiped with hnone | ⟨hsome, hzeros⟩
      · simp [hnone] at h
      · have hempty : readString (recvfrom zeros Csd.Answer.done.bytes) 5 = .ok [] := by
          rw [recvfrom_short (by rw [zeros, List.length_replicate]; decide)]
          rfl
        simp only [Option.isSome_none, Bool.false_eq_true, if_false, if_true, hsome, hzeros, hempty, ok_bind] at h
        exact ⟨some 5, .inr rfl, (Except.ok.inj h).symm⟩
  | data text =>
      have htext := length_bytes_data text
      have hmax : cspMaxpacketSize = 65535 := rfl
      by_cases hshort : 5 + text.length < maxline
      · obtain ⟨packet, hunpack, hstring⟩ := unpack_short hsized.recvline hshort
        rw [csdCliReceive, hunpack, ok_bind] at h
        simp only [Option.isSome_some, if_true, hstring, ok_bind] at h
        exact ⟨some 5, .inr rfl, (Except.ok.inj h).symm⟩
      · rw [csdCliReceive, unpack_long hsized.recvline (by omega) (by omega)] at h
        cases h

end Dkmp.Csm
