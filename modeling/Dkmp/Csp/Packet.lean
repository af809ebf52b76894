import Dkmp.Machine.Bytes

/-! # Packets of the capability and system information protocol

Database requests, capability requests and their responses, as they are written
into an array and read from the array they were received in. The two programs
that speak the protocol have the same functions. What an array held before a packet
was written or received does not matter to the other side.
-/

namespace Dkmp.Csp

open Machine

def maxline : Nat := 4096
def cspMaxpacketSize : Nat := 65535

def csVer : UInt8 := 1
def csHello : UInt8 := 1
def csReq : UInt8 := 2
def csCap : UInt8 := 3

def csSet : UInt8 := 1
def csGet : UInt8 := 2
def csDel : UInt8 := 3
def csLs : UInt8 := 4
def csNop : UInt8 := 5
def csCapexec : UInt8 := 6

def csRespSucc : UInt8 := 1
def csRespErr : UInt8 := 2
def csRespWdata : UInt8 := 3
def csRespNdata : UInt8 := 4

def writeHeader (packet : Bytes) (x y z : UInt8) : Exec Bytes := do
  let packet ← writeByte packet 0 x
  let packet ← writeByte packet 1 y
  writeByte packet 2 z

def writeField (packet : Bytes) (i : Nat) (len : UInt16) (data : Bytes) : Exec Bytes := do
  let packet ← writeBytes packet i (bytes16 len)
  writeBytes packet (i + 2) data

/-! ## Packing -/

def cspPackRespPacket (respPacket : Bytes) (type err : UInt8) (respData : Option CStr) :
    Exec (Nat × Bytes) := do
  let packet ← writeHeader respPacket 1 type err
  if type = csRespWdata then
    match respData with
    | none => .error .null
    | some data => do
        let dataLen : UInt16 := .ofNat data.length
        let dataLen := if cspMaxpacketSize - 3 ≤ dataLen.toNat then .ofNat cspMaxpacketSize else dataLen
        let packet ← writeField packet 3 dataLen (strncpyBytes data dataLen.toNat)
        .ok (3 + (dataLen.toNat + 2), packet)
  else .ok (3, packet)

def cspPackCapreqPacket (reqPacket : Bytes) (type : UInt8) (data : CStr) : Exec (Nat × Bytes) := do
  let packet ← writeHeader reqPacket 1 csCap type
  let dataLen : UInt16 := .ofNat data.length
  let packet ← writeField packet 3 dataLen (strncpyBytes data dataLen.toNat)
  .ok (3 + (dataLen.toNat + 2), packet)

/-- A field with a terminator behind it; the packet pointer moves to the
terminator. A field of length 0 is not written. -/
def writeTerminated (packet : Bytes) (i : Nat) (len : UInt16) (s : CStr) : Exec (Nat × Bytes) :=
  if 0 < len.toNat then do
    let packet ← writeField packet i len ((chars s).take len.toNat)
    let packet ← writeByte packet (i + 2 + len.toNat) 0
    .ok (i + 2 + len.toNat, packet)
  else .ok (i, packet)

/-- The announced length has room for one more length field than is written. -/
def cspPackDbreqPacket (packet : Bytes) (key value : Option CStr) (type : UInt8) :
    Exec (Int × Bytes) :=
  match key with
  | none => .ok (-1, packet)
  | some key => do
      let keyLen : UInt16 := .ofNat key.length
      let valLen : UInt16 := .ofNat (value.getD []).length
      let packLen : UInt16 := .ofNat (3 + keyLen.toNat + valLen.toNat + 6)
      let packet ← writeHeader packet csVer csReq type
      let (i, packet) ← writeTerminated packet 3 keyLen key
      let (_, packet) ← writeTerminated packet i (if type = csSet then valLen else 0) (value.getD [])
      .ok (packLen.toNat, packet)

/-! ## Unpacking -/

/-- The type, the error code, the data if there is some, and the packet, into which
a terminator is written. -/
def cspUnpackRespPacket (respPacket : Bytes) : Exec (UInt8 × UInt8 × Option CStr × Bytes) := do
  let type ← readByte respPacket 1
  let err ← readByte respPacket 2
  if type = csRespWdata then do
    let dataLen ← read16 respPacket 3
    let packet ← writeByte respPacket (5 + dataLen.toNat) 0
    let data ← readString packet 5
    .ok (type, err, some data, packet)
  else .ok (type, err, none, respPacket)

def cspUnpackDbreqRequest (reqPacket : Bytes) (p : Nat) (reqType : UInt8) :
    Exec (CStr × Option CStr × Bytes) := do
  let keyLen ← read16 reqPacket p
  let keyData := p + 2
  if reqType = csSet then do
    let valLen ← read16 reqPacket (keyData + keyLen.toNat)
    let packet ← writeByte reqPacket (keyData + keyLen.toNat) 0
    let valData := keyData + keyLen.toNat + 2
    let packet ← writeByte packet (valData + valLen.toNat) 0
    let key ← readString packet keyData
    let value ← readString packet valData
    .ok (key, some value, packet)
  else do
    let key ← readString reqPacket keyData
    .ok (key, none, reqPacket)

/-- The type and the libraries of a capability request at `p`, as
`cs_proceed_cap_request` takes them from the packet: the data is copied and
terminated. -/
def capRequestData (packet : Bytes) (p : Nat) : Exec (UInt8 × CStr) := do
  let reqType ← readByte packet p
  let dataLen ← read16 packet (p + 1)
  let reqData ← readBytes packet (p + 3) dataLen.toNat
  .ok (reqType, stringOf reqData)

/-! ## What is written -/

theorem writeHeader_eq {b : Bytes} (h : 3 ≤ b.length) (x y z : UInt8) :
    writeHeader b x y z = .ok ([x, y, z] ++ b.drop 3) := by
  match b, h with
  | _ :: _ :: _ :: rest, _ => rfl

theorem writeField_append {front rest data : Bytes} {i : Nat} (hi : front.length = i)
    (len : UInt16) (h : 2 + data.length ≤ rest.length) :
    writeField (front ++ rest) i len data =
      .ok ((front ++ (bytes16 len ++ data)) ++ rest.drop (2 + data.length)) := by
  subst hi
  have h₁ : writeBytes (front ++ rest) front.length (bytes16 len) =
      .ok ((front ++ bytes16 len) ++ rest.drop 2) := writeBytes_append (by simp; omega)
  have h₂ := @writeBytes_append (front ++ bytes16 len) (rest.drop 2) data
    (by rw [List.length_drop]; omega)
  rw [List.length_append, length_bytes16] at h₂
  rw [writeField, h₁, ok_bind, h₂, List.drop_drop, List.append_assoc front]

theorem toNat_ofNat_length {s : CStr} (h : s.length < 65536) :
    (UInt16.ofNat s.length).toNat = s.length := by
  rw [UInt16.toNat_ofNat', Nat.mod_eq_of_lt h]

def field (s : CStr) : Bytes := bytes16 (.ofNat s.length) ++ chars s

@[simp] theorem length_field (s : CStr) : (field s).length = 2 + s.length := by
  simp [field]

theorem writeField_string {front rest : Bytes} {i : Nat} (hi : front.length = i) {s : CStr}
    (hs : s.length < 65536) (h : 2 + s.length ≤ rest.length) :
    writeField (front ++ rest) i (.ofNat s.length) (strncpyBytes s (UInt16.ofNat s.length).toNat) =
      .ok ((front ++ field s) ++ rest.drop (2 + s.length)) := by
  have hcopy : strncpyBytes s (UInt16.ofNat s.length).toNat = chars s := by
    rw [toNat_ofNat_length hs, strncpyBytes, Nat.sub_self, List.take_of_length_le (by simp)]
    exact List.append_nil _
  rw [hcopy, writeField_append hi _ (by simpa using h), length_chars]
  rfl

theorem writeTerminated_append {front rest : Bytes} {i : Nat} (hi : front.length = i) {s : CStr}
    (hne : s ≠ []) (hs : s.length < 65536) (h : 3 + s.length ≤ rest.length) :
    writeTerminated (front ++ rest) i (.ofNat s.length) s =
      .ok (i + 2 + s.length, (front ++ field s) ++ 0 :: rest.drop (3 + s.length)) := by
  have hpos : 0 < s.length := List.length_pos_of_ne_nil hne
  have hnat := toNat_ofNat_length hs
  have htake : (chars s).take s.length = chars s := List.take_of_length_le (by simp)
  have hfield := @writeField_append front rest (chars s) i hi (UInt16.ofNat s.length)
    (by rw [length_chars]; omega)
  have hterm := @writeByte_append (front ++ field s) (rest.drop (2 + s.length)) 0
    (by rw [List.length_drop]; omega)
  have hlen : (front ++ field s).length = i + 2 + s.length := by
    rw [List.length_append, length_field]
    omega
  rw [hlen] at hterm
  rw [length_chars] at hfield
  rw [writeTerminated, if_pos (by omega), hnat, htake, hfield, ok_bind]
  change (writeByte ((front ++ field s) ++ _) _ _ >>= _) = _
  rw [hterm, ok_bind, List.drop_drop, List.append_assoc (front ++ field s), Nat.add_right_comm 2]
  rfl

theorem length_request (type : UInt8) (key : CStr) :
    ([csVer, csReq, type] ++ field key).length = 5 + key.length := by
  rw [List.length_append, length_field]
  show 3 + _ = _
  omega

section Request

variable {out : Bytes} {key : CStr}

theorem cspPackDbreqPacket_eq (value : Option CStr) (type : UInt8) (hkey : key ≠ [])
    (hlen : 9 + key.length + (value.getD []).length < out.length) (hout : out.length ≤ 65536) :
    cspPackDbreqPacket out (some key) value type = (do
      let packet := ([csVer, csReq, type] ++ field key) ++ 0 :: out.drop (6 + key.length)
      let (_, packet) ← writeTerminated packet (5 + key.length)
        (if type = csSet then .ofNat (value.getD []).length else 0) (value.getD [])
      .ok ((9 + key.length + (value.getD []).length : Nat), packet)) := by
  have hkeyNat : (UInt16.ofNat key.length).toNat = key.length := toNat_ofNat_length (by omega)
  have hvalNat : (UInt16.ofNat (value.getD []).length).toNat = (value.getD []).length :=
    toNat_ofNat_length (by omega)
  have hpackNat : (UInt16.ofNat (3 + key.length + (value.getD []).length + 6)).toNat =
      9 + key.length + (value.getD []).length := by
    rw [UInt16.toNat_ofNat', Nat.mod_eq_of_lt (by omega)]
    omega
  have hterm := @writeTerminated_append [csVer, csReq, type] (out.drop 3) 3 rfl key hkey (by omega)
    (by rw [List.length_drop]; omega)
  rw [List.drop_drop, ← Nat.add_assoc] at hterm
  unfold cspPackDbreqPacket
  dsimp only
  rw [hkeyNat, hvalNat, hpackNat, writeHeader_eq (by omega), ok_bind, hterm, ok_bind]

theorem cspPackDbreqPacket_key (value : Option CStr) {type : UInt8} (htype : type ≠ csSet)
    (hkey : key ≠ []) (hlen : 9 + key.length + (value.getD []).length < out.length)
    (hout : out.length ≤ 65536) :
    cspPackDbreqPacket out (some key) value type =
      .ok ((9 + key.length + (value.getD []).length : Nat),
        ([csVer, csReq, type] ++ field key) ++ 0 :: out.drop (6 + key.length)) := by
  rw [cspPackDbreqPacket_eq value type hkey hlen hout, if_neg htype]
  rfl

/-- The length of the value lies on the terminator of the key. -/
theorem cspPackDbreqPacket_set {value : CStr} (hkey : key ≠ []) (hvalue : value ≠ [])
    (hlen : 9 + key.length + value.length < out.length) (hout : out.length ≤ 65536) :
    cspPackDbreqPacket out (some key) (some value) csSet =
      .ok ((9 + key.length + value.length : Nat),
        (([csVer, csReq, csSet] ++ field key) ++ field value) ++
          0 :: out.drop (6 + key.length + (value.length + 2))) := by
  have hrest : 3 + value.length ≤ (0 :: out.drop (6 + key.length)).length := by
    rw [List.length_cons, List.length_drop]
    omega
  have hterm := writeTerminated_append (length_request csSet key) hvalue (by omega) hrest
  rw [Nat.add_comm 3, List.drop_succ_cons, List.drop_drop] at hterm
  rw [cspPackDbreqPacket_eq (some value) csSet hkey hlen hout, if_pos rfl]
  dsimp only [Option.getD_some]
  rw [hterm, ok_bind]

end Request

theorem cspPackCapreqPacket_eq {out : Bytes} (type : UInt8) {data : CStr}
    (hlen : data.length + 5 ≤ out.length) (hdata : data.length < 65536) :
    cspPackCapreqPacket out type data =
      .ok (data.length + 5, ([1, csCap, type] ++ field data) ++ out.drop (5 + data.length)) := by
  have hnat : (UInt16.ofNat data.length).toNat = data.length := toNat_ofNat_length (by omega)
  have hfield := @writeField_string [1, csCap, type] (out.drop 3) 3 rfl data (by omega)
    (by rw [List.length_drop]; omega)
  rw [List.drop_drop, ← Nat.add_assoc] at hfield
  unfold cspPackCapreqPacket
  rw [writeHeader_eq (by omega), ok_bind]
  dsimp only
  rw [hfield, ok_bind, hnat, Nat.add_comm 3, Nat.add_assoc]

theorem cspPackRespPacket_data {out : Bytes} (err : UInt8) {data : CStr}
    (hlen : data.length + 5 ≤ out.length) (hdata : data.length < cspMaxpacketSize - 3) :
    cspPackRespPacket out csRespWdata err (some data) =
      .ok (data.length + 5, ([1, csRespWdata, err] ++ field data) ++ out.drop (5 + data.length)) := by
  have hfits : data.length < 65536 := Nat.lt_of_lt_of_le hdata (by decide)
  have hnat : (UInt16.ofNat data.length).toNat = data.length := toNat_ofNat_length hfits
  have hfield := @writeField_string [1, csRespWdata, err] (out.drop 3) 3 rfl data hfits
    (by rw [List.length_drop]; omega)
  rw [List.drop_drop, ← Nat.add_assoc] at hfield
  unfold cspPackRespPacket
  rw [writeHeader_eq (by omega), ok_bind, if_pos rfl]
  dsimp only
  rw [if_neg (by omega), hfield, ok_bind, hnat, Nat.add_comm 3, Nat.add_assoc]

/-! ## What is read -/

theorem read16_field {front rest : Bytes} {i : Nat} (hi : front.length = i) (s : CStr) :
    read16 (front ++ (field s ++ rest)) i = .ok (.ofNat s.length) := by
  subst hi
  rw [field, List.append_assoc]
  exact read16_append _ _

theorem readString_field {front rest : Bytes} {i : Nat} (hi : front.length = i) (s : CStr) :
    readString (front ++ (field s ++ 0 :: rest)) (i + 2) = .ok s := by
  subst hi
  have hlen : front.length + 2 = (front ++ bytes16 (.ofNat s.length)).length := by simp
  rw [field, List.append_assoc, ← List.append_assoc front, hlen]
  exact readString_append s

/-- A terminator written behind a string. -/
theorem writeByte_terminator {front rest : Bytes} {i : Nat} (hi : front.length = i)
    (h : 0 < rest.length) : writeByte (front ++ rest) i 0 = .ok (front ++ 0 :: rest.drop 1) := by
  subst hi
  rw [writeByte_append h, List.append_assoc]
  rfl

section Unpacking

variable {header rest : Bytes} (hheader : header.length = 3)

include hheader

theorem cspUnpackDbreqRequest_key {type : UInt8} (htype : type ≠ csSet) (key : CStr) :
    cspUnpackDbreqRequest (header ++ (field key ++ 0 :: rest)) 3 type =
      .ok (key, none, header ++ (field key ++ 0 :: rest)) := by
  unfold cspUnpackDbreqRequest
  rw [read16_field hheader, ok_bind, if_neg htype, readString_field hheader, ok_bind]

/-- The terminator of the key is written over the length of the value after the
length was read. -/
theorem cspUnpackDbreqRequest_set {key value : CStr} (hkey : key.length < 65536)
    (hvalue : value.length < 65536) :
    ∃ packet, cspUnpackDbreqRequest (header ++ (field key ++ (field value ++ 0 :: rest))) 3 csSet =
      .ok (key, some value, packet) := by
  have hread : read16 (header ++ (field key ++ (field value ++ 0 :: rest))) (3 + 2 + key.length) =
      .ok (.ofNat value.length) := by
    rw [← List.append_assoc]
    exact read16_field (by rw [List.length_append, length_field]; omega) value
  obtain ⟨low, high, hbytes⟩ : ∃ low high, field value = low :: high :: chars value := ⟨_, _, rfl⟩
  have hmark : writeByte (header ++ (field key ++ (field value ++ 0 :: rest)))
      (3 + 2 + key.length) 0 = .ok (header ++ (field key ++ (0 :: high :: chars value ++ 0 :: rest))) := by
    rw [← List.append_assoc, hbytes,
      writeByte_terminator (by rw [List.length_append, length_field]; omega) (by simp),
      List.append_assoc]
    rfl
  have hterm : writeByte (header ++ (field key ++ (0 :: high :: chars value ++ 0 :: rest)))
      (3 + 2 + key.length + 2 + value.length) 0 =
      .ok (header ++ (field key ++ (0 :: high :: chars value ++ 0 :: rest))) := by
    rw [← List.append_assoc (field key), ← List.append_assoc header,
      writeByte_terminator (by simp; omega) (by simp)]
    rfl
  have hfirst : readString (header ++ (field key ++ (0 :: high :: chars value ++ 0 :: rest))) (3 + 2) =
      .ok key := readString_field hheader key
  have hsecond : readString (header ++ (field key ++ (0 :: high :: chars value ++ 0 :: rest)))
      (3 + 2 + key.length + 2) = .ok value := by
    have hsplit : header ++ (field key ++ (0 :: high :: chars value ++ 0 :: rest)) =
        (header ++ (field key ++ [0, high])) ++ (chars value ++ 0 :: rest) := by simp
    have hlen : 3 + 2 + key.length + 2 = (header ++ (field key ++ [0, high])).length := by
      simp
      omega
    rw [hsplit, hlen]
    exact readString_append value
  refine ⟨header ++ (field key ++ (0 :: high :: chars value ++ 0 :: rest)), ?_⟩
  unfold cspUnpackDbreqRequest
  rw [read16_field hheader, ok_bind, if_pos rfl]
  dsimp only
  rw [toNat_ofNat_length hkey, hread, ok_bind, hmark, ok_bind, toNat_ofNat_length hvalue, hterm,
    ok_bind, hfirst, ok_bind, hsecond, ok_bind]

theorem capRequestData_eq {type : UInt8} (htype : header[2]? = some type) {libs : CStr}
    (hlibs : libs.length < 65536) :
    capRequestData (header ++ (field libs ++ rest)) 2 = .ok (type, libs) := by
  have hbyte : readByte (header ++ (field libs ++ rest)) 2 = .ok type := by
    rw [readByte, List.getElem?_append_left (by omega), htype]
  have hdata : readBytes (header ++ (field libs ++ rest)) (2 + 3) libs.length =
      .ok (chars libs) := by
    have hsplit : header ++ (field libs ++ rest) =
        (header ++ bytes16 (.ofNat libs.length)) ++ (chars libs ++ rest) := by simp [field]
    have hlen : 2 + 3 = (header ++ bytes16 (.ofNat libs.length)).length := by
      simp [hheader]
    rw [hsplit, hlen, ← length_chars libs]
    exact readBytes_append
  unfold capRequestData
  rw [hbyte, ok_bind, read16_field hheader, ok_bind, toNat_ofNat_length hlibs, hdata, ok_bind,
    stringOf_chars]

theorem cspUnpackRespPacket_data {err : UInt8} (htype : header[1]? = some csRespWdata)
    (herr : header[2]? = some err) {data : CStr} (hdata : data.length < 65536)
    (hrest : 0 < rest.length) :
    cspUnpackRespPacket (header ++ (field data ++ rest)) =
      .ok (csRespWdata, err, some data, header ++ (field data ++ 0 :: rest.drop 1)) := by
  have hbyte₁ : readByte (header ++ (field data ++ rest)) 1 = .ok csRespWdata := by
    rw [readByte, List.getElem?_append_left (by omega), htype]
  have hbyte₂ : readByte (header ++ (field data ++ rest)) 2 = .ok err := by
    rw [readByte, List.getElem?_append_left (by omega), herr]
  have hterm : writeByte (header ++ (field data ++ rest)) (5 + data.length) 0 =
      .ok (header ++ (field data ++ 0 :: rest.drop 1)) := by
    rw [← List.append_assoc, writeByte_terminator (by simp; omega) hrest, List.append_assoc]
  unfold cspUnpackRespPacket
  rw [hbyte₁, ok_bind, hbyte₂, ok_bind, if_pos rfl, read16_field hheader, ok_bind,
    toNat_ofNat_length hdata, hterm, ok_bind]
  exact congrArg (· >>= _) (readString_field hheader data)

end Unpacking

/-! ## Round trips -/

section RoundTrip

variable {out buf : Bytes} (hout : out.length = maxline) (hbuf : buf.length = maxline)

include hout hbuf

theorem dbreq_key_received (value : Option CStr) {type : UInt8} (htype : type ≠ csSet)
    {key : CStr} (hkey : key ≠ []) (hlen : 9 + key.length + (value.getD []).length < maxline) :
    ∃ (n : Nat) (packet after : Bytes),
      cspPackDbreqPacket out (some key) value type = .ok (n, packet) ∧ n < maxline ∧
      cspUnpackDbreqRequest (recvfrom buf (packet.take n)) 3 type = .ok (key, none, after) := by
  have hmax : maxline ≤ 65536 := by decide
  have hpack := cspPackDbreqPacket_key value htype hkey (hout.symm ▸ hlen) (hout.symm ▸ hmax)
  obtain ⟨rest, hrecv, -⟩ := @recvfrom_append (([csVer, csReq, type] ++ field key) ++ [0])
    (out.drop (6 + key.length)) buf (9 + key.length + (value.getD []).length)
    (by rw [List.length_append, length_request, List.length_singleton]; omega)
    (by simp; omega) (by omega)
  have hunpack := @cspUnpackDbreqRequest_key [csVer, csReq, type] rest rfl type htype key
  rw [List.append_cons] at hpack
  refine ⟨_, _, [csVer, csReq, type] ++ (field key ++ 0 :: rest), hpack, hlen, ?_⟩
  rw [hrecv, List.append_assoc, List.append_assoc]
  exact hunpack

theorem dbreq_set_received {key value : CStr} (hkey : key ≠ []) (hvalue : value ≠ [])
    (hlen : 9 + key.length + value.length < maxline) :
    ∃ (n : Nat) (packet after : Bytes),
      cspPackDbreqPacket out (some key) (some value) csSet = .ok (n, packet) ∧ n < maxline ∧
      cspUnpackDbreqRequest (recvfrom buf (packet.take n)) 3 csSet =
        .ok (key, some value, after) := by
  have hmax : maxline ≤ 65536 := by decide
  have hpack := cspPackDbreqPacket_set hkey hvalue (hout.symm ▸ hlen) (hout.symm ▸ hmax)
  obtain ⟨rest, hrecv, -⟩ := @recvfrom_append
    ((([csVer, csReq, csSet] ++ field key) ++ field value) ++ [0])
    (out.drop (6 + key.length + (value.length + 2))) buf (9 + key.length + value.length)
    (by rw [List.length_append, List.length_append, length_request, length_field,
          List.length_singleton]; omega)
    (by simp; omega) (by omega)
  obtain ⟨after, hunpack⟩ := @cspUnpackDbreqRequest_set [csVer, csReq, csSet] rest rfl key value
    (by omega) (by omega)
  rw [List.append_cons] at hpack
  refine ⟨_, _, after, hpack, hlen, ?_⟩
  rw [hrecv, List.append_assoc, List.append_assoc, List.append_assoc]
  exact hunpack

end RoundTrip

theorem capreq_received {out buf : Bytes} (hbuf : buf.length = maxline) (type : UInt8) {libs : CStr}
    (hout : libs.length + 5 ≤ out.length) (hlen : libs.length + 5 < maxline) :
    ∃ (n : Nat) (packet : Bytes),
      cspPackCapreqPacket out type libs = .ok (n, packet) ∧ n < maxline ∧
      capRequestData (recvfrom buf (packet.take n)) 2 = .ok (type, libs) := by
  have hmax : maxline ≤ 65536 := by decide
  have hpack := cspPackCapreqPacket_eq type hout (by omega)
  obtain ⟨rest, hrecv, -⟩ := @recvfrom_append ([1, csCap, type] ++ field libs)
    (out.drop (5 + libs.length)) buf (libs.length + 5) (by simp; omega) (by simp; omega) (by omega)
  refine ⟨_, _, hpack, hlen, ?_⟩
  rw [hrecv, List.append_assoc]
  exact capRequestData_eq rfl rfl (by omega)

theorem resp_received {out buf : Bytes} (hbuf : buf.length = maxline) (err : UInt8) {data : CStr}
    (hout : data.length + 5 ≤ out.length) (hlen : data.length + 5 < maxline) :
    ∃ (n : Nat) (packet after : Bytes),
      cspPackRespPacket out csRespWdata err (some data) = .ok (n, packet) ∧ n < maxline ∧
      cspUnpackRespPacket (recvfrom buf (packet.take n)) =
        .ok (csRespWdata, err, some data, after) := by
  have hmax : maxline ≤ 65532 := by decide
  have hpack := cspPackRespPacket_data err hout (Nat.lt_of_lt_of_le (by omega) hmax)
  obtain ⟨rest, hrecv, hrest⟩ := @recvfrom_append ([1, csRespWdata, err] ++ field data)
    (out.drop (5 + data.length)) buf (data.length + 5) (by simp; omega) (by simp; omega) (by omega)
  have hunpack := @cspUnpackRespPacket_data [1, csRespWdata, err] rest rfl err rfl rfl data
    (by omega) (by simp at hrest; omega)
  refine ⟨_, _, [1, csRespWdata, err] ++ (field data ++ 0 :: rest.drop 1), hpack, hlen, ?_⟩
  rw [hrecv, List.append_assoc]
  exact hunpack

/-- What either side packs into an array of `maxline` bytes, cut to its announced length
and received in another such array, unpacks to what was packed. No access leaves the
arrays, and neither content matters. -/
theorem csp_round_trip {out buf : Bytes} (hout : out.length = maxline)
    (hbuf : buf.length = maxline) :
    (∀ (type : UInt8) (key : CStr) (value : Option CStr), key ≠ [] →
      (type = csSet → value.getD [] ≠ []) → 9 + key.length + (value.getD []).length < maxline →
      ∃ (n : Nat) (packet after : Bytes),
        cspPackDbreqPacket out (some key) value type = .ok (n, packet) ∧ n < maxline ∧
        cspUnpackDbreqRequest (recvfrom buf (packet.take n)) 3 type =
          .ok (key, if type = csSet then value else none, after)) ∧
    (∀ (type : UInt8) (libs : CStr), libs.length + 5 < maxline →
      ∃ (n : Nat) (packet : Bytes),
        cspPackCapreqPacket out type libs = .ok (n, packet) ∧ n < maxline ∧
        capRequestData (recvfrom buf (packet.take n)) 2 = .ok (type, libs)) ∧
    (∀ (err : UInt8) (data : CStr), data.length + 5 < maxline →
      ∃ (n : Nat) (packet after : Bytes),
        cspPackRespPacket out csRespWdata err (some data) = .ok (n, packet) ∧ n < maxline ∧
        cspUnpackRespPacket (recvfrom buf (packet.take n)) =
          .ok (csRespWdata, err, some data, after)) := by
  refine ⟨?_, ?_, ?_⟩
  · intro type key value hkey hvalue hlen
    by_cases htype : type = csSet
    · subst htype
      cases value with
      | none => exact absurd rfl (hvalue rfl)
      | some value => exact dbreq_set_received hout hbuf hkey (hvalue rfl) hlen
    · rw [if_neg htype]
      exact dbreq_key_received hout hbuf value htype hkey hlen
  · intro type libs hlen
    exact capreq_received hbuf type (by omega) hlen
  · intro err data hlen
    exact resp_received hbuf err (by omega) hlen

theorem csp_round_trip_zeros :
    ∃ (n : Nat) (packet after : Bytes),
      cspPackDbreqPacket (List.replicate maxline 0) (some (lit ['k'])) (some (lit ['v'])) csSet =
        .ok (n, packet) ∧ n < maxline ∧
      cspUnpackDbreqRequest (recvfrom (List.replicate maxline 7) (packet.take n)) 3 csSet =
        .ok (lit ['k'], some (lit ['v']), after) :=
  (csp_round_trip List.length_replicate List.length_replicate).1 csSet (lit ['k']) (some (lit ['v']))
    (by decide) (by decide) (by decide)

end Dkmp.Csp
