import Dkmp.Machine.Bytes

/-! # Process creation packets

The two packet formats of the inter-kernel communication protocol, byte by byte
and in the order of a little-endian host. Unpacking walks a pointer through the
packet; a read past its end is a fault, as is a host name that does not fit the
buffer of the request.
-/

namespace Dkmp.Ikcd

open Machine

def ikcVersion : UInt8 := 1
def ikcProcCreatReq : UInt8 := 10
def ikcProcCreatResp : UInt8 := 30
def ikcPacketHdrLen : Nat := 2
def ikcMinPacketSize : Nat := 2
def ikcMaxNodeLen : Nat := 65

/-! ## Requests -/

/-- A string with its length in front; the length is an `unsigned short`. -/
def stringField (s : CStr) : Bytes :=
  bytes16 (.ofNat s.length) ++ (chars s).take (s.length % 65536)

/-- The packet length is an `unsigned short`: beyond it the buffer is too small
for what is copied into it. -/
def ikcpPackProcCreatReq (seq : UInt16) (oPid : UInt32) (oHostname oFilename oArgv : CStr) :
    Exec Bytes :=
  let packet := ikcVersion :: ikcProcCreatReq :: (bytes16 seq ++ (bytes32 oPid ++
    (stringField oHostname ++ (stringField oFilename ++ stringField oArgv))))
  if packet.length < 65536 then .ok packet else .error .bounds

structure ProcCreatReq where
  seq : UInt16
  oPid : UInt32
  oHostname : Bytes
  oFilename : Bytes
  oArgv : Bytes
deriving DecidableEq, Repr

def getString (p : Bytes) : Exec (Bytes × Bytes) := do
  let (len, p) ← get16 p
  getBytes len.toNat p

def ikcpUnpackProcCreatReq (packet : Bytes) : Exec ProcCreatReq := do
  let (seq, p) ← get16 (packet.drop ikcPacketHdrLen)
  let (oPid, p) ← get32 p
  let (oHostname, p) ← getString p
  if oHostname.length < ikcMaxNodeLen then do
    let (oFilename, p) ← getString p
    let (oArgv, _) ← getString p
    .ok ⟨seq, oPid, oHostname, oFilename, oArgv⟩
  else .error .bounds

theorem getString_stringField (s : CStr) (hs : s.length < 65536) (rest : Bytes) :
    getString (stringField s ++ rest) = .ok (chars s, rest) := by
  have hmod : s.length % 65536 = s.length := Nat.mod_eq_of_lt hs
  have hlen : (chars s).length = s.length := by simp [chars]
  have htake : (chars s).take s.length = chars s := List.take_of_length_le (by omega)
  have hnat : (UInt16.ofNat s.length).toNat = (chars s).length := by
    rw [hlen]
    simpa using hmod
  simp only [getString, stringField, hmod, htake, List.append_assoc, get16_bytes16, ok_bind]
  rw [hnat, getBytes_append]

theorem length_stringField_le (s : CStr) : s.length % 65536 + 2 = (stringField s).length := by
  have hle : s.length % 65536 ≤ s.length := Nat.mod_le _ _
  simp only [stringField, bytes16, chars, List.length_append, List.length_cons, List.length_nil,
    List.length_take, List.length_map]
  omega

theorem unpack_packProcCreatReq (seq : UInt16) (oPid : UInt32) {host file argv : CStr}
    (hhost : host.length < ikcMaxNodeLen) (hlen : 14 + host.length + file.length + argv.length < 65536) :
    ∃ packet, ikcpPackProcCreatReq seq oPid host file argv = .ok packet ∧
      packet.length = 14 + host.length + file.length + argv.length ∧
      ikcpUnpackProcCreatReq packet = .ok ⟨seq, oPid, chars host, chars file, chars argv⟩ := by
  have h₁ := length_stringField_le host
  have h₂ := length_stringField_le file
  have h₃ := length_stringField_le argv
  have hpacket : (ikcVersion :: ikcProcCreatReq :: (bytes16 seq ++ (bytes32 oPid ++
      (stringField host ++ (stringField file ++ stringField argv))))).length =
      14 + host.length + file.length + argv.length := by
    simp only [List.length_cons, List.length_append, bytes16, bytes32, List.length_nil]
    omega
  refine ⟨_, if_pos (by omega), hpacket, ?_⟩
  have hstr : ∀ s : CStr, s.length < 65536 → getString (stringField s) = .ok (chars s, []) := by
    intro s hs
    simpa using getString_stringField s hs []
  have hch : (chars host).length < ikcMaxNodeLen := by simpa [chars] using hhost
  simp only [ikcpUnpackProcCreatReq, ikcPacketHdrLen, List.drop_succ_cons, List.drop_zero,
    get16_bytes16, ok_bind, get32_bytes32, getString_stringField host (by omega), if_pos hch,
    getString_stringField file (by omega), hstr argv (by omega)]

theorem packProcCreatReq_header {seq : UInt16} {oPid : UInt32} {host file argv : CStr}
    {packet : Bytes} (h : ikcpPackProcCreatReq seq oPid host file argv = .ok packet) :
    ∃ rest, packet = ikcVersion :: ikcProcCreatReq :: rest := by
  simp only [ikcpPackProcCreatReq] at h
  split at h
  · exact ⟨_, (Except.ok.inj h).symm⟩
  · cases h

/-! ## Responses -/

def ikcpPackProcCreatResp (seq : UInt16) (rPid : UInt32) : Bytes :=
  ikcVersion :: ikcProcCreatResp :: (bytes16 seq ++ bytes32 rPid)

def ikcpUnpackProcCreatResp (packet : Bytes) : Exec (UInt16 × UInt32) := do
  let (seq, p) ← get16 (packet.drop ikcPacketHdrLen)
  let (rPid, _) ← get32 p
  .ok (seq, rPid)

@[simp] theorem unpack_packProcCreatResp (seq : UInt16) (rPid : UInt32) :
    ikcpUnpackProcCreatResp (ikcpPackProcCreatResp seq rPid) = .ok (seq, rPid) := by
  have h32 : get32 (bytes32 rPid) = .ok (rPid, []) := by
    simpa using get32_bytes32 rPid []
  simp only [ikcpUnpackProcCreatResp, ikcpPackProcCreatResp, ikcPacketHdrLen, List.drop_succ_cons,
    List.drop_zero, get16_bytes16, ok_bind, h32]

/-! ## Round trips -/

/-- **Process creation packets.** A request whose packet length fits an `unsigned short`
is unpacked to the id, the pid and the strings it was packed from, by reads inside the
packet alone; so is every response. -/
theorem proc_creat_round_trip :
    (∀ (seq : UInt16) (oPid : UInt32) (host file argv : CStr), host.length < ikcMaxNodeLen →
      14 + host.length + file.length + argv.length ≤ 65535 →
      ∃ packet p, ikcpPackProcCreatReq seq oPid host file argv = .ok packet ∧
        packet.length = 14 + host.length + file.length + argv.length ∧
        ikcpUnpackProcCreatReq packet = .ok p ∧ p.seq = seq ∧ p.oPid = oPid ∧
        stringOf p.oHostname = host ∧ stringOf p.oFilename = file ∧ stringOf p.oArgv = argv) ∧
    ∀ (seq : UInt16) (rPid : UInt32),
      ikcpUnpackProcCreatResp (ikcpPackProcCreatResp seq rPid) = .ok (seq, rPid) := by
  refine ⟨?_, unpack_packProcCreatResp⟩
  intro seq oPid host file argv hhost hlen
  obtain ⟨packet, hpack, hlength, hunpack⟩ :=
    unpack_packProcCreatReq seq oPid hhost (by omega : 14 + host.length + file.length + argv.length < 65536)
  exact ⟨packet, _, hpack, hlength, hunpack, rfl, rfl, stringOf_chars host, stringOf_chars file,
    stringOf_chars argv⟩

/-- A request without arguments. -/
theorem proc_creat_round_trip_short :
    ∃ packet p, ikcpPackProcCreatReq 1024 7 (lit ['a']) (lit ['s', 'h']) [] = .ok packet ∧
      packet.length = 17 ∧ ikcpUnpackProcCreatReq packet = .ok p ∧ p.seq = 1024 ∧ p.oPid = 7 ∧
      stringOf p.oHostname = lit ['a'] ∧ stringOf p.oFilename = lit ['s', 'h'] ∧
      stringOf p.oArgv = [] :=
  proc_creat_round_trip.1 1024 7 (lit ['a']) (lit ['s', 'h']) [] (by decide) (by decide)

end Dkmp.Ikcd
