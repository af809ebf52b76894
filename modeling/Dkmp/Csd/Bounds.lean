import Dkmp.Csd.Hello
import Dkmp.Machine.Traced

/-! # The accesses of the decoders

`cs_receive_packets` receives a datagram into an array of `MAXLINE` bytes, terminates it
there and hands it to a decoder. The decoders take lengths from it and use them as
offsets. Here they keep a record of every index they read or write; behind the datagram
the array has what an earlier one left.
-/

namespace Dkmp.Csd

open Machine Csdb Csp Csc

/-- An access to the receive array, and a copy of a field into an array of its own. A
`length` is a read of bytes that are then used as a length. -/
inductive Access where
  | read (i n : Nat)
  | length (i n : Nat)
  | write (i : Nat)
  | field (n : Nat)
deriving DecidableEq, Repr

section Accesses

variable (packet : Bytes) (i : Nat)

def loadByte : Traced Access UInt8 := do
  Traced.note (.read i 1)
  Traced.lift (readByte packet i)

def loadLength : Traced Access UInt16 := do
  Traced.note (.length i 2)
  Traced.lift (read16 packet i)

def loadBytes (n : Nat) : Traced Access Bytes := do
  Traced.note (.read i n)
  Traced.lift (readBytes packet i n)

def storeByte (x : UInt8) : Traced Access Bytes := do
  Traced.note (.write i)
  Traced.lift (writeByte packet i x)

end Accesses

/-! ## The decoders -/

/-- `csp_unpack_dbreq_request`: the offsets of the key and of the value. -/
def tracedUnpackDbreqRequest (reqPacket : Bytes) (p : Nat) (reqType : UInt8) :
    Traced Access (Nat × Option Nat × Bytes) := do
  let keyLen ← loadLength reqPacket p
  let keyData := p + 2
  if reqType = csSet then do
    let valLen ← loadLength reqPacket (keyData + keyLen.toNat)
    let packet ← storeByte reqPacket (keyData + keyLen.toNat) 0
    let valData := keyData + keyLen.toNat + 2
    let packet ← storeByte packet (valData + valLen.toNat) 0
    pure (keyData, some valData, packet)
  else pure (keyData, none, reqPacket)

/-- `cs_proceed_cap_request` up to the copy of the libraries. -/
def tracedCapRequest (packet : Bytes) (p : Nat) : Traced Access (UInt8 × CStr) := do
  let reqType ← loadByte packet p
  let dataLen ← loadLength packet (p + 1)
  let reqData ← loadBytes packet (p + 3) dataLen.toNat
  pure (reqType, stringOf reqData)

/-- A `char` as the size of a `memcpy`: a negative one becomes a huge `size_t`. -/
def sizeOfSigned (c : UInt8) : Nat := if c < 128 then c.toNat else 2 ^ 32 - (256 - c.toNat)

def tracedHelloField (packet : Bytes) (len : Nat) : Traced Access (CStr × Nat) := do
  Traced.note (.length len 1)
  let c ← Traced.lift (readByte packet len)
  let n := sizeOfSigned c
  let data ← loadBytes packet (len + 1) n
  Traced.note (.field n)
  if n < fieldSize then pure (stringOf data, len + 1 + n) else Traced.lift (.error .bounds)

def tracedHelloLoad (b : Search) (now : Int) (packet : Bytes) (len : Nat) (nodename : CStr)
    (db : Database) (minutes : List Char) : Traced Access (Nat × Database) := do
  let (data, next) ← tracedHelloField packet len
  let (_, db) ← Traced.lift (do
    let key ← sprintf ksize (loadKey nodename minutes)
    csdbSetValueForKey b db key (some data) now)
  pure (next, db)

/-- `cs_proceed_hello`: its loop goes once through each of the four fields. -/
def tracedHello (b : Search) (clock : Nat → Int) (packet : Bytes) (helloPacket : Nat)
    (db : Database) : Traced Access Database := do
  let (nodename, len) ← tracedHelloField packet helloPacket
  let (_, db) ← Traced.lift (cscNodeIsAlive b db nodename)
  let (len, db) ← tracedHelloLoad b (clock 0) packet len nodename db ['1']
  let (len, db) ← tracedHelloLoad b (clock 1) packet len nodename db ['5']
  let (_, db) ← tracedHelloLoad b (clock 2) packet len nodename db ['1', '5']
  pure db

/-- One iteration of `cs_receive_packets` up to the end of the decoder; `buf` is what the
array held before. -/
def tracedReceivePackets (b : Search) (clock : Nat → Int) (buf datagram : Bytes) (db : Database) :
    Traced Access Unit := do
  let packet ← storeByte (recvfrom buf datagram) (min datagram.length maxline) 0
  let csVersion ← loadByte packet 0
  let csType ← loadByte packet 1
  if csVersion ≠ csVer then pure ()
  else if csType = csHello then do
    let _ ← tracedHello b clock packet 2 db
    pure ()
  else if csType = csReq then do
    let reqType ← loadByte packet 2
    let _ ← tracedUnpackDbreqRequest packet 3 reqType
    pure ()
  else if csType = csCap then do
    let _ ← tracedCapRequest packet 2
    pure ()
  else pure ()

/-! ## The record changes nothing -/

theorem tracedUnpackDbreqRequest_result (packet : Bytes) (p : Nat) (type : UInt8) :
    cspUnpackDbreqRequest packet p type = (do
      let (keyData, valData, packet) ← (tracedUnpackDbreqRequest packet p type).result
      let key ← readString packet keyData
      match valData with
      | none => .ok (key, none, packet)
      | some valData => do
          let value ← readString packet valData
          .ok (key, some value, packet)) := by
  unfold cspUnpackDbreqRequest tracedUnpackDbreqRequest
  by_cases htype : type = csSet
  · simp [loadLength, storeByte, htype]
  · simp [loadLength, htype]

theorem tracedCapRequest_result (packet : Bytes) (p : Nat) :
    (tracedCapRequest packet p).result = capRequestData packet p := by
  simp [tracedCapRequest, capRequestData, loadByte, loadLength, loadBytes]

section Hello

variable {packet : Bytes} (hpacket : packet.length = maxline)

include hpacket

theorem tracedHelloField_result (len : Nat) :
    (tracedHelloField packet len).result = readHelloField packet len := by
  simp only [tracedHelloField, readHelloField, loadBytes, Traced.result_bind, Traced.result_note,
    Traced.result_lift, ok_bind]
  refine bind_congr fun c => ?_
  by_cases hc : c < 128
  · simp only [sizeOfSigned, sizeOfChar, if_pos hc, ok_bind]
    refine bind_congr fun data => ?_
    split
    · rfl
    · rfl
  · have hbig : ¬ len + 1 + sizeOfSigned c ≤ packet.length := by
      rw [sizeOfSigned, if_neg hc, hpacket, maxline]
      omega
    rw [sizeOfChar, if_neg hc, readBytes, if_neg hbig]
    rfl

theorem tracedHelloLoad_result (b : Search) (now : Int) (len : Nat) (l : Option Nat) (field : Int)
    (nodename : CStr) (db : Database) (minutes : List Char) :
    helloLoad b now packet len ⟨l, field, nodename, db⟩ minutes =
      (tracedHelloLoad b now packet len nodename db minutes).result := by
  simp only [tracedHelloLoad, helloLoad, Traced.result_bind, Traced.result_lift, Traced.result_pure,
    tracedHelloField_result hpacket, bind_assoc]

theorem tracedHello_result (b : Search) (clock : Nat → Int) (helloPacket : Nat) (db : Database) :
    csProceedHello b clock packet helloPacket db =
      (tracedHello b clock packet helloPacket db).result.map fun db => (0, db) := by
  have hb₀ : helloBody b clock packet ⟨some helloPacket, 0, [], db⟩ = (do
      let (nodename, next) ← readHelloField packet helloPacket
      let (_, db) ← cscNodeIsAlive b db nodename
      .ok (.inl ⟨some next, 1, nodename, db⟩)) := by
    simp [helloBody]
  have hb₁ : ∀ len nodename db, helloBody b clock packet ⟨some len, 1, nodename, db⟩ = (do
      let (next, db) ← (tracedHelloLoad b (clock 0) packet len nodename db ['1']).result
      .ok (.inl ⟨some next, 2, nodename, db⟩)) := by
    intro len nodename db
    simp [helloBody, tracedHelloLoad_result hpacket]
  have hb₅ : ∀ len nodename db, helloBody b clock packet ⟨some len, 2, nodename, db⟩ = (do
      let (next, db) ← (tracedHelloLoad b (clock 1) packet len nodename db ['5']).result
      .ok (.inl ⟨some next, 3, nodename, db⟩)) := by
    intro len nodename db
    simp [helloBody, tracedHelloLoad_result hpacket]
  have hb₁₅ : ∀ len nodename db, helloBody b clock packet ⟨some len, 3, nodename, db⟩ = (do
      let (_, db) ← (tracedHelloLoad b (clock 2) packet len nodename db ['1', '5']).result
      .ok (.inl ⟨none, -1, nodename, db⟩)) := by
    intro len nodename db
    simp [helloBody, tracedHelloLoad_result hpacket]
  have hmap : ∀ x : Exec Database, (x.map fun db => ((0 : Int), db)) = x >>= fun db => .ok (0, db) := by
    intro x
    cases x <;> rfl
  rw [csProceedHello, tracedHello, loop_succ, hb₀, hmap]
  simp only [Traced.result_bind, Traced.result_lift, Traced.result_pure,
    tracedHelloField_result hpacket, bind_assoc, ok_bind]
  refine bind_congr fun name => bind_congr fun alive => ?_
  rw [loop_succ, hb₁]
  simp only [bind_assoc, ok_bind]
  refine bind_congr fun load₁ => ?_
  rw [loop_succ, hb₅]
  simp only [bind_assoc, ok_bind]
  refine bind_congr fun load₅ => ?_
  rw [loop_succ, hb₁₅]
  simp only [bind_assoc, ok_bind]
  rfl

end Hello

/-! ## Sound accesses -/

/-- An access while `n` bytes of the array are received: it stays in the array, a length
is one of the received bytes, and a copied field has room for its terminator. -/
def Sound (n : Nat) : Access → Prop
  | .read i k => ∀ j, i ≤ j → j < i + k → j < maxline
  | .length i k => ∀ j, i ≤ j → j < i + k → j < n ∧ j < maxline
  | .write i => i < maxline
  | .field k => k + 1 ≤ fieldSize

theorem sound_read_iff {n i k : Nat} : Sound n (.read i k) ↔ k = 0 ∨ i + k ≤ maxline := by
  constructor
  · intro h
    rcases Nat.eq_zero_or_pos k with hk | hk
    · exact .inl hk
    · have hlast := h (i + k - 1) (by omega) (by omega)
      exact .inr (by omega)
  · rintro h j hij hjk
    rcases h with h | h <;> omega

theorem sound_length_iff {n i k : Nat} (hn : n ≤ maxline) (hk : 0 < k) :
    Sound n (.length i k) ↔ i + k ≤ n := by
  constructor
  · intro h
    have hlast := h (i + k - 1) (by omega) (by omega)
    omega
  · intro h j hij hjk
    omega

section Primitives

variable {P : Access → Prop} {β : Type} (packet : Bytes) (i : Nat)

theorem all_loadByte_bind (f : UInt8 → Traced Access β) :
    (loadByte packet i >>= f).All P ↔ P (.read i 1) ∧ ∀ x, readByte packet i = .ok x → (f x).All P := by
  simp [Traced.all_bind, loadByte]

theorem all_loadLength_bind (f : UInt16 → Traced Access β) :
    (loadLength packet i >>= f).All P ↔
      P (.length i 2) ∧ ∀ x, read16 packet i = .ok x → (f x).All P := by
  simp [Traced.all_bind, loadLength]

theorem all_loadBytes_bind (n : Nat) (f : Bytes → Traced Access β) :
    (loadBytes packet i n >>= f).All P ↔
      P (.read i n) ∧ ∀ x, readBytes packet i n = .ok x → (f x).All P := by
  simp [Traced.all_bind, loadBytes]

theorem all_storeByte_bind (x : UInt8) (f : Bytes → Traced Access β) :
    (storeByte packet i x >>= f).All P ↔
      P (.write i) ∧ ∀ b, writeByte packet i x = .ok b → (f b).All P := by
  simp [Traced.all_bind, storeByte]

end Primitives

/-! ## The sizes a datagram has to have -/

def byteAt (d : Bytes) (i : Nat) : Nat := (d.getD i 0).toNat

/-- The hello field at `i`: its length is received, it fits an array of 127 bytes with a
terminator, and it ends inside the receive array. -/
def FieldFits (d : Bytes) (i : Nat) : Prop :=
  i < d.length ∧ byteAt d i < fieldSize ∧ i + 1 + byteAt d i ≤ maxline

def fieldEnd (d : Bytes) (i : Nat) : Nat := i + 1 + byteAt d i

def FieldsFit (d : Bytes) : Nat → Nat → Prop
  | 0, _ => True
  | k + 1, i => FieldFits d i ∧ FieldsFit d k (fieldEnd d i)

/-- A request has the length of its key; a set has the length of the value too, behind the
key, and its value ends before the array does. -/
def ReqFits (d : Bytes) : Prop :=
  5 ≤ d.length ∧ (d.getD 2 0 = csSet →
    7 + value16 d 3 ≤ d.length ∧ 7 + value16 d 3 + value16 d (5 + value16 d 3) < maxline)

def CapFits (d : Bytes) : Prop := 5 ≤ d.length ∧ 5 + value16 d 3 ≤ maxline

/-- The datagram leaves room for its terminator, and the decoder it is meant for finds
what it needs. -/
def WellSized (d : Bytes) : Prop :=
  d.length < maxline ∧ (d.take 2 = [csVer, csHello] → FieldsFit d 4 2) ∧
    (d.take 2 = [csVer, csReq] → ReqFits d) ∧ (d.take 2 = [csVer, csCap] → CapFits d)

/-- A size fits the arrays exactly when the length byte does. -/
theorem sizeOfSigned_fits (c : UInt8) :
    (sizeOfSigned c + 1 ≤ fieldSize ↔ c.toNat < fieldSize) ∧
      (c.toNat < fieldSize → sizeOfSigned c = c.toNat) := by
  have hsize : fieldSize = 127 := rfl
  have hlt := c.toNat_lt
  have hc : c < 128 ↔ c.toNat < 128 := UInt8.lt_iff_toNat_lt
  by_cases hsigned : c < 128
  · rw [sizeOfSigned, if_pos hsigned]
    omega
  · rw [sizeOfSigned, if_neg hsigned]
    rw [hc] at hsigned
    omega

section Decoders

variable {d tail : Bytes} (hd : d.length < maxline) (hlen : (d ++ tail).length = maxline)

include hd hlen

/-! ### Requests and capability requests -/

theorem tracedUnpackDbreqRequest_sound {type : UInt8} (htype : 5 ≤ d.length → type = d.getD 2 0) :
    (tracedUnpackDbreqRequest (d ++ tail) 3 type).All (Sound d.length) ↔ ReqFits d := by
  rw [tracedUnpackDbreqRequest, all_loadLength_bind, sound_length_iff (by omega) (by decide), ReqFits]
  refine and_congr_right fun hkey => ?_
  rw [read16_front hkey, ← htype hkey]
  simp only [Except.ok.injEq, forall_eq', toNat_ofNat_value16]
  by_cases hset : type = csSet
  · have hkeyEnd : 3 + 2 + value16 d 3 = 5 + value16 d 3 := by omega
    have hvalue : 5 + value16 d 3 + 2 ≤ d.length ↔ 7 + value16 d 3 ≤ d.length := by omega
    simp only [hset, if_true, true_implies, hkeyEnd]
    rw [all_loadLength_bind, sound_length_iff (by omega) (by decide), hvalue]
    refine and_congr_right fun hval => ?_
    rw [read16_front (hvalue.mpr hval)]
    obtain ⟨packet, hwrite, -⟩ := writeByte_lt (by omega : 5 + value16 d 3 < (d ++ tail).length) 0
    simp only [Except.ok.injEq, forall_eq', toNat_ofNat_value16, all_storeByte_bind, hwrite, Sound,
      Traced.all_pure, implies_true, and_true]
    omega
  · simp [hset]

theorem tracedCapRequest_sound :
    (tracedCapRequest (d ++ tail) 2).All (Sound d.length) ↔ CapFits d := by
  have hmax : maxline = 4096 := rfl
  have htype : 2 < (d ++ tail).length := by omega
  have hread : Sound d.length (.read 2 1) := sound_read_iff.mpr (.inr (by omega))
  rw [tracedCapRequest, all_loadByte_bind, readByte_lt htype, and_iff_right hread]
  simp only [Except.ok.injEq, forall_eq']
  rw [all_loadLength_bind, sound_length_iff (by omega) (by decide), CapFits]
  refine and_congr_right fun hlength => ?_
  rw [read16_front hlength]
  simp only [Except.ok.injEq, forall_eq', toNat_ofNat_value16, all_loadBytes_bind, Traced.all_pure,
    implies_true, and_true, sound_read_iff, Nat.reduceAdd]
  omega

/-! ### Hellos -/

theorem tracedHelloField_sound (i : Nat) :
    (tracedHelloField (d ++ tail) i).All (Sound d.length) ↔ FieldFits d i := by
  rw [tracedHelloField, Traced.all_note_bind, sound_length_iff (by omega) (by decide), FieldFits]
  refine and_congr_right fun hi => ?_
  obtain ⟨hfits, hsame⟩ := sizeOfSigned_fits (d.getD i 0)
  have hcopy : ∀ n data, (do
      Traced.note (.field n)
      if n < fieldSize then pure (stringOf data, i + 1 + n)
      else Traced.lift (.error .bounds) : Traced Access (CStr × Nat)).All (Sound d.length) ↔
        n + 1 ≤ fieldSize := by
    intro n data
    rw [Traced.all_note_bind, Sound, and_iff_left]
    split
    · exact Traced.all_pure _
    · exact Traced.all_lift _
  rw [Traced.all_lift_bind (readByte_front hi), all_loadBytes_bind, sound_read_iff, byteAt]
  simp only [hcopy, hfits]
  constructor
  · rintro ⟨hread, hfield⟩
    have hinside : i + 1 + sizeOfSigned (d.getD i 0) ≤ (d ++ tail).length := by omega
    have hsmall := hfield _ (if_pos hinside)
    rw [← hsame hsmall]
    omega
  · rintro ⟨hsmall, hend⟩
    rw [hsame hsmall]
    exact ⟨.inr hend, fun _ _ => hsmall⟩

omit hd in
theorem tracedHelloField_fits {i : Nat} (h : FieldFits d i) :
    ∃ s : CStr, s.length ≤ 126 ∧
      (tracedHelloField (d ++ tail) i).result = .ok (s, fieldEnd d i) := by
  obtain ⟨hi, hsmall, hend⟩ := h
  have hsize : fieldSize = 127 := rfl
  have hsame := (sizeOfSigned_fits (d.getD i 0)).2 hsmall
  have hread : readBytes (d ++ tail) (i + 1) (byteAt d i) =
      .ok (((d ++ tail).drop (i + 1)).take (byteAt d i)) := if_pos (by omega)
  refine ⟨stringOf (((d ++ tail).drop (i + 1)).take (byteAt d i)), ?_, ?_⟩
  · have hle := length_stringOf_le (((d ++ tail).drop (i + 1)).take (byteAt d i))
    rw [List.length_take] at hle
    omega
  · simp only [tracedHelloField, loadBytes, Traced.result_bind, Traced.result_note,
      Traced.result_lift, ok_bind, readByte_front hi, hsame]
    change (readBytes (d ++ tail) (i + 1) (byteAt d i) >>= _) = _
    rw [hread, ok_bind]
    change (if byteAt d i < fieldSize then _ else _ : Traced Access (CStr × Nat)).result = _
    rw [if_pos hsmall]
    rfl

theorem tracedHelloLoad_sound (b : Search) (now : Int) (i : Nat) (nodename : CStr) (db : Database)
    (minutes : List Char) :
    (tracedHelloLoad b now (d ++ tail) i nodename db minutes).All (Sound d.length) ↔
      FieldFits d i := by
  rw [tracedHelloLoad, Traced.all_bind, tracedHelloField_sound hd hlen]
  simp [Traced.all_bind]

omit hd in
theorem tracedHelloLoad_next {b : Search} {now : Int} {i next : Nat} {nodename : CStr}
    {db db' : Database} {minutes : List Char} (h : FieldFits d i)
    (hload : (tracedHelloLoad b now (d ++ tail) i nodename db minutes).result = .ok (next, db')) :
    next = fieldEnd d i := by
  obtain ⟨s, -, hfield⟩ := tracedHelloField_fits hlen h
  simp only [tracedHelloLoad, Traced.result_bind, Traced.result_lift, Traced.result_pure, hfield,
    ok_bind] at hload
  obtain ⟨⟨ret, db₁⟩, -, hok⟩ := bind_eq_ok hload
  exact (congrArg Prod.fst (Except.ok.inj hok)).symm

/-- Fields that fit keep every access sound, whatever the database calls do. -/
theorem tracedHello_sound (b : Search) (clock : Nat → Int) (db : Database) (h : FieldsFit d 4 2) :
    (tracedHello b clock (d ++ tail) 2 db).All (Sound d.length) := by
  obtain ⟨h₀, h₁, h₅, h₁₅, -⟩ := h
  obtain ⟨s, -, hfield⟩ := tracedHelloField_fits hlen h₀
  rw [tracedHello, Traced.all_bind_ok hfield]
  refine ⟨(tracedHelloField_sound hd hlen 2).mpr h₀, ?_⟩
  simp only [Traced.all_bind, Traced.all_lift, Traced.all_pure, true_and, implies_true, and_true,
    tracedHelloLoad_sound hd hlen]
  intro alive _
  refine ⟨h₁, ?_⟩
  intro load₁ hload₁
  rw [tracedHelloLoad_next hlen h₁ hload₁]
  refine ⟨h₅, ?_⟩
  intro load₅ hload₅
  rw [tracedHelloLoad_next hlen h₅ hload₅]
  exact h₁₅

def Usable (db : Database) : Prop := ∃ t, Holds .linear db t ∧ db.locked = false

omit hd in
theorem tracedHelloLoad_usable {i : Nat} {nodename : CStr} {db : Database} {minutes : List Char}
    (h : FieldFits d i) (hname : nodename.length ≤ 126) (hdb : Usable db) (now : Int)
    (hminutes : dot ∉ loadavg minutes ∧ loadavg minutes ≠ [] ∧ (loadavg minutes).length ≤ 9) :
    ∃ db', Usable db' ∧ (tracedHelloLoad .linear now (d ++ tail) i nodename db minutes).result =
      .ok (fieldEnd d i, db') := by
  obtain ⟨t, hholds, hfree⟩ := hdb
  obtain ⟨hdot, hne, hshort⟩ := hminutes
  obtain ⟨s, -, hfield⟩ := tracedHelloField_fits hlen h
  have hkey := loadKey_fits hname hshort
  obtain ⟨db', t', hset, hholds', hfree', -⟩ := csdbSetValueForKey_values hholds (bounded_linear t) hfree
    (loadKey_valid nodename hdot hne) s now
  refine ⟨db', ⟨t', hholds', hfree'⟩, ?_⟩
  simp only [tracedHelloLoad, Traced.result_bind, Traced.result_lift, Traced.result_pure, hfield,
    ok_bind, hkey, hset]

/-- With such a database the walk gets to every field. -/
theorem fieldsFit_of_sound {db : Database} (hdb : Usable db) (clock : Nat → Int)
    (h : (tracedHello .linear clock (d ++ tail) 2 db).All (Sound d.length)) : FieldsFit d 4 2 := by
  rw [tracedHello, Traced.all_bind, tracedHelloField_sound hd hlen] at h
  obtain ⟨h₀, h⟩ := h
  obtain ⟨nodename, hname, hfield⟩ := tracedHelloField_fits hlen h₀
  obtain ⟨t, hholds, hfree⟩ := id hdb
  obtain ⟨L, hrep⟩ := hholds
  have h := h _ hfield
  have halive := cscNodeIsAlive_spec hrep hfree (Nat.lt_of_le_of_lt hname (by decide))
  dsimp only at h
  rw [Traced.all_lift_bind halive] at h
  dsimp only at h
  rw [Traced.all_bind, tracedHelloLoad_sound hd hlen] at h
  obtain ⟨h₁, h⟩ := h
  obtain ⟨db₁, hdb₁, hload₁⟩ :=
    tracedHelloLoad_usable hlen h₁ hname hdb (clock 0) (by decide : _ ∧ loadavg ['1'] ≠ [] ∧ _)
  have h := h _ hload₁
  dsimp only at h
  rw [Traced.all_bind, tracedHelloLoad_sound hd hlen] at h
  obtain ⟨h₅, h⟩ := h
  obtain ⟨db₅, -, hload₅⟩ :=
    tracedHelloLoad_usable hlen h₅ hname hdb₁ (clock 1) (by decide : _ ∧ loadavg ['5'] ≠ [] ∧ _)
  have h := h _ hload₅
  dsimp only at h
  rw [Traced.all_bind, tracedHelloLoad_sound hd hlen] at h
  exact ⟨h₀, h₁, h₅, h.1, trivial⟩

end Decoders

/-! ## One iteration -/

theorem writeByte_received {d buf : Bytes} (hd : d.length < maxline) (hbuf : buf.length = maxline) :
    ∃ rest, writeByte (recvfrom buf d) d.length 0 = .ok (d ++ 0 :: rest) ∧
      (d ++ 0 :: rest).length = maxline := by
  have hrecv : recvfrom buf d = d ++ buf.drop d.length := by
    rw [recvfrom, List.take_of_length_le (by omega)]
  have hroom : 0 < (buf.drop d.length).length := by
    rw [List.length_drop]
    omega
  refine ⟨(buf.drop d.length).drop 1, ?_, ?_⟩
  · rw [hrecv, writeByte_terminator rfl hroom]
  · simp only [List.length_append, List.length_cons, List.length_drop]
    omega

/-- The version and the type are those of the datagram; a shorter one has the terminator
in the place of one of them. -/
theorem version_type {d rest : Bytes} (hlen : (d ++ 0 :: rest).length = maxline) :
    ∃ version type, readByte (d ++ 0 :: rest) 0 = .ok version ∧ readByte (d ++ 0 :: rest) 1 = .ok type ∧
      ∀ t, t ≠ 0 → (d.take 2 = [csVer, t] ↔ version = csVer ∧ type = t) := by
  match d, hlen with
  | [], hlen =>
      have htype : 1 < ([] ++ 0 :: rest : Bytes).length := by
        rw [hlen]
        decide
      refine ⟨0, _, rfl, readByte_lt htype, ?_⟩
      intro t _
      exact iff_of_false (by simp) (fun h => absurd h.1 (by decide))
  | [x], _ =>
      refine ⟨x, 0, rfl, rfl, ?_⟩
      intro t ht
      exact iff_of_false (by simp) (fun h => ht h.2.symm)
  | x :: y :: d, _ => exact ⟨x, y, rfl, rfl, fun t _ => by simp⟩

theorem tracedReceivePackets_all {d buf rest : Bytes} (hd : d.length < maxline)
    (hwrite : writeByte (recvfrom buf d) d.length 0 = .ok (d ++ 0 :: rest))
    (hlen : (d ++ 0 :: rest).length = maxline) (b : Search) (clock : Nat → Int) (db : Database) :
    (tracedReceivePackets b clock buf d db).All (Sound (min d.length maxline)) ↔
      (d.take 2 = [csVer, csHello] →
        (tracedHello b clock (d ++ 0 :: rest) 2 db).All (Sound d.length)) ∧
      (d.take 2 = [csVer, csReq] → ReqFits d) ∧ (d.take 2 = [csVer, csCap] → CapFits d) := by
  have hmax : maxline = 4096 := rfl
  have hread : ∀ i, i < maxline → Sound d.length (.read i 1) :=
    fun i hi => sound_read_iff.mpr (.inr (by omega))
  have hlast : Sound d.length (.write d.length) := hd
  obtain ⟨version, type, hversion, htype, hheader⟩ := version_type hlen
  have hreq : (do
      let reqType ← loadByte (d ++ 0 :: rest) 2
      let _ ← tracedUnpackDbreqRequest (d ++ 0 :: rest) 3 reqType
      pure () : Traced Access Unit).All (Sound d.length) ↔ ReqFits d := by
    have h₂ : 2 < (d ++ 0 :: rest).length := by omega
    rw [all_loadByte_bind, readByte_lt h₂, and_iff_right (hread 2 (by omega))]
    simp only [Except.ok.injEq, forall_eq', Traced.all_bind, Traced.all_pure, implies_true, and_true]
    apply tracedUnpackDbreqRequest_sound hd hlen
    intro h₅
    have hfront := @readByte_front d (0 :: rest) 2 (by omega)
    rw [readByte_lt h₂] at hfront
    exact Except.ok.inj hfront
  rw [hheader _ (by decide), hheader _ (by decide), hheader _ (by decide)]
  rw [tracedReceivePackets, Nat.min_eq_left (Nat.le_of_lt hd), all_storeByte_bind, hwrite,
    and_iff_right hlast]
  simp only [Except.ok.injEq, forall_eq']
  rw [all_loadByte_bind, hversion, and_iff_right (hread 0 (by omega))]
  simp only [Except.ok.injEq, forall_eq']
  rw [all_loadByte_bind, htype, and_iff_right (hread 1 (by omega))]
  simp only [Except.ok.injEq, forall_eq']
  by_cases hver : version = csVer
  · rw [if_neg (fun h => h hver)]
    simp only [hver, true_and]
    by_cases hhello : type = csHello
    · rw [if_pos hhello, hhello]
      simp [Traced.all_bind, csHello, csReq, csCap]
    · rw [if_neg hhello]
      by_cases hr : type = csReq
      · rw [if_pos hr, hreq, hr]
        simp [csHello, csReq, csCap]
      · rw [if_neg hr]
        by_cases hc : type = csCap
        · rw [if_pos hc, Traced.all_bind, tracedCapRequest_sound hd hlen, hc]
          simp [csHello, csReq, csCap]
        · rw [if_neg hc]
          simp [hhello, hr, hc]
  · rw [if_pos hver]
    simp [hver]

/-- Whatever the array held and whatever is stored: every access while the datagram is
received and decoded is sound. -/
def InBounds (d : Bytes) : Prop :=
  ∀ (clock : Nat → Int) (buf : Bytes) (db : Database), buf.length = maxline → Reachable db →
    (tracedReceivePackets .linear clock buf d db).All (Sound (min d.length maxline))

theorem InBounds.lt_maxline {d : Bytes} (h : InBounds d) : d.length < maxline := by
  obtain ⟨db, hinit, -⟩ := csdbInit_spec .linear 0
  have hall := h (fun _ => 0) (List.replicate maxline 0) db List.length_replicate (.init 0 db hinit)
  rw [tracedReceivePackets, all_storeByte_bind] at hall
  have hterminator : min d.length maxline < maxline := hall.1
  omega

theorem InBounds.wellSized {d : Bytes} (h : InBounds d) : WellSized d := by
  have hd := h.lt_maxline
  obtain ⟨db, hinit, hholds, hfree⟩ := csdbInit_spec .linear 0
  have hbuf : (List.replicate maxline (0 : UInt8)).length = maxline := List.length_replicate
  obtain ⟨rest, hwrite, hlen⟩ := writeByte_received hd hbuf
  have hall := h (fun _ => 0) _ db hbuf (.init 0 db hinit)
  rw [tracedReceivePackets_all hd hwrite hlen] at hall
  obtain ⟨hhello, hreq, hcap⟩ := hall
  exact ⟨hd, fun ht => fieldsFit_of_sound hd hlen ⟨_, hholds, hfree⟩ _ (hhello ht), hreq, hcap⟩

/-- **The decoders stay in bounds** exactly on the datagrams that leave room for the
terminator and have the lengths, within their limits, that the decoder goes by. -/
theorem receive_in_bounds_iff (d : Bytes) : InBounds d ↔ WellSized d := by
  constructor
  · exact InBounds.wellSized
  · rintro ⟨hd, hhello, hreq, hcap⟩ clock buf db hbuf _
    obtain ⟨rest, hwrite, hlen⟩ := writeByte_received hd hbuf
    rw [tracedReceivePackets_all hd hwrite hlen]
    exact ⟨fun ht => tracedHello_sound hd hlen .linear clock db (hhello ht), hreq, hcap⟩

def longName : Bytes :=
  [csVer, csHello, 127] ++ List.replicate 127 97 ++ [1, 48, 1, 48, 1, 48]

/-- A datagram as long as the array, a set without lengths, and a name of 127 bytes. -/
theorem receive_out_of_bounds :
    ¬ InBounds (List.replicate maxline 0) ∧ ¬ InBounds [csVer, csReq, csSet] ∧
      ¬ InBounds longName := by
  refine ⟨fun h => ?_, fun h => ?_, fun h => ?_⟩
  · have hlt := h.lt_maxline
    rw [List.length_replicate] at hlt
    exact Nat.lt_irrefl _ hlt
  · exact absurd (h.wellSized.2.2.1 rfl).1 (by decide)
  · exact absurd (h.wellSized.2.1 rfl).1.2.1 (by decide)

end Dkmp.Csd
