import Dkmp.Csc.Alive
import Dkmp.Csdb.Mutex
import Dkmp.Csp.Packet

/-! # Hello packets

A node tells the others its name and its three load averages. The sender writes
four fields, each with a signed byte for its length; the receiver walks over them
with one pointer and sets a key for every load.
-/

namespace Dkmp.Csd

open Machine Csdb Csp Csc

/-- A byte as the size of a `memcpy`: a `char` is signed, and a negative one becomes a
size that no array has. -/
def sizeOfChar (c : UInt8) : Exec Nat :=
  if c < 128 then .ok c.toNat else .error .bounds

/-! ## Packing -/

/-- One field at the data pointer: its `val_len`, the pointer behind it and the packet. -/
def writeHelloField (packet : Bytes) (i : Nat) (s : CStr) : Exec (Nat × Nat × Bytes) := do
  let valLen : UInt8 := .ofNat s.length
  let packet ← writeByte packet i valLen
  let n ← sizeOfChar valLen
  let packet ← writeBytes packet (i + 1) ((chars s).take n)
  .ok (n, i + (n + 1), packet)

/-- The announced length does not count the terminator behind the last field. -/
def cspPackHelloPacket (helloPacket : Bytes) (hostname : CStr)
    (loadavg1 loadavg5 loadavg15 : Option CStr) : Exec (Int × Bytes) := do
  let packet ← writeByte helloPacket 0 1
  let packet ← writeByte packet 1 csHello
  match loadavg1, loadavg5, loadavg15 with
  | some loadavg1, some loadavg5, some loadavg15 => do
      let (n₀, i, packet) ← writeHelloField packet 2 hostname
      let (n₁, i, packet) ← writeHelloField packet i loadavg1
      let (n₂, i, packet) ← writeHelloField packet i loadavg5
      let (n₃, i, packet) ← writeHelloField packet i loadavg15
      let packet ← writeByte packet i 0
      .ok ((2 + n₀ + n₁ + n₂ + n₃ + 4 : Nat), packet)
  | _, _, _ => .ok (-1, packet)

/-! ## Receiving -/

def fieldSize : Nat := 127

/-- Copy the field at `len` into one of the two arrays and terminate it: the string, and
the pointer behind the field. -/
def readHelloField (packet : Bytes) (len : Nat) : Exec (CStr × Nat) := do
  let c ← readByte packet len
  let n ← sizeOfChar c
  let data ← readBytes packet (len + 1) n
  if n < fieldSize then .ok (stringOf data, len + 1 + n) else .error .bounds

def loadavg (minutes : List Char) : CStr := lit (['l', 'o', 'a', 'd', 'a', 'v', 'g'] ++ minutes)

def loadKey (nodename : CStr) (minutes : List Char) : CStr :=
  aliveKey nodename ++ dot :: loadavg minutes

structure HelloState where
  len : Option Nat
  field : Int
  nodename : CStr
  db : Database

/-- The cases 1 to 3 of the loop: the value of one key. -/
def helloLoad (b : Search) (now : Int) (packet : Bytes) (len : Nat) (s : HelloState)
    (minutes : List Char) : Exec (Nat × Database) := do
  let (data, next) ← readHelloField packet len
  let key ← sprintf ksize (loadKey s.nodename minutes)
  let (_, db) ← csdbSetValueForKey b s.db key (some data) now
  .ok (next, db)

/-- One iteration of `while(len != 0)`; the `k`-th load is set at the time `clock k`. -/
def helloBody (b : Search) (clock : Nat → Int) (packet : Bytes) (s : HelloState) :
    Exec (HelloState ⊕ Database) :=
  match s.len with
  | none => .ok (.inr s.db)
  | some len =>
      if s.field = 0 then do
        let (nodename, next) ← readHelloField packet len
        let (_, db) ← cscNodeIsAlive b s.db nodename
        .ok (.inl ⟨some next, 1, nodename, db⟩)
      else if s.field = 1 then do
        let (next, db) ← helloLoad b (clock 0) packet len s ['1']
        .ok (.inl ⟨some next, 2, s.nodename, db⟩)
      else if s.field = 2 then do
        let (next, db) ← helloLoad b (clock 1) packet len s ['5']
        .ok (.inl ⟨some next, 3, s.nodename, db⟩)
      else if s.field = 3 then do
        let (_, db) ← helloLoad b (clock 2) packet len s ['1', '5']
        .ok (.inl ⟨none, -1, s.nodename, db⟩)
      else .ok (.inl { s with len := none })

/-- The loop is at its end after the four fields; `nodename` is written before it is
read. -/
def csProceedHello (b : Search) (clock : Nat → Int) (packet : Bytes) (helloPacket : Nat)
    (db : Database) : Exec (Int × Database) := do
  let db ← loop (helloBody b clock packet) 5 ⟨some helloPacket, 0, [], db⟩
  .ok (0, db)

/-! ## The fields of a packet -/

def helloField (s : CStr) : Bytes := .ofNat s.length :: chars s

@[simp] theorem length_helloField (s : CStr) : (helloField s).length = 1 + s.length := by
  simp [helloField, Nat.add_comm]

theorem sizeOfChar_ofNat {n : Nat} (h : n < 128) : sizeOfChar (.ofNat n) = .ok n := by
  have hnat : (UInt8.ofNat n).toNat = n := by
    rw [UInt8.toNat_ofNat', Nat.mod_eq_of_lt (by omega)]
  have hlt : UInt8.ofNat n < 128 := by
    rw [UInt8.lt_iff_toNat_lt, hnat]
    exact h
  rw [sizeOfChar, if_pos hlt, hnat]

section Fields

variable {front rest : Bytes} {i : Nat} (hi : front.length = i) {s : CStr}

include hi

theorem writeHelloField_append (hs : s.length < 128) (h : 1 + s.length ≤ rest.length) :
    ∃ rest', writeHelloField (front ++ rest) i s =
        .ok (s.length, i + (s.length + 1), (front ++ helloField s) ++ rest') ∧
      (front ++ helloField s).length = i + (s.length + 1) ∧
      1 + s.length + rest'.length = rest.length := by
  subst hi
  have hlen := @writeByte_append front rest (.ofNat s.length) (by omega)
  have hdata := @writeBytes_append (front ++ [.ofNat s.length]) (rest.drop 1) (chars s)
    (by rw [List.length_drop, length_chars]; omega)
  have htake : (chars s).take s.length = chars s := List.take_of_length_le (by simp)
  rw [List.length_append, List.length_singleton, length_chars, List.drop_drop] at hdata
  refine ⟨rest.drop (1 + s.length), ?_, ?_, ?_⟩
  · unfold writeHelloField
    dsimp only
    rw [hlen, ok_bind, sizeOfChar_ofNat hs, ok_bind, htake, hdata, ok_bind, List.append_assoc front]
    rfl
  · rw [List.length_append, length_helloField]
    omega
  · rw [List.length_drop]
    omega

theorem readHelloField_append (hs : s.length < fieldSize) :
    readHelloField (front ++ (helloField s ++ rest)) i = .ok (s, i + 1 + s.length) := by
  subst hi
  have hbyte : readByte (front ++ (helloField s ++ rest)) front.length = .ok (.ofNat s.length) := by
    rw [readByte, List.getElem?_append_right (Nat.le_refl _), Nat.sub_self]
    rfl
  have hsize : sizeOfChar (.ofNat s.length) = .ok s.length :=
    sizeOfChar_ofNat (Nat.lt_trans hs (by decide))
  have hdata := @readBytes_append (front ++ [.ofNat s.length]) rest (chars s)
  rw [List.append_assoc, List.length_append, List.length_singleton, length_chars] at hdata
  unfold readHelloField
  rw [hbyte, ok_bind, hsize, ok_bind]
  change (readBytes (front ++ ([UInt8.ofNat s.length] ++ (chars s ++ rest))) _ _ >>= _) = _
  rw [hdata, ok_bind, if_pos hs, stringOf_chars]

end Fields

/-! ## The walk over the fields -/

section Walk

theorem loadKey_fits {nodename : CStr} (hname : nodename.length ≤ 126) {minutes : List Char}
    (hm : (loadavg minutes).length ≤ 9) :
    sprintf ksize (loadKey nodename minutes) = .ok (loadKey nodename minutes) := by
  apply sprintf_ok
  rw [loadKey, List.length_append, length_aliveKey, List.length_cons, ksize]
  omega

variable {packet : Bytes} {nodename : CStr} (hname : nodename.length ≤ 126)

include hname

theorem helloLoad_eq {len next : Nat} {data : CStr}
    (hread : readHelloField packet len = .ok (data, next)) (minutes : List Char)
    (hm : (loadavg minutes).length ≤ 9) (b : Search) (now : Int) (l : Option Nat) (field : Int)
    (db : Database) :
    helloLoad b now packet len ⟨l, field, nodename, db⟩ minutes = (do
      let (_, db) ← csdbSetValueForKey b db (loadKey nodename minutes) (some data) now
      .ok (next, db)) := by
  rw [helloLoad, hread, ok_bind]
  dsimp only
  rw [loadKey_fits hname hm, ok_bind]

theorem csProceedHello_of_fields {i₀ i₁ i₂ i₃ i₄ : Nat} {data₁ data₅ data₁₅ : CStr}
    (hr₀ : readHelloField packet i₀ = .ok (nodename, i₁))
    (hr₁ : readHelloField packet i₁ = .ok (data₁, i₂))
    (hr₅ : readHelloField packet i₂ = .ok (data₅, i₃))
    (hr₁₅ : readHelloField packet i₃ = .ok (data₁₅, i₄)) (b : Search) (clock : Nat → Int)
    (db : Database) :
    csProceedHello b clock packet i₀ db = (do
      let (_, db) ← cscNodeIsAlive b db nodename
      let (_, db) ← csdbSetValueForKey b db (loadKey nodename ['1']) (some data₁) (clock 0)
      let (_, db) ← csdbSetValueForKey b db (loadKey nodename ['5']) (some data₅) (clock 1)
      let (_, db) ← csdbSetValueForKey b db (loadKey nodename ['1', '5']) (some data₁₅) (clock 2)
      .ok (0, db)) := by
  have hb₀ : helloBody b clock packet ⟨some i₀, 0, [], db⟩ = (do
      let (_, db) ← cscNodeIsAlive b db nodename
      .ok (.inl ⟨some i₁, 1, nodename, db⟩)) := by
    simp [helloBody, hr₀]
  have hb₁ : ∀ db, helloBody b clock packet ⟨some i₁, 1, nodename, db⟩ = (do
      let (_, db) ← csdbSetValueForKey b db (loadKey nodename ['1']) (some data₁) (clock 0)
      .ok (.inl ⟨some i₂, 2, nodename, db⟩)) := by
    intro db
    simp [helloBody, helloLoad_eq hname hr₁ ['1'] (by decide)]
  have hb₅ : ∀ db, helloBody b clock packet ⟨some i₂, 2, nodename, db⟩ = (do
      let (_, db) ← csdbSetValueForKey b db (loadKey nodename ['5']) (some data₅) (clock 1)
      .ok (.inl ⟨some i₃, 3, nodename, db⟩)) := by
    intro db
    simp [helloBody, helloLoad_eq hname hr₅ ['5'] (by decide)]
  have hb₁₅ : ∀ db, helloBody b clock packet ⟨some i₃, 3, nodename, db⟩ = (do
      let (_, db) ← csdbSetValueForKey b db (loadKey nodename ['1', '5']) (some data₁₅) (clock 2)
      .ok (.inl ⟨none, -1, nodename, db⟩)) := by
    intro db
    simp [helloBody, helloLoad_eq hname hr₁₅ ['1', '5'] (by decide)]
  rw [csProceedHello, loop_succ, hb₀]
  simp only [bind_assoc, ok_bind]
  refine bind_congr fun x => ?_
  rw [loop_succ, hb₁]
  simp only [bind_assoc, ok_bind]
  refine bind_congr fun x => ?_
  rw [loop_succ, hb₅]
  simp only [bind_assoc, ok_bind]
  refine bind_congr fun x => ?_
  rw [loop_succ, hb₁₅]
  simp only [bind_assoc, ok_bind]
  rfl

end Walk

def helloBytes (hostname loadavg1 loadavg5 loadavg15 : CStr) : Bytes :=
  [1, csHello] ++ (helloField hostname ++ (helloField loadavg1 ++ (helloField loadavg5 ++
    helloField loadavg15)))

theorem length_helloBytes (hostname loadavg1 loadavg5 loadavg15 : CStr) :
    (helloBytes hostname loadavg1 loadavg5 loadavg15).length =
      2 + hostname.length + loadavg1.length + loadavg5.length + loadavg15.length + 4 := by
  simp only [helloBytes, List.length_append, length_helloField, List.length_cons, List.length_nil]
  omega

theorem cspPackHelloPacket_eq {out : Bytes} {hostname loadavg1 loadavg5 loadavg15 : CStr}
    (hhost : hostname.length < 128) (h₁ : loadavg1.length < 128) (h₅ : loadavg5.length < 128)
    (h₁₅ : loadavg15.length < 128) (hout : 515 ≤ out.length) :
    ∃ rest, cspPackHelloPacket out hostname (some loadavg1) (some loadavg5) (some loadavg15) =
      .ok (((helloBytes hostname loadavg1 loadavg5 loadavg15).length : Nat),
        helloBytes hostname loadavg1 loadavg5 loadavg15 ++ rest) := by
  obtain ⟨x, y, rest, rfl⟩ : ∃ x y rest, out = x :: y :: rest := by
    match out, hout with
    | x :: y :: rest, _ => exact ⟨x, y, rest, rfl⟩
  simp only [List.length_cons] at hout
  have hheader : (do
      let packet ← writeByte (x :: y :: rest) 0 1
      writeByte packet 1 csHello) = .ok ([1, csHello] ++ rest) := rfl
  obtain ⟨r₀, hw₀, hl₀, hr₀⟩ := @writeHelloField_append [1, csHello] rest 2 rfl hostname
    hhost (by omega)
  obtain ⟨r₁, hw₁, hl₁, hr₁⟩ := writeHelloField_append hl₀ h₁
    (by omega : 1 + loadavg1.length ≤ r₀.length)
  obtain ⟨r₂, hw₂, hl₂, hr₂⟩ := writeHelloField_append hl₁ h₅
    (by omega : 1 + loadavg5.length ≤ r₁.length)
  obtain ⟨r₃, hw₃, hl₃, hr₃⟩ := writeHelloField_append hl₂ h₁₅
    (by omega : 1 + loadavg15.length ≤ r₂.length)
  have hterm := writeByte_terminator hl₃ (by omega : 0 < r₃.length)
  refine ⟨0 :: r₃.drop 1, ?_⟩
  rw [cspPackHelloPacket, ← bind_assoc, hheader, ok_bind]
  dsimp only
  rw [hw₀, ok_bind]
  dsimp only
  rw [hw₁, ok_bind]
  dsimp only
  rw [hw₂, ok_bind]
  dsimp only
  rw [hw₃, ok_bind]
  dsimp only
  rw [hterm, ok_bind, length_helloBytes, helloBytes]
  simp only [List.append_assoc]

section Packet

variable {hostname loadavg1 loadavg5 loadavg15 : CStr} (hhost : hostname.length ≤ 126)
  (h₁ : loadavg1.length ≤ 126) (h₅ : loadavg5.length ≤ 126) (h₁₅ : loadavg15.length ≤ 126)

include hhost h₁ h₅ h₁₅

/-- The four fields are read one behind the other. -/
theorem helloBytes_read (rest : Bytes) : ∃ i₁ i₂ i₃ i₄,
    readHelloField (helloBytes hostname loadavg1 loadavg5 loadavg15 ++ rest) 2 = .ok (hostname, i₁) ∧
      readHelloField (helloBytes hostname loadavg1 loadavg5 loadavg15 ++ rest) i₁ = .ok (loadavg1, i₂) ∧
      readHelloField (helloBytes hostname loadavg1 loadavg5 loadavg15 ++ rest) i₂ = .ok (loadavg5, i₃) ∧
      readHelloField (helloBytes hostname loadavg1 loadavg5 loadavg15 ++ rest) i₃ = .ok (loadavg15, i₄) := by
  obtain ⟨packet, hpacket⟩ : ∃ l, l = helloBytes hostname loadavg1 loadavg5 loadavg15 ++ rest :=
    ⟨_, rfl⟩
  have hsize : fieldSize = 127 := rfl
  -- the packet is split in front of each field in turn
  have hr₀ : readHelloField packet 2 = .ok (hostname, 2 + 1 + hostname.length) := by
    rw [hpacket, helloBytes, List.append_assoc, List.append_assoc]
    exact readHelloField_append rfl (by omega)
  have hr₁ : readHelloField packet (2 + 1 + hostname.length) =
      .ok (loadavg1, 2 + 1 + hostname.length + 1 + loadavg1.length) := by
    have hsplit : packet = ([1, csHello] ++ helloField hostname) ++ (helloField loadavg1 ++
        (helloField loadavg5 ++ (helloField loadavg15 ++ rest))) := by
      rw [hpacket, helloBytes]
      simp only [List.append_assoc]
    rw [hsplit]
    exact readHelloField_append (by simp; omega) (by omega)
  have hr₅ : readHelloField packet (2 + 1 + hostname.length + 1 + loadavg1.length) =
      .ok (loadavg5, 2 + 1 + hostname.length + 1 + loadavg1.length + 1 + loadavg5.length) := by
    have hsplit : packet = ([1, csHello] ++ helloField hostname ++ helloField loadavg1) ++
        (helloField loadavg5 ++ (helloField loadavg15 ++ rest)) := by
      rw [hpacket, helloBytes]
      simp only [List.append_assoc]
    rw [hsplit]
    exact readHelloField_append (by simp; omega) (by omega)
  have hr₁₅ : readHelloField packet
      (2 + 1 + hostname.length + 1 + loadavg1.length + 1 + loadavg5.length) = .ok (loadavg15,
        2 + 1 + hostname.length + 1 + loadavg1.length + 1 + loadavg5.length + 1 +
          loadavg15.length) := by
    have hsplit : packet = ([1, csHello] ++ helloField hostname ++ helloField loadavg1 ++
        helloField loadavg5) ++ (helloField loadavg15 ++ rest) := by
      rw [hpacket, helloBytes]
      simp only [List.append_assoc]
    rw [hsplit]
    exact readHelloField_append (by simp; omega) (by omega)
  rw [← hpacket]
  exact ⟨_, _, _, _, hr₀, hr₁, hr₅, hr₁₅⟩

/-- The database calls a received packet leads to. -/
theorem csProceedHello_eq (b : Search) (clock : Nat → Int) (rest : Bytes) (db : Database) :
    csProceedHello b clock (helloBytes hostname loadavg1 loadavg5 loadavg15 ++ rest) 2 db = (do
      let (_, db) ← cscNodeIsAlive b db hostname
      let (_, db) ← csdbSetValueForKey b db (loadKey hostname ['1']) (some loadavg1) (clock 0)
      let (_, db) ← csdbSetValueForKey b db (loadKey hostname ['5']) (some loadavg5) (clock 1)
      let (_, db) ← csdbSetValueForKey b db (loadKey hostname ['1', '5']) (some loadavg15) (clock 2)
      .ok (0, db)) := by
  obtain ⟨i₁, i₂, i₃, i₄, hr₀, hr₁, hr₅, hr₁₅⟩ := helloBytes_read hhost h₁ h₅ h₁₅ rest
  exact csProceedHello_of_fields hhost hr₀ hr₁ hr₅ hr₁₅ b clock db

end Packet

/-! ## The keys of a node -/

/-- The path of a load; the name of the node may have dots. -/
def loadPath (nodename : CStr) (minutes : List Char) : List CStr :=
  alive :: (nodename.splitOn dot ++ [loadavg minutes])

theorem loadKey_eq (nodename : CStr) (minutes : List Char) :
    loadKey nodename minutes = dot :: (alive ++ dot :: (nodename ++ dot :: loadavg minutes)) := by
  simp [loadKey, aliveKey]

/-- The three keys of a node are valid whatever its name is. -/
theorem loadKey_valid (nodename : CStr) {minutes : List Char} (hdot : dot ∉ loadavg minutes)
    (hne : loadavg minutes ≠ []) : csdbIsValidKey (loadKey nodename minutes) = true := by
  rw [loadKey_eq]
  exact (nestedKey_valid nodename alive_no_dot hdot hne).1

theorem keyPath_loadKey (nodename : CStr) {minutes : List Char} (hdot : dot ∉ loadavg minutes)
    (hne : loadavg minutes ≠ []) :
    keyPath (loadKey nodename minutes) = loadPath nodename minutes := by
  rw [loadKey_eq]
  exact (nestedKey_valid nodename alive_no_dot hdot hne).2

/-- The entry of the node lies on the way to its loads. -/
theorem nodePath_loadPath (nodename : CStr) (minutes : List Char) :
    (nodePath nodename).reverse <:+ (loadPath nodename minutes).reverse := by
  have hload : loadPath nodename minutes = (alive :: nodename.splitOn dot) ++ [loadavg minutes] := rfl
  rw [List.reverse_suffix, hload]
  exact (readParts_front _).trans (List.prefix_append _ _)

theorem loadKey_ne (nodename : CStr) {m m' : List Char} (h : loadavg m ≠ loadavg m') :
    loadKey nodename m ≠ loadKey nodename m' := by
  intro he
  exact h (List.cons.inj (List.append_cancel_left he)).2

/-! ## Delivery -/

def helloCalls (hostname loadavg1 loadavg5 loadavg15 : CStr) : List Call :=
  [.set (loadKey hostname ['1']) (some loadavg1), .set (loadKey hostname ['5']) (some loadavg5),
    .set (loadKey hostname ['1', '5']) (some loadavg15)]

def helloRecord (hostname loadavg1 loadavg5 loadavg15 : CStr) (clock : Nat → Int)
    (r : UpPath → Option Record) : UpPath → Option Record :=
  setRecord (some loadavg15) (clock 2) (loadPath hostname ['1', '5']).reverse
    (setRecord (some loadavg5) (clock 1) (loadPath hostname ['5']).reverse
      (setRecord (some loadavg1) (clock 0) (loadPath hostname ['1']).reverse r))

def helloPacketSize : Nat := 1024

section Delivery

variable {hostname loadavg1 loadavg5 loadavg15 : CStr} (hhost : hostname.length ≤ 126)
  (h₁ : loadavg1.length ≤ 126) (h₅ : loadavg5.length ≤ 126) (h₁₅ : loadavg15.length ≤ 126)

include hhost h₁ h₅ h₁₅

theorem hello_received {out buf : Bytes} (hout : out.length = helloPacketSize)
    (hbuf : buf.length = maxline) :
    ∃ (n : Nat) (packet rest : Bytes),
      cspPackHelloPacket out hostname (some loadavg1) (some loadavg5) (some loadavg15) =
        .ok (n, packet) ∧
      recvfrom buf (packet.take n) = helloBytes hostname loadavg1 loadavg5 loadavg15 ++ rest := by
  have hsize : helloPacketSize = 1024 := rfl
  have hmax : maxline = 4096 := rfl
  obtain ⟨rest, hpack⟩ := @cspPackHelloPacket_eq out hostname loadavg1 loadavg5 loadavg15
    (by omega) (by omega) (by omega) (by omega) (by omega)
  have hlen := length_helloBytes hostname loadavg1 loadavg5 loadavg15
  obtain ⟨rest', hrecv, -⟩ := @recvfrom_append (helloBytes hostname loadavg1 loadavg5 loadavg15)
    rest buf _ (Nat.le_refl _) (by rw [List.length_append]; omega) (by omega)
  exact ⟨_, _, rest', hpack, hrecv⟩

variable {db : Database} {t : Tree}

theorem csProceedHello_spec (h : Holds .linear db t) (hfree : db.locked = false)
    (clock : Nat → Int) (rest : Bytes) :
    ∃ db' t',
      csProceedHello .linear clock (helloBytes hostname loadavg1 loadavg5 loadavg15 ++ rest) 2 db =
        .ok (0, db') ∧
      run .linear clock 0 (helloCalls hostname loadavg1 loadavg5 loadavg15) db =
        .ok ([.ret 0, .ret 0, .ret 0], db') ∧
      Holds .linear db' t' ∧ db'.locked = false ∧
      (∀ q, t'.record q = helloRecord hostname loadavg1 loadavg5 loadavg15 clock t.record q) ∧
      ∀ key, csdbIsValidKey key = true → valueFor .linear db' key =
        if key = loadKey hostname ['1', '5'] then .ok (some loadavg15)
        else if key = loadKey hostname ['5'] then .ok (some loadavg5)
        else if key = loadKey hostname ['1'] then .ok (some loadavg1)
        else valueFor .linear db key := by
  obtain ⟨L, hrep⟩ := id h
  have hv : ∀ minutes, minutes = ['1'] ∨ minutes = ['5'] ∨ minutes = ['1', '5'] →
      csdbIsValidKey (loadKey hostname minutes) = true := by
    rintro _ (rfl | rfl | rfl) <;> exact loadKey_valid hostname (by decide) (by decide)
  have halive := cscNodeIsAlive_spec hrep hfree (Nat.lt_of_le_of_lt hhost (by decide))
  obtain ⟨db₁, t₁, hok₁, hh₁, hf₁, hrec₁, hval₁⟩ :=
    csdbSetValueForKey_values h (bounded_linear t) hfree (hv ['1'] (by simp)) loadavg1 (clock 0)
  obtain ⟨db₂, t₂, hok₂, hh₂, hf₂, hrec₂, hval₂⟩ :=
    csdbSetValueForKey_values hh₁ (bounded_linear t₁) hf₁ (hv ['5'] (by simp)) loadavg5 (clock 1)
  obtain ⟨db₃, t₃, hok₃, hh₃, hf₃, hrec₃, hval₃⟩ :=
    csdbSetValueForKey_values hh₂ (bounded_linear t₂) hf₂ (hv ['1', '5'] (by simp)) loadavg15
      (clock 2)
  refine ⟨db₃, t₃, ?_, ?_, hh₃, hf₃, ?_, ?_⟩
  · simp only [csProceedHello_eq hhost h₁ h₅ h₁₅, halive, hok₁, hok₂, hok₃, ok_bind]
  · simp [helloCalls, run, Call.exec, hok₁, hok₂, hok₃, Except.map]
  · intro q
    rw [hrec₃, funext hrec₂, funext hrec₁, helloRecord]
    simp only [keyPath_loadKey _ (by decide : dot ∉ loadavg ['1']) (by decide),
      keyPath_loadKey _ (by decide : dot ∉ loadavg ['5']) (by decide),
      keyPath_loadKey _ (by decide : dot ∉ loadavg ['1', '5']) (by decide)]
  · intro key hkey
    rw [hval₃ key hkey (bounded_linear t₃), hval₂ key hkey (bounded_linear t₂),
      hval₁ key hkey (bounded_linear t₁)]

/-- **Hello delivery.** A hello packet, cut to its announced length and received in
any array, changes every reachable database whose mutex is free exactly as setting
the three keys of the node does. -/
theorem hello_delivered (hreach : Reachable db) (hfree : db.locked = false) (clock : Nat → Int)
    {out buf : Bytes} (hout : out.length = helloPacketSize) (hbuf : buf.length = maxline) :
    ∃ (n : Nat) (packet : Bytes) (db' : Database),
      cspPackHelloPacket out hostname (some loadavg1) (some loadavg5) (some loadavg15) =
        .ok (n, packet) ∧
      csProceedHello .linear clock (recvfrom buf (packet.take n)) 2 db = .ok (0, db') ∧
      run .linear clock 0 (helloCalls hostname loadavg1 loadavg5 loadavg15) db =
        .ok ([.ret 0, .ret 0, .ret 0], db') ∧
      valueFor .linear db' (loadKey hostname ['1']) = .ok (some loadavg1) ∧
      valueFor .linear db' (loadKey hostname ['5']) = .ok (some loadavg5) ∧
      valueFor .linear db' (loadKey hostname ['1', '5']) = .ok (some loadavg15) ∧
      ∀ key, csdbIsValidKey key = true → key ≠ loadKey hostname ['1'] →
        key ≠ loadKey hostname ['5'] → key ≠ loadKey hostname ['1', '5'] →
        valueFor .linear db' key = valueFor .linear db key := by
  obtain ⟨t, h⟩ := hreach.holds
  obtain ⟨n, packet, rest, hpack, hrecv⟩ := hello_received hhost h₁ h₅ h₁₅ hout hbuf
  obtain ⟨db', t', hproceed, hrun, -, -, -, hval⟩ :=
    csProceedHello_spec hhost h₁ h₅ h₁₅ h hfree clock rest
  refine ⟨n, packet, db', hpack, by rw [hrecv]; exact hproceed, hrun, ?_, ?_, ?_, ?_⟩
  · rw [hval _ (loadKey_valid hostname (by decide) (by decide)),
      if_neg (loadKey_ne hostname (by decide)), if_neg (loadKey_ne hostname (by decide)), if_pos rfl]
  · rw [hval _ (loadKey_valid hostname (by decide) (by decide)),
      if_neg (loadKey_ne hostname (by decide)), if_pos rfl]
  · rw [hval _ (loadKey_valid hostname (by decide) (by decide)), if_pos rfl]
  · intro key hkey hne₁ hne₅ hne₁₅
    rw [hval key hkey, if_neg hne₁₅, if_neg hne₅, if_neg hne₁]

end Delivery

/-- A node whose name has a dot, and a name that is empty. -/
theorem hello_delivered_fresh :
    ∃ db, Reachable db ∧ db.locked = false ∧
      ∀ hostname : CStr, hostname = lit ['a', '.', 'b'] ∨ hostname = [] →
      ∃ (n : Nat) (packet : Bytes) (db' : Database),
        cspPackHelloPacket (List.replicate helloPacketSize 7) hostname (some (lit ['0']))
          (some (lit ['2'])) (some []) = .ok (n, packet) ∧
        csProceedHello .linear (fun _ => 0) (recvfrom (List.replicate maxline 9) (packet.take n)) 2
          db = .ok (0, db') ∧
        valueFor .linear db' (loadKey hostname ['1']) = .ok (some (lit ['0'])) := by
  obtain ⟨db, hinit, -, hfree⟩ := csdbInit_spec .linear 0
  have hreach : Reachable db := Reachable.init 0 db hinit
  refine ⟨db, hreach, hfree, ?_⟩
  intro hostname hhost
  have hlen : hostname.length ≤ 126 := by
    rcases hhost with rfl | rfl <;> decide
  obtain ⟨n, packet, db', hpack, hproceed, -, hval, -⟩ :=
    @hello_delivered hostname (lit ['0']) (lit ['2']) [] hlen (by decide) (by decide) (by decide) db
      hreach hfree (fun _ => 0) (List.replicate helloPacketSize 7) (List.replicate maxline 9)
      List.length_replicate List.length_replicate
  exact ⟨n, packet, db', hpack, hproceed, hval⟩

end Dkmp.Csd
