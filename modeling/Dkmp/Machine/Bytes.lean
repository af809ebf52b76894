import Dkmp.Machine.CString

/-! # Bytes in memory

Integers in the byte order of a little-endian host, reading along a byte list,
and arrays of bytes. An array has a fixed length; an access outside it is a fault.
A sequence of writes at moving offsets fills an array from the front, and what it
held before only survives behind them.
-/

namespace Dkmp.Machine

abbrev Bytes := List UInt8

/-! ## Integers -/

def bytes16 (x : UInt16) : Bytes := [.ofNat (x.toNat % 256), .ofNat (x.toNat / 256)]

def bytes32 (x : UInt32) : Bytes :=
  [.ofNat (x.toNat % 256), .ofNat (x.toNat / 256 % 256), .ofNat (x.toNat / 65536 % 256),
    .ofNat (x.toNat / 16777216)]

/-- `memcpy` of two bytes at a pointer, which then moves on. -/
def get16 : Bytes → Exec (UInt16 × Bytes)
  | b₀ :: b₁ :: rest => .ok (.ofNat (b₀.toNat + 256 * b₁.toNat), rest)
  | _ => .error .bounds

def get32 : Bytes → Exec (UInt32 × Bytes)
  | b₀ :: b₁ :: b₂ :: b₃ :: rest =>
      .ok (.ofNat (b₀.toNat + 256 * b₁.toNat + 65536 * b₂.toNat + 16777216 * b₃.toNat), rest)
  | _ => .error .bounds

def getBytes (n : Nat) (p : Bytes) : Exec (Bytes × Bytes) :=
  if n ≤ p.length then .ok (p.take n, p.drop n) else .error .bounds

theorem get16_bytes16 (x : UInt16) (rest : Bytes) : get16 (bytes16 x ++ rest) = .ok (x, rest) := by
  have hx := x.toNat_lt
  have hval : x.toNat % 256 % 256 + 256 * (x.toNat / 256 % 256) = x.toNat := by omega
  simp only [bytes16, get16, List.cons_append, List.nil_append, UInt8.toNat_ofNat']
  rw [hval, UInt16.ofNat_toNat]

theorem get32_bytes32 (x : UInt32) (rest : Bytes) : get32 (bytes32 x ++ rest) = .ok (x, rest) := by
  have hx := x.toNat_lt
  have hval : x.toNat % 256 % 256 + 256 * (x.toNat / 256 % 256 % 256) +
      65536 * (x.toNat / 65536 % 256 % 256) + 16777216 * (x.toNat / 16777216 % 256) = x.toNat := by
    omega
  simp only [bytes32, get32, List.cons_append, List.nil_append, UInt8.toNat_ofNat']
  rw [hval, UInt32.ofNat_toNat]

theorem getBytes_append (s rest : Bytes) : getBytes s.length (s ++ rest) = .ok (s, rest) := by
  simp [getBytes]

/-- The two bytes at an offset as a number; what lies behind the end counts as 0. -/
def value16 (d : Bytes) (i : Nat) : Nat := (d.getD i 0).toNat + 256 * (d.getD (i + 1) 0).toNat

theorem value16_lt (d : Bytes) (i : Nat) : value16 d i < 65536 := by
  have h₀ := (d.getD i 0).toNat_lt
  have h₁ := (d.getD (i + 1) 0).toNat_lt
  unfold value16
  omega

@[simp] theorem toNat_ofNat_value16 (d : Bytes) (i : Nat) :
    (UInt16.ofNat (value16 d i)).toNat = value16 d i :=
  Nat.mod_eq_of_lt (value16_lt d i)

theorem get16_drop (d : Bytes) (i : Nat) :
    get16 (d.drop i) =
      if i + 2 ≤ d.length then .ok (.ofNat (value16 d i), d.drop (i + 2)) else .error .bounds := by
  by_cases hi : i + 2 ≤ d.length
  · have h₀ : i < d.length := by omega
    have h₁ : i + 1 < d.length := by omega
    rw [if_pos hi, List.drop_eq_getElem_cons h₀, List.drop_eq_getElem_cons h₁, get16]
    simp [value16, h₀, h₁]
  · have hlen : (d.drop i).length < 2 := by
      rw [List.length_drop]
      omega
    rw [if_neg hi]
    match d.drop i, hlen with
    | [], _ => rfl
    | [_], _ => rfl

theorem get32_drop (d : Bytes) (i : Nat) :
    ∃ x, get32 (d.drop i) =
      if i + 4 ≤ d.length then .ok (x, d.drop (i + 4)) else .error .bounds := by
  by_cases hi : i + 4 ≤ d.length
  · simp only [if_pos hi]
    rw [List.drop_eq_getElem_cons (by omega), List.drop_eq_getElem_cons (by omega),
      List.drop_eq_getElem_cons (by omega), List.drop_eq_getElem_cons (by omega)]
    exact ⟨_, rfl⟩
  · refine ⟨0, ?_⟩
    have hlen : (d.drop i).length < 4 := by
      rw [List.length_drop]
      omega
    rw [if_neg hi]
    match d.drop i, hlen with
    | [], _ => rfl
    | [_], _ => rfl
    | [_, _], _ => rfl
    | [_, _, _], _ => rfl

theorem getBytes_drop (d : Bytes) {i n : Nat} (hi : i ≤ d.length) :
    getBytes n (d.drop i) =
      if i + n ≤ d.length then .ok ((d.drop i).take n, d.drop (i + n)) else .error .bounds := by
  have hfits : n ≤ (d.drop i).length ↔ i + n ≤ d.length := by
    rw [List.length_drop]
    omega
  simp only [getBytes, hfits, List.drop_drop]

@[simp] theorem length_bytes16 (x : UInt16) : (bytes16 x).length = 2 := rfl

/-! ## Strings -/

def chars (s : CStr) : Bytes := s.map Subtype.val

@[simp] theorem length_chars (s : CStr) : (chars s).length = s.length := List.length_map _

/-- The string a byte list begins with, up to its first `NUL`. -/
def stringOf : Bytes → CStr
  | [] => []
  | b :: rest => if h : b ≠ 0 then ⟨b, h⟩ :: stringOf rest else []

@[simp] theorem stringOf_chars (s : CStr) : stringOf (chars s) = s := by
  induction s with
  | nil => rfl
  | cons c s ih =>
      have hc : c.val ≠ 0 := c.property
      rw [chars, List.map_cons, stringOf, dif_pos hc]
      exact congrArg _ ih

theorem length_stringOf_le (b : Bytes) : (stringOf b).length ≤ b.length := by
  induction b with
  | nil => exact Nat.le_refl 0
  | cons x b ih =>
      rw [stringOf]
      split
      · simpa using ih
      · exact Nat.zero_le _

theorem stringOf_terminated (s : CStr) (rest : Bytes) : stringOf (chars s ++ 0 :: rest) = s := by
  induction s with
  | nil => rfl
  | cons c s ih =>
      have hc : c.val ≠ 0 := c.property
      rw [chars, List.map_cons, List.cons_append, stringOf, dif_pos hc]
      exact congrArg _ ih

/-! ## Arrays -/

/-- A string in an array: its terminator lies in the array too. -/
def readString (b : Bytes) (i : Nat) : Exec CStr :=
  if 0 ∈ b.drop i then .ok (stringOf (b.drop i)) else .error .bounds

def readByte (b : Bytes) (i : Nat) : Exec UInt8 :=
  match b[i]? with
  | some x => .ok x
  | none => .error .bounds

theorem readByte_lt {b : Bytes} {i : Nat} (h : i < b.length) : readByte b i = .ok b[i] := by
  rw [readByte, List.getElem?_eq_getElem h]

def readBytes (b : Bytes) (i n : Nat) : Exec Bytes :=
  if i + n ≤ b.length then .ok ((b.drop i).take n) else .error .bounds

def read16 (b : Bytes) (i : Nat) : Exec UInt16 := do
  let (x, _) ← get16 (b.drop i)
  .ok x

def writeBytes (b : Bytes) (i : Nat) (data : Bytes) : Exec Bytes :=
  if i + data.length ≤ b.length then .ok (b.take i ++ (data ++ b.drop (i + data.length)))
  else .error .bounds

def writeByte (b : Bytes) (i : Nat) (x : UInt8) : Exec Bytes := writeBytes b i [x]

theorem writeByte_lt {b : Bytes} {i : Nat} (h : i < b.length) (x : UInt8) :
    ∃ b', writeByte b i x = .ok b' ∧ b'.length = b.length := by
  refine ⟨_, if_pos h, ?_⟩
  simp only [List.length_append, List.length_take, List.length_drop, List.length_singleton]
  omega

def strncpyBytes (s : CStr) (n : Nat) : Bytes :=
  (chars s).take n ++ List.replicate (n - s.length) 0

/-- A datagram is copied to the front of an array, as far as it fits. -/
def recvfrom (b datagram : Bytes) : Bytes :=
  datagram.take b.length ++ b.drop datagram.length

section Arrays

variable {front rest data : Bytes}

theorem writeBytes_append (h : data.length ≤ rest.length) :
    writeBytes (front ++ rest) front.length data =
      .ok ((front ++ data) ++ rest.drop data.length) := by
  rw [writeBytes, if_pos (by rw [List.length_append]; omega), List.take_left]
  simp [List.drop_append]

theorem writeByte_append {x : UInt8} (h : 0 < rest.length) :
    writeByte (front ++ rest) front.length x = .ok ((front ++ [x]) ++ rest.drop 1) :=
  writeBytes_append h

theorem read16_append (x : UInt16) (rest : Bytes) :
    read16 (front ++ (bytes16 x ++ rest)) front.length = .ok x := by
  rw [read16, List.drop_left, get16_bytes16, ok_bind]

theorem readByte_front {i : Nat} (h : i < front.length) :
    readByte (front ++ rest) i = .ok (front.getD i 0) := by
  rw [readByte, List.getElem?_append_left h, List.getElem?_eq_getElem h]
  simp [h]

theorem value16_front {i : Nat} (h : i + 2 ≤ front.length) :
    value16 (front ++ rest) i = value16 front i := by
  have h₀ : i < front.length := by omega
  have h₁ : i + 1 < front.length := by omega
  simp [value16, List.getElem?_append_left, h₀, h₁]

theorem read16_front {i : Nat} (h : i + 2 ≤ front.length) :
    read16 (front ++ rest) i = .ok (.ofNat (value16 front i)) := by
  rw [read16, get16_drop, if_pos (by rw [List.length_append]; omega), ok_bind, value16_front h]

theorem readBytes_append : readBytes (front ++ (data ++ rest)) front.length data.length = .ok data := by
  rw [readBytes, if_pos (by simp only [List.length_append]; omega), List.drop_left, List.take_left]

theorem readString_append (s : CStr) :
    readString (front ++ (chars s ++ 0 :: rest)) front.length = .ok s := by
  rw [readString, List.drop_left, if_pos (by simp), stringOf_terminated]

/-- What was sent is at the front of the array it was received in. -/
theorem recvfrom_append {b : Bytes} {n : Nat} (hfront : front.length ≤ n)
    (hn : n ≤ (front ++ rest).length) (hb : n ≤ b.length) :
    ∃ rest', recvfrom b ((front ++ rest).take n) = front ++ rest' ∧
      front.length + rest'.length = b.length := by
  have hlen : ((front ++ rest).take n).length = n := List.length_take_of_le hn
  refine ⟨rest.take (n - front.length) ++ b.drop n, ?_, ?_⟩
  · rw [recvfrom, List.take_of_length_le (by omega), hlen, List.take_append, List.take_of_length_le hfront,
      List.append_assoc]
  · rw [List.length_append] at hn
    simp only [List.length_append, List.length_take, List.length_drop]
    omega

end Arrays

end Dkmp.Machine
