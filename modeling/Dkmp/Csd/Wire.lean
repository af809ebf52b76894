import Dkmp.Csd.Answer

/-! # What goes on the wire

A packet is written into an array, and as many bytes of the array are sent as the
packing function returns. The two are computed apart from each other, and the lengths
in a packet have one or two bytes.
-/

namespace Dkmp.Csd

open Machine Csdb Csp Csc

/-! ## Lengths that are cut -/

def cut16 (s : CStr) : CStr := s.take (s.length % 65536)

def cut8 (s : CStr) : CStr := s.take (s.length % 256)

@[simp] theorem length_cut16 (s : CStr) : (cut16 s).length = s.length % 65536 := by
  have hle := Nat.mod_le s.length 65536
  rw [cut16, List.length_take, Nat.min_eq_left hle]

@[simp] theorem length_cut8 (s : CStr) : (cut8 s).length = s.length % 256 := by
  have hle := Nat.mod_le s.length 256
  rw [cut8, List.length_take, Nat.min_eq_left hle]

theorem ofNat_length_cut16 (s : CStr) : UInt16.ofNat (cut16 s).length = .ofNat s.length := by
  apply UInt16.toNat_inj.mp
  rw [length_cut16, UInt16.toNat_ofNat', UInt16.toNat_ofNat', Nat.mod_mod]

theorem ofNat_length_cut8 (s : CStr) : UInt8.ofNat (cut8 s).length = .ofNat s.length := by
  apply UInt8.toNat_inj.mp
  rw [length_cut8, UInt8.toNat_ofNat', UInt8.toNat_ofNat', Nat.mod_mod]

theorem chars_take (s : CStr) (n : Nat) : chars (s.take n) = (chars s).take n :=
  List.map_take

theorem take_chars_cut16 (s : CStr) :
    (chars (cut16 s)).take (UInt16.ofNat s.length).toNat =
      (chars s).take (UInt16.ofNat s.length).toNat := by
  rw [cut16, chars_take, List.take_take, UInt16.toNat_ofNat', Nat.min_self]

theorem take_chars_cut8 (s : CStr) :
    (chars (cut8 s)).take (UInt8.ofNat s.length).toNat =
      (chars s).take (UInt8.ofNat s.length).toNat := by
  rw [cut8, chars_take, List.take_take, UInt8.toNat_ofNat', Nat.min_self]

theorem strncpyBytes_cut16 (s : CStr) :
    strncpyBytes (cut16 s) (UInt16.ofNat s.length).toNat =
      strncpyBytes s (UInt16.ofNat s.length).toNat := by
  have hle := Nat.mod_le s.length 65536
  have hpad : (UInt16.ofNat s.length).toNat - (cut16 s).length =
      (UInt16.ofNat s.length).toNat - s.length := by
    rw [length_cut16, UInt16.toNat_ofNat', Nat.sub_self, Nat.sub_eq_zero_of_le hle]
  rw [strncpyBytes, strncpyBytes, take_chars_cut16, hpad]

theorem length_strncpyBytes (s : CStr) (n : Nat) : (strncpyBytes s n).length = n := by
  simp only [strncpyBytes, List.length_append, List.length_take, length_chars,
    List.length_replicate]
  omega

theorem writeField_bounds {packet data : Bytes} {i : Nat} {len : UInt16}
    (h : packet.length < i + 2 + data.length) :
    writeField packet i len data = .error .bounds := by
  rw [writeField, writeBytes]
  split
  · rename_i hlen
    rw [ok_bind, writeBytes, if_neg]
    simp only [List.length_append, List.length_take, List.length_drop] at hlen ⊢
    omega
  · rfl

/-! ## Responses -/

section Response

variable {out : Bytes} {data : CStr}

theorem cspPackRespPacket_cut (err : UInt8) (hroom : data.length % 65536 + 5 ≤ out.length)
    (hdata : data.length % 65536 < cspMaxpacketSize - 3) :
    cspPackRespPacket out csRespWdata err (some data) =
      .ok (data.length % 65536 + 5,
        ([1, csRespWdata, err] ++ field (cut16 data)) ++ out.drop (5 + data.length % 65536)) := by
  have hcut : cspPackRespPacket out csRespWdata err (some data) =
      cspPackRespPacket out csRespWdata err (some (cut16 data)) := by
    have hlt : ¬ cspMaxpacketSize - 3 ≤ (UInt16.ofNat data.length).toNat := by
      rw [UInt16.toNat_ofNat']
      exact Nat.not_le.mpr hdata
    unfold cspPackRespPacket
    dsimp only
    rw [ofNat_length_cut16, if_neg hlt, strncpyBytes_cut16]
  rw [hcut, cspPackRespPacket_data err (by rwa [length_cut16]) (by rwa [length_cut16]),
    length_cut16]

/-- A length that leaves no room for the header is written as it is, or raised to the size
of the whole array. -/
theorem cspPackRespPacket_overflow (err : UInt8) (hout : out.length = cspMaxpacketSize)
    (hdata : cspMaxpacketSize < data.length % 65536 + 5) :
    cspPackRespPacket out csRespWdata err (some data) = .error .bounds := by
  have hsize : cspMaxpacketSize = 65535 := rfl
  have hnat : (UInt16.ofNat data.length).toNat = data.length % 65536 := UInt16.toNat_ofNat'
  have hclamp : (UInt16.ofNat cspMaxpacketSize).toNat = cspMaxpacketSize := rfl
  unfold cspPackRespPacket
  rw [writeHeader_eq (by omega), ok_bind, if_pos rfl]
  dsimp only
  split
  · rw [writeField_bounds, error_bind]
    rw [length_strncpyBytes, hclamp, List.length_append, List.length_drop]
    show 3 + _ < _
    omega
  · rw [writeField_bounds, error_bind]
    rw [length_strncpyBytes, hnat, List.length_append, List.length_drop]
    show 3 + _ < _
    omega

end Response

/-- In an array of `CSP_MAXPACKET_SIZE` bytes the packet for a text lies inside the array
and announces no more than its size, and it holds the text as far as it fits. -/
def RespectsLimit (data : CStr) : Prop :=
  ∀ (respPacket : Bytes) (err : UInt8), respPacket.length = cspMaxpacketSize →
    ∃ (n : Nat) (packet : Bytes),
      cspPackRespPacket respPacket csRespWdata err (some data) = .ok (n, packet) ∧
      n ≤ cspMaxpacketSize ∧ packet.length = cspMaxpacketSize ∧
      packet.take n = [1, csRespWdata, err] ++ field (data.take (cspMaxpacketSize - 5))

theorem cut16_eq_take {data : CStr} {n : Nat}
    (h : data.length ≤ n ∧ n < 65536 ∨ data.length % 65536 = n) : cut16 data = data.take n := by
  rcases h with ⟨hle, hlt⟩ | rfl
  · rw [cut16, Nat.mod_eq_of_lt (Nat.lt_of_le_of_lt hle hlt), List.take_length,
      List.take_of_length_le hle]
  · rfl

/-- **Responses and the packet limit.** A response respects the limit exactly when its text
fits, or when the length that is left of it after the cut to two bytes is by chance the
largest one that fits. -/
theorem respectsLimit_iff (data : CStr) :
    RespectsLimit data ↔
      data.length + 5 ≤ cspMaxpacketSize ∨ data.length % 65536 + 5 = cspMaxpacketSize := by
  have hsize : cspMaxpacketSize = 65535 := rfl
  have hle := Nat.mod_le data.length 65536
  constructor
  · intro hresp
    obtain ⟨n, packet, hpack, hn, hlen, htake⟩ :=
      hresp (List.replicate cspMaxpacketSize 0) 0 List.length_replicate
    by_cases hfits : data.length % 65536 + 5 ≤ cspMaxpacketSize
    · rw [cspPackRespPacket_cut 0 (by rwa [List.length_replicate]) (by omega)] at hpack
      have hnat := (Prod.mk.inj (Except.ok.inj hpack)).1
      have hbytes := congrArg List.length htake
      simp only [List.length_take, List.length_append, length_field, List.length_cons,
        List.length_nil] at hbytes
      omega
    · rw [cspPackRespPacket_overflow 0 List.length_replicate (by omega)] at hpack
      cases hpack
  · intro hfits respPacket err hlen
    have hcut : cut16 data = data.take (cspMaxpacketSize - 5) :=
      cut16_eq_take (by omega)
    refine ⟨_, _, cspPackRespPacket_cut err (by omega) (by omega), by omega, ?_, ?_⟩
    · simp only [List.length_append, length_field, List.length_drop, length_cut16,
        List.length_cons, List.length_nil]
      omega
    · rw [hcut, List.take_left']
      rw [← hcut, List.length_append, length_field, length_cut16]
      show 3 + _ = _
      omega

/-- A text of one byte more than fits is written behind the end of the array. -/
theorem long_response_passes_limit :
    ¬ RespectsLimit (List.replicate 65531 (⟨120, by decide⟩ : CChar)) := by
  intro hresp
  have hlen : (List.replicate 65531 (⟨120, by decide⟩ : CChar)).length = 65531 :=
    List.length_replicate
  obtain ⟨n, packet, hpack, -⟩ := hresp (List.replicate cspMaxpacketSize 0) 0 List.length_replicate
  rw [cspPackRespPacket_overflow 0 List.length_replicate (by rw [hlen]; decide)] at hpack
  cases hpack

/-! ## Packets and what their arrays held -/

/-- The bytes that are sent lie in the array and do not depend on what it held before; a
packet of length -1 is not sent. -/
def SentSame (size : Nat) (pack : Bytes → Exec (Int × Bytes)) : Prop :=
  ∀ before before' : Bytes, before.length = size → before'.length = size →
    ∃ (n : Int) (packet packet' : Bytes), pack before = .ok (n, packet) ∧
      pack before' = .ok (n, packet') ∧ n ≤ size ∧ packet.take n.toNat = packet'.take n.toNat

section SentSame

variable {size : Nat} {pack : Bytes → Exec (Int × Bytes)}

/-- What is announced has been written, the same bytes whatever the array held. -/
theorem SentSame.of_written {written : Bytes} {n : Nat} (hn : n ≤ written.length)
    (hsize : n ≤ size)
    (hpack : ∀ before, before.length = size → ∃ rest, pack before = .ok (n, written ++ rest)) :
    SentSame size pack := by
  intro before before' hb hb'
  obtain ⟨rest, hp⟩ := hpack before hb
  obtain ⟨rest', hp'⟩ := hpack before' hb'
  refine ⟨n, _, _, hp, hp', Int.ofNat_le.mpr hsize, ?_⟩
  rw [Int.toNat_natCast, List.take_append_of_le_length hn, List.take_append_of_le_length hn]

/-- The last byte that is announced is left as it was. -/
theorem not_sentSame_of_left {m : Nat}
    (hpack : ∀ before n packet, before.length = size → pack before = .ok (n, packet) →
      n = (m + 1 : Nat) ∧ packet[m]? = before[m]?) :
    ¬ SentSame size pack := by
  intro hsame
  obtain ⟨n, packet, packet', hp, hp', hn, htake⟩ := hsame (List.replicate size 0)
    (List.replicate size 1) List.length_replicate List.length_replicate
  obtain ⟨rfl, hleft⟩ := hpack _ _ _ List.length_replicate hp
  obtain ⟨-, hleft'⟩ := hpack _ _ _ List.length_replicate hp'
  have hm : m < size := by omega
  have hbyte := congrArg (·[m]?) htake
  simp only [Int.toNat_natCast, List.getElem?_take_of_lt (Nat.lt_succ_self m), hleft, hleft',
    List.getElem?_replicate_of_lt hm] at hbyte
  exact absurd hbyte (by decide)

theorem not_sentSame_of_error {e : Fault}
    (hpack : ∀ before, before.length = size → pack before = .error e) : ¬ SentSame size pack := by
  intro hsame
  obtain ⟨n, packet, packet', hp, -⟩ := hsame (List.replicate size 0) (List.replicate size 0)
    List.length_replicate List.length_replicate
  rw [hpack _ List.length_replicate] at hp
  cases hp

end SentSame

/-! ## Hello packets -/

theorem writeHelloField_cut8 (packet : Bytes) (i : Nat) (s : CStr) :
    writeHelloField packet i (cut8 s) = writeHelloField packet i s := by
  have hsize : sizeOfChar (.ofNat s.length) = .ok (UInt8.ofNat s.length).toNat ∨
      sizeOfChar (.ofNat s.length) = .error .bounds := by
    rw [sizeOfChar]
    split
    · exact Or.inl rfl
    · exact Or.inr rfl
  unfold writeHelloField
  dsimp only
  rw [ofNat_length_cut8]
  refine bind_congr fun packet => ?_
  rcases hsize with h | h
  · rw [h, ok_bind, ok_bind, take_chars_cut8]
  · rw [h, error_bind, error_bind]

/-- A field whose length does not fit a signed byte is not written. -/
theorem length_of_writeHelloField {packet : Bytes} {i : Nat} {s : CStr} {r : Nat × Nat × Bytes}
    (h : writeHelloField packet i s = .ok r) : s.length % 256 < 128 := by
  obtain ⟨packet₁, -, h⟩ := bind_eq_ok h
  obtain ⟨n, hn, -⟩ := bind_eq_ok h
  rw [sizeOfChar] at hn
  split at hn
  · rename_i hlt
    rw [UInt8.lt_iff_toNat_lt, UInt8.toNat_ofNat'] at hlt
    exact hlt
  · cases hn

section HelloPacket

variable {hostname loadavg1 loadavg5 loadavg15 : CStr}

theorem cspPackHelloPacket_cut8 (out : Bytes) :
    cspPackHelloPacket out hostname (some loadavg1) (some loadavg5) (some loadavg15) =
      cspPackHelloPacket out (cut8 hostname) (some (cut8 loadavg1)) (some (cut8 loadavg5))
        (some (cut8 loadavg15)) := by
  simp only [cspPackHelloPacket, writeHelloField_cut8]

theorem lengths_of_cspPackHelloPacket {out : Bytes} {r : Int × Bytes}
    (h : cspPackHelloPacket out hostname (some loadavg1) (some loadavg5) (some loadavg15) = .ok r) :
    hostname.length % 256 < 128 ∧ loadavg1.length % 256 < 128 ∧ loadavg5.length % 256 < 128 ∧
      loadavg15.length % 256 < 128 := by
  obtain ⟨packet₁, -, h⟩ := bind_eq_ok h
  obtain ⟨packet₂, -, h⟩ := bind_eq_ok h
  obtain ⟨r₀, h₀, h⟩ := bind_eq_ok h
  obtain ⟨r₁, h₁, h⟩ := bind_eq_ok h
  obtain ⟨r₂, h₂, h⟩ := bind_eq_ok h
  obtain ⟨r₃, h₃, -⟩ := bind_eq_ok h
  exact ⟨length_of_writeHelloField h₀, length_of_writeHelloField h₁, length_of_writeHelloField h₂,
    length_of_writeHelloField h₃⟩

theorem sentSame_hello :
    SentSame helloPacketSize
        (cspPackHelloPacket · hostname (some loadavg1) (some loadavg5) (some loadavg15)) ↔
      hostname.length % 256 < 128 ∧ loadavg1.length % 256 < 128 ∧ loadavg5.length % 256 < 128 ∧
        loadavg15.length % 256 < 128 := by
  constructor
  · intro hsame
    obtain ⟨n, packet, packet', hp, -⟩ := hsame (List.replicate helloPacketSize 0)
      (List.replicate helloPacketSize 0) List.length_replicate List.length_replicate
    exact lengths_of_cspPackHelloPacket hp
  · rintro ⟨hhost, h₁, h₅, h₁₅⟩
    have hsize : helloPacketSize = 1024 := rfl
    have hlen := length_helloBytes (cut8 hostname) (cut8 loadavg1) (cut8 loadavg5) (cut8 loadavg15)
    simp only [length_cut8] at hlen
    apply @SentSame.of_written _ _
      (helloBytes (cut8 hostname) (cut8 loadavg1) (cut8 loadavg5) (cut8 loadavg15)) _
      (Nat.le_refl _) (by omega)
    intro before hbefore
    have hroom : 515 ≤ before.length := by
      rw [hbefore]
      decide
    rw [cspPackHelloPacket_cut8]
    exact cspPackHelloPacket_eq (by rwa [length_cut8]) (by rwa [length_cut8]) (by rwa [length_cut8])
      (by rwa [length_cut8]) hroom

theorem sentSame_hello_none {loadavg1 loadavg5 loadavg15 : Option CStr}
    (h : loadavg1 = none ∨ loadavg5 = none ∨ loadavg15 = none) :
    SentSame helloPacketSize (cspPackHelloPacket · hostname loadavg1 loadavg5 loadavg15) := by
  have hpack : ∀ before : Bytes, before.length = helloPacketSize → ∃ packet,
      cspPackHelloPacket before hostname loadavg1 loadavg5 loadavg15 = .ok (-1, packet) := by
    intro before hbefore
    match before, hbefore with
    | x :: y :: rest, _ =>
        refine ⟨1 :: csHello :: rest, ?_⟩
        rcases h with rfl | rfl | rfl
        · rfl
        · cases loadavg1 <;> rfl
        · cases loadavg1 <;> cases loadavg5 <;> rfl
  intro before before' hb hb'
  obtain ⟨packet, hp⟩ := hpack before hb
  obtain ⟨packet', hp'⟩ := hpack before' hb'
  exact ⟨-1, packet, packet', hp, hp', by omega, rfl⟩

end HelloPacket

/-! ## Database requests -/

theorem getElem?_of_writeBytes {b data b' : Bytes} {i j : Nat} (h : writeBytes b i data = .ok b')
    (hj : i + data.length ≤ j) : b'[j]? = b[j]? := by
  unfold writeBytes at h
  split at h
  · rename_i hroom
    have hfront : (b.take i ++ data).length = i + data.length := by
      rw [List.length_append, List.length_take]
      omega
    rw [← Except.ok.inj h, ← List.append_assoc,
      List.getElem?_append_right (by omega), hfront, List.getElem?_drop,
      Nat.add_sub_cancel' hj]
  · cases h

/-- What lies behind the terminator is left. -/
theorem getElem?_of_writeTerminated {packet packet' : Bytes} {i k : Nat} {len : UInt16} {s : CStr}
    (h : writeTerminated packet i len s = .ok (k, packet')) :
    k ≤ i + 2 + len.toNat ∧
      ∀ j, i + 2 + len.toNat < j → packet'[j]? = packet[j]? := by
  unfold writeTerminated at h
  split at h
  · obtain ⟨packet₁, hfield, h⟩ := bind_eq_ok h
    obtain ⟨packet₂, hterm, h⟩ := bind_eq_ok h
    obtain ⟨packet₀, hlen, hdata⟩ := bind_eq_ok hfield
    obtain ⟨rfl, rfl⟩ := Prod.mk.inj (Except.ok.inj h)
    refine ⟨Nat.le_refl _, fun j hj => ?_⟩
    have htake : ((chars s).take len.toNat).length ≤ len.toNat := List.length_take_le _ _
    rw [getElem?_of_writeBytes hterm (show _ + 1 ≤ j by omega),
      getElem?_of_writeBytes hdata (by omega),
      getElem?_of_writeBytes hlen (by rw [length_bytes16]; omega)]
  · obtain ⟨rfl, rfl⟩ := Prod.mk.inj (Except.ok.inj h)
    exact ⟨by omega, fun j _ => rfl⟩

theorem getElem?_of_writeHeader {b b' : Bytes} {x y z : UInt8} {j : Nat}
    (h : writeHeader b x y z = .ok b') (hj : 3 ≤ j) : b'[j]? = b[j]? := by
  obtain ⟨b₁, h₁, h⟩ := bind_eq_ok h
  obtain ⟨b₂, h₂, h₃⟩ := bind_eq_ok h
  rw [getElem?_of_writeBytes h₃ (by simpa using hj),
    getElem?_of_writeBytes h₂ (by simp; omega), getElem?_of_writeBytes h₁ (by simp; omega)]

section DbRequest

variable {key : CStr} {value : Option CStr} {type : UInt8}

theorem getElem?_of_cspPackDbreqPacket {before packet : Bytes} {n : Int}
    (h : cspPackDbreqPacket before (some key) value type = .ok (n, packet)) :
    n = ((9 + key.length % 65536 + (value.getD []).length % 65536) % 65536 : Nat) ∧
      ∀ j, 8 + key.length % 65536 + (value.getD []).length % 65536 ≤ j →
        packet[j]? = before[j]? := by
  obtain ⟨packet₁, hheader, h⟩ := bind_eq_ok h
  obtain ⟨⟨i, packet₂⟩, hkey, h⟩ := bind_eq_ok h
  obtain ⟨⟨k, packet₃⟩, hvalue, h⟩ := bind_eq_ok h
  obtain ⟨rfl, rfl⟩ := Prod.mk.inj (Except.ok.inj h)
  obtain ⟨hi, hleft⟩ := getElem?_of_writeTerminated hkey
  obtain ⟨-, hleft'⟩ := getElem?_of_writeTerminated hvalue
  have hlen : (if type = csSet then UInt16.ofNat (value.getD []).length else 0).toNat ≤
      (value.getD []).length % 65536 := by
    split
    · exact Nat.le_of_eq UInt16.toNat_ofNat'
    · exact Nat.zero_le _
  simp only [UInt16.toNat_ofNat'] at hi hleft hleft' hlen ⊢
  refine ⟨by omega, fun j hj => ?_⟩
  rw [hleft' j (by omega), hleft j (by omega), getElem?_of_writeHeader hheader (by omega)]

/-- No array is of a size for which the whole announced packet is written. -/
theorem not_sentSame_dbreq (size : Nat)
    (hlen : 9 + key.length % 65536 + (value.getD []).length % 65536 < 65536) :
    ¬ SentSame size (cspPackDbreqPacket · (some key) value type) := by
  apply @not_sentSame_of_left size _ (8 + key.length % 65536 + (value.getD []).length % 65536)
  intro before n packet _ hpack
  obtain ⟨hn, hleft⟩ := getElem?_of_cspPackDbreqPacket hpack
  rw [Nat.mod_eq_of_lt hlen] at hn
  exact ⟨by rw [hn]; congr 1; omega, hleft _ (Nat.le_refl _)⟩

theorem cspPackDbreqPacket_cut16 (out : Bytes) :
    cspPackDbreqPacket out (some key) none type =
      cspPackDbreqPacket out (some (cut16 key)) none type := by
  have hterm : ∀ packet : Bytes, writeTerminated packet 3 (.ofNat key.length) (cut16 key) =
      writeTerminated packet 3 (.ofNat key.length) key := by
    intro packet
    unfold writeTerminated
    rw [take_chars_cut16]
  simp only [cspPackDbreqPacket, ofNat_length_cut16, hterm]

/-- The announced length of a key that is long enough wraps to fewer bytes than the header
and the length of the key. -/
theorem cspPackDbreqPacket_wrapped {out : Bytes} (htype : type ≠ csSet)
    (hlen : 65527 ≤ key.length % 65536) (hout : key.length % 65536 + 6 ≤ out.length) :
    cspPackDbreqPacket out (some key) none type =
      .ok ((key.length % 65536 - 65527 : Nat),
        ([csVer, csReq, type] ++ field (cut16 key)) ++ 0 :: out.drop (6 + key.length % 65536)) := by
  have hlt : (cut16 key).length < 65536 := by
    rw [length_cut16]
    exact Nat.mod_lt _ (by decide)
  have hne : cut16 key ≠ [] := by
    rw [← List.length_pos_iff, length_cut16]
    omega
  have hpack : (UInt16.ofNat (3 + key.length % 65536 + 0 + 6)).toNat =
      key.length % 65536 - 65527 := by
    rw [UInt16.toNat_ofNat']
    omega
  have hterm := @writeTerminated_append [csVer, csReq, type] (out.drop 3) 3 rfl (cut16 key) hne hlt
    (by rw [List.length_drop, length_cut16]; omega)
  rw [List.drop_drop, ← Nat.add_assoc] at hterm
  rw [cspPackDbreqPacket_cut16 out]
  unfold cspPackDbreqPacket
  dsimp only
  rw [writeHeader_eq (by omega), ok_bind, hterm, ok_bind, toNat_ofNat_length hlt, length_cut16,
    if_neg htype]
  exact congrArg (fun n : Nat => Except.ok ((n : Int), _)) hpack

end DbRequest

/-! ## The four packing functions -/

abbrev LineString := {s : CStr // s.length < maxline}

/-- The calls of the packing functions: those of the daemon, and the request that `csd_cli`
packs for a line of the user. -/
inductive Packing where
  | hello (hostname : CStr) (loadavg1 loadavg5 loadavg15 : Option CStr)
  | resp (type err : UInt8) (respData : Option CStr)
  | capreq (libs : CStr)
  | dbreq (key : CStr)
  | csdCli (key value : LineString) (type : UInt8)

def cspCapreqHdrSize : Nat := 5
def cspDbreqHdrSize : Nat := 5

def Packing.size : Packing → Nat
  | .hello .. => helloPacketSize
  | .resp .. => cspMaxpacketSize
  | .capreq libs => libs.length + 1 + cspCapreqHdrSize
  | .dbreq key => key.length + 1 + cspDbreqHdrSize
  | .csdCli .. => maxline

def Packing.pack : Packing → Bytes → Exec (Int × Bytes)
  | .hello hostname loadavg1 loadavg5 loadavg15 => fun packet =>
      cspPackHelloPacket packet hostname loadavg1 loadavg5 loadavg15
  | .resp type err respData => fun packet => do
      let (n, packet) ← cspPackRespPacket packet type err respData
      .ok (n, packet)
  | .capreq libs => fun packet => do
      let (n, packet) ← cspPackCapreqPacket packet csCapexec libs
      .ok (n, packet)
  | .dbreq key => fun packet => cspPackDbreqPacket packet (some key) none csGet
  | .csdCli key value type => fun packet =>
      cspPackDbreqPacket packet (some key.val) (some value.val) type

/-- Every field has a length that its packet can hold. Of the database requests there is
only one whose announced length has wrapped to less than what is written. -/
def Packing.Whole : Packing → Prop
  | .hello hostname (some loadavg1) (some loadavg5) (some loadavg15) =>
      hostname.length % 256 < 128 ∧ loadavg1.length % 256 < 128 ∧ loadavg5.length % 256 < 128 ∧
        loadavg15.length % 256 < 128
  | .hello .. => True
  | .resp type _ respData =>
      type = csRespWdata → ∃ data, respData = some data ∧ data.length % 65536 + 5 ≤ cspMaxpacketSize
  | .capreq _ => True
  | .dbreq key => 65527 ≤ key.length % 65536
  | .csdCli .. => False

theorem sentSame_resp (type err : UInt8) (respData : Option CStr) :
    SentSame cspMaxpacketSize (Packing.resp type err respData).pack ↔
      (Packing.resp type err respData).Whole := by
  have hsize : cspMaxpacketSize = 65535 := rfl
  by_cases htype : type = csRespWdata
  · subst htype
    cases respData with
    | none =>
        refine iff_of_false (@not_sentSame_of_error _ _ .null fun before hbefore => ?_) ?_
        · simp only [Packing.pack, cspPackRespPacket, writeHeader_eq (by omega : 3 ≤ before.length),
            ok_bind, if_true, error_bind]
        · intro hwhole
          obtain ⟨data, hdata, -⟩ := hwhole rfl
          cases hdata
    | some data =>
        by_cases hfits : data.length % 65536 + 5 ≤ cspMaxpacketSize
        · refine iff_of_true ?_ fun _ => ⟨data, rfl, hfits⟩
          apply @SentSame.of_written _ _ ([1, csRespWdata, err] ++ field (cut16 data))
            (data.length % 65536 + 5) (by simp; omega) hfits
          intro before hbefore
          refine ⟨before.drop (5 + data.length % 65536), ?_⟩
          simp only [Packing.pack, cspPackRespPacket_cut err (by omega : _ ≤ before.length)
            (by omega : data.length % 65536 < cspMaxpacketSize - 3), ok_bind]
        · refine iff_of_false (@not_sentSame_of_error _ _ .bounds fun before hbefore => ?_) ?_
          · simp only [Packing.pack, cspPackRespPacket_overflow err hbefore
              (Nat.not_le.mp hfits), error_bind]
          · intro hwhole
            obtain ⟨data', hdata, hle⟩ := hwhole rfl
            rw [← Option.some.inj hdata] at hle
            exact hfits hle
  · refine iff_of_true ?_ fun h => absurd h htype
    apply @SentSame.of_written _ _ [1, type, err] 3 (Nat.le_refl 3) (by omega)
    intro before hbefore
    refine ⟨before.drop 3, ?_⟩
    simp only [Packing.pack, cspPackRespPacket, writeHeader_eq (by omega : 3 ≤ before.length),
      ok_bind, if_neg htype]

theorem cspPackCapreqPacket_cut16 (out : Bytes) (type : UInt8) (libs : CStr) :
    cspPackCapreqPacket out type libs = cspPackCapreqPacket out type (cut16 libs) := by
  simp only [cspPackCapreqPacket, ofNat_length_cut16, strncpyBytes_cut16]

theorem sentSame_capreq (libs : CStr) :
    SentSame (Packing.capreq libs).size (Packing.capreq libs).pack := by
  have hsize : (Packing.capreq libs).size = libs.length + 1 + 5 := rfl
  have hle := Nat.mod_le libs.length 65536
  have hlt : libs.length % 65536 < 65536 := Nat.mod_lt _ (by decide)
  apply @SentSame.of_written _ _ ([1, csCap, csCapexec] ++ field (cut16 libs))
    (libs.length % 65536 + 5) (by simp; omega) (by omega)
  intro before hbefore
  refine ⟨before.drop (5 + libs.length % 65536), ?_⟩
  have hpack := @cspPackCapreqPacket_eq before csCapexec (cut16 libs)
    (by rw [length_cut16]; omega) (by rwa [length_cut16])
  rw [length_cut16, ← cspPackCapreqPacket_cut16] at hpack
  simp only [Packing.pack, hpack, ok_bind]

theorem sentSame_dbreq (key : CStr) :
    SentSame (Packing.dbreq key).size (Packing.dbreq key).pack ↔ 65527 ≤ key.length % 65536 := by
  have hsize : (Packing.dbreq key).size = key.length + 1 + 5 := rfl
  have hle := Nat.mod_le key.length 65536
  have hlt : key.length % 65536 < 65536 := Nat.mod_lt _ (by decide)
  by_cases hlen : 65527 ≤ key.length % 65536
  · refine iff_of_true ?_ hlen
    apply @SentSame.of_written _ _ ([csVer, csReq, csGet] ++ field (cut16 key))
      (key.length % 65536 - 65527) (by simp; omega) (by omega)
    intro before hbefore
    exact ⟨_, cspPackDbreqPacket_wrapped (by decide) hlen (by omega)⟩
  · exact iff_of_false (@not_sentSame_dbreq key none csGet _ (by simp; omega)) hlen

/-- **Packets and what their arrays held.** A packet depends only on what is sent, and is no
longer than the array of its caller, exactly when its fields have lengths that it can hold;
a database request of the client never does, and one of the daemon only when its announced
length has wrapped. -/
theorem packing_sentSame_iff (p : Packing) : SentSame p.size p.pack ↔ p.Whole := by
  cases p with
  | hello hostname loadavg1 loadavg5 loadavg15 =>
      match loadavg1, loadavg5, loadavg15 with
      | some _, some _, some _ => exact sentSame_hello
      | none, x, y => exact iff_of_true (@sentSame_hello_none hostname none x y (by simp)) trivial
      | some x, none, y =>
          exact iff_of_true (@sentSame_hello_none hostname (some x) none y (by simp)) trivial
      | some x, some y, none =>
          exact iff_of_true (@sentSame_hello_none hostname (some x) (some y) none (by simp)) trivial
  | resp type err respData => exact sentSame_resp type err respData
  | capreq libs => exact iff_of_true (sentSame_capreq libs) trivial
  | dbreq key => exact sentSame_dbreq key
  | csdCli key value type =>
      have hkey := key.property
      have hvalue := value.property
      have hmax : maxline = 4096 := rfl
      refine iff_of_false (@not_sentSame_dbreq key.val (some value.val) type _ ?_) id
      rw [Option.getD_some]
      omega

/-- The request for `.k` announces three bytes more than the array it is packed into has,
and three stale bytes follow a `get` of the client. -/
theorem request_sends_stale_bytes :
    ¬ SentSame (Packing.dbreq (lit ['.', 'k'])).size (Packing.dbreq (lit ['.', 'k'])).pack ∧
      ¬ SentSame maxline
        (Packing.csdCli ⟨lit ['.', 'k'], by decide⟩ ⟨[], by decide⟩ csGet).pack :=
  ⟨not_sentSame_dbreq _ (by decide), not_sentSame_dbreq _ (by decide)⟩

end Dkmp.Csd
