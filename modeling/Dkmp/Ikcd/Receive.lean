import Dkmp.Ikcd.Request
import Mathlib.Algebra.Group.Int.Defs

/-! # The collector of incoming requests

One iteration of its loop, with the size check as the compiler makes it: the result of
`recvfrom` is an `int`, `IKC_MIN_PACKET_SIZE` is made of a `sizeof`, and so the
comparison is one of unsigned numbers, which -1 passes. Behind the check a process
creation request is unpacked by the lengths it names.
-/

namespace Dkmp.Ikcd

open Machine

def ikcSyscallReq : UInt8 := 11

/-- What `recvfrom` does: it fails, or a datagram whose length is an `int` arrives. -/
inductive Recv where
  | failed
  | datagram (bytes : Bytes) (fits : bytes.length < 2 ^ 31)
deriving DecidableEq, Repr

namespace Recv

def n : Recv → Int
  | failed => -1
  | datagram bytes _ => bytes.length

def received : Recv → Bytes
  | failed => []
  | datagram bytes _ => bytes

/-- `packet` after the call; a failed one leaves in it what the memory held. The block
has the size of the datagram. -/
def packet (block : Bytes) : Recv → Bytes
  | failed => block
  | datagram bytes _ => bytes

end Recv

/-- `n < IKC_MIN_PACKET_SIZE`, after the conversion to `unsigned int`. -/
def belowMinSize (n : Int) : Bool := n % 2 ^ 32 < ikcMinPacketSize

inductive Dispatch where
  | tooShort
  | badVersion
  | procCreatReq
  | syscallReq
  | unknown
deriving DecidableEq, Repr

def Dispatch.dispatched : Dispatch → Bool
  | .tooShort => false
  | .badVersion => false
  | _ => true

def dispatchPacket (n : Int) (packet : Bytes) : Exec Dispatch :=
  if belowMinSize n then .ok .tooShort
  else do
    let version ← readByte packet 0
    let type ← readByte packet 1
    if version ≠ ikcVersion then .ok .badVersion
    else if type = ikcProcCreatReq then .ok .procCreatReq
    else if type = ikcSyscallReq then .ok .syscallReq
    else .ok .unknown

theorem belowMinSize_datagram {d : Bytes} (fits : d.length < 2 ^ 31) :
    belowMinSize d.length = true ↔ d.length < 2 := by
  have hn : ((d.length : Int) % 2 ^ 32 < (ikcMinPacketSize : Nat)) ↔ d.length < 2 := by
    rw [ikcMinPacketSize]
    omega
  rw [← hn]
  exact decide_eq_true_iff

/-- A packet that is long enough is dispatched by its first two octets. -/
theorem dispatchPacket_header {version type : UInt8} {rest : Bytes}
    (fits : (version :: type :: rest).length < 2 ^ 31) :
    dispatchPacket (version :: type :: rest).length (version :: type :: rest) =
      if version ≠ ikcVersion then .ok .badVersion
      else if type = ikcProcCreatReq then .ok .procCreatReq
      else if type = ikcSyscallReq then .ok .syscallReq
      else .ok .unknown := by
  have hlong : ¬ belowMinSize (version :: type :: rest).length = true := by
    rw [belowMinSize_datagram fits, List.length_cons, List.length_cons]
    omega
  have h₀ : readByte (version :: type :: rest) 0 = .ok version := rfl
  have h₁ : readByte (version :: type :: rest) 1 = .ok type := rfl
  rw [dispatchPacket, if_neg hlong, h₀, h₁, ok_bind, ok_bind]

/-! ## Reading along the packet -/

theorem getString_drop (d : Bytes) (i : Nat) :
    getString (d.drop i) = if i + 2 + value16 d i ≤ d.length then
      .ok ((d.drop (i + 2)).take (value16 d i), d.drop (i + 2 + value16 d i)) else .error .bounds := by
  rw [getString, get16_drop]
  by_cases hi : i + 2 ≤ d.length
  · rw [if_pos hi, ok_bind]
    change getBytes (UInt16.ofNat (value16 d i)).toNat (d.drop (i + 2)) = _
    rw [toNat_ofNat_value16, getBytes_drop d hi]
  · rw [if_neg hi, if_neg (by omega), error_bind]

/-- The three lengths of a creation request: of the host name at offset 8, and of the
other strings behind it. -/
def hostLen (d : Bytes) : Nat := value16 d 8
def fileLen (d : Bytes) : Nat := value16 d (10 + hostLen d)
def argvLen (d : Bytes) : Nat := value16 d (12 + hostLen d + fileLen d)

/-- The lengths that a creation request names add up to no more than it has, and its
host name is short enough for `o_node`. -/
def Complete (d : Bytes) : Prop :=
  hostLen d < ikcMaxNodeLen ∧ 14 + hostLen d + fileLen d + argvLen d ≤ d.length

instance (d : Bytes) : Decidable (Complete d) :=
  inferInstanceAs (Decidable (_ ∧ _))

/-- The request is unpacked exactly when it is complete. -/
theorem unpackProcCreatReq_eq (d : Bytes) :
    ∃ seq pid, ikcpUnpackProcCreatReq d = if Complete d then
      .ok ⟨seq, pid, (d.drop 10).take (hostLen d), (d.drop (12 + hostLen d)).take (fileLen d),
        (d.drop (14 + hostLen d + fileLen d)).take (argvLen d)⟩ else .error .bounds := by
  have hseq : get16 (d.drop 2) =
      if 4 ≤ d.length then .ok (.ofNat (value16 d 2), d.drop 4) else .error .bounds := get16_drop d 2
  obtain ⟨pid, hpid⟩ : ∃ pid, get32 (d.drop 4) =
      if 8 ≤ d.length then .ok (pid, d.drop 8) else .error .bounds := get32_drop d 4
  have hhost : getString (d.drop 8) = if 10 + hostLen d ≤ d.length then
      .ok ((d.drop 10).take (hostLen d), d.drop (10 + hostLen d)) else .error .bounds :=
    getString_drop d 8
  have hfile := getString_drop d (10 + hostLen d)
  have hargv := getString_drop d (12 + hostLen d + fileLen d)
  rw [← fileLen, show 10 + hostLen d + 2 = 12 + hostLen d by omega] at hfile
  rw [← argvLen, show 12 + hostLen d + fileLen d + 2 = 14 + hostLen d + fileLen d by omega] at hargv
  refine ⟨.ofNat (value16 d 2), pid, ?_⟩
  by_cases h₁₀ : 10 + hostLen d ≤ d.length
  · have h₄ : 4 ≤ d.length := by omega
    have h₈ : 8 ≤ d.length := by omega
    have hlen : ((d.drop 10).take (hostLen d)).length = hostLen d := by
      rw [List.length_take, List.length_drop]
      omega
    have hcomplete : Complete d ↔ hostLen d < ikcMaxNodeLen ∧
        12 + hostLen d + fileLen d ≤ d.length ∧
        14 + hostLen d + fileLen d + argvLen d ≤ d.length := by
      unfold Complete
      omega
    simp only [ikcpUnpackProcCreatReq, ikcPacketHdrLen, hseq, hpid, hhost, hfile, hargv, hlen, ok_bind,
      ite_ok_bind, if_pos h₄, if_pos h₈, if_pos h₁₀, hcomplete, ite_and]
  · have hshort : ¬ Complete d := by
      unfold Complete
      omega
    simp only [ikcpUnpackProcCreatReq, ikcPacketHdrLen, hseq, hpid, hhost, if_neg h₁₀, error_bind,
      ite_ok_bind, ite_self, if_neg hshort]

/-! ## The bounds of an iteration -/

/-- Whatever the memory held before: a packet is dispatched only if enough bytes were
received, and a creation request is unpacked by reads inside them, with a host name that
fits `o_node` together with its terminator. -/
structure InBounds (r : Recv) : Prop where
  size : ∀ block way, dispatchPacket r.n (r.packet block) = .ok way → way.dispatched = true →
    ikcMinPacketSize ≤ r.received.length
  unpack : ∀ block, dispatchPacket r.n (r.packet block) = .ok .procCreatReq →
    ∃ p, ikcpUnpackProcCreatReq r.received = .ok p ∧ p.oHostname.length + 1 ≤ ikcMaxNodeLen

/-- A datagram came, and if it begins as a creation request it is complete. -/
def WellSized : Recv → Prop
  | .failed => False
  | .datagram d _ => d.take 2 = [ikcVersion, ikcProcCreatReq] → Complete d

theorem unpackProcCreatReq_iff (d : Bytes) :
    (∃ p, ikcpUnpackProcCreatReq d = .ok p ∧ p.oHostname.length + 1 ≤ ikcMaxNodeLen) ↔
      Complete d := by
  obtain ⟨seq, pid, hunpack⟩ := unpackProcCreatReq_eq d
  rw [hunpack]
  constructor
  · rintro ⟨p, hp, -⟩
    by_contra hc
    rw [if_neg hc] at hp
    cases hp
  · intro hc
    rw [if_pos hc]
    refine ⟨_, rfl, ?_⟩
    have hhost := hc.1
    rw [List.length_take]
    omega

theorem dispatch_datagram {d : Bytes} (fits : d.length < 2 ^ 31) {way : Dispatch}
    (h : dispatchPacket d.length d = .ok way) (hway : way.dispatched = true) : 2 ≤ d.length := by
  by_contra hshort
  rw [dispatchPacket, if_pos ((belowMinSize_datagram fits).mpr (by omega))] at h
  cases h
  cases hway

theorem dispatch_procCreatReq_iff {d : Bytes} (fits : d.length < 2 ^ 31) :
    dispatchPacket d.length d = .ok .procCreatReq ↔ d.take 2 = [ikcVersion, ikcProcCreatReq] := by
  have hsize := belowMinSize_datagram fits
  match d, hsize with
  | [], hsize => exact iff_of_false (by rw [dispatchPacket, if_pos (hsize.mpr (by decide))]; simp) (by simp)
  | [b], hsize => exact iff_of_false (by rw [dispatchPacket, if_pos (hsize.mpr (by simp))]; simp) (by simp)
  | version :: type :: rest, hsize =>
      have htake : (version :: type :: rest).take 2 = [version, type] := rfl
      rw [dispatchPacket_header fits, htake, List.cons.injEq, List.cons.injEq]
      by_cases hversion : version = ikcVersion
      · by_cases htype : type = ikcProcCreatReq
        · simp [hversion, htype]
        · by_cases hsyscall : type = ikcSyscallReq <;> simp [hversion, htype, hsyscall]
      · simp [hversion]

/-- **The decoder stays in bounds** exactly when `recvfrom` did not fail and a datagram
that begins as a creation request has all the bytes its lengths promise, with a host name
of at most 64 of them. -/
theorem decoder_in_bounds_iff (r : Recv) : InBounds r ↔ WellSized r := by
  cases r with
  | failed =>
      refine iff_of_false ?_ id
      rintro ⟨hsize, -⟩
      -- -1 passes the check, and the memory may look like a creation request
      have hshort := hsize [ikcVersion, ikcProcCreatReq] .procCreatReq rfl rfl
      exact absurd hshort (by decide)
  | datagram d fits =>
      have hway := dispatch_procCreatReq_iff fits
      constructor
      · rintro ⟨-, hunpack⟩ hcreat
        exact (unpackProcCreatReq_iff d).mp (hunpack [] (hway.mpr hcreat))
      · intro hsized
        refine ⟨fun _ _ h hd => dispatch_datagram fits h hd, ?_⟩
        intro _ h
        exact (unpackProcCreatReq_iff d).mpr (hsized (hway.mp h))

/-- A failed `recvfrom`, and a datagram that ends behind its type. -/
theorem decoder_out_of_bounds :
    ¬ InBounds .failed ∧ ¬ InBounds (.datagram [ikcVersion, ikcProcCreatReq] (by decide)) := by
  refine ⟨fun h => ?_, fun h => ?_⟩
  · exact absurd (h.size [ikcVersion, ikcProcCreatReq] .procCreatReq rfl rfl) (by decide)
  · obtain ⟨p, hp, -⟩ := h.unpack [] rfl
    cases hp

end Dkmp.Ikcd
