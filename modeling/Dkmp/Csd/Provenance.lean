import Dkmp.Csd.Cluster

/-! # Where the figures of a cluster come from

The databases of a cluster are replicas: a load is made where it is collected, and hello
packets and answers to requests pass it on. So whatever any node knows of the load of a
node was collected by that node.
-/

namespace Dkmp.Csd

open Machine Csdb Csp Csc

/-! ## What is in flight -/

def HelloPhase.read : HelloPhase → List (Minutes × Option CStr)
  | .start => []
  | .one l1 => [(.one, l1)]
  | .five l1 l5 => [(.one, l1), (.five, l5)]
  | .all l1 l5 l15 => [(.one, l1), (.five, l5), (.fifteen, l15)]

section Refinement

variable {ι : Type}

abbrev Flight := Set (Figure × CStr)

def Carries (flight : Flight) (hostname : CStr) (phase : HelloPhase) : Prop :=
  ∀ minutes v, (minutes, some v) ∈ phase.read → (Figure.alive hostname minutes, v) ∈ flight

def HelloOf (flight : Flight) (d : Bytes) : Prop :=
  ∃ hostname l1 l5 l15, d = helloBytes hostname l1 l5 l15 ∧ hostname.length ≤ 126 ∧
    (Figure.alive hostname .one, l1) ∈ flight ∧ (Figure.alive hostname .five, l5) ∈ flight ∧
    (Figure.alive hostname .fifteen, l15) ∈ flight

/-- The loop over the fields of a packet has figures in flight in front of it. -/
inductive Hears (flight : Flight) (packet : Bytes) : Option Nat → Int → CStr → Prop where
  | nodename {i next : Nat} {host name : CStr} : readHelloField packet i = .ok (host, next) →
      Hears flight packet (some next) 1 host → Hears flight packet (some i) 0 name
  | one {i next : Nat} {host v : CStr} : readHelloField packet i = .ok (v, next) →
      (Figure.alive host .one, v) ∈ flight → Hears flight packet (some next) 2 host →
      Hears flight packet (some i) 1 host
  | five {i next : Nat} {host v : CStr} : readHelloField packet i = .ok (v, next) →
      (Figure.alive host .five, v) ∈ flight → Hears flight packet (some next) 3 host →
      Hears flight packet (some i) 2 host
  | fifteen {i next : Nat} {host v : CStr} : readHelloField packet i = .ok (v, next) →
      (Figure.alive host .fifteen, v) ∈ flight → Hears flight packet (some i) 3 host
  | finished {host : CStr} : Hears flight packet none (-1) host

theorem Hears.mono {flight flight' : Flight} (hsub : flight ⊆ flight') {packet : Bytes} {len : Option Nat}
    {field : Int} {name : CStr} (h : Hears flight packet len field name) :
    Hears flight' packet len field name := by
  induction h with
  | nodename hread _ ih => exact .nodename hread ih
  | one hread hmem _ ih => exact .one hread (hsub hmem) ih
  | five hread hmem _ ih => exact .five hread (hsub hmem) ih
  | fifteen hread hmem => exact .fifteen hread (hsub hmem)
  | finished => exact .finished

def Receiver.Hears (flight : Flight) : Receiver → Prop
  | .waiting => True
  | .hello packet len field nodename => Csd.Hears flight packet len field nodename

theorem Receiver.Hears.mono {flight flight' : Flight} (hsub : flight ⊆ flight') {receiver : Receiver}
    (h : receiver.Hears flight) : receiver.Hears flight' := by
  cases receiver with
  | waiting => trivial
  | hello packet len field nodename => exact Csd.Hears.mono hsub h

def Asking.key (q : Asking ι) : CStr := nodeReqKey q.node q.req

/-- The datagram asks for the key, with three bytes behind it that nobody wrote. -/
def RequestOf (q : Asking ι) (d : Bytes) : Prop :=
  q.key.length < ksize ∧ ∃ rest, rest.length = 3 ∧ d = [csVer, csReq, csGet] ++ (field q.key ++ 0 :: rest)

/-- The datagram answers a request, with a value in flight if the key is that of a
figure. -/
def ReplyOf (flight : Flight) (q : Asking ι) (d : Bytes) : Prop :=
  csdbIsValidKey q.key = true ∧ ∀ f : Figure, q.key = f.key →
    d = Answer.failed.bytes ∨ ∃ v, d = (Answer.data v).bytes ∧ (f, v) ∈ flight

/-- The replicas a cluster implements: a party holds the figures of its database, and the
values in datagrams and in the hello threads are in flight. -/
structure Shows (hostname : ι → CStr) (s : Cluster ι) (a : Replicas ι Figure CStr) : Prop where
  holds : ∀ i, ∃ t, Holds .linear (s.db i) t
  value : ∀ i f, a.value i f = stored (s.db i) f.key
  phase : ∀ i, Carries a.flight (hostname i) (s.hello i)
  receiver : ∀ i, (s.receiver i).Hears a.flight
  hellos : ∀ d ∈ s.hellos, HelloOf a.flight d
  requests : ∀ q d, (q, d) ∈ s.requests → RequestOf q d
  replies : ∀ q d, (q, d) ∈ s.replies → ReplyOf a.flight q d

variable {hostname : ι → CStr} {s s' : Cluster ι} {a : Replicas ι Figure CStr} {i : ι} {db : Database}

theorem Shows.more (h : Shows hostname s a) {flight : Flight} (hsub : a.flight ⊆ flight) :
    Shows hostname s { a with flight := flight } where
  holds := h.holds
  value := h.value
  phase := fun j minutes v hmem => hsub (h.phase j minutes v hmem)
  receiver := fun j => (h.receiver j).mono hsub
  hellos := by
    intro d hd
    obtain ⟨host, l1, l5, l15, hbytes, hlen, h1, h5, h15⟩ := h.hellos d hd
    exact ⟨host, l1, l5, l15, hbytes, hlen, hsub h1, hsub h5, hsub h15⟩
  requests := h.requests
  replies := by
    intro q d hd
    refine ⟨(h.replies q d hd).1, ?_⟩
    intro f hf
    rcases (h.replies q d hd).2 f hf with hfail | ⟨v, hbytes, hv⟩
    · exact .inl hfail
    · exact .inr ⟨v, hbytes, hsub hv⟩

variable [DecidableEq ι]

theorem Shows.copy (h : Shows hostname s a) {f g : Figure} {v : CStr}
    (hv : stored (s.db i) f.key = some v) (hpass : f = g ∨ Passes f g) :
    ∃ a', Replicas.Move Passes a a' ∧ Shows hostname s a' ∧ a.flight ⊆ a'.flight ∧ (g, v) ∈ a'.flight ∧
      a'.made = a.made := by
  refine ⟨_, .copy a i f g v ((h.value i f).trans hv) hpass, h.more (Set.subset_insert _ _),
    Set.subset_insert _ _, Set.mem_insert _ _, rfl⟩

theorem Shows.update (h : Shows hostname s a) (hholds : ∃ t, Holds .linear db t)
    (hvalues : ∀ f v, stored db (Figure.key f) = some v →
      stored (s.db i) f.key = some v ∨ (f, v) ∈ a.flight) :
    ∃ a', Replicas.Move Passes a a' ∧ Shows hostname (s.setDb i db) a' ∧ a'.flight = a.flight ∧
      a'.made = a.made := by
  refine ⟨_, .update a i (fun f => stored db f.key) ?_,
    ⟨?_, ?_, h.phase, h.receiver, h.hellos, h.requests, h.replies⟩, rfl, rfl⟩
  · intro f v hv
    rw [h.value]
    exact hvalues f v hv
  · intro j
    simp only [Cluster.setDb]
    split
    · exact hholds
    · exact h.holds j
  · intro j f
    simp only [Cluster.setDb]
    by_cases hj : j = i
    · rw [if_pos hj, if_pos hj]
    · rw [if_neg hj, if_neg hj]
      exact h.value j f

theorem Shows.keep (h : Shows hostname s a) {P : CStr → Prop} (hwithin : Within (s.db i) db P)
    (hP : ∀ f : Figure, ¬ P f.key) :
    ∃ a', Replicas.Move Passes a a' ∧ Shows hostname (s.setDb i db) a' ∧ a'.flight = a.flight ∧
      a'.made = a.made := by
  refine h.update hwithin.holds ?_
  intro f v hv
  rcases hwithin.others f.key f.key_valid (hP f) with hsame | hnone
  · exact .inl (hsame ▸ hv)
  · rw [hnone] at hv
    cases hv

theorem Shows.stay (h : Shows hostname s a) (i : ι) :
    ∃ a', Replicas.Moves Passes a a' ∧ Shows hostname (s.setDb i (s.db i)) a' ∧ a'.flight = a.flight ∧
      a'.made = a.made := by
  obtain ⟨t, ht⟩ := h.holds i
  obtain ⟨a', hmove, h', hflight, hmade⟩ := h.keep (.refl ht fun _ => False) fun _ hno => hno
  exact ⟨a', .single hmove, h', hflight, hmade⟩

theorem Shows.setHello (h : Shows hostname s a) {phase : HelloPhase}
    (hphase : Carries a.flight (hostname i) phase) : Shows hostname (s.setHello i phase) a where
  holds := h.holds
  value := h.value
  phase := by
    intro j
    simp only [Cluster.setHello]
    split
    · next hj =>
      rw [hj]
      exact hphase
    · exact h.phase j
  receiver := h.receiver
  hellos := h.hellos
  requests := h.requests
  replies := h.replies

theorem Shows.setReceiver (h : Shows hostname s a) {receiver : Receiver}
    (hreceiver : receiver.Hears a.flight) : Shows hostname (s.setReceiver i receiver) a where
  holds := h.holds
  value := h.value
  phase := h.phase
  receiver := by
    intro j
    simp only [Cluster.setReceiver]
    split
    · exact hreceiver
    · exact h.receiver j
  hellos := h.hellos
  requests := h.requests
  replies := h.replies

theorem Shows.read (h : Shows hostname s a) {minutes : Minutes} {value : Option CStr}
    (hread : readLoad (hostname i) (s.db i) minutes = .ok (value, db)) (phase : HelloPhase)
    (hphase : phase.read = (s.hello i).read ++ [(minutes, value)]) :
    ∃ a', Replicas.Moves Passes a a' ∧ Shows hostname ((s.setDb i db).setHello i phase) a' ∧
      a'.made = a.made := by
  obtain ⟨key, hkey, hcont⟩ := bind_eq_ok hread
  obtain ⟨⟨ret, value', db'⟩, hget, hret⟩ := bind_eq_ok hcont
  cases hret
  obtain ⟨t, ht⟩ := h.holds i
  obtain ⟨hwithin, hvalue⟩ := get_within ht hget
  have hnode : key = (Figure.node (hostname i) minutes).key := by
    rw [sprintf] at hkey
    split at hkey
    · exact (Except.ok.inj hkey).symm
    · cases hkey
  obtain ⟨a₁, hmoves, h₁, hsub, hmade, hnew⟩ : ∃ a₁, Replicas.Moves Passes a a₁ ∧ Shows hostname s a₁ ∧
      a.flight ⊆ a₁.flight ∧ a₁.made = a.made ∧
      ∀ v, value = some v → (Figure.alive (hostname i) minutes, v) ∈ a₁.flight := by
    cases value with
    | none => exact ⟨a, .refl, h, subset_rfl, rfl, fun _ hv => by cases hv⟩
    | some v =>
        have hv := hvalue v rfl
        rw [hnode] at hv
        obtain ⟨a₁, hmove, h₁, hsub, hmem, hmade⟩ :=
          h.copy hv (.inr ⟨hostname i, minutes, rfl, rfl⟩)
        refine ⟨a₁, .single hmove, h₁, hsub, hmade, ?_⟩
        intro w hw
        rw [← Option.some.inj hw]
        exact hmem
  obtain ⟨a₂, hmove, h₂, hflight, hmade₂⟩ := h₁.keep hwithin fun _ hno => hno
  refine ⟨a₂, hmoves.tail hmove, h₂.setHello ?_, hmade₂.trans hmade⟩
  intro m v hmem
  rw [hphase, List.mem_append, List.mem_singleton] at hmem
  rw [hflight]
  rcases hmem with hold | hlast
  · exact hsub (h.phase i m v hold)
  · obtain ⟨rfl, hv⟩ := Prod.mk.inj hlast
    exact hnew v hv.symm

theorem Shows.send (h : Shows hostname s a) (hhost : (hostname i).length ≤ 126)
    (hshort : ∀ f v, (f, v) ∈ a.flight → v.length ≤ 126) {l1 l5 l15 : Option CStr}
    (hphase : s.hello i = .all l1 l5 l15) {out packet : Bytes} (hout : out.length = helloPacketSize) {n : Int}
    (hpack : cspPackHelloPacket out (hostname i) l1 l5 l15 = .ok (n, packet)) :
    Shows hostname ({ s with hellos := s.hellos ++
      if l1.isSome ∧ l5.isSome ∧ l15.isSome then [packet.take n.toNat] else [] }.setHello i .start) a := by
  have hstart : Carries a.flight (hostname i) .start := fun _ _ hmem => absurd hmem List.not_mem_nil
  have hshows : Shows hostname { s with hellos := s.hellos ++
      if l1.isSome ∧ l5.isSome ∧ l15.isSome then [packet.take n.toNat] else [] } a := by
    refine ⟨h.holds, h.value, h.phase, h.receiver, ?_, h.requests, h.replies⟩
    intro d hd
    rcases List.mem_append.mp hd with hold | hnew
    · exact h.hellos d hold
    · split at hnew
      · next hall =>
        obtain ⟨v1, rfl⟩ := Option.isSome_iff_exists.mp hall.1
        obtain ⟨v5, rfl⟩ := Option.isSome_iff_exists.mp hall.2.1
        obtain ⟨v15, rfl⟩ := Option.isSome_iff_exists.mp hall.2.2
        have hcarries := h.phase i
        rw [hphase] at hcarries
        have h1 := hcarries .one v1 (.head _)
        have h5 := hcarries .five v5 (.tail _ (.head _))
        have h15 := hcarries .fifteen v15 (.tail _ (.tail _ (.head _)))
        have hs1 := hshort _ _ h1
        have hs5 := hshort _ _ h5
        have hs15 := hshort _ _ h15
        obtain ⟨rest, hpacked⟩ := @cspPackHelloPacket_eq out (hostname i) v1 v5 v15 (by omega) (by omega)
          (by omega) (by omega) (by rw [hout]; decide)
        rw [hpack, Except.ok.injEq, Prod.mk.injEq] at hpacked
        obtain ⟨rfl, rfl⟩ := hpacked
        refine ⟨hostname i, v1, v5, v15, ?_, hhost, h1, h5, h15⟩
        rw [List.mem_singleton.mp hnew, Int.toNat_natCast, List.take_left]
      · cases hnew
  exact hshows.setHello hstart

theorem Shows.hello (h : Shows hostname s a) (hhost : (hostname i).length ≤ 126)
    (hshort : ∀ f v, (f, v) ∈ a.flight → v.length ≤ 126) {out : Bytes} (hout : out.length = helloPacketSize)
    (hrun : helloStep (hostname i) s i out = .ok s') :
    ∃ a', Replicas.Moves Passes a a' ∧ Shows hostname s' a' ∧ a'.made = a.made := by
  unfold helloStep at hrun
  cases hphase : s.hello i with
  | start =>
      simp only [hphase] at hrun
      obtain ⟨⟨value, db⟩, hread, hret⟩ := bind_eq_ok hrun
      cases hret
      exact h.read hread (.one value) (by rw [hphase]; rfl)
  | one l1 =>
      simp only [hphase] at hrun
      obtain ⟨⟨value, db⟩, hread, hret⟩ := bind_eq_ok hrun
      cases hret
      exact h.read hread (.five l1 value) (by rw [hphase]; rfl)
  | five l1 l5 =>
      simp only [hphase] at hrun
      obtain ⟨⟨value, db⟩, hread, hret⟩ := bind_eq_ok hrun
      cases hret
      exact h.read hread (.all l1 l5 value) (by rw [hphase]; rfl)
  | all l1 l5 l15 =>
      simp only [hphase] at hrun
      obtain ⟨⟨n, packet⟩, hpack, hret⟩ := bind_eq_ok hrun
      cases hret
      exact ⟨a, .refl, h.send hhost hshort hphase hout hpack, rfl⟩

theorem Shows.put (h : Shows hostname s a) {f : Figure} {v : CStr} (hmem : (f, v) ∈ a.flight) {now ret : Int}
    (hset : csdbSetValueForKey .linear (s.db i) f.key (some v) now = .ok (ret, db)) :
    ∃ a', Replicas.Move Passes a a' ∧ Shows hostname (s.setDb i db) a' ∧ a'.flight = a.flight ∧
      a'.made = a.made := by
  obtain ⟨t, ht⟩ := h.holds i
  obtain ⟨hwithin, hvalue⟩ := set_within ht f.key_valid hset
  refine h.update hwithin.holds ?_
  intro g w hw
  by_cases hg : g = f
  · subst hg
    rw [hvalue, Option.some.injEq] at hw
    exact .inr (hw ▸ hmem)
  · rcases hwithin.others g.key g.key_valid (fun hkey => hg (Figure.key_inj hkey)) with hsame | hnone
    · exact .inl (hsame ▸ hw)
    · rw [hnone] at hw
      cases hw

theorem cscNodeIsAlive_same {db db' : Database} {node : CStr} {ret : Int}
    (hrun : cscNodeIsAlive .linear db node = .ok (ret, db')) : db' = db := by
  obtain ⟨key, -, hcont⟩ := bind_eq_ok hrun
  by_cases hfree : db.locked = false
  · rw [csdbKeyExist, lock_free hfree, ok_bind] at hcont
    obtain ⟨entry, -, hret⟩ := bind_eq_ok hcont
    cases hret
    exact unlock_locked hfree
  · rw [csdbKeyExist, lock_taken (by simpa using hfree), error_bind] at hcont
    cases hcont

theorem Shows.receive (h : Shows hostname s a) (hshort : ∀ f v, (f, v) ∈ a.flight → v.length ≤ 126)
    {d resp buf : Bytes} (hd : d ∈ s.hellos) (hbuf : buf.length = maxline) {clock : Nat → Int}
    (hrun : receiveStep s i d resp buf clock = .ok s') : Shows hostname s' a := by
  obtain ⟨host, l1, l5, l15, rfl, hhost, h1, h5, h15⟩ := h.hellos d hd
  have hs1 := hshort _ _ h1
  have hs5 := hshort _ _ h5
  have hs15 := hshort _ _ h15
  have hlt : (helloBytes host l1 l5 l15).length < maxline := by
    rw [length_helloBytes]
    have hmax : maxline = 4096 := rfl
    omega
  obtain ⟨rest, hwrite, hlen⟩ := writeByte_received hlt hbuf
  obtain ⟨version, type, hversion, htype, hheader⟩ := version_type hlen
  have hhello := (hheader csHello (by decide)).mp rfl
  simp only [receiveStep, Nat.min_eq_left (Nat.le_of_lt hlt), hwrite, hversion, htype, ok_bind,
    if_pos hhello] at hrun
  rw [← Except.ok.inj hrun]
  obtain ⟨i₁, i₂, i₃, i₄, hr₀, hr₁, hr₅, hr₁₅⟩ := helloBytes_read hhost hs1 hs5 hs15 (0 :: rest)
  exact h.setReceiver (.nodename hr₀ (.one hr₁ h1 (.five hr₅ h5 (.fifteen hr₁₅ h15))))

theorem Shows.load (h : Shows hostname s a) (minutes : Minutes) {packet : Bytes} {i' next : Nat} {host v : CStr}
    (hread : readHelloField packet i' = .ok (v, next)) (hmem : (Figure.alive host minutes, v) ∈ a.flight)
    {len : Option Nat} {field now : Int} {r : Nat × Database}
    (hrun : helloLoad .linear now packet i' ⟨len, field, host, s.db i⟩ minutes.text = .ok r) :
    r.1 = next ∧ ∃ a', Replicas.Moves Passes a a' ∧ Shows hostname (s.setDb i r.2) a' ∧
      a'.flight = a.flight ∧ a'.made = a.made := by
  rw [helloLoad, hread, ok_bind] at hrun
  obtain ⟨key, hkey, hrun⟩ := bind_eq_ok hrun
  obtain ⟨⟨ret, db⟩, hset, hret⟩ := bind_eq_ok hrun
  cases hret
  obtain rfl : key = (Figure.alive host minutes).key := by
    rw [sprintf] at hkey
    split at hkey
    · exact (Except.ok.inj hkey).symm
    · cases hkey
  obtain ⟨a', hmove, h', hflight, hmade⟩ := h.put hmem hset
  exact ⟨rfl, a', .single hmove, h', hflight, hmade⟩

theorem Shows.proceed (h : Shows hostname s a) {now : Int} (hrun : proceedStep s i now = .ok s') :
    ∃ a', Replicas.Moves Passes a a' ∧ Shows hostname s' a' ∧ a'.made = a.made := by
  unfold proceedStep at hrun
  have hreceiver := h.receiver i
  split at hrun
  · cases hrun
  · next packet len field nodename hphase =>
    rw [hphase] at hreceiver
    obtain ⟨result, hbody, hrun⟩ := bind_eq_ok hrun
    cases (hreceiver : Hears a.flight packet len field nodename) with
    | nodename hread hnext =>
        simp only [helloBody, if_true, hread, ok_bind] at hbody
        obtain ⟨⟨ret, db⟩, halive, hret⟩ := bind_eq_ok hbody
        cases hret
        cases hrun
        rw [cscNodeIsAlive_same halive]
        obtain ⟨a', hmoves, h', hflight, hmade⟩ := h.stay i
        exact ⟨a', hmoves, h'.setReceiver (hflight ▸ hnext), hmade⟩
    | one hread hmem hnext =>
        simp only [helloBody, one_ne_zero, if_false, if_true] at hbody
        obtain ⟨r, hload, hret⟩ := bind_eq_ok hbody
        cases hret
        cases hrun
        obtain ⟨rfl, a', hmoves, h', hflight, hmade⟩ := h.load .one hread hmem hload
        exact ⟨a', hmoves, h'.setReceiver (hflight ▸ hnext), hmade⟩
    | five hread hmem hnext =>
        have hne : ¬ (2 : Int) = 0 ∧ ¬ (2 : Int) = 1 := by decide
        simp only [helloBody, if_neg hne.1, if_neg hne.2, if_true] at hbody
        obtain ⟨r, hload, hret⟩ := bind_eq_ok hbody
        cases hret
        cases hrun
        obtain ⟨rfl, a', hmoves, h', hflight, hmade⟩ := h.load .five hread hmem hload
        exact ⟨a', hmoves, h'.setReceiver (hflight ▸ hnext), hmade⟩
    | fifteen hread hmem =>
        have hne : ¬ (3 : Int) = 0 ∧ ¬ (3 : Int) = 1 ∧ ¬ (3 : Int) = 2 := by decide
        simp only [helloBody, if_neg hne.1, if_neg hne.2.1, if_neg hne.2.2, if_true] at hbody
        obtain ⟨r, hload, hret⟩ := bind_eq_ok hbody
        cases hret
        cases hrun
        obtain ⟨rfl, a', hmoves, h', -, hmade⟩ := h.load .fifteen hread hmem hload
        exact ⟨a', hmoves, h'.setReceiver .finished, hmade⟩
    | finished =>
        cases hbody
        cases hrun
        obtain ⟨a', hmoves, h', -, hmade⟩ := h.stay i
        exact ⟨a', hmoves, h'.setReceiver trivial, hmade⟩

/-- The array is as large as the request without its last three bytes, which are read
from behind it. -/
theorem cspPackDbreqPacket_exact {out behind : Bytes} {key : CStr} (hkey : key ≠ []) (hlen : key.length < ksize)
    (hout : out.length = key.length + 6) (hbehind : 3 ≤ behind.length) {n : Int} {packet : Bytes}
    (hpack : cspPackDbreqPacket out (some key) none csGet = .ok (n, packet)) :
    ∃ rest, rest.length = 3 ∧
      (packet ++ behind).take n.toNat = [csVer, csReq, csGet] ++ (field key ++ 0 :: rest) := by
  have hksize : ksize = 256 := rfl
  have hlt : key.length < 65536 := by omega
  have hpackNat : (UInt16.ofNat (3 + key.length + 0 + 6)).toNat = 9 + key.length := by
    rw [UInt16.toNat_ofNat']
    omega
  have hterm := @writeTerminated_append [csVer, csReq, csGet] (out.drop 3) 3 rfl key hkey hlt
    (by rw [List.length_drop]; omega)
  have hdrop : (out.drop 3).drop (3 + key.length) = [] := by
    rw [List.drop_drop]
    exact List.drop_of_length_le (by omega)
  rw [hdrop] at hterm
  unfold cspPackDbreqPacket at hpack
  dsimp only at hpack
  rw [writeHeader_eq (by omega), ok_bind, hterm, ok_bind, toNat_ofNat_length hlt,
    if_neg (by decide : ¬ csGet = csSet)] at hpack
  have hpacked : (((UInt16.ofNat (3 + key.length + 0 + 6)).toNat : Int),
      ([csVer, csReq, csGet] ++ field key) ++ [0]) = (n, packet) := Except.ok.inj hpack
  rw [hpackNat, Prod.mk.injEq] at hpacked
  obtain ⟨rfl, rfl⟩ := hpacked
  refine ⟨behind.take 3, List.length_take_of_le hbehind, ?_⟩
  have hfront : ([csVer, csReq, csGet] ++ field key ++ [0]).length = 6 + key.length := by
    rw [List.length_append, length_request, List.length_singleton]
    omega
  rw [Int.toNat_natCast, List.take_append, List.take_of_length_le (by omega), hfront]
  have hthree : 9 + key.length - (6 + key.length) = 3 := by omega
  rw [hthree]
  simp only [List.append_assoc, List.cons_append, List.nil_append]

omit [DecidableEq ι] in
theorem Shows.ask (h : Shows hostname s a) {q : Asking ι} {key : CStr} (hkey : sprintf ksize q.key = .ok key)
    {reqPacket behind : Bytes} (hout : reqPacket.length = key.length + 6) (hbehind : 3 ≤ behind.length) {n : Int}
    {packet : Bytes} (hpack : cspPackDbreqPacket reqPacket (some key) none csGet = .ok (n, packet)) :
    Shows hostname { s with requests := s.requests ++ [(q, (packet ++ behind).take n.toNat)] } a := by
  refine ⟨h.holds, h.value, h.phase, h.receiver, h.hellos, ?_, h.replies⟩
  intro p d hd
  rcases List.mem_append.mp hd with hold | hnew
  · exact h.requests p d hold
  · obtain ⟨rfl, rfl⟩ := Prod.mk.inj (List.mem_singleton.mp hnew)
    rw [sprintf] at hkey
    split at hkey
    · next hlen =>
      cases hkey
      obtain ⟨rest, hrest, hbytes⟩ := cspPackDbreqPacket_exact (List.cons_ne_nil _ _) hlen hout hbehind hpack
      exact ⟨hlen, rest, hrest, hbytes⟩
    · cases hkey

/-- What the asked node reads out of such a request. -/
theorem requestOf_behind {buf : Bytes} (hbuf : buf.length = maxline) {key : CStr} (hlen : key.length < ksize)
    {rest : Bytes} (hrest : rest.length = 3) :
    requestOf buf ([csVer, csReq, csGet] ++ (field key ++ 0 :: rest)) = .ok (.db csGet key none) := by
  have hfits : ([csVer, csReq, csGet] ++ (field key ++ 0 :: rest)).length < maxline := by
    have hmax : maxline = 4096 := rfl
    have hksize : ksize = 256 := rfl
    simp only [List.length_append, List.length_cons, List.length_nil, length_field]
    omega
  obtain ⟨rest', hwrite, -⟩ := writeByte_received hfits hbuf
  have hassoc : ([csVer, csReq, csGet] ++ (field key ++ 0 :: rest)) ++ 0 :: rest' =
      [csVer, csReq, csGet] ++ (field key ++ 0 :: (rest ++ 0 :: rest')) := by
    simp only [List.append_assoc, List.cons_append]
  rw [hassoc] at hwrite
  have hunpack := @cspUnpackDbreqRequest_key [csVer, csReq, csGet] (rest ++ 0 :: rest') rfl csGet (by decide) key
  have hkind : readByte ([csVer, csReq, csGet] ++ (field key ++ 0 :: (rest ++ 0 :: rest'))) 1 = .ok csReq := rfl
  have hread : readByte ([csVer, csReq, csGet] ++ (field key ++ 0 :: (rest ++ 0 :: rest'))) 2 = .ok csGet := rfl
  simp only [requestOf, Nat.min_eq_left (Nat.le_of_lt hfits), hwrite, ok_bind, hkind, if_true, hread, hunpack]

theorem perform_get {key : CStr} (hv : csdbIsValidKey key = true) {now : Int} {db db' : Database}
    {answer : Answer} (hrun : (Request.db csGet key none).perform .linear now db = .ok (answer, db')) :
    ∃ err value, csdbGetValueForKey .linear db key = .ok (err, value, db') ∧
      (answer = .failed ∨ ∃ v, value = some v ∧ answer = .data v) := by
  simp only [Request.perform, if_neg (by decide : ¬ csGet = csSet), if_true, if_pos hv] at hrun
  obtain ⟨⟨err, value, db₁⟩, hget, hcont⟩ := bind_eq_ok hrun
  simp only at hcont
  split at hcont
  · cases value with
    | none => cases hcont
    | some v =>
        cases hcont
        exact ⟨err, some v, hget, .inr ⟨v, rfl, rfl⟩⟩
  · cases hcont
    exact ⟨err, value, hget, .inl rfl⟩

/-- The response an answer is packed into, as long as it fits. -/
theorem pack_bytes {resp packet : Bytes} (hresp : resp.length = cspMaxpacketSize) {answer : Answer}
    (hfits : answer.bytes.length ≤ cspMaxpacketSize) {n : Nat} (hpack : answer.pack resp = .ok (n, packet)) :
    packet.take n = answer.bytes := by
  obtain ⟨n', packet', hpack', hbytes⟩ := (answer.pack_iff hresp).mpr hfits
  rw [hpack, Except.ok.injEq, Prod.mk.injEq] at hpack'
  rw [hpack'.1, hpack'.2]
  exact hbytes

theorem Shows.serve (h : Shows hostname s a) (hshort : ∀ i f v, a.value i f = some v → v.length ≤ 126)
    {q : Asking ι} {d resp buf : Bytes} (hd : (q, d) ∈ s.requests) (hresp : resp.length = cspMaxpacketSize)
    (hbuf : buf.length = maxline) {clock : Nat → Int} {reply : Option Bytes}
    (hrun : csReceivePackets .linear clock resp buf d (s.db q.asked) = .ok (reply, db)) :
    ∃ a', Replicas.Moves Passes a a' ∧
      Shows hostname { s.setDb q.asked db with replies := s.replies ++ (reply.map fun r => (q, r)).toList } a' ∧
      a'.made = a.made := by
  obtain ⟨hlen, rest, hrest, rfl⟩ := h.requests q d hd
  obtain ⟨t, ht⟩ := h.holds q.asked
  rw [csReceivePackets_request clock resp hbuf (.inl rfl), requestOf_behind hbuf hlen hrest, ok_bind] at hrun
  obtain ⟨⟨response, db₁⟩, hrespond, hret⟩ := bind_eq_ok hrun
  cases hret
  have hknown : (Request.db csGet q.key none).Known := by
    by_contra hunknown
    rw [respond_unknown (clock 0) resp hunknown] at hrespond
    cases hrespond
  rw [respond_eq ht (clock 0) hresp hknown] at hrespond
  obtain ⟨⟨answer, db₂⟩, hperform, hcont⟩ := bind_eq_ok hrespond
  obtain ⟨⟨n, packet⟩, hpack, hret⟩ := bind_eq_ok hcont
  cases hret
  obtain ⟨err, value, hget, hanswer⟩ := perform_get hknown.1 hperform
  obtain ⟨hwithin, hvalue⟩ := get_within ht hget
  have hsize : cspMaxpacketSize = 65535 := rfl
  -- what is answered for the key of a figure is sent on under that key
  obtain ⟨a₁, hmoves, h₁, hmade, hreply⟩ : ∃ a₁, Replicas.Moves Passes a a₁ ∧ Shows hostname s a₁ ∧
      a₁.made = a.made ∧ ∀ f : Figure, q.key = f.key → packet.take n = Answer.failed.bytes ∨
        ∃ v, packet.take n = (Answer.data v).bytes ∧ (f, v) ∈ a₁.flight := by
    rcases hanswer with rfl | ⟨v, rfl, rfl⟩
    · have hbytes := pack_bytes hresp (by rw [hsize]; decide) hpack
      exact ⟨a, .refl, h, rfl, fun _ _ => .inl hbytes⟩
    · by_cases hfigure : ∃ f : Figure, q.key = f.key
      · obtain ⟨f, hf⟩ := hfigure
        have hv := hvalue v rfl
        rw [hf] at hv
        have hv126 := hshort q.asked f v ((h.value q.asked f).trans hv)
        have hbytes := pack_bytes hresp (by rw [length_bytes_data, hsize]; omega) hpack
        obtain ⟨a₁, hmove, h₁, -, hmem, hmade⟩ := h.copy hv (.inl rfl)
        refine ⟨a₁, .single hmove, h₁, hmade, ?_⟩
        intro g hg
        rw [← Figure.key_inj (hf.symm.trans hg)]
        exact .inr ⟨v, hbytes, hmem⟩
      · exact ⟨a, .refl, h, rfl, fun f hf => absurd ⟨f, hf⟩ hfigure⟩
  obtain ⟨a₂, hmove, h₂, hflight, hmade₂⟩ := h₁.keep hwithin fun _ hno => hno
  refine ⟨a₂, hmoves.tail hmove, ?_, hmade₂.trans hmade⟩
  refine ⟨h₂.holds, h₂.value, h₂.phase, h₂.receiver, h₂.hellos, h₂.requests, ?_⟩
  intro p r hr
  rcases List.mem_append.mp hr with hold | hnew
  · exact h₂.replies p r hold
  · rw [Option.map_some, Option.toList_some, List.mem_singleton, Prod.mk.injEq] at hnew
    obtain ⟨rfl, rfl⟩ := hnew
    refine ⟨hknown.1, ?_⟩
    rw [hflight]
    exact hreply

theorem unpack_failed {buf : Bytes} (hbuf : buf.length = maxline) :
    cspUnpackRespPacket (recvfrom buf Answer.failed.bytes) =
      .ok (csRespNdata, csRespErr, none, recvfrom buf Answer.failed.bytes) := by
  rw [recvfrom_short (by rw [hbuf]; decide)]
  rfl

theorem unpack_data {buf : Bytes} (hbuf : buf.length = maxline) {text : CStr} (htext : text.length ≤ 126) :
    ∃ packet, cspUnpackRespPacket (recvfrom buf (Answer.data text).bytes) =
      .ok (csRespWdata, csRespSucc, some text, packet) := by
  have hmax : maxline = 4096 := rfl
  have hlen := length_bytes_data text
  rw [recvfrom_short (by omega), Answer.bytes, List.append_assoc, ← Answer.bytes]
  exact ⟨_, @cspUnpackRespPacket_data [1, csRespWdata, csRespSucc]
    (buf.drop (Answer.data text).bytes.length) rfl csRespSucc rfl rfl text (by omega)
    (by rw [List.length_drop]; omega)⟩

/-- The value of an answer is put down under the key that was asked for. -/
theorem Shows.answered (h : Shows hostname s a) (hshort : ∀ f v, (f, v) ∈ a.flight → v.length ≤ 126)
    {q : Asking ι} {d reqPacket behind resp : Bytes} (hd : (q, d) ∈ s.replies) (hresp : resp.length = maxline)
    {now ret : Int}
    (hrun : csDoDbRequestForNode .linear (s.db q.asker) true q.node q.key reqPacket behind resp
      (fun _ => .ok (.reply d)) now = .ok (ret, db)) :
    ∃ a', Replicas.Moves Passes a a' ∧ Shows hostname (s.setDb q.asker db) a' ∧ a'.made = a.made := by
  obtain ⟨t, ht⟩ := h.holds q.asker
  obtain ⟨hv, hreply⟩ := h.replies q d hd
  simp only [csDoDbRequestForNode, if_true] at hrun
  obtain ⟨⟨n, packet⟩, -, hrun⟩ := bind_eq_ok hrun
  simp only [ok_bind] at hrun
  obtain ⟨⟨type, err, data, packet'⟩, hunpack, hrun⟩ := bind_eq_ok hrun
  have hsame : db = s.db q.asker → ∃ a', Replicas.Moves Passes a a' ∧
      Shows hostname (s.setDb q.asker db) a' ∧ a'.made = a.made := by
    intro hdb
    rw [hdb]
    obtain ⟨a', hmoves, h', -, hmade⟩ := h.stay q.asker
    exact ⟨a', hmoves, h', hmade⟩
  simp only at hrun
  split at hrun
  · obtain ⟨value, rfl⟩ : ∃ value, data = some value := by
      cases data with
      | none => cases hrun
      | some value => exact ⟨value, rfl⟩
    obtain ⟨⟨r, db₁⟩, hset, hret⟩ := bind_eq_ok hrun
    cases hret
    by_cases hfigure : ∃ f : Figure, q.key = f.key
    · obtain ⟨f, hf⟩ := hfigure
      rcases hreply f hf with rfl | ⟨v, rfl, hmem⟩
      · rw [unpack_failed hresp] at hunpack
        cases hunpack
      · obtain ⟨packet'', hdata⟩ := unpack_data hresp (hshort f v hmem)
        rw [hdata] at hunpack
        cases hunpack
        rw [hf] at hset
        obtain ⟨a', hmove, h', -, hmade⟩ := h.put hmem hset
        exact ⟨a', .single hmove, h', hmade⟩
    · obtain ⟨hwithin, -⟩ := set_within ht hv hset
      obtain ⟨a', hmove, h', -, hmade⟩ := h.keep hwithin fun f hf => hfigure ⟨f, hf.symm⟩
      exact ⟨a', .single hmove, h', hmade⟩
  · cases hrun
    exact hsame rfl

/-! ## Where the figures come from -/

/-- What a daemon does by itself: among the figures it collects those of its own node
only, and they are short. -/
def Proper (hostname : ι → CStr) : ClusterAction ι → Prop
  | .call i (.set key value) _ => ∀ f : Figure, key = f.key →
      (∃ minutes, f = .node (hostname i) minutes) ∧ ∃ v, value = some v ∧ v.length ≤ 126
  | .call _ (.append key _ _) _ => ∀ f : Figure, key ≠ f.key
  | _ => True

def Collects (act : ClusterAction ι) (x : ι × Figure × CStr) : Prop :=
  ∃ now, act = .call x.1 (.set x.2.1.key (some x.2.2)) now

theorem Shows.call (h : Shows hostname s a) {call : Call} {now : Int}
    (hproper : Proper hostname (.call i call now)) (hv : csdbIsValidKey call.key = true) {reply : Reply}
    (hrun : call.exec .linear now (s.db i) = .ok (reply, db)) :
    ∃ a', Replicas.Moves Passes a a' ∧ Shows hostname (s.setDb i db) a' ∧
      ∀ x ∈ a'.made, x ∈ a.made ∨ Collects (.call i call now) x := by
  obtain ⟨t, ht⟩ := h.holds i
  have hwithin := call_within ht hv hrun
  have hnone : (∀ f : Figure, ¬ Call.gives call f.key) → ∃ a', Replicas.Moves Passes a a' ∧
      Shows hostname (s.setDb i db) a' ∧ ∀ x ∈ a'.made, x ∈ a.made ∨ Collects (.call i call now) x := by
    intro hP
    obtain ⟨a', hmove, h', -, hmade⟩ := h.keep hwithin hP
    exact ⟨a', .single hmove, h', fun x hx => .inl (hmade ▸ hx)⟩
  cases call with
  | set key value =>
      by_cases hfigure : ∃ f : Figure, key = f.key
      · obtain ⟨f, rfl⟩ := hfigure
        obtain ⟨-, v, rfl, -⟩ := hproper f rfl
        obtain ⟨ret, hset⟩ := exec_eq_ok hrun
        obtain ⟨-, hvalue⟩ := set_within ht hv hset
        have hmake : Replicas.Move Passes a { a.put i f v with made := insert (i, f, v) a.made } :=
          .make a i f v
        refine ⟨_, (Relation.ReflTransGen.single hmake).tail (.update _ i (fun g => stored db g.key) ?_),
          ⟨?_, ?_, h.phase, h.receiver, h.hellos, h.requests, h.replies⟩, ?_⟩
        · intro g w hw
          refine .inl ?_
          simp only [Replicas.put, true_and]
          by_cases hg : g = f
          · have hnew : stored db f.key = some v := hvalue
            rw [if_pos hg, ← hw, hg, hnew]
          · rw [if_neg hg, h.value]
            rcases hwithin.others g.key g.key_valid (fun hkey => hg (Figure.key_inj hkey)) with hsame | hgone
            · exact hsame ▸ hw
            · rw [hgone] at hw
              cases hw
        · intro j
          simp only [Cluster.setDb]
          split
          · exact hwithin.holds
          · exact h.holds j
        · intro j g
          simp only [Cluster.setDb, Replicas.put]
          by_cases hj : j = i
          · rw [if_pos hj, if_pos hj]
          · rw [if_neg hj, if_neg hj, if_neg fun hboth => hj hboth.1]
            exact h.value j g
        · intro x hx
          rcases Set.mem_insert_iff.mp hx with rfl | hold
          · exact .inr ⟨now, rfl⟩
          · exact .inl hold
      · exact hnone fun f hf => hfigure ⟨f, hf.symm⟩
  | append key value btwn => exact hnone fun f hf => hproper f hf.symm
  | getMtime key => exact hnone fun _ hf => hf
  | keyExist key => exact hnone fun _ hf => hf
  | remove key => exact hnone fun _ hf => hf
  | dump key => exact hnone fun _ hf => hf
  | getValue key => exact hnone fun _ hf => hf
  | childNames key => exact hnone fun _ hf => hf

structure Short (a : Replicas ι Figure CStr) : Prop where
  held : ∀ i f v, a.value i f = some v → v.length ≤ 126
  sent : ∀ f v, (f, v) ∈ a.flight → v.length ≤ 126

omit [DecidableEq ι] in
theorem Short.of_sourced (h : a.Sourced Passes) (hmade : ∀ x ∈ a.made, x.2.2.length ≤ 126) : Short a where
  held := by
    intro j f v hv
    obtain ⟨k, g, hmem, -⟩ := h.held j f v hv
    exact hmade _ hmem
  sent := by
    intro f v hv
    obtain ⟨k, g, hmem, -⟩ := h.sent f v hv
    exact hmade _ hmem

/-- Every step of a cluster is a sequence of moves of the replicas. -/
theorem Shows.step (h : Shows hostname s a) (hhost : ∀ i, (hostname i).length ≤ 126) (hshort : Short a)
    {act : ClusterAction ι} (hproper : Proper hostname act) (hstep : clusterStep hostname s act = .ok s') :
    ∃ a', Replicas.Moves Passes a a' ∧ Shows hostname s' a' ∧ ∀ x ∈ a'.made, x ∈ a.made ∨ Collects act x := by
  have hkept : ∀ {b : Replicas ι Figure CStr}, b.made = a.made → ∀ x ∈ b.made, x ∈ a.made ∨ Collects act x :=
    fun hmade x hx => .inl (hmade ▸ hx)
  cases act with
  | call i call now =>
      simp only [clusterStep] at hstep
      split at hstep
      · next hv =>
        obtain ⟨⟨reply, db⟩, hrun, hret⟩ := bind_eq_ok hstep
        cases hret
        exact h.call hproper hv hrun
      · cases hstep
  | hello i out =>
      simp only [clusterStep] at hstep
      split at hstep
      · next hout =>
        obtain ⟨a', hmoves, h', hmade⟩ := h.hello (hhost i) hshort.sent hout hstep
        exact ⟨a', hmoves, h', hkept hmade⟩
      · cases hstep
  | receive i d resp buf clock =>
      simp only [clusterStep] at hstep
      split at hstep
      · next hd => exact ⟨a, .refl, h.receive hshort.sent hd.1 hd.2.1 hstep, hkept rfl⟩
      · cases hstep
  | proceed i now =>
      obtain ⟨a', hmoves, h', hmade⟩ := h.proceed hstep
      exact ⟨a', hmoves, h', hkept hmade⟩
  | ask q reqPacket behind =>
      obtain ⟨key, hkey, hcont⟩ := bind_eq_ok hstep
      split at hcont
      · next hsizes =>
        obtain ⟨⟨n, packet⟩, hpack, hret⟩ := bind_eq_ok hcont
        cases hret
        exact ⟨a, .refl, h.ask hkey hsizes.1 hsizes.2 hpack, hkept rfl⟩
      · cases hcont
  | serve q d resp buf clock =>
      simp only [clusterStep] at hstep
      split at hstep
      · next hd =>
        obtain ⟨⟨reply, db⟩, hrun, hret⟩ := bind_eq_ok hstep
        cases hret
        obtain ⟨a', hmoves, h', hmade⟩ := h.serve hshort.held hd.1 hd.2.1 hd.2.2.1 hrun
        exact ⟨a', hmoves, h', hkept hmade⟩
      · cases hstep
  | answered q d reqPacket behind resp now =>
      obtain ⟨key, hkey, hcont⟩ := bind_eq_ok hstep
      split at hcont
      · next hd =>
        obtain ⟨⟨ret, db⟩, hrun, hret⟩ := bind_eq_ok hcont
        cases hret
        have hsame : key = q.key := by
          rw [sprintf] at hkey
          split at hkey
          · exact (Except.ok.inj hkey).symm
          · cases hkey
        rw [hsame] at hrun
        obtain ⟨a', hmoves, h', hmade⟩ := h.answered hshort.sent hd.1 hd.2.2 hrun
        exact ⟨a', hmoves, h', hkept hmade⟩
      · cases hcont

omit [DecidableEq ι] in
theorem Proper.short {act : ClusterAction ι} (hproper : Proper hostname act) {x : ι × Figure × CStr}
    (hx : Collects act x) : x.2.2.length ≤ 126 ∧ ∃ minutes, x.2.1 = .node (hostname x.1) minutes := by
  obtain ⟨now, rfl⟩ := hx
  obtain ⟨hown, v, hv, hlen⟩ := hproper x.2.1 rfl
  rw [← Option.some.inj hv] at hlen
  exact ⟨hlen, hown⟩

structure Traces (hostname : ι → CStr) (acts : List (ClusterAction ι)) (s : Cluster ι)
    (a : Replicas ι Figure CStr) : Prop where
  shows : Shows hostname s a
  sourced : a.Sourced Passes
  made : ∀ x ∈ a.made, ∃ act ∈ acts, Collects act x

/-- A run of the cluster is a run of the replicas in which just the collected figures are
made. -/
theorem cluster_traces (hhost : ∀ i, (hostname i).length ≤ 126) {acts : List (ClusterAction ι)}
    (hproper : ∀ act ∈ acts, Proper hostname act) (hstart : Traces hostname acts s a)
    {rest : List (ClusterAction ι)} (hsub : rest ⊆ acts) (hrun : steps (clusterStep hostname) rest s = .ok s') :
    ∃ a', Replicas.Moves Passes a a' ∧ Traces hostname acts s' a' := by
  induction rest generalizing s a with
  | nil =>
      rw [← Except.ok.inj hrun]
      exact ⟨a, .refl, hstart⟩
  | cons act rest ih =>
      obtain ⟨s₁, hstep, hrest⟩ := steps_cons hrun
      have hact : act ∈ acts := hsub (List.mem_cons_self ..)
      have hshort : Short a := by
        refine .of_sourced hstart.sourced ?_
        intro x hx
        obtain ⟨b, hb, hcollects⟩ := hstart.made x hx
        exact ((hproper b hb).short hcollects).1
      obtain ⟨a₁, hmoves, h₁, hmade⟩ := hstart.shows.step hhost hshort (hproper act hact) hstep
      have htraces : Traces hostname acts s₁ a₁ := by
        refine ⟨h₁, hstart.sourced.moves hmoves, ?_⟩
        intro x hx
        rcases hmade x hx with hold | hnew
        · exact hstart.made x hold
        · exact ⟨act, hact, hnew⟩
      obtain ⟨a', hmoves', h'⟩ := ih htraces (fun b hb => hsub (List.mem_cons_of_mem act hb)) hrest
      exact ⟨a', hmoves.trans hmoves', h'⟩

/-- A figure is passed on from the node it is about. -/
theorem leads_node {f g : Figure} (h : Relation.ReflTransGen Passes f g) :
    f = g ∨ Passes f g := by
  induction h with
  | refl => exact .inl rfl
  | tail _ hpass ih =>
      obtain ⟨hostname, minutes, rfl, rfl⟩ := hpass
      rcases ih with rfl | ⟨hostname', minutes', -, hno⟩
      · exact .inr ⟨hostname, minutes, rfl, rfl⟩
      · cases hno

omit [DecidableEq ι] in
theorem traces_start {db : ι → Database} (hdb : ∀ i, ∃ now, csdbInit now = .ok (db i))
    (acts : List (ClusterAction ι)) : Traces hostname acts (.start db) .empty := by
  have hinit : ∀ i, ∃ now, Holds .linear (db i) (Tree.init now) ∧ (db i).locked = false := by
    intro i
    obtain ⟨now, hnow⟩ := hdb i
    obtain ⟨db', hok, hholds, hfree⟩ := csdbInit_spec .linear now
    rw [hnow, Except.ok.injEq] at hok
    exact ⟨now, hok ▸ hholds, hok ▸ hfree⟩
  refine ⟨⟨?_, ?_, fun _ _ _ hmem => absurd hmem List.not_mem_nil, fun _ => trivial, nofun, nofun, nofun⟩,
    Replicas.sourced_empty, nofun⟩
  · intro i
    obtain ⟨now, hholds, -⟩ := hinit i
    exact ⟨_, hholds⟩
  · intro i f
    obtain ⟨now, hholds, hfree⟩ := hinit i
    exact (stored_value hfree (valueFor_init hholds (bounded_linear _) hfree f.key_valid)).symm

/-- A load that any node knows of a node was once collected by that node itself, under
its own key for it, however the datagrams between them went. -/
theorem figure_collected (hostname : ι → CStr) (hhost : ∀ i, (hostname i).length ≤ 126) (db : ι → Database)
    (hdb : ∀ i, ∃ now, csdbInit now = .ok (db i)) (acts : List (ClusterAction ι))
    (hproper : ∀ act ∈ acts, Proper hostname act) (s : Cluster ι)
    (hrun : steps (clusterStep hostname) acts (.start db) = .ok s) (i : ι) (f : Figure) (v : CStr)
    (hv : valueFor .linear (s.db i) f.key = .ok (some v)) :
    ∃ j now, hostname j = f.hostname ∧
      .call j (.set (nodeLoadKey f.hostname f.minutes) (some v)) now ∈ acts := by
  obtain ⟨a, -, h⟩ := cluster_traces hhost hproper (traces_start hdb acts) (List.Subset.refl acts) hrun
  have hheld : a.value i f = some v :=
    (h.shows.value i f).trans (stored_value (free_of_value f.key_valid hv) hv)
  obtain ⟨j, g, hmade, hleads⟩ := h.sourced.held i f v hheld
  obtain ⟨act, hact, hcollects⟩ := h.made _ hmade
  obtain ⟨minutes, hg⟩ := ((hproper act hact).short hcollects).2
  obtain ⟨now, rfl⟩ := hcollects
  simp only at hg
  subst hg
  rcases leads_node hleads with rfl | ⟨hostname', minutes', hsame, rfl⟩
  · exact ⟨j, now, rfl, hact⟩
  · cases hsame
    exact ⟨j, now, rfl, hact⟩

end Refinement

def hostA : CStr := lit ['a']

def twoHosts : Bool → CStr
  | false => hostA
  | true => lit ['b']

def loadSent : List (ClusterAction Bool) :=
  [.call false (.set (nodeLoadKey hostA .one) (some (lit ['1']))) 0,
    .call false (.set (nodeLoadKey hostA .five) (some (lit ['2']))) 0,
    .call false (.set (nodeLoadKey hostA .fifteen) (some (lit ['3']))) 0] ++
    List.replicate 4 (.hello false (List.replicate helloPacketSize 0))

def loadHeard : List (ClusterAction Bool) :=
  loadSent ++
    [.receive true (helloBytes hostA (lit ['1']) (lit ['2']) (lit ['3'])) [] (List.replicate maxline 0)
      (fun _ => 0), .proceed true 0, .proceed true 0, .proceed true 0]

theorem proper_loadHeard : ∀ act ∈ loadHeard, Proper twoHosts act := by
  have hset : ∀ (minutes : Minutes) (v : CStr), v.length ≤ 126 →
      Proper twoHosts (.call false (.set (nodeLoadKey hostA minutes) (some v)) 0) := by
    intro minutes v hv f hf
    have hfigure : Figure.node hostA minutes = f := Figure.key_inj hf
    exact ⟨⟨minutes, hfigure.symm⟩, v, rfl, hv⟩
  intro act hact
  rcases List.mem_append.mp hact with hsent | hheard
  · rcases List.mem_append.mp hsent with hcollect | hhello
    · simp only [List.mem_cons, List.not_mem_nil, or_false] at hcollect
      rcases hcollect with rfl | rfl | rfl
      · exact hset .one _ (by decide)
      · exact hset .five _ (by decide)
      · exact hset .fifteen _ (by decide)
    · rw [List.eq_of_mem_replicate hhello]
      trivial
  · simp only [List.mem_cons, List.not_mem_nil, or_false] at hheard
    rcases hheard with rfl | rfl | rfl | rfl <;> trivial

set_option maxRecDepth 100000 in
theorem figure_collected_heard :
    ∃ db s, csdbInit 0 = .ok db ∧ steps (clusterStep twoHosts) loadHeard (.start fun _ => db) = .ok s ∧
      valueFor .linear (s.db true) (loadKey hostA ['5']) = .ok (some (lit ['2'])) ∧
      ∃ j now, twoHosts j = hostA ∧
        .call j (.set (nodeLoadKey hostA .five) (some (lit ['2']))) now ∈ loadHeard := by
  obtain ⟨db, s, hdb, hrun, hfive⟩ : ∃ db s, csdbInit 0 = .ok db ∧
      steps (clusterStep twoHosts) loadHeard (.start fun _ => db) = .ok s ∧
      valueFor .linear (s.db true) (loadKey hostA ['5']) = .ok (some (lit ['2'])) := ⟨_, _, rfl, rfl, rfl⟩
  have hhost : ∀ i, (twoHosts i).length ≤ 126 := fun i => by cases i <;> decide
  exact ⟨db, s, hdb, hrun, hfive, figure_collected twoHosts hhost (fun _ => db) (fun _ => ⟨0, hdb⟩) loadHeard
    proper_loadHeard s hrun true (.alive hostA .five) (lit ['2']) hfive⟩

end Dkmp.Csd
