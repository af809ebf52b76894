import Dkmp.Csda.Serving

/-! # Fresh answers

Every request and every reply under way belongs to the present call or goes to a queue that
is gone, since the number of a queue is not given twice. So a call never returns the answer
to another one, in whatever order the two processes take their steps.
-/

namespace Dkmp.Csda

open Machine Csdb Csc Csd

/-! ## Requests and replies under way -/

/-- A request in the queue of the daemon, or taken from it. -/
def Pending (w : World) (m : Message) : Prop :=
  (∃ q, w.serverQueue = some q ∧ m ∈ q.messages) ∨ ∃ serverId, w.thread = .received serverId m

/-- The number `id` was given to a queue for replies; if that is the one of the present
call, `P` holds. -/
def Addressed (w : World) (id : Nat) (P : Prop) : Prop :=
  id < w.next ∧ (∀ q, w.serverQueue = some q → q.id ≠ id) ∧
    ∀ q, w.clientQueue = some q → q.id = id → P

/-- The node `node` was computed for the present call. -/
def Own (w : World) (call : Nat) (node : CStr) : Prop :=
  call = w.number ∧ ⟨w.number, w.appname, node⟩ ∈ w.computed

/-- A run of `ikcd` begins: no queue is there under the key 6877, and what the daemon
still has are requests of earlier runs and a reply, for queues that are gone. -/
structure Begins (w : World) : Prop where
  client : w.client = .idle
  queue : w.clientQueue = none
  returned : w.returned = []
  database : Sound w.server.db
  server : ∀ q, w.serverQueue = some q → q.id < w.next
  thread : ∀ serverId, w.thread.serverId = some serverId → serverId < w.next
  pending : ∀ m, Pending w m → ∃ id appname, m.text = requestText id appname ∧ Askable appname ∧
    Addressed w id False
  answered : ∀ serverId clientId m, w.thread = .answered serverId clientId m →
    ∃ id : Nat, clientId = id ∧ Addressed w id False

/-- The queue of the present call, and what the call has at its end. -/
def ClientInv (w : World) : Prop :=
  match w.client with
  | .idle | .called => w.clientQueue = none
  | .opened serverId => w.clientQueue = none ∧ serverId < w.next
  | .created serverId clientId => (∃ messages, w.clientQueue = some ⟨clientId, messages⟩) ∧
      serverId ≠ clientId ∧ clientId < intBound
  | .waiting clientId => ∃ messages, w.clientQueue = some ⟨clientId, messages⟩
  | .out clientId error resp => (∀ q, w.clientQueue = some q → clientId = some (q.id : Int)) ∧
      (error = -1 ∨ error = 0 ∧ ∃ node, resp = some node ∧ Own w w.number node)

/-- The request of the call is still to be sent. -/
def Client.Asking : Client → Prop
  | .called | .opened _ | .created _ _ => True
  | _ => False

/-- Every request and every reply under way belongs to the present call or goes to a queue
that is gone; until the request is sent there is room for it, which only the daemon could
take away and does not. -/
structure QueueInv (hostname : CStr) (capacity : Nat) (w : World) : Prop where
  client : ClientInv w
  askable : w.client ≠ .idle → Askable w.appname
  room : w.client.Asking → Roomy capacity w
  database : Sound w.server.db
  server : ∀ q, w.serverQueue = some q → q.id < w.next
  thread : ∀ serverId, w.thread.serverId = some serverId →
    serverId < w.next ∧ ∀ q, w.clientQueue = some q → q.id ≠ serverId
  own : ∀ q, w.clientQueue = some q → Addressed w q.id True
  pending : ∀ m, Pending w m → ∃ id appname, m.text = requestText id appname ∧ Askable appname ∧
    Addressed w id (m.call = w.number ∧ appname = w.appname)
  answered : ∀ serverId clientId m, w.thread = .answered serverId clientId m →
    ∃ id : Nat, clientId = id ∧ Addressed w id (Own w m.call m.text)
  replies : ∀ q, w.clientQueue = some q → ∀ m ∈ q.messages, Own w m.call m.text
  returned : Fresh hostname w

theorem forall_none {o : Option MsgQueue} (h : o = none) {P : MsgQueue → Prop} :
    ∀ q, o = some q → P q := by
  rintro q rfl
  cases h

theorem Addressed.imp {w : World} {id : Nat} {P P' : Prop} (h : Addressed w id P) (hP : P → P') :
    Addressed w id P' :=
  ⟨h.1, h.2.1, fun q hq hid => hP (h.2.2 q hq hid)⟩

theorem Begins.inv {w : World} (h : Begins w) (hostname : CStr) (capacity : Nat) :
    QueueInv hostname capacity w where
  client := by
    simp only [ClientInv, h.client]
    exact h.queue
  askable := fun hbusy => absurd h.client hbusy
  room := by
    rw [h.client]
    exact False.elim
  database := h.database
  server := h.server
  thread := fun serverId hid => ⟨h.thread serverId hid, forall_none h.queue⟩
  own := forall_none h.queue
  pending := by
    intro m hm
    obtain ⟨id, appname, htext, hask, haddr⟩ := h.pending m hm
    exact ⟨id, appname, htext, hask, haddr.imp False.elim⟩
  answered := by
    intro serverId clientId m hm
    obtain ⟨id, hid, haddr⟩ := h.answered serverId clientId m hm
    exact ⟨id, hid, haddr.imp False.elim⟩
  replies := forall_none h.queue
  returned := by
    intro r hr
    rw [h.returned] at hr
    cases hr

/-! ## Numbers that are not given twice -/

/-- A queue of `w'` was there already, or its number is new. -/
structure Grows (w w' : World) : Prop where
  next : w.next ≤ w'.next
  server : ∀ q', w'.serverQueue = some q' →
    w.next ≤ q'.id ∨ ∃ q, w.serverQueue = some q ∧ q.id = q'.id
  client : ∀ q', w'.clientQueue = some q' →
    w.next ≤ q'.id ∨ ∃ q, w.clientQueue = some q ∧ q.id = q'.id

theorem Addressed.grows {w w' : World} {id : Nat} {P : Prop} (h : Addressed w id P)
    (hgrows : Grows w w') : Addressed w' id P := by
  obtain ⟨hlt, hserver, hclient⟩ := h
  refine ⟨Nat.lt_of_lt_of_le hlt hgrows.next, ?_, ?_⟩
  · intro q' hq'
    rcases hgrows.server q' hq' with hnew | ⟨q, hq, hid⟩
    · omega
    · rw [← hid]
      exact hserver q hq
  · intro q' hq' hid'
    rcases hgrows.client q' hq' with hnew | ⟨q, hq, hid⟩
    · omega
    · exact hclient q hq (hid.trans hid')

/-- While no call has a queue nothing is for it. -/
theorem Addressed.of_none {w w' : World} {id : Nat} {P P' : Prop} (h : Addressed w id P)
    (hgrows : Grows w w') (hnone : w'.clientQueue = none) : Addressed w' id P' := by
  obtain ⟨hlt, hserver, -⟩ := h.grows hgrows
  exact ⟨hlt, hserver, forall_none hnone⟩

@[simp] theorem MsgQueue.put_id (id : Int) (m : Message) (q : MsgQueue) :
    (q.put id m).id = q.id := by
  unfold MsgQueue.put
  split <;> rfl

theorem MsgQueue.put_other {id : Int} {q : MsgQueue} (h : (q.id : Int) ≠ id) (m : Message) :
    q.put id m = q := if_neg h

theorem MsgQueue.mem_put {id : Int} {m m' : Message} {q : MsgQueue}
    (h : m' ∈ (q.put id m).messages) : m' ∈ q.messages ∨ ((q.id : Int) = id ∧ m' = m) := by
  unfold MsgQueue.put at h
  split at h
  · rcases List.mem_append.mp h with h | h
    · exact .inl h
    · exact .inr ⟨‹_›, List.mem_singleton.mp h⟩
  · exact .inl h

theorem put_queue {o : Option MsgQueue} {id : Int} {m : Message} {q' : MsgQueue}
    (h : o.map (MsgQueue.put id m) = some q') : ∃ q, o = some q ∧ q' = q.put id m := by
  obtain ⟨q, hq, rfl⟩ := Option.map_eq_some_iff.mp h
  exact ⟨q, hq, rfl⟩

theorem msgrcv_cases {o : Option MsgQueue} {id : Nat} {m : Message} {q : MsgQueue}
    (h : msgrcv o id = some (m, q)) :
    ∃ messages, o = some ⟨id, m :: messages⟩ ∧ q = ⟨id, messages⟩ := by
  unfold msgrcv at h
  split at h
  · split at h
    · obtain ⟨rfl, rfl⟩ := Prod.mk.inj (Option.some.inj h)
      subst ‹_ = id›
      exact ⟨_, rfl, rfl⟩
    · cases h
  · cases h

theorem remove_queue {o : Option MsgQueue} {id : Int} {q : MsgQueue}
    (h : o.filter (fun q => (q.id : Int) ≠ id) = some q) : o = some q ∧ (q.id : Int) ≠ id := by
  rw [Option.filter_eq_some_iff] at h
  exact ⟨h.1, by simpa using h.2⟩

theorem queue_cases {w : World} {id : Int} {q : MsgQueue} (h : w.queue id = some q) :
    (q.id : Int) = id ∧ (w.serverQueue = some q ∨ w.clientQueue = some q) := by
  rcases Option.or_eq_some_iff.mp h with h | ⟨-, h⟩
  · obtain ⟨hq, hid⟩ := Option.filter_eq_some_iff.mp h
    exact ⟨by simpa using hid, .inl hq⟩
  · obtain ⟨hq, hid⟩ := Option.filter_eq_some_iff.mp h
    exact ⟨by simpa using hid, .inr hq⟩

/-- A message is lost, or there is no room for it, or it is sent. -/
theorem msgsnd_cases (capacity : Nat) (w : World) (id : Int) (m : Message) (ok : Bool) :
    msgsnd capacity w id m ok = .ok (false, w) ∨
      (msgsnd capacity w id m ok = .error .blocked ∧
        ∃ q, w.queue id = some q ∧ capacity < m.size + q.bytes) ∨
      msgsnd capacity w id m ok = .ok (true, w.put id m) := by
  unfold msgsnd
  split
  · exact .inl rfl
  · next q hq =>
    split
    · exact .inl rfl
    · split
      · next hfull => exact .inr (.inl ⟨rfl, q, hq, hfull⟩)
      · exact .inr (.inr rfl)

theorem grows_put (w : World) (id : Int) (m : Message) : Grows w (w.put id m) := by
  refine ⟨Nat.le_refl _, ?_, ?_⟩
  · intro q' hq'
    obtain ⟨q, hq, rfl⟩ := put_queue hq'
    exact .inr ⟨q, hq, (q.put_id id m).symm⟩
  · intro q' hq'
    obtain ⟨q, hq, rfl⟩ := put_queue hq'
    exact .inr ⟨q, hq, (q.put_id id m).symm⟩

theorem grows_remove (w : World) (id : Int) : Grows w (w.remove id) :=
  ⟨Nat.le_refl _, fun q' hq' => .inr ⟨q', (remove_queue hq').1, rfl⟩,
    fun q' hq' => .inr ⟨q', (remove_queue hq').1, rfl⟩⟩

/-! ## The steps of a call -/

/-- How many of its own steps a call may still take. -/
def Client.left : Client → Nat
  | .idle => 0
  | .out _ _ _ => 1
  | .waiting _ => 2
  | .created _ _ => 3
  | .opened _ => 4
  | .called => 5

section Steps

variable {hostname : CStr} {csdHostname : Option CStr} {capacity : Nat} {w w' : World}

/-- A step of the call goes through and brings it nearer to its end. -/
def Nearer (hostname : CStr) (capacity : Nat) (w : World) (x : Exec World) : Prop :=
  ∃ w', x = .ok w' ∧ QueueInv hostname capacity w' ∧ w'.client.left < w.client.left

theorem Nearer.of_ok (h : QueueInv hostname capacity w') (hless : w'.client.left < w.client.left) :
    Nearer hostname capacity w (.ok w') :=
  ⟨w', rfl, h, hless⟩

theorem Nearer.advances {x : Exec World} (h : Nearer hostname capacity w x) :
    Advances x (QueueInv hostname capacity) := by
  obtain ⟨w', hx, hinv, -⟩ := h
  exact .inr ⟨w', hx, hinv⟩

theorem QueueInv.setClient (h : QueueInv hostname capacity w) (hbusy : w.client ≠ .idle) {c : Client}
    (hc : ClientInv { w with client := c }) (hroom : c.Asking → Roomy capacity w) :
    QueueInv hostname capacity { w with client := c } where
  client := hc
  askable := fun _ => h.askable hbusy
  room := hroom
  database := h.database
  server := h.server
  thread := h.thread
  own := h.own
  pending := h.pending
  answered := h.answered
  replies := h.replies
  returned := h.returned

/-- A call that fails still knows the number of its queue. -/
theorem QueueInv.fail (h : QueueInv hostname capacity w) (hbusy : w.client ≠ .idle)
    {clientId : Option Int} (hqueue : ∀ q, w.clientQueue = some q → clientId = some (q.id : Int)) :
    QueueInv hostname capacity { w with client := .out clientId (-1) none } :=
  h.setClient hbusy ⟨hqueue, .inl rfl⟩ False.elim

theorem advance_call (h : QueueInv hostname capacity w) {appname : CStr} (hask : Askable appname)
    (hroom : Roomy capacity w) :
    Advances (move hostname csdHostname capacity w (.call appname)) (QueueInv hostname capacity) := by
  have hclient := h.client
  simp only [move]
  split
  · next hidle =>
    simp only [ClientInv, hidle] at hclient
    have hgrows : Grows w { w with client := .called, number := w.number + 1, appname := appname } :=
      ⟨Nat.le_refl _, fun q hq => .inr ⟨q, hq, rfl⟩, fun q hq => .inr ⟨q, hq, rfl⟩⟩
    refine .of_ok ⟨hclient, fun _ => hask, fun _ => hroom, h.database, h.server, h.thread, h.own, ?_, ?_,
      forall_none hclient, h.returned⟩
    · intro m hm
      obtain ⟨id, name, htext, hname, haddr⟩ := h.pending m hm
      exact ⟨id, name, htext, hname, haddr.of_none hgrows hclient⟩
    · intro serverId clientId m hm
      obtain ⟨id, hid, haddr⟩ := h.answered serverId clientId m hm
      exact ⟨id, hid, haddr.of_none hgrows hclient⟩
  · exact .of_blocked _

theorem nearer_getServer (h : QueueInv hostname capacity w) (hcalled : w.client = .called) :
    Nearer hostname capacity w (move hostname csdHostname capacity w .getServer) := by
  have hclient := h.client
  have hbusy : w.client ≠ .idle := hcalled.trans_ne nofun
  have hroom : Roomy capacity w := h.room (by rw [hcalled]; trivial)
  simp only [ClientInv, hcalled] at hclient
  simp only [move, hcalled]
  split
  · exact .of_ok (h.fail hbusy (forall_none hclient)) (by simp [hcalled, Client.left])
  · next q hq =>
    have hopened : QueueInv hostname capacity { w with client := .opened q.id } :=
      h.setClient hbusy ⟨hclient, h.server q hq⟩ (fun _ => hroom)
    exact .of_ok hopened (by simp [hcalled, Client.left])

/-- The number of a new queue is nobody's. -/
theorem inv_created (h : QueueInv hostname capacity w) (hbusy : w.client ≠ .idle)
    (hroom : Roomy capacity w) {serverId : Nat} (hlt : serverId < w.next) (hint : w.next < intBound) :
    QueueInv hostname capacity { w with
      client := .created serverId w.next, clientQueue := some ⟨w.next, []⟩, next := w.next + 1 } := by
  have hgrows : Grows w { w with
      client := .created serverId w.next, clientQueue := some ⟨w.next, []⟩, next := w.next + 1 } := by
    refine ⟨Nat.le_succ _, fun q hq => .inr ⟨q, hq, rfl⟩, ?_⟩
    intro q hq
    rw [← Option.some.inj hq]
    exact .inl (Nat.le_refl _)
  refine ⟨⟨⟨[], rfl⟩, Nat.ne_of_lt hlt, hint⟩, fun _ => h.askable hbusy, fun _ => hroom, h.database, ?_,
    ?_, ?_, ?_, ?_, ?_, h.returned⟩
  · exact fun q hq => Nat.lt_succ_of_lt (h.server q hq)
  · intro serverId' hid
    have hlt' := (h.thread serverId' hid).1
    refine ⟨Nat.lt_succ_of_lt hlt', ?_⟩
    intro q hq
    rw [← Option.some.inj hq]
    exact Nat.ne_of_gt hlt'
  · intro q hq
    rw [← Option.some.inj hq]
    exact ⟨Nat.lt_succ_self _, fun p hp => Nat.ne_of_lt (h.server p hp), fun _ _ _ => trivial⟩
  · intro m hm
    obtain ⟨id, name, htext, hname, haddr⟩ := h.pending m hm
    exact ⟨id, name, htext, hname, haddr.grows hgrows⟩
  · intro serverId' clientId m hm
    obtain ⟨id, hid, haddr⟩ := h.answered serverId' clientId m hm
    exact ⟨id, hid, haddr.grows hgrows⟩
  · intro q hq m hm
    rw [← Option.some.inj hq] at hm
    cases hm

theorem nearer_getClient (h : QueueInv hostname capacity w) {serverId : Nat}
    (hopened : w.client = .opened serverId) (ok : Bool) :
    Nearer hostname capacity w (move hostname csdHostname capacity w (.getClient ok)) := by
  have hclient := h.client
  have hbusy : w.client ≠ .idle := hopened.trans_ne nofun
  have hroom : Roomy capacity w := h.room (by rw [hopened]; trivial)
  simp only [ClientInv, hopened] at hclient
  obtain ⟨hnone, hlt⟩ := hclient
  simp only [move, hopened]
  split
  · next q hq =>
    rw [hnone] at hq
    cases hq
  · split
    · next hok => exact .of_ok (inv_created h hbusy hroom hlt hok.2) (by simp [hopened, Client.left])
    · exact .of_ok (h.fail hbusy (forall_none hnone)) (by simp [hopened, Client.left])

/-- A request is sent: it names the queue of the present call. -/
theorem inv_sent (h : QueueInv hostname capacity w) (hbusy : w.client ≠ .idle) {serverId clientId : Nat}
    {messages : List Message} (hqueue : w.clientQueue = some ⟨clientId, messages⟩)
    (hne : serverId ≠ clientId) {size : Nat} :
    QueueInv hostname capacity { w.put serverId ⟨w.number, size, requestText clientId w.appname⟩ with
      client := .waiting clientId } := by
  have hgrows := grows_put w serverId ⟨w.number, size, requestText clientId w.appname⟩
  have hsame : ∀ q, (w.put serverId ⟨w.number, size, requestText clientId w.appname⟩).clientQueue = some q →
      w.clientQueue = some q := by
    intro q hq
    obtain ⟨q', hq', rfl⟩ := put_queue hq
    rw [hqueue] at hq'
    obtain rfl := Option.some.inj hq'
    rw [MsgQueue.put_other (by simpa using fun he => hne he.symm), hqueue]
  have hkept : (w.put serverId ⟨w.number, size, requestText clientId w.appname⟩).clientQueue =
      some ⟨clientId, messages⟩ := by
    have hother : ((⟨clientId, messages⟩ : MsgQueue).id : Int) ≠ serverId := by
      simpa using fun he => hne he.symm
    simp only [World.put, hqueue, Option.map_some, MsgQueue.put_other hother]
  have haddressed : ∀ {id : Nat} {P : Prop}, Addressed w id P →
      Addressed (w.put serverId ⟨w.number, size, requestText clientId w.appname⟩) id P :=
    fun haddr => haddr.grows hgrows
  refine ⟨⟨messages, hkept⟩, fun _ => h.askable hbusy, False.elim, h.database, ?_, ?_, ?_, ?_, ?_, ?_,
    h.returned⟩
  · intro q hq
    obtain ⟨q', hq', rfl⟩ := put_queue hq
    rw [MsgQueue.put_id]
    exact h.server q' hq'
  · intro serverId' hid
    exact ⟨(h.thread serverId' hid).1, fun q hq => (h.thread serverId' hid).2 q (hsame q hq)⟩
  · exact fun q hq => haddressed (h.own q (hsame q hq))
  · rintro m (⟨q, hq, hm⟩ | hm)
    · obtain ⟨q', hq', rfl⟩ := put_queue hq
      rcases MsgQueue.mem_put hm with hm | ⟨-, rfl⟩
      · obtain ⟨id, name, htext, hname, haddr⟩ := h.pending m (.inl ⟨q', hq', hm⟩)
        exact ⟨id, name, htext, hname, haddressed haddr⟩
      · exact ⟨clientId, w.appname, rfl, h.askable hbusy,
          (haddressed (h.own _ hqueue)).imp fun _ => ⟨rfl, rfl⟩⟩
    · obtain ⟨id, name, htext, hname, haddr⟩ := h.pending m (.inr hm)
      exact ⟨id, name, htext, hname, haddressed haddr⟩
  · intro serverId' clientId' m hm
    obtain ⟨id, hid, haddr⟩ := h.answered serverId' clientId' m hm
    exact ⟨id, hid, haddressed haddr⟩
  · exact fun q hq => h.replies q (hsame q hq)

/-- There is room for the request, so that it is sent or fails at once. -/
theorem nearer_send (h : QueueInv hostname capacity w) {serverId clientId : Nat}
    (hcreated : w.client = .created serverId clientId) (ok : Bool) :
    Nearer hostname capacity w (move hostname csdHostname capacity w (.send ok)) := by
  have hclient := h.client
  have hbusy : w.client ≠ .idle := hcreated.trans_ne nofun
  have hroom : Roomy capacity w := h.room (by rw [hcreated]; trivial)
  simp only [ClientInv, hcreated] at hclient
  obtain ⟨⟨messages, hqueue⟩, hne, hint⟩ := hclient
  have hfits := sprintf_ok (requestText_fits hint (h.askable hbusy).2)
  simp only [move, hcreated, hfits, ok_bind]
  rcases msgsnd_cases capacity w serverId ⟨w.number, msqMaxName, requestText clientId w.appname⟩ ok with
    hlost | ⟨-, q, hq, hfull⟩ | hsent
  · rw [hlost, ok_bind]
    refine .of_ok (h.fail hbusy fun q hq => ?_) (by simp [hcreated, Client.left])
    rw [Option.some.inj (hq.symm.trans hqueue)]
  · obtain ⟨hid, hserver | hclient⟩ := queue_cases hq
    · exact absurd (hroom q hserver) (Nat.not_le.mpr hfull)
    · rw [hqueue] at hclient
      rw [← Option.some.inj hclient] at hid
      exact absurd (Int.ofNat.inj hid).symm hne
  · rw [hsent, ok_bind]
    exact .of_ok (inv_sent h hbusy hqueue hne) (by simp [hcreated, Client.left])

/-- The reply in the queue of the present call is its own. -/
theorem advance_receive (h : QueueInv hostname capacity w) :
    Advances (move hostname csdHostname capacity w .receive) (QueueInv hostname capacity) := by
  simp only [move]
  split
  · next clientId hwaiting =>
    have hbusy : w.client ≠ .idle := hwaiting.trans_ne nofun
    split
    · next m q hrcv =>
      obtain ⟨messages, hqueue, rfl⟩ := msgrcv_cases hrcv
      have hgrows : Grows w { w with
          clientQueue := some ⟨clientId, messages⟩, client := .out (some clientId) 0 (some m.text) } := by
        refine ⟨Nat.le_refl _, fun q hq => .inr ⟨q, hq, rfl⟩, ?_⟩
        intro q hq
        rw [← Option.some.inj hq]
        exact .inr ⟨_, hqueue, rfl⟩
      have hown := h.replies _ hqueue m (List.mem_cons_self ..)
      refine .of_ok ⟨⟨?_, .inr ⟨rfl, m.text, rfl, rfl, hown.2⟩⟩, fun _ => h.askable hbusy, False.elim,
        h.database, h.server, ?_, ?_, ?_, ?_, ?_, h.returned⟩
      · intro q hq
        rw [← Option.some.inj hq]
      · intro serverId hid
        refine ⟨(h.thread serverId hid).1, ?_⟩
        intro q hq
        rw [← Option.some.inj hq]
        exact (h.thread serverId hid).2 ⟨clientId, m :: messages⟩ hqueue
      · intro q hq
        rw [← Option.some.inj hq]
        exact (h.own _ hqueue).grows hgrows
      · intro m' hm'
        obtain ⟨id, name, htext, hname, haddr⟩ := h.pending m' hm'
        exact ⟨id, name, htext, hname, haddr.grows hgrows⟩
      · intro serverId clientId' m' hm'
        obtain ⟨id, hid, haddr⟩ := h.answered serverId clientId' m' hm'
        exact ⟨id, hid, haddr.grows hgrows⟩
      · intro q hq m' hm'
        rw [← Option.some.inj hq] at hm'
        exact h.replies _ hqueue m' (List.mem_cons_of_mem _ hm')
    · exact .of_blocked _
  · exact .of_blocked _

theorem nearer_alarm (h : QueueInv hostname capacity w) {clientId : Nat}
    (hwaiting : w.client = .waiting clientId) :
    Nearer hostname capacity w (move hostname csdHostname capacity w .alarm) := by
  have hclient := h.client
  have hbusy : w.client ≠ .idle := hwaiting.trans_ne nofun
  simp only [ClientInv, hwaiting] at hclient
  obtain ⟨messages, hqueue⟩ := hclient
  simp only [move, hwaiting]
  refine .of_ok (h.fail hbusy fun q hq => ?_) (by simp [hwaiting, Client.left])
  rw [Option.some.inj (hq.symm.trans hqueue)]

/-- The queue of the call is removed, whatever became of the call. -/
theorem inv_removed (h : QueueInv hostname capacity w) {clientId : Option Int} (junk : Int)
    (hqueue : ∀ q, w.clientQueue = some q → clientId = some (q.id : Int)) {r : Return}
    (hr : (r.ret = 0 ∧ ⟨r.call, r.appname, r.bestNode⟩ ∈ w.computed) ∨
      (r.ret = -1 ∧ r.bestNode = hostname)) :
    QueueInv hostname capacity { w.remove (clientId.getD junk) with
      client := .idle, returned := w.returned ++ [r] } := by
  have hgrows := grows_remove w (clientId.getD junk)
  have hnone : (w.remove (clientId.getD junk)).clientQueue = none := by
    cases hq : (w.remove (clientId.getD junk)).clientQueue with
    | none => rfl
    | some q =>
        obtain ⟨hold, hne⟩ := remove_queue hq
        rw [hqueue q hold] at hne
        exact absurd rfl hne
  have hempty : ∀ q, (w.remove (clientId.getD junk)).clientQueue = some q → False := by
    intro q hq
    rw [hnone] at hq
    cases hq
  refine ⟨hnone, fun hbusy => absurd rfl hbusy, False.elim, h.database, ?_, ?_,
    fun q hq => (hempty q hq).elim, ?_, ?_, fun q hq => (hempty q hq).elim, ?_⟩
  · exact fun q hq => h.server q (remove_queue hq).1
  · exact fun serverId hid => ⟨(h.thread serverId hid).1, fun q hq => (hempty q hq).elim⟩
  · intro m hm
    have hold : Pending w m := by
      rcases hm with ⟨q, hq, hm⟩ | hm
      · exact .inl ⟨q, (remove_queue hq).1, hm⟩
      · exact .inr hm
    obtain ⟨id, name, htext, hname, haddr⟩ := h.pending m hold
    exact ⟨id, name, htext, hname, haddr.of_none ⟨hgrows.next, hgrows.server, hgrows.client⟩ hnone⟩
  · intro serverId clientId' m hm
    obtain ⟨id, hid, haddr⟩ := h.answered serverId clientId' m hm
    exact ⟨id, hid, haddr.of_none ⟨hgrows.next, hgrows.server, hgrows.client⟩ hnone⟩
  · intro r' hr'
    rcases List.mem_append.mp hr' with hr' | hr'
    · exact h.returned r' hr'
    · rw [List.mem_singleton.mp hr']
      exact hr

theorem nearer_leave (h : QueueInv hostname capacity w) {clientId : Option Int} {error : Int}
    {resp : Option CStr} (hout : w.client = .out clientId error resp) (junk : Int) :
    Nearer hostname capacity w (move hostname csdHostname capacity w (.leave junk)) := by
  have hclient := h.client
  simp only [ClientInv, hout] at hclient
  obtain ⟨hqueue, hresult⟩ := hclient
  simp only [move, hout]
  rcases hresult with rfl | ⟨rfl, node, rfl, hown⟩
  · rw [if_pos rfl, ok_bind]
    exact .of_ok (inv_removed h junk hqueue (.inr ⟨rfl, rfl⟩)) (by simp [hout, Client.left])
  · rw [if_neg (by decide)]
    dsimp only
    rw [ok_bind]
    exact .of_ok (inv_removed h junk hqueue (.inl ⟨rfl, hown.2⟩)) (by simp [hout, Client.left])

/-! ## The steps of the daemon -/

/-- What was computed stays computed. -/
theorem Own.mono {call : Nat} {node : CStr} (h : Own w call node) (hnumber : w'.number = w.number)
    (happname : w'.appname = w.appname) (hcomputed : w.computed ⊆ w'.computed) :
    Own w' call node := by
  obtain ⟨hcall, hmem⟩ := h
  refine ⟨hcall.trans hnumber.symm, ?_⟩
  rw [hnumber, happname]
  exact hcomputed hmem

theorem ClientInv.keep (h : ClientInv w) (hclient : w'.client = w.client)
    (hnumber : w'.number = w.number) (happname : w'.appname = w.appname) (hnext : w.next ≤ w'.next)
    (hids : w'.clientQueue.map MsgQueue.id = w.clientQueue.map MsgQueue.id)
    (hcomputed : w.computed ⊆ w'.computed) : ClientInv w' := by
  have hnone : w.clientQueue = none → w'.clientQueue = none := by
    intro hq
    rw [hq, Option.map_none, Option.map_eq_none_iff] at hids
    exact hids
  have hsome : ∀ id, (∃ messages, w.clientQueue = some ⟨id, messages⟩) →
      ∃ messages, w'.clientQueue = some ⟨id, messages⟩ := by
    rintro id ⟨messages, hq⟩
    rw [hq, Option.map_some, Option.map_eq_some_iff] at hids
    obtain ⟨q', hq', rfl⟩ := hids
    exact ⟨q'.messages, hq'⟩
  unfold ClientInv at h ⊢
  rw [hclient]
  split at h
  · exact hnone h
  · exact hnone h
  · exact ⟨hnone h.1, Nat.lt_of_lt_of_le h.2 hnext⟩
  · exact ⟨hsome _ h.1, h.2⟩
  · exact hsome _ h
  · obtain ⟨hqueue, hresult⟩ := h
    constructor
    · intro q' hq'
      rw [hq', Option.map_some, eq_comm, Option.map_eq_some_iff] at hids
      obtain ⟨q, hq, hid⟩ := hids
      rw [← hid]
      exact hqueue q hq
    · rcases hresult with herr | ⟨herr, node, hresp, hown⟩
      · exact .inl herr
      · refine .inr ⟨herr, node, hresp, ?_⟩
        rw [hnumber]
        exact hown.mono hnumber happname hcomputed

/-- The thread begins with the queue that is there. -/
theorem inv_ready (h : QueueInv hostname capacity w) {q : MsgQueue} (hq : w.serverQueue = some q)
    {server : Server} (hdb : Sound server.db) :
    QueueInv hostname capacity { w with server := server, thread := .ready q.id } := by
  refine ⟨h.client, h.askable, h.room, hdb, h.server, ?_, h.own, ?_, ?_, h.replies, h.returned⟩
  · intro serverId hid
    obtain rfl : q.id = serverId := Option.some.inj hid
    exact ⟨h.server q hq, fun p hp => ((h.own p hp).2.1 q hq).symm⟩
  · rintro m (hm | ⟨serverId, hm⟩)
    · exact h.pending m (.inl hm)
    · cases hm
  · intro serverId clientId m hm
    cases hm

/-- The thread creates its queue. -/
theorem inv_serverCreated (h : QueueInv hostname capacity w) (hcapacity : msqMaxName ≤ capacity)
    {server : Server} (hdb : Sound server.db) :
    QueueInv hostname capacity { w with
      server := server, thread := .ready w.next, serverQueue := some ⟨w.next, []⟩,
      next := w.next + 1 } := by
  have hgrows : Grows w { w with
      server := server, thread := .ready w.next, serverQueue := some ⟨w.next, []⟩,
      next := w.next + 1 } := by
    refine ⟨Nat.le_succ _, ?_, fun q hq => .inr ⟨q, hq, rfl⟩⟩
    intro q hq
    rw [← Option.some.inj hq]
    exact .inl (Nat.le_refl _)
  refine ⟨?_, h.askable, ?_, hdb, ?_, ?_, ?_, ?_, ?_, h.replies, h.returned⟩
  · exact h.client.keep rfl rfl rfl (Nat.le_succ _) rfl (List.Subset.refl _)
  · intro _ q hq
    rw [← Option.some.inj hq]
    exact hcapacity
  · intro q hq
    rw [← Option.some.inj hq]
    exact Nat.lt_succ_self _
  · intro serverId hid
    obtain rfl : w.next = serverId := Option.some.inj hid
    exact ⟨Nat.lt_succ_self _, fun p hp => Nat.ne_of_lt (h.own p hp).1⟩
  · exact fun q hq => (h.own q hq).grows hgrows
  · rintro m (⟨q, hq, hm⟩ | ⟨serverId, hm⟩)
    · rw [← Option.some.inj hq] at hm
      cases hm
    · cases hm
  · intro serverId clientId m hm
    cases hm

theorem advance_start (h : QueueInv hostname capacity w) (hcapacity : msqMaxName ≤ capacity)
    {db : Database} (hdb : Sound db) :
    Advances (move hostname csdHostname capacity w (.start db)) (QueueInv hostname capacity) := by
  simp only [move]
  split
  · split
    · next q hq => exact .of_ok (inv_ready h hq hdb)
    · split
      · exact .of_ok (inv_serverCreated h hcapacity hdb)
      · exact .of_ok h
  · exact .of_blocked _

theorem advance_take (h : QueueInv hostname capacity w) :
    Advances (move hostname csdHostname capacity w .take) (QueueInv hostname capacity) := by
  simp only [move]
  split
  · next serverId hready =>
    split
    · next m q hrcv =>
      obtain ⟨messages, hqueue, rfl⟩ := msgrcv_cases hrcv
      have hgrows : Grows w { w with
          serverQueue := some ⟨serverId, messages⟩, thread := .received serverId m } := by
        refine ⟨Nat.le_refl _, ?_, fun q hq => .inr ⟨q, hq, rfl⟩⟩
        intro q hq
        rw [← Option.some.inj hq]
        exact .inr ⟨_, hqueue, rfl⟩
      refine .of_ok ⟨h.client, h.askable, ?_, h.database, ?_, ?_, fun q hq => (h.own q hq).grows hgrows,
        ?_, ?_, h.replies, h.returned⟩
      · intro hasking q hq
        have hroom := h.room hasking _ hqueue
        rw [← Option.some.inj hq]
        simp only [MsgQueue.bytes, List.map_cons, List.sum_cons] at hroom ⊢
        omega
      · intro q hq
        rw [← Option.some.inj hq]
        exact h.server ⟨serverId, m :: messages⟩ hqueue
      · intro serverId' hid
        exact h.thread serverId' (by rw [hready]; exact hid)
      · intro m' hm'
        have hold : Pending w m' := by
          rcases hm' with ⟨q, hq, hm'⟩ | ⟨serverId', hm'⟩
          · rw [← Option.some.inj hq] at hm'
            exact .inl ⟨_, hqueue, List.mem_cons_of_mem _ hm'⟩
          · rw [← (Thread.received.inj hm').2]
            exact .inl ⟨_, hqueue, List.mem_cons_self ..⟩
        obtain ⟨id, name, htext, hname, haddr⟩ := h.pending m' hold
        exact ⟨id, name, htext, hname, haddr.grows hgrows⟩
      · intro serverId' clientId m' hm'
        cases hm'
    · exact .of_blocked _
  · exact .of_blocked _

/-- The node is computed for the name in the request, which for a request of the present
call is the argument of that call. -/
theorem advance_answer (h : QueueInv hostname capacity w) (hasks : Answerable csdHostname w) :
    Advances (move hostname csdHostname capacity w .answer) (QueueInv hostname capacity) := by
  obtain ⟨hhost, hnames⟩ := hasks
  simp only [move]
  split
  · next serverId req hreceived =>
    obtain ⟨id, appname, htext, ⟨hword, hlen⟩, haddr⟩ := h.pending req (.inr ⟨serverId, hreceived⟩)
    have hreq : requested req.text = some ((id : Int), appname) := by
      rw [htext]
      exact requested_requestText id hword
    apply (serve_advances h.database hreq hlen hhost (hnames serverId req id appname hreceived hreq)).bind
    rintro server ⟨hdb, hfields, node, hreplies⟩
    simp only [hfields, hreplies, List.getLast?_concat]
    have hown : ∀ {call : Nat} {text : CStr}, Own w call text → Own { w with
        server := server, thread := .answered serverId id ⟨req.call, nodeSize, node⟩,
        computed := w.computed ++ [⟨req.call, appname, node⟩] } call text :=
      fun hown => hown.mono rfl rfl (List.subset_append_left _ _)
    refine .of_ok ⟨?_, h.askable, h.room, hdb, h.server, ?_, h.own, ?_, ?_,
      fun q hq m hm => hown (h.replies q hq m hm), ?_⟩
    · exact h.client.keep rfl rfl rfl (Nat.le_refl _) rfl (List.subset_append_left _ _)
    · intro serverId' hid'
      exact h.thread serverId' (by rw [hreceived]; exact hid')
    · rintro m (hm | ⟨serverId', hm⟩)
      · exact h.pending m (.inl hm)
      · cases hm
    · intro serverId' clientId' m hm
      obtain ⟨-, rfl, rfl⟩ := Thread.answered.inj hm
      refine ⟨id, rfl, haddr.1, haddr.2.1, ?_⟩
      intro q hq hqid
      obtain ⟨hcall, rfl⟩ := haddr.2.2 q hq hqid
      refine ⟨hcall, List.mem_append_right _ (List.mem_singleton.mpr ?_)⟩
      rw [← hcall]
    · intro r hr
      rcases h.returned r hr with ⟨hret, hmem⟩ | hhost'
      · exact .inl ⟨hret, List.mem_append_left _ hmem⟩
      · exact .inr hhost'
  · exact .of_blocked _

theorem inv_replied (h : QueueInv hostname capacity w) {serverId : Nat} {clientId : Int} {resp : Message}
    (hanswered : w.thread = .answered serverId clientId resp) :
    QueueInv hostname capacity { w with thread := .ready serverId } := by
  refine ⟨h.client, h.askable, h.room, h.database, h.server, ?_, h.own, ?_, ?_, h.replies, h.returned⟩
  · exact fun serverId' hid => h.thread serverId' (by rw [hanswered]; exact hid)
  · rintro m (hm | ⟨serverId', hm⟩)
    · exact h.pending m (.inl hm)
    · cases hm
  · intro serverId' clientId' m hm
    cases hm

/-- A reply goes to the present call only if it is its own. -/
theorem inv_put (h : QueueInv hostname capacity w) {id : Nat} {resp : Message}
    (haddr : Addressed w id (Own w resp.call resp.text)) :
    QueueInv hostname capacity (w.put id resp) := by
  have hgrows := grows_put w id resp
  have hsame : (w.put id resp).serverQueue = w.serverQueue := by
    cases hq : w.serverQueue with
    | none => simp only [World.put, hq, Option.map_none]
    | some q =>
        simp only [World.put, hq, Option.map_some]
        rw [MsgQueue.put_other (by simpa using haddr.2.1 q hq)]
  have hids : (w.put id resp).clientQueue.map MsgQueue.id = w.clientQueue.map MsgQueue.id := by
    simp [World.put, Function.comp_def]
  refine ⟨h.client.keep rfl rfl rfl (Nat.le_refl _) hids (List.Subset.refl _), h.askable, ?_, h.database,
    ?_, ?_, ?_, ?_, ?_, ?_, h.returned⟩
  · exact fun hasking q hq => h.room hasking q (hsame ▸ hq)
  · exact fun q hq => h.server q (hsame ▸ hq)
  · intro serverId' hid
    obtain ⟨hlt, hne⟩ := h.thread serverId' hid
    refine ⟨hlt, fun q hq => ?_⟩
    obtain ⟨q', hq', rfl⟩ := put_queue hq
    rw [MsgQueue.put_id]
    exact hne q' hq'
  · intro q hq
    obtain ⟨q', hq', rfl⟩ := put_queue hq
    rw [MsgQueue.put_id]
    exact (h.own q' hq').grows hgrows
  · intro m hm
    have hold : Pending w m := by
      rcases hm with ⟨q, hq, hm⟩ | hm
      · exact .inl ⟨q, hsame ▸ hq, hm⟩
      · exact .inr hm
    obtain ⟨id', name, htext, hname, haddr'⟩ := h.pending m hold
    exact ⟨id', name, htext, hname, haddr'.grows hgrows⟩
  · intro serverId' clientId' m hm
    obtain ⟨id', hid, haddr'⟩ := h.answered serverId' clientId' m hm
    exact ⟨id', hid, haddr'.grows hgrows⟩
  · intro q hq m hm
    obtain ⟨q', hq', rfl⟩ := put_queue hq
    rcases MsgQueue.mem_put hm with hm | ⟨hid, rfl⟩
    · exact h.replies q' hq' m hm
    · exact haddr.2.2 q' hq' (by simpa using hid)

theorem advance_reply (h : QueueInv hostname capacity w) (ok : Bool) :
    Advances (move hostname csdHostname capacity w (.reply ok)) (QueueInv hostname capacity) := by
  simp only [move]
  split
  · next serverId clientId resp hanswered =>
    obtain ⟨id, rfl, haddr⟩ := h.answered serverId clientId resp hanswered
    rcases msgsnd_cases capacity w id resp ok with hlost | ⟨hwait, -⟩ | hsent
    · rw [hlost, ok_bind]
      exact .of_ok (inv_replied h hanswered)
    · rw [hwait, error_bind]
      exact .of_blocked _
    · rw [hsent, ok_bind]
      exact .of_ok (inv_replied (inv_put h haddr) hanswered)
  · exact .of_blocked _

/-- The thread removes a queue that no call has. -/
theorem advance_exit (h : QueueInv hostname capacity w) :
    Advances (move hostname csdHostname capacity w .exit) (QueueInv hostname capacity) := by
  simp only [move]
  split
  · next serverId hready =>
    have hgrows := grows_remove w serverId
    have hne := (h.thread serverId (by rw [hready]; rfl)).2
    have hsame : (w.remove serverId).clientQueue = w.clientQueue := by
      cases hq : w.clientQueue with
      | none => simp only [World.remove, hq, Option.filter_none]
      | some q =>
          simp only [World.remove, hq]
          exact Option.filter_some_pos (by simpa using hne q hq)
    refine .of_ok ⟨h.client.keep rfl rfl rfl (Nat.le_refl _) (by rw [hsame]) (List.Subset.refl _),
      h.askable, ?_, h.database, ?_, ?_, ?_, ?_, ?_, ?_, h.returned⟩
    · exact fun hasking q hq => h.room hasking q (remove_queue hq).1
    · exact fun q hq => h.server q (remove_queue hq).1
    · intro serverId' hid
      cases hid
    · exact fun q hq => (h.own q (remove_queue hq).1).grows ⟨hgrows.next, hgrows.server, hgrows.client⟩
    · rintro m (⟨q, hq, hm⟩ | ⟨serverId, hm⟩)
      · obtain ⟨id, name, htext, hname, haddr⟩ := h.pending m (.inl ⟨q, (remove_queue hq).1, hm⟩)
        exact ⟨id, name, htext, hname, haddr.grows ⟨hgrows.next, hgrows.server, hgrows.client⟩⟩
      · cases hm
    · intro serverId' clientId m hm
      cases hm
    · exact fun q hq => h.replies q (remove_queue hq).1
  · exact .of_blocked _

theorem advance_other (h : QueueInv hostname capacity w) (op : Op) (now : Int) :
    Advances (move hostname csdHostname capacity w (.other op.call now)) (QueueInv hostname capacity) := by
  obtain ⟨s, hs⟩ := h.database
  apply (op_advances hs op now).bind
  rintro ⟨reply, db⟩ ⟨result, s', -, -, hs'⟩
  exact .of_ok ⟨h.client, h.askable, h.room, ⟨s', hs'⟩, h.server, h.thread, h.own, h.pending, h.answered,
    h.replies, h.returned⟩

/-- No step of either process faults. -/
theorem QueueInv.move (h : QueueInv hostname capacity w) (hcapacity : msqMaxName ≤ capacity) {m : Move}
    (hasks : Asks csdHostname capacity w m) :
    Advances (move hostname csdHostname capacity w m) (QueueInv hostname capacity) := by
  cases m with
  | call appname => exact advance_call h hasks.1 hasks.2
  | getServer =>
      cases hphase : w.client with
      | called => exact (nearer_getServer h hphase).advances
      | _ => exact .inl (by simp only [Csda.move, hphase])
  | getClient ok =>
      cases hphase : w.client with
      | opened serverId => exact (nearer_getClient h hphase ok).advances
      | _ => exact .inl (by simp only [Csda.move, hphase])
  | send ok =>
      cases hphase : w.client with
      | created serverId clientId => exact (nearer_send h hphase ok).advances
      | _ => exact .inl (by simp only [Csda.move, hphase])
  | receive => exact advance_receive h
  | alarm =>
      cases hphase : w.client with
      | waiting clientId => exact (nearer_alarm h hphase).advances
      | _ => exact .inl (by simp only [Csda.move, hphase])
  | leave junk =>
      cases hphase : w.client with
      | out clientId error resp => exact (nearer_leave h hphase junk).advances
      | _ => exact .inl (by simp only [Csda.move, hphase])
  | start db => exact advance_start h hcapacity hasks
  | take => exact advance_take h
  | answer => exact advance_answer h hasks
  | reply ok => exact advance_reply h ok
  | exit => exact advance_exit h
  | other call now =>
      obtain ⟨op, rfl⟩ := hasks
      exact advance_other h op now

/-! ## A call comes to its end -/

theorem nearer_next (h : QueueInv hostname capacity w) {ok : Bool} {junk : Int} {m : Move}
    (hnext : w.client.next ok junk = some m) :
    Nearer hostname capacity w (move hostname csdHostname capacity w m) := by
  cases hphase : w.client with
  | idle =>
      rw [hphase] at hnext
      cases hnext
  | called =>
      rw [hphase] at hnext
      rw [← Option.some.inj hnext]
      exact nearer_getServer h hphase
  | opened serverId =>
      rw [hphase] at hnext
      rw [← Option.some.inj hnext]
      exact nearer_getClient h hphase ok
  | created serverId clientId =>
      rw [hphase] at hnext
      rw [← Option.some.inj hnext]
      exact nearer_send h hphase ok
  | waiting clientId =>
      rw [hphase] at hnext
      rw [← Option.some.inj hnext]
      exact nearer_alarm h hphase
  | out clientId error resp =>
      rw [hphase] at hnext
      rw [← Option.some.inj hnext]
      exact nearer_leave h hphase junk

/-- Wherever a call is, nothing but its own system calls keeps it from its end. -/
theorem QueueInv.ends (n : Nat) (h : QueueInv hostname capacity w) (hleft : w.client.left ≤ n) :
    EndsWithin hostname csdHostname capacity n w := by
  induction n generalizing w with
  | zero =>
      cases hphase : w.client with
      | idle => exact hphase
      | _ =>
          rw [hphase] at hleft
          exact absurd hleft (by simp [Client.left])
  | succ n ih =>
      intro ok junk m hnext
      obtain ⟨w', hmove, h', hlt⟩ := nearer_next h hnext
      exact ⟨w', hmove, ih h' (by omega)⟩

end Steps

/-! ## Runs -/

def World.first (db : Database) : World :=
  ⟨.idle, 0, [], .off, ⟨db, ⟨none, none⟩, none, []⟩, none, none, 0, [], []⟩

end Dkmp.Csda
