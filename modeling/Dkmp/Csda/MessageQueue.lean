import Dkmp.Csd.Serve
import Dkmp.Csda.Decimal

/-! # Asking for the best node

`ikcd` asks the daemon for the best node through System V message queues: it creates a
queue of its own for every question, sends its number with the name of the application,
waits for one reply or for an alarm, and removes the queue. Nothing else ties a reply to a
question. A queue has room for so many bytes, and `msgsnd` waits for the room.
-/

namespace Dkmp.Csda

open Machine Csdb Csc Csd

def msqMaxName : Nat := 257

/-- Identifiers of queues are of type `int`. -/
def intBound : Nat := 2 ^ 31

/-! ## The two processes -/

def requestText (clientId : Nat) (appname : CStr) : CStr := decimal clientId ++ space :: appname

/-- A message of `size` bytes, with the number of the call that it goes back to; no process
looks at that number. -/
structure Message where
  call : Nat
  size : Nat
  text : CStr

structure MsgQueue where
  id : Nat
  messages : List Message

/-- Where `ikcr_best_node_for_app` is: between two calls, in front of the next `msgget`,
`msgsnd` or `msgrcv`, or at `out`, where an identifier that was never assigned is
`none`. -/
inductive Client where
  | idle
  | called
  | opened (serverId : Nat)
  | created (serverId clientId : Nat)
  | waiting (clientId : Nat)
  | out (clientId : Option Int) (error : Int) (resp : Option CStr)

/-- Where `csda_best_node_server_thread` is: not running, in front of `msgrcv`, behind it,
or in front of `msgsnd`. -/
inductive Thread where
  | off
  | ready (serverId : Nat)
  | received (serverId : Nat) (req : Message)
  | answered (serverId : Nat) (clientId : Int) (resp : Message)

def Thread.serverId : Thread → Option Nat
  | .off => none
  | .ready serverId | .received serverId _ | .answered serverId _ _ => some serverId

structure Return where
  call : Nat
  appname : CStr
  ret : Int
  bestNode : CStr
deriving DecidableEq

/-- A run of `csda_best_node_for_app` for the request of a call: the name it was run for
and the node it came to. -/
structure Computation where
  call : Nat
  appName : CStr
  node : CStr
deriving DecidableEq

/-- Both processes and the queues under the keys 7768 and 6877; a queue that is removed is
gone, and `next` is the identifier of the next one. `number` counts the calls, and
`appname` is the argument of the last one. -/
structure World where
  client : Client
  number : Nat
  appname : CStr
  thread : Thread
  server : Server
  serverQueue : Option MsgQueue
  clientQueue : Option MsgQueue
  next : Nat
  returned : List Return
  computed : List Computation

/-! ## Message queues -/

def MsgQueue.bytes (q : MsgQueue) : Nat := (q.messages.map Message.size).sum

def MsgQueue.put (id : Int) (m : Message) (q : MsgQueue) : MsgQueue :=
  if (q.id : Int) = id then { q with messages := q.messages ++ [m] } else q

def World.put (w : World) (id : Int) (m : Message) : World :=
  { w with
    serverQueue := w.serverQueue.map (MsgQueue.put id m)
    clientQueue := w.clientQueue.map (MsgQueue.put id m) }

def World.queue (w : World) (id : Int) : Option MsgQueue :=
  (w.serverQueue.filter fun q => (q.id : Int) = id).or (w.clientQueue.filter fun q => (q.id : Int) = id)

/-- `msgsnd(id, &m, m.size, 0)`: it fails if the queue is not there, or `ok` is false; else
it waits until the queue, which takes `capacity` bytes, has room for the message. -/
def msgsnd (capacity : Nat) (w : World) (id : Int) (m : Message) (ok : Bool) : Exec (Bool × World) :=
  match w.queue id with
  | none => .ok (false, w)
  | some q =>
      if ¬ ok then .ok (false, w)
      else if capacity < m.size + q.bytes then .error .blocked
      else .ok (true, w.put id m)

def World.remove (w : World) (id : Int) : World :=
  { w with
    serverQueue := w.serverQueue.filter fun q => (q.id : Int) ≠ id
    clientQueue := w.clientQueue.filter fun q => (q.id : Int) ≠ id }

/-- `msgrcv`: the oldest message and the rest of the queue; nothing while the queue is
empty or not there. No message of a queue is larger than its reader allows. -/
def msgrcv (queue : Option MsgQueue) (id : Nat) : Option (Message × MsgQueue) :=
  match queue with
  | some ⟨id', m :: messages⟩ => if id' = id then some (m, ⟨id', messages⟩) else none
  | _ => none

/-! ## Steps -/

/-- One step of a process, or a database call of another thread of the daemon. `ok` says
whether the system call goes through; the number that an unassigned `client_id` holds is
`junk`. -/
inductive Move where
  | call (appname : CStr)
  | getServer
  | getClient (ok : Bool)
  | send (ok : Bool)
  | receive
  | alarm
  | leave (junk : Int)
  | start (db : Database)
  | take
  | answer
  | reply (ok : Bool)
  | exit
  | other (call : Call) (now : Int)

section Step

-- the variable `HOSTNAME` of `ikcd` and of the daemon, and the bytes that a queue takes
variable (hostname : CStr) (csdHostname : Option CStr) (capacity : Nat)

def move (w : World) : Move → Exec World
  | .call appname =>
      match w.client with
      | .idle => .ok { w with client := .called, number := w.number + 1, appname := appname }
      | _ => .error .blocked
  | .getServer =>
      match w.client with
      | .called =>
          match w.serverQueue with
          | none => .ok { w with client := .out none (-1) none }
          | some q => .ok { w with client := .opened q.id }
      | _ => .error .blocked
  | .getClient ok =>
      match w.client with
      | .opened serverId =>
          match w.clientQueue with
          | some q =>
              if ok then .ok { w with client := .created serverId q.id }
              else .ok { w with client := .out (some (-1)) (-1) none }
          | none =>
              if ok ∧ w.next < intBound then .ok { w with
                client := .created serverId w.next, clientQueue := some ⟨w.next, []⟩, next := w.next + 1 }
              else .ok { w with client := .out (some (-1)) (-1) none }
      | _ => .error .blocked
  | .send ok =>
      match w.client with
      | .created serverId clientId => do
          let msg ← sprintf msqMaxName (requestText clientId w.appname)
          let (sent, w) ← msgsnd capacity w serverId ⟨w.number, msqMaxName, msg⟩ ok
          if sent then .ok { w with client := .waiting clientId }
          else .ok { w with client := .out (some clientId) (-1) none }
      | _ => .error .blocked
  | .receive =>
      match w.client with
      | .waiting clientId =>
          match msgrcv w.clientQueue clientId with
          | some (m, q) => .ok { w with
              clientQueue := some q, client := .out (some clientId) 0 (some m.text) }
          | none => .error .blocked
      | _ => .error .blocked
  | .alarm =>
      match w.client with
      | .waiting clientId => .ok { w with client := .out (some clientId) (-1) none }
      | _ => .error .blocked
  | .leave junk =>
      match w.client with
      | .out clientId error resp => do
          let bestNode ←
            if error = -1 then .ok hostname
            else
              match resp with
              | none => .error .uninit
              | some text => .ok text
          .ok { w.remove (clientId.getD junk) with
            client := .idle, returned := w.returned ++ [⟨w.number, w.appname, error, bestNode⟩] }
      | _ => .error .blocked
  | .start db =>
      match w.thread with
      | .off =>
          let server : Server := ⟨db, ⟨none, none⟩, none, []⟩
          match w.serverQueue with
          | some q => .ok { w with server := server, thread := .ready q.id }
          | none =>
              if w.next < intBound then .ok { w with
                server := server, thread := .ready w.next, serverQueue := some ⟨w.next, []⟩,
                next := w.next + 1 }
              else .ok w
      | _ => .error .blocked
  | .take =>
      match w.thread with
      | .ready serverId =>
          match msgrcv w.serverQueue serverId with
          | some (m, q) => .ok { w with serverQueue := some q, thread := .received serverId m }
          | none => .error .blocked
      | _ => .error .blocked
  | .answer =>
      match w.thread with
      | .received serverId req => do
          let server ← serve .linear csdHostname w.server req.text
          match server.fields.appName, server.replies.getLast? with
          | some appName, some (clientId, node) => .ok { w with
              server := server, thread := .answered serverId clientId ⟨req.call, nodeSize, node⟩,
              computed := w.computed ++ [⟨req.call, appName, node⟩] }
          | _, _ => .error .uninit
      | _ => .error .blocked
  | .reply ok =>
      match w.thread with
      | .answered serverId clientId resp => do
          let (_, w) ← msgsnd capacity w clientId resp ok
          .ok { w with thread := .ready serverId }
      | _ => .error .blocked
  | .exit =>
      match w.thread with
      | .ready serverId => .ok { w.remove serverId with thread := .off }
      | _ => .error .blocked
  | .other call now => do
      let (_, db) ← call.exec .linear now w.server.db
      .ok { w with server := { w.server with db := db } }

/-! ## What a call has to return -/

/-- Every call so far returned 0 with the node that was computed for its name, on its own
request, or -1 with the name of the host. -/
def Fresh (w : World) : Prop :=
  ∀ r ∈ w.returned, (r.ret = 0 ∧ ⟨r.call, r.appname, r.bestNode⟩ ∈ w.computed) ∨
    (r.ret = -1 ∧ r.bestNode = hostname)

/-- The next step of the call that is under way. The alarm ends the wait for a reply. -/
def Client.next (ok : Bool) (junk : Int) : Client → Option Move
  | .idle => none
  | .called => some .getServer
  | .opened _ => some (.getClient ok)
  | .created _ _ => some (.send ok)
  | .waiting _ => some .alarm
  | .out _ _ _ => some (.leave junk)

/-- The call that is under way is at its end after at most `n` more of its own steps,
whatever its system calls return. -/
def EndsWithin : Nat → World → Prop
  | 0, w => w.client = .idle
  | n + 1, w => ∀ ok junk m, w.client.next ok junk = some m →
      ∃ w', move hostname csdHostname capacity w m = .ok w' ∧ EndsWithin n w'

/-! ## Which steps the processes are up to -/

def Word (s : CStr) : Prop := s ≠ [] ∧ ∀ c ∈ s, isspace c = false

def Askable (appname : CStr) : Prop := Word appname ∧ appname.length ≤ 241

def Roomy (w : World) : Prop := ∀ q, w.serverQueue = some q → msqMaxName + q.bytes ≤ capacity

def Sound (db : Database) : Prop := ∃ s, InState db s

/-- The names that may be copied while a request is answered, of nodes and of the host, fit
their arrays. -/
def Answerable (w : World) : Prop :=
  (∃ name, csdHostname = some name ∧ name.length < nodeSize) ∧
    ∀ serverId req clientId appName, w.thread = .received serverId req →
      requested req.text = some (clientId, appName) →
      ∀ node ∈ capNames w.server.db appName, node.length < nodeSize

/-- A call is made for a name that can be asked for while the queue has room for a request,
the daemon begins with a database, which its other threads call with keys that are valid,
and it has names that fit. -/
def Asks (w : World) : Move → Prop
  | .call appname => Askable appname ∧ Roomy capacity w
  | .start db => Sound db
  | .answer => Answerable csdHostname w
  | .other call _ => ∃ op : Op, call = op.call
  | _ => True

end Step

/-! ## What a request says -/

theorem length_decimal {n : Nat} (h : n < intBound) : (decimal n).length ≤ 10 :=
  length_decimalFrom 9 (n + 1) n (h.trans (by decide))

theorem requestText_fits {clientId : Nat} {appname : CStr} (hid : clientId < intBound)
    (hlen : appname.length ≤ 241) : (requestText clientId appname).length < msqMaxName := by
  have hdigits := length_decimal hid
  rw [requestText, List.length_append, List.length_cons, msqMaxName]
  omega

theorem scanInt_requestText (id : Nat) (appname : CStr) :
    scanInt (requestText id appname) = some ((id : Int), space :: appname) :=
  scanInt_decimal id (by decide) appname

theorem requested_requestText (id : Nat) {appname : CStr} (hword : Word appname) :
    requested (requestText id appname) = some ((id : Int), appname) := by
  have hscan := @scanString_word [space] appname [] (by simp [isspace_space]) hword.1 hword.2 (by simp)
  rw [List.append_nil, List.singleton_append] at hscan
  simp [requested, scanInt_requestText, hscan]

end Dkmp.Csda
