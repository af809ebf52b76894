import Dkmp.Machine.CString
import Dkmp.Machine.Heap

/-! # The kernel side

The task table with the `dkm_struct` of each task, the commands of the `dkmctl`
system call, the part of `execve` that asks for a node, and the part of `fork`
that hands the structures on. A task that waits for an answer sleeps inside
`DKM_DO_REQ`; each function stops there and goes on when the task is woken. The
last fields of the state record what happened and are read by no function.
-/

namespace Dkmp.Dkmke

open Machine

def dkmMinReq : Int := 1
def dkmMaxReq : Int := 10
def dkmNop : Int := 0
def mapReq : Int := 1
def procCreatReq : Int := 10
def nodeLen : Nat := 65

/-- The request states that are ever assigned. -/
inductive ReqState where
  | notInProgress
  | inGetReq
  | inDoReq
deriving DecidableEq, Repr

/-- The buffer of `r_node`: its text, and whether the daemon wrote it. -/
structure NodeBuf where
  text : CStr
  byIkcd : Bool
deriving DecidableEq

/-- `pendingReq` is a flag that is only ever 0 or 1; `rPid` is unassigned until a
response brought one. -/
structure DkmStruct where
  distributed : Int
  pendingReq : Bool
  reqState : ReqState
  req : Int
  rPid : Option Int
  fileName : Option CStr
  oNode : Option CStr
  rNode : Option NodeBuf
deriving DecidableEq

/-- Where `DKM_DO_REQ` was called from: the two places in `dkm_execve`, or the
system call itself, which assigns no request. -/
inductive CallSite where
  | map
  | creat
  | direct
deriving DecidableEq, Repr

def CallSite.req : CallSite → Int
  | .map => mapReq
  | .creat => procCreatReq
  | .direct => dkmNop

inductive Phase where
  | user
  | asleep (site : CallSite) (serial : Nat)
deriving DecidableEq, Repr

structure Task where
  pid : Int
  dkm : Ptr
  phase : Phase
deriving DecidableEq, Repr

/-- A return of `DKM_DO_REQ` to `dkm_execve` and the flags at that point. -/
structure Returned where
  pid : Int
  req : Int
  ret : Int
  serial : Option Nat
  pendingReq : Bool
  reqState : ReqState
deriving DecidableEq, Repr

/-- `calls` counts the requests that were made; `delivered` has the requests that
`DKM_GET_REQ` returned and to whom, `answered` those a `DKM_PUT_RESP` named;
`compared` tells of each comparison of the nodes whether the daemon wrote one. -/
structure Kernel where
  tasks : List Task
  dkms : Heap DkmStruct
  ikcdPid : Int
  nodename : CStr
  calls : Nat
  delivered : List (Nat × Int)
  answered : List Nat
  returns : List Returned
  compared : List Bool

namespace Kernel

def findTaskByPid (k : Kernel) (pid : Int) : Option Task := k.tasks.find? fun t => t.pid = pid

def setPhase (k : Kernel) (pid : Int) (phase : Phase) : Kernel :=
  { k with tasks := k.tasks.map fun t => if t.pid = pid then { t with phase := phase } else t }

def onDkm (k : Kernel) (p : Ptr) (f : DkmStruct → DkmStruct) : Exec Kernel := do
  let dkms ← k.dkms.update p f
  .ok { k with dkms := dkms }

end Kernel

/-! ## `DKM_DO_REQ` and `dkm_execve` -/

inductive DoReq where
  | returned (ret : Int) (serial : Option Nat)
  | sleeps (serial : Nat)
deriving DecidableEq, Repr

/-- The flags are set before it is known whether the daemon's task is there; when
it is not, the call returns 0 at once. -/
def dkmDoReq (k : Kernel) (current : Task) : Exec (Kernel × DoReq) :=
  if current.pid = k.ikcdPid then .ok (k, .returned (-1) none)
  else do
    let d ← k.dkms.load current.dkm
    if d.req < dkmMinReq ∨ dkmMaxReq < d.req then .ok (k, .returned (-1) none)
    else if 0 < k.ikcdPid then do
      let task := k.findTaskByPid k.ikcdPid
      let serial := k.calls
      let k ← k.onDkm current.dkm fun d => { d with pendingReq := true, reqState := .inDoReq }
      let k := { k with calls := serial + 1 }
      match task with
      | some _ => .ok (k, .sleeps serial)
      | none => .ok (k, .returned 0 (some serial))
    else .ok (k, .returned (-1) none)

def noteReturn (k : Kernel) (current : Task) (site : CallSite) (ret : Int) (serial : Option Nat) :
    Exec Kernel := do
  let d ← k.dkms.load current.dkm
  .ok { k with
    returns := ⟨current.pid, site.req, ret, serial, d.pendingReq, d.reqState⟩ :: k.returns }

/-- `dkm_execve` after the return of the request for a process; its result is not
looked at. -/
def dkmExecveCreated (k : Kernel) (current : Task) : Exec Kernel := do
  let k ← k.onDkm current.dkm fun d => { d with req := dkmNop }
  .ok (k.setPhase current.pid .user)

def dkmExecveMapped (k : Kernel) (current : Task) (ret : Int) : Exec Kernel := do
  let k ← k.onDkm current.dkm fun d => { d with req := dkmNop }
  if ret < 0 then do
    let k ← k.onDkm current.dkm fun d =>
      { d with
        rNode := d.oNode.map fun text => ⟨text, false⟩
        distributed := 0
        pendingReq := false }
    .ok (k.setPhase current.pid .user)
  else do
    let k ← k.onDkm current.dkm fun d => { d with distributed := 1 }
    let d ← k.dkms.load current.dkm
    match d.rNode, d.oNode with
    | some rNode, some oNode => do
        let k := { k with compared := rNode.byIkcd :: k.compared }
        if rNode.text ≠ oNode then do
          let k ← k.onDkm current.dkm fun d => { d with req := procCreatReq }
          match ← dkmDoReq k current with
          | (k, .sleeps serial) => .ok (k.setPhase current.pid (.asleep .creat serial))
          | (k, .returned ret serial) => do
              let k ← noteReturn k current .creat ret serial
              dkmExecveCreated k current
        else .ok (k.setPhase current.pid .user)
    | _, _ => .error .null

/-- `dkm_execve` up to its first sleep. `garbage` is what the memory allocated
for `r_node` holds. -/
def dkmExecve (k : Kernel) (current : Task) (filename garbage : CStr) : Exec Kernel :=
  if k.ikcdPid < 0 then .ok k
  else do
    let k ← k.onDkm current.dkm fun d =>
      { d with
        fileName := some filename
        rNode := some ⟨garbage, false⟩
        oNode := some k.nodename }
    if k.ikcdPid < 0 ∨ current.pid = k.ikcdPid then
      k.onDkm current.dkm fun d =>
        { d with rNode := d.oNode.map fun text => ⟨text, false⟩, distributed := 0 }
    else do
      let k ← k.onDkm current.dkm fun d => { d with req := mapReq }
      match ← dkmDoReq k current with
      | (k, .sleeps serial) => .ok (k.setPhase current.pid (.asleep .map serial))
      | (k, .returned ret serial) => do
          let k ← noteReturn k current .map ret serial
          dkmExecveMapped k current ret

def wake (k : Kernel) (current : Task) : Exec Kernel :=
  match current.phase with
  | .user => .error .blocked
  | .asleep site serial => do
      let d ← k.dkms.load current.dkm
      if d.pendingReq then .ok k
      else
        match site with
        | .map => do
            let k ← noteReturn k current .map 0 (some serial)
            dkmExecveMapped k current 0
        | .creat => do
            let k ← noteReturn k current .creat 0 (some serial)
            dkmExecveCreated k current
        | .direct => .ok (k.setPhase current.pid .user)

/-! ## The commands of the daemon -/

def nextRequest (dkms : Heap DkmStruct) : List Task → Exec (Option (Task × DkmStruct))
  | [] => .ok none
  | task :: rest =>
      match task.dkm with
      | none => nextRequest dkms rest
      | some a => do
          let d ← dkms.load (some a)
          if d.pendingReq ∧ d.reqState = .inDoReq ∧ dkmMinReq ≤ d.req ∧ d.req ≤ dkmMaxReq then
            .ok (some (task, d))
          else nextRequest dkms rest

def Task.serial? (t : Task) : Option Nat :=
  match t.phase with
  | .user => none
  | .asleep _ serial => some serial

/-- `none` stands for the result 1, with -1 in both arguments. -/
def dkmGetReq (k : Kernel) (caller : Int) : Exec (Kernel × Option (Int × Int)) := do
  match ← nextRequest k.dkms k.tasks with
  | none => .ok (k, none)
  | some (task, d) => do
      let k ← k.onDkm task.dkm fun d => { d with reqState := .inGetReq }
      let k := { k with
        delivered := (task.serial?.map fun serial => (serial, caller)).toList ++ k.delivered }
      .ok (k, some (task.pid, d.req))

/-- The strings `DKM_GET_ARGS` copies out; the task is looked at before it is
known to exist. -/
def dkmGetArgs (k : Kernel) (pid req : Int) : Exec (Int × List CStr) :=
  match k.findTaskByPid pid with
  | none => .error .null
  | some task => do
      let d ← k.dkms.load task.dkm
      if d.req ≠ req then .ok (-1, [])
      else if req = mapReq then
        match d.fileName with
        | some fileName => .ok (0, [fileName])
        | none => .error .null
      else if req = procCreatReq then
        match d.rNode, d.fileName with
        | some rNode, some fileName => .ok (0, [rNode.text, fileName])
        | _, _ => .error .null
      else .ok (0, [])

structure RespArg where
  node : CStr
  rPid : Int
deriving DecidableEq

def dkmPutResp (k : Kernel) (pid req : Int) (arg : RespArg) : Exec (Kernel × Int) :=
  match k.findTaskByPid pid with
  | none => .ok (k, -1)
  | some task => do
      let d ← k.dkms.load task.dkm
      if d.req ≠ req then .ok (k, -1)
      else if req = mapReq then
        match d.rNode with
        | none => .error .null
        | some _ =>
            -- the copy runs past the buffer when the name is too long for it
            if arg.node.length < nodeLen then do
              let k ← k.onDkm task.dkm fun d =>
                { d with
                  rNode := some ⟨arg.node, true⟩
                  pendingReq := false
                  reqState := .notInProgress }
              .ok ({ k with answered := task.serial?.toList ++ k.answered }, 0)
            else .error .bounds
      else if req = procCreatReq then do
        let k ← k.onDkm task.dkm fun d =>
          { d with rPid := some arg.rPid, pendingReq := false, reqState := .notInProgress }
        .ok ({ k with answered := task.serial?.toList ++ k.answered }, 0)
      else .ok (k, -1)

/-! ## `do_fork` -/

def freshDkm : DkmStruct :=
  { distributed := 0
    pendingReq := false
    reqState := .notInProgress
    req := dkmNop
    rPid := none
    fileName := none
    oNode := none
    rNode := none }

/-- The child has the structure of its parent, the parent gets the new one. -/
def doFork (k : Kernel) (current : Task) (pid : Int) : Kernel :=
  { k with
    dkms := k.dkms.alloc freshDkm
    tasks := (k.tasks.map fun t =>
      if t.pid = current.pid then { t with dkm := some k.dkms.next } else t) ++
        [{ pid := pid, dkm := current.dkm, phase := .user }] }

/-! ## Runs -/

inductive Cmd where
  | ikcdReg (pid : Int)
  | ikcdUnreg
  | getReq
  | getArgs (pid req : Int)
  | putResp (pid req : Int) (arg : RespArg)
  | doReq

/-- `do_dkmctl` called by a task; what the commands return is left to the
functions above. -/
def doDkmctl (k : Kernel) (current : Task) : Cmd → Exec Kernel
  | .ikcdReg pid => .ok { k with ikcdPid := pid }
  | .ikcdUnreg => .ok { k with ikcdPid := -1 }
  | .getReq => do
      let (k, _) ← dkmGetReq k current.pid
      .ok k
  | .getArgs pid req => do
      let _ ← dkmGetArgs k pid req
      .ok k
  | .putResp pid req arg => do
      let (k, _) ← dkmPutResp k pid req arg
      .ok k
  | .doReq => do
      match ← dkmDoReq k current with
      | (k, .sleeps serial) => .ok (k.setPhase current.pid (.asleep .direct serial))
      | (k, .returned _ _) => .ok k

/-- One atomic step of a task. -/
inductive KAction where
  | fork (pid child : Int)
  | exec (pid : Int) (filename garbage : CStr)
  | wake (pid : Int)
  | exit (pid : Int)
  | ctl (caller : Int) (cmd : Cmd)

def Kernel.running (k : Kernel) (pid : Int) : Exec Task :=
  match k.findTaskByPid pid with
  | some t => if t.phase = .user then .ok t else .error .blocked
  | none => .error .blocked

/-- A new task gets an unused pid; a task that leaves keeps its structure. -/
def kernelStep (k : Kernel) : KAction → Exec Kernel
  | .fork pid child => do
      let t ← k.running pid
      match k.findTaskByPid child with
      | some _ => .error .blocked
      | none => .ok (doFork k t child)
  | .exec pid filename garbage => do
      let t ← k.running pid
      dkmExecve k t filename garbage
  | .wake pid =>
      match k.findTaskByPid pid with
      | some t => wake k t
      | none => .error .blocked
  | .exit pid => do
      let t ← k.running pid
      .ok { k with tasks := k.tasks.filter fun u => u.pid ≠ t.pid }
  | .ctl caller cmd => do
      let t ← k.running caller
      doDkmctl k t cmd

end Dkmp.Dkmke
