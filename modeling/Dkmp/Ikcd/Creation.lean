import Dkmp.Dkmke.Handshake
import Dkmp.Ikcd.Request

/-! # A process creation request on its way

From the structure of the task that asks, through the argument slots the kernel
fills and the packet, to the request that is queued on the other node. The kernel
puts the name of the node into the first slot and the file name into the second;
the packet is made from the first slot after the second one was emptied.
-/

namespace Dkmp.Ikcd

open Machine Dkmke

def ikcMaxFileLen : Nat := 257

/-- A `pid_t` as it lies in memory. -/
def pidT (pid : Int) : UInt32 := .ofInt pid

/-- A request with what `rq_argv.arg1` points at; `rq_argv.arg0` points at the
`r_node` of the request. -/
structure Fetched where
  request : OutRequest
  arg1 : CStr
  arg1_lt : arg1.length < ikcMaxFileLen

/-- The request of `ikc_get_request_from_kernel` for a task. The two slots point
at `r_node` and at a buffer for a file name; the results of `DKM_GET_ARGS` are not
checked. `seq_nbr` and `r_pid` are not assigned here. -/
def fetchCreation (k : Kernel) (hostname : CStr) (oPid : Int) : Exec Fetched := do
  let (_, args) ← dkmGetArgs k oPid Dkmke.procCreatReq
  match args with
  | [arg0, arg1] =>
      if h : arg0.length < ikcMaxNodeLen ∧ arg1.length < ikcMaxFileLen ∧
          hostname.length < ikcMaxNodeLen then
        .ok
          { request :=
              { oPid := pidT oPid
                req := Dkmke.procCreatReq
                oNode := hostname
                oNode_lt := h.2.2
                rNode := arg0
                rNode_lt := h.1
                seqNbr := 0
                rPid := none }
            arg1 := arg1
            arg1_lt := h.2.1 }
      else .error .bounds
  | _ => .error .uninit

/-- One round of `ikc_get_request_from_kernel`: a request for a node is answered
at once, one for a process is queued. `bestNode` is the answer of the other daemon. -/
def ikcGetRequestFromKernel (bestNode : CStr → CStr) (hostname : CStr) (k : Kernel) (ikcd : Int) :
    Exec (Kernel × Option Fetched) := do
  match ← dkmGetReq k ikcd with
  | (k, none) => .ok (k, none)
  | (k, some (oPid, req)) =>
      if req = mapReq then do
        let (_, args) ← dkmGetArgs k oPid req
        match args with
        | [appName] =>
            if appName.length < ikcMaxFileLen then do
              let (k, _) ← dkmPutResp k oPid req ⟨bestNode appName, 0⟩
              .ok (k, none)
            else .error .bounds
        | _ => .error .uninit
      else if req = Dkmke.procCreatReq then do
        let fetched ← fetchCreation k hostname oPid
        .ok (k, some fetched)
      else .ok (k, none)

/-- The next request of the kernel, sent by a worker with this thread id and
sequence number, as the node that receives the packet queues it. -/
def remoteCreation (bestNode : CStr → CStr) (hostname : CStr) (k : Kernel) (ikcd : Int)
    (threadId : UInt8) (seq : UInt16) (cliaddr : SockaddrIn) : Exec (Option IkcRequest) := do
  let (_, fetched) ← ikcGetRequestFromKernel bestNode hostname k ikcd
  match fetched with
  | none => .ok none
  | some fetched => do
      match ← ikcrProceedOutgoingRequestSend { fetched.request with seqNbr := seq } threadId with
      | none => .ok none
      | some packet => ikcIncomingRequestCollector cliaddr packet

variable {k k' : Kernel} {t : Task} {d : DkmStruct} {f : CStr} {r : NodeBuf}

theorem fetchCreation_eq (hfind : k.findTaskByPid t.pid = some t) (hload : k.dkms.load t.dkm = .ok d)
    (hreq : d.req = Dkmke.procCreatReq) (hfile : d.fileName = some f) (hnode : d.rNode = some r)
    (hf : f.length ≤ 256) (hr : r.text.length ≤ 64) (hostname : CStr) :
    (hostname.length < ikcMaxNodeLen → ∃ fetched, fetchCreation k hostname t.pid = .ok fetched ∧
      fetched.request.req = procCreatReq ∧ fetched.request.oPid = pidT t.pid ∧
      fetched.request.oNode = hostname ∧ fetched.request.rNode = r.text) ∧
    (¬ hostname.length < ikcMaxNodeLen → fetchCreation k hostname t.pid = .error .bounds) := by
  have hargs : dkmGetArgs k t.pid Dkmke.procCreatReq = .ok (0, [r.text, f]) := by
    simp only [dkmGetArgs, hfind, hload, ok_bind, hreq, hfile, hnode]
    rfl
  have hr' : r.text.length < ikcMaxNodeLen := Nat.lt_succ_of_le hr
  have hf' : f.length < ikcMaxFileLen := Nat.lt_succ_of_le hf
  constructor
  · intro hhost
    simp only [fetchCreation, hargs, ok_bind]
    rw [dif_pos ⟨hr', hf', hhost⟩]
    exact ⟨_, rfl, rfl, rfl, rfl, rfl⟩
  · intro hhost
    simp only [fetchCreation, hargs, ok_bind]
    rw [dif_neg fun h => hhost h.2.2]

theorem chars_inj {s t : CStr} : chars s = chars t ↔ s = t :=
  (List.map_injective_iff.mpr Subtype.val_injective).eq_iff

theorem findTaskByPid_mem (h : KInv k) (ht : t ∈ k.tasks) : k.findTaskByPid t.pid = some t := by
  cases hfind : k.findTaskByPid t.pid with
  | none =>
      have hno := List.find?_eq_none.mp hfind t ht
      simp at hno
  | some u =>
      obtain ⟨hu, hpid⟩ := mem_of_findTaskByPid hfind
      rw [h.eq_of_pid hu ht hpid]

theorem arguments_after_getReq (h : KInv k) (ht : t ∈ k.tasks) (hload : k.dkms.load t.dkm = .ok d)
    {ikcd req : Int} (hget : dkmGetReq k ikcd = .ok (k', some (t.pid, req))) :
    k'.findTaskByPid t.pid = some t ∧ ∃ d', k'.dkms.load t.dkm = .ok d' ∧ d'.req = req ∧
      d'.fileName = d.fileName ∧ d'.rNode = d.rNode := by
  rcases h.getReq_cases hget with
    ⟨hnone, -, -⟩ | ⟨u, hu, site, serial, a, e, -, hp, he, -, hwait, -, hresult, rfl⟩
  · cases hnone
  · rw [Option.some.injEq, Prod.mk.injEq] at hresult
    obtain rfl := h.eq_of_pid hu ht hresult.1.symm
    rw [hp, Heap.load_some he, Except.ok.injEq] at hload
    have hfind := findTaskByPid_mem h ht
    refine ⟨hfind, { e with reqState := .inGetReq }, ?_, ?_, ?_, ?_⟩
    · rw [hp]
      exact Heap.load_some (Kernel.set_self he _)
    · rw [hresult.2]
      exact hwait.req
    · rw [← hload]
    · rw [← hload]

/-- **The file of a remote process.** When the process creation request of a task
is fetched, sent and decoded, the request that is queued on the other node has the
pid of the task, the name of this host and the file name exactly when the name of
this host fits its field and the file name is the name of the node. -/
theorem remote_file_iff (k₀ : Kernel) (hinit : Initial k₀) (as : List KAction) (k k' : Kernel)
    (hrun : steps kernelStep as k₀ = .ok k) (t : Task) (ht : t ∈ k.tasks) (d : DkmStruct)
    (hload : k.dkms.load t.dkm = .ok d) (f : CStr) (hfile : d.fileName = some f)
    (hf : f.length ≤ 256) (r : NodeBuf) (hnode : d.rNode = some r) (hr : r.text.length ≤ 64)
    (ikcd : Int) (hget : dkmGetReq k ikcd = .ok (k', some (t.pid, Dkmke.procCreatReq)))
    (bestNode : CStr → CStr) (hostname : CStr) (threadId : UInt8) (seq : UInt16)
    (cliaddr : SockaddrIn) :
    (∃ q, remoteCreation bestNode hostname k ikcd threadId seq cliaddr = .ok (some q) ∧
      q.oPid = pidT t.pid ∧ q.oNode = chars hostname ∧ q.arg0 = chars f) ↔
    hostname.length < ikcMaxNodeLen ∧ f = r.text := by
  obtain ⟨hfind, d', hload', hreq, hfile', hnode'⟩ :=
    arguments_after_getReq (KInv.of_run hinit hrun) ht hload hget
  obtain ⟨hfits, hlong⟩ := fetchCreation_eq hfind hload' hreq (hfile'.trans hfile)
    (hnode'.trans hnode) hf hr hostname
  have hround : ikcGetRequestFromKernel bestNode hostname k ikcd =
      (fetchCreation k' hostname t.pid).map fun fetched => (k', some fetched) := by
    simp only [ikcGetRequestFromKernel, hget, ok_bind]
    rw [if_neg (by decide), if_pos trivial]
    rfl
  by_cases hhost : hostname.length < ikcMaxNodeLen
  · obtain ⟨fetched, hfetch, hcreat, hpid, hhostname, hrnode⟩ := hfits hhost
    obtain ⟨packet, q, hsend, hcollect, harrived⟩ :=
      @collector_send { fetched.request with seqNbr := seq } hcreat threadId cliaddr
    have hremote : remoteCreation bestNode hostname k ikcd threadId seq cliaddr = .ok (some q) := by
      rw [remoteCreation, hround, hfetch]
      simp only [Except.map, ok_bind, hsend, hcollect]
    have harg : q.arg0 = chars r.text := harrived.arg0.trans (congrArg chars hrnode)
    constructor
    · rintro ⟨q', hq', -, -, hq'file⟩
      rw [hremote, Except.ok.injEq, Option.some.injEq] at hq'
      rw [← hq', harg, chars_inj] at hq'file
      exact ⟨hhost, hq'file.symm⟩
    · rintro ⟨-, rfl⟩
      exact ⟨q, hremote, harrived.oPid.trans hpid, harrived.oNode.trans (congrArg chars hhostname), harg⟩
  · refine iff_of_false ?_ (fun h => hhost h.1)
    rintro ⟨q, hq, -⟩
    rw [remoteCreation, hround, hlong hhost] at hq
    cases hq

def sentTo (file node : CStr) : List KAction :=
  [.ctl 10 (.ikcdReg 10), .exec 20 file [], .ctl 10 .getReq, .ctl 10 (.putResp 20 1 ⟨node, 0⟩), .wake 20]

theorem remote_file_iff_same :
    ∃ k q, steps kernelStep (sentTo (lit ['b']) (lit ['b'])) twoTasks = .ok k ∧
      remoteCreation id (lit ['a']) k 10 1 0 ⟨0, 0⟩ = .ok (some q) ∧ q.oPid = pidT 20 ∧
      q.oNode = chars (lit ['a']) ∧ q.arg0 = chars (lit ['b']) := by
  obtain ⟨k, k', t, d, r, hrun, ht, hpid, hload, hfile, hnode, hr, hget⟩ :
      ∃ k k' t d r, steps kernelStep (sentTo (lit ['b']) (lit ['b'])) twoTasks = .ok k ∧
        t ∈ k.tasks ∧ t.pid = 20 ∧ k.dkms.load t.dkm = .ok d ∧ d.fileName = some (lit ['b']) ∧
        d.rNode = some r ∧ r.text = lit ['b'] ∧
        dkmGetReq k 10 = .ok (k', some (t.pid, Dkmke.procCreatReq)) :=
    ⟨_, _, _, _, _, rfl, List.mem_cons_of_mem _ List.mem_cons_self, rfl, rfl, rfl, rfl, rfl, rfl⟩
  obtain ⟨q, hq, hoPid, hoNode, harg⟩ := (remote_file_iff twoTasks initial_twoTasks _ k k' hrun t ht d
    hload _ hfile (by decide) r hnode (by rw [hr]; decide) 10 hget id (lit ['a']) 1 0 ⟨0, 0⟩).mpr
      ⟨by decide, hr.symm⟩
  exact ⟨k, q, hrun, hq, hpid ▸ hoPid, hoNode, harg⟩

theorem remote_file_lost :
    ∃ k q, steps kernelStep (sentTo (lit ['f']) (lit ['b'])) twoTasks = .ok k ∧
      remoteCreation id (lit ['a']) k 10 1 0 ⟨0, 0⟩ = .ok (some q) ∧ q.oPid = pidT 20 ∧
      q.oNode = chars (lit ['a']) ∧ q.arg0 = chars (lit ['b']) ∧ q.arg0 ≠ chars (lit ['f']) :=
  ⟨_, _, rfl, rfl, rfl, rfl, rfl, by decide⟩

end Dkmp.Ikcd
