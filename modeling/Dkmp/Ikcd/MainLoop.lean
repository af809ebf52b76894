import Dkmp.Dkmke.Sleepers
import Dkmp.Ikcd.Creation
import Dkmp.Ikcd.Wakeup
import Mathlib.Data.List.FinRange

/-! # The main loop of the daemon

The main thread of `ikcd` sleeps in `sigsuspend`. `DKM_DO_REQ` sends it `SIGUSR2`;
the handler sets a flag, and the loop then fetches requests until the kernel has
none. Requests for a node are answered by the main thread, requests for a process
go through the queue of outgoing requests to the workers, which answer them. The
signal is blocked from the first fetch on, except inside `sigsuspend`. Each step of
the main thread, of a worker, of a signal handler and of another task is a step of
its own here, in any order.
-/

namespace Dkmp.Ikcd

open Machine Dkmke

def readReq : Int := 22

/-- `PID_MAX`, below which `get_pid` looks for pids. -/
def pidMax : Int := 0x8000

/-- Where the main thread is. `fetching` is the label `again` of
`ikc_get_request_from_kernel`; behind it are the two kinds of requests it handles. -/
inductive MainPhase where
  | starting
  | registered
  | suspended
  | resumed
  | flagged
  | cleared
  | fetching
  | mapping (oPid : Int)
  | answering (oPid : Int) (appName : CStr)
  | creating (oPid : Int)
  | queueing (request : Fetched)
  | exited

/-- `self` is the pid of the main thread. `blocked` and `pending` say whether
`SIGUSR2` is in its signal mask and whether one is waiting to be delivered. A worker
has the request it dequeued until it answered it. -/
structure Daemon where
  kernel : Kernel
  self : Int
  hostname : CStr
  phase : MainPhase
  usr2Flag : Bool
  blocked : Bool
  pending : Bool
  pendingOut : List Fetched
  worker : Fin 3 → Option Fetched

namespace Daemon

def start (kernel : Kernel) (self : Int) (hostname : CStr) : Daemon :=
  ⟨kernel, self, hostname, .starting, false, false, false, [], fun _ => none⟩

def put (s : Daemon) (w : Fin 3) (r : Option Fetched) : Daemon :=
  { s with worker := fun v => if v = w then r else s.worker v }

/-- `DKM_DO_REQ` counted a request in this step and found the main thread, so it
sent the signal. -/
def signalled (s : Daemon) (k : Kernel) : Bool :=
  s.kernel.calls < k.calls ∧ s.kernel.ikcdPid = s.self ∧
    (s.kernel.findTaskByPid s.self).isSome = true

end Daemon

def Fetched.oPid (r : Fetched) : Int := r.request.oPid.toInt32.toInt

inductive DaemonAction where
  | main (bestNode : CStr)
  | sigusr2
  | sigterm
  | dequeue (w : Fin 3)
  | respond (w : Fin 3) (rPid : Int)
  | task (act : KAction)

/-- What other tasks do: they call no `dkmctl`, and the main thread neither forks nor
executes nor exits. -/
def Elsewhere (self : Int) : KAction → Prop
  | .fork pid child => pid ≠ self ∧ 0 < child ∧ child < pidMax
  | .exec pid _ _ => pid ≠ self
  | .wake _ => True
  | .exit pid => pid ≠ self
  | .ctl _ _ => False

instance (self : Int) : (act : KAction) → Decidable (Elsewhere self act)
  | .fork pid child => inferInstanceAs (Decidable (pid ≠ self ∧ 0 < child ∧ child < pidMax))
  | .exec pid _ _ => inferInstanceAs (Decidable (pid ≠ self))
  | .wake _ => inferInstanceAs (Decidable True)
  | .exit pid => inferInstanceAs (Decidable (pid ≠ self))
  | .ctl _ _ => inferInstanceAs (Decidable False)

/-- The next step of the main thread. `bestNode` is the answer of the other daemon. -/
def mainStep (s : Daemon) (bestNode : CStr) : Exec Daemon :=
  match s.phase with
  | .starting => do
      let k ← kernelStep s.kernel (.ctl s.self (.ikcdReg s.self))
      .ok { s with kernel := k, phase := .registered }
  | .registered => .ok { s with phase := .suspended }
  | .suspended => .error .blocked
  | .resumed => .ok { s with phase := if s.usr2Flag then .flagged else .suspended }
  | .flagged => .ok { s with usr2Flag := false, phase := .cleared }
  | .cleared => .ok { s with blocked := true, phase := .fetching }
  | .fetching => do
      match ← dkmGetReq s.kernel s.self with
      | (k, none) => .ok { s with kernel := k, phase := .suspended }
      | (k, some (oPid, req)) =>
          if req = mapReq then .ok { s with kernel := k, phase := .mapping oPid }
          else if req = Dkmke.procCreatReq then .ok { s with kernel := k, phase := .creating oPid }
          else if req = readReq then .ok { s with kernel := k, phase := .fetching }
          else .ok { s with kernel := k, phase := .exited }
  | .mapping oPid => do
      let (_, args) ← dkmGetArgs s.kernel oPid mapReq
      match args with
      | [appName] =>
          if appName.length < ikcMaxFileLen then .ok { s with phase := .answering oPid appName }
          else .error .bounds
      | _ => .error .uninit
  | .answering oPid _ => do
      let (k, _) ← dkmPutResp s.kernel oPid mapReq ⟨bestNode, 0⟩
      .ok { s with kernel := k, phase := .fetching }
  | .creating oPid => do
      let fetched ← fetchCreation s.kernel s.hostname oPid
      .ok { s with phase := .queueing fetched }
  | .queueing fetched => .ok { s with pendingOut := s.pendingOut ++ [fetched], phase := .fetching }
  | .exited => .error .exited

/-- Any signal that is handled lets `sigsuspend` return. -/
def MainPhase.interrupted : MainPhase → MainPhase
  | .suspended => .resumed
  | p => p

/-- Inside `sigsuspend` no signal is blocked. -/
def MainPhase.unmasked : MainPhase → Bool
  | .suspended => true
  | _ => false

def daemonStep (s : Daemon) : DaemonAction → Exec Daemon
  | .main bestNode => mainStep s bestNode
  | .sigusr2 =>
      if s.pending ∧ (¬ s.blocked ∨ s.phase.unmasked) then
        .ok { s with usr2Flag := true, pending := false, phase := s.phase.interrupted }
      else .error .blocked
  | .sigterm => do
      let k ← kernelStep s.kernel (.ctl s.self .ikcdUnreg)
      .ok { s with kernel := k, phase := s.phase.interrupted }
  | .dequeue w =>
      match s.worker w, s.pendingOut with
      | none, [] => .ok s
      | none, r :: rest => .ok ({ s with pendingOut := rest }.put w (some r))
      | some _, _ => .error .blocked
  | .respond w rPid =>
      match s.worker w with
      | none => .error .blocked
      | some r => do
          let (k, _) ← dkmPutResp s.kernel r.oPid Dkmke.procCreatReq ⟨[], rPid⟩
          .ok ({ s with kernel := k }.put w none)
  | .task act =>
      if Elsewhere s.self act then do
        let k ← kernelStep s.kernel act
        .ok { s with kernel := k, pending := s.pending || s.signalled k }
      else .error .blocked

/-! ## Who has a request -/

def Fetched.asked (r : Fetched) : Int × Int := (r.oPid, Dkmke.procCreatReq)

def MainPhase.holds : MainPhase → List (Int × Int)
  | .mapping oPid => [(oPid, mapReq)]
  | .answering oPid _ => [(oPid, mapReq)]
  | .creating oPid => [(oPid, Dkmke.procCreatReq)]
  | .queueing r => [r.asked]
  | _ => []

def Daemon.held (worker : Fin 3 → Option Fetched) : List Fetched := (List.finRange 3).filterMap worker

/-- The requests in the daemon: in the main thread, in the queue, in the workers. -/
def Daemon.holders (s : Daemon) : List (Int × Int) :=
  s.phase.holds ++ (s.pendingOut ++ Daemon.held s.worker).map Fetched.asked

theorem holders_eq {s : Daemon} {phase : MainPhase} (hphase : s.phase = phase) :
    s.holders = phase.holds ++ (s.pendingOut ++ Daemon.held s.worker).map Fetched.asked := by
  rw [Daemon.holders, hphase]

theorem filterMap_put {ι β : Type} [DecidableEq ι] {l : List ι} (hl : l.Nodup) {w : ι} (hw : w ∈ l)
    {f : ι → Option β} (hfree : f w = none) (x : β) :
    (l.filterMap fun v => if v = w then some x else f v).Perm (x :: l.filterMap f) := by
  induction l with
  | nil => cases hw
  | cons v l ih =>
      obtain ⟨hv, hl⟩ := List.nodup_cons.mp hl
      by_cases hvw : v = w
      · subst hvw
        have hsame : l.filterMap (fun u => if u = v then some x else f u) = l.filterMap f := by
          apply List.filterMap_congr
          intro u hu
          exact if_neg (by rintro rfl; exact hv hu)
        rw [List.filterMap_cons, List.filterMap_cons, if_pos rfl, hfree, hsame]
      · have hw' : w ∈ l := (List.mem_cons.mp hw).resolve_left fun h => hvw h.symm
        have hrest := ih hl hw'
        cases hfv : f v with
        | none => simpa only [List.filterMap_cons, if_neg hvw, hfv] using hrest
        | some y =>
            simp only [List.filterMap_cons, if_neg hvw, hfv]
            exact (hrest.cons y).trans (List.Perm.swap x y _)

theorem held_put {s : Daemon} {w : Fin 3} (hfree : s.worker w = none) (r : Fetched) :
    (Daemon.held (s.put w (some r)).worker).Perm (r :: Daemon.held s.worker) :=
  filterMap_put (List.nodup_finRange 3) (List.mem_finRange w) hfree r

theorem held_take {s : Daemon} {w : Fin 3} {r : Fetched} (hr : s.worker w = some r) :
    (Daemon.held s.worker).Perm (r :: Daemon.held (s.put w none).worker) := by
  have hback : (s.put w none).put w (some r) = s := by
    obtain ⟨k, self, hostname, phase, flag, blocked, pending, queue, worker⟩ := s
    simp only [Daemon.put, Daemon.mk.injEq, true_and]
    funext v
    change worker w = some r at hr
    by_cases hv : v = w
    · rw [if_pos hv, hv, hr]
    · rw [if_neg hv, if_neg hv]
  have hperm := held_put (s := s.put w none) (w := w) (if_pos rfl) r
  rwa [hback] at hperm

/-! ## The main thread in the task table -/

section Task

variable {k k' : Kernel} {t u : Task} {ikcd : Int}

theorem mem_setPhase_of_ne (hu : u ∈ k.tasks) (hne : u.pid ≠ t.pid) (phase : Phase) :
    u ∈ (k.setPhase t.pid phase).tasks :=
  List.mem_map.mpr ⟨u, hu, if_neg hne⟩

/-- The main thread runs, and every pid is one that `get_pid` gives. -/
structure Tasked (k : Kernel) (ikcd : Int) : Prop where
  main : ∃ t ∈ k.tasks, t.pid = ikcd ∧ t.phase = .user
  pids : ∀ t ∈ k.tasks, 0 ≤ t.pid ∧ t.pid < pidMax

namespace Tasked

theorem find (h : Tasked k ikcd) (hk : KInv k) : (k.findTaskByPid ikcd).isSome = true := by
  obtain ⟨t, ht, rfl, -⟩ := h.main
  rw [findTaskByPid_mem hk ht, Option.isSome_some]

theorem of_tasks (h : Tasked k ikcd) (htasks : k'.tasks = k.tasks) : Tasked k' ikcd where
  main := htasks ▸ h.main
  pids := htasks ▸ h.pids

theorem after (h : Tasked k ikcd) (hk : KInv k) (ht : t ∈ k.tasks) (hne : ikcd ≠ t.pid) {a : Nat}
    {d : DkmStruct} {phase : Phase} {calls : Nat} {returns : List Returned} {compared : List Bool} :
    Tasked (k.after t.pid a d phase calls returns compared) ikcd where
  main := by
    obtain ⟨u, hu, rfl, huser⟩ := h.main
    exact ⟨u, mem_setPhase_of_ne hu hne phase, rfl, huser⟩
  pids := by
    intro u hu
    rcases hk.mem_setPhase ht hu with rfl | ⟨hu', -⟩
    · exact h.pids t ht
    · exact h.pids u hu'

theorem step (h : Tasked k ikcd) (hk : KInv k) {act : KAction} (hact : Elsewhere ikcd act)
    (hstep : kernelStep k act = .ok k') : Tasked k' ikcd := by
  cases act with
  | fork pid child =>
      obtain ⟨t, hrunning, hcont⟩ := bind_eq_ok hstep
      obtain ⟨ht, rfl, huser⟩ := mem_of_running hrunning
      split at hcont
      · cases hcont
      · rw [← Except.ok.inj hcont]
        refine ⟨?_, ?_⟩
        · obtain ⟨u, hu, rfl, hphase⟩ := h.main
          have hmem : u ∈ (doFork k t child).tasks :=
            List.mem_append_left _ (List.mem_map.mpr ⟨u, hu, if_neg hact.1.symm⟩)
          exact ⟨u, hmem, rfl, hphase⟩
        · intro u hu
          rcases hk.mem_doFork ht hu with rfl | rfl | ⟨hu', -⟩
          · exact h.pids t ht
          · exact ⟨hact.2.1.le, hact.2.2⟩
          · exact h.pids u hu'
  | exec pid filename garbage =>
      obtain ⟨t, hrunning, hcont⟩ := bind_eq_ok hstep
      obtain ⟨ht, rfl, huser⟩ := mem_of_running hrunning
      rcases hk.execve_cases ht huser hcont with
        rfl | ⟨a, d, hp, hd, ⟨d', rfl, -⟩ | ⟨d', phase, calls, returns, compared, rfl, -, -⟩⟩
      · exact h
      · exact h.of_tasks rfl
      · exact h.after hk ht (Ne.symm hact)
  | wake pid =>
      simp only [kernelStep] at hstep
      split at hstep
      · next t hfind =>
        obtain ⟨ht, -⟩ := mem_of_findTaskByPid hfind
        obtain ⟨site, serial, a, d, hphase, -, -, -, hcases⟩ := hk.wake_cases ht hstep
        rcases hcases with ⟨-, rfl⟩ | ⟨-, d', phase, calls, returns, compared, rfl, -, -, -⟩
        · exact h
        · refine h.after hk ht ?_
          obtain ⟨u, hu, rfl, huser⟩ := h.main
          exact (hk.asleep_pid_ne ht hphase hu huser).symm
      · cases hstep
  | exit pid =>
      obtain ⟨t, hrunning, hcont⟩ := bind_eq_ok hstep
      obtain ⟨ht, rfl, -⟩ := mem_of_running hrunning
      rw [← Except.ok.inj hcont]
      refine ⟨?_, fun u hu => h.pids u (List.mem_of_mem_filter hu)⟩
      obtain ⟨u, hu, rfl, huser⟩ := h.main
      exact ⟨u, List.mem_filter.mpr ⟨hu, by simpa using Ne.symm hact⟩, rfl, huser⟩
  | ctl caller cmd => exact hact.elim

theorem getReq (h : Tasked k ikcd) (hk : KInv k) {caller : Int} {result : Option (Int × Int)}
    (hrun : dkmGetReq k caller = .ok (k', result)) : Tasked k' ikcd := by
  rcases hk.getReq_cases hrun with
    ⟨-, rfl, -⟩ | ⟨t, ht, site, serial, a, d, -, -, -, -, -, -, -, rfl⟩
  · exact h
  · exact h.of_tasks rfl

end Tasked

end Task

/-! ## The invariant of the daemon -/

/-- The main thread will look for requests, or a signal that makes it look is on its
way. A flag that was set before the first `sigsuspend` counts although it wakes
nobody. -/
def Attentive (s : Daemon) : Prop :=
  match s.phase with
  | .starting => False
  | .registered => s.pending = true ∨ s.usr2Flag = true
  | .suspended => s.pending = true ∨ (s.usr2Flag = true ∧ s.blocked = false)
  | .resumed => s.pending = true ∨ s.usr2Flag = true
  | _ => True

structure Daemon.Inv (s : Daemon) : Prop where
  kernel : KInv s.kernel
  tasked : Tasked s.kernel s.self
  positive : 0 < s.self
  running : s.phase ≠ .exited
  accounts : Accounts s.kernel s.holders
  attentive : ∀ t n d, Sleeper s.kernel t n d → d.reqState = .inDoReq → Attentive s
  started : s.phase = .starting → s.kernel.ikcdPid = -1
  unmasked : s.phase = .starting ∨ s.phase = .registered → s.blocked = false
  registered : s.kernel.ikcdPid = -1 ∨ s.kernel.ikcdPid = s.self

theorem pidT_roundtrip {pid : Int} (hmin : 0 ≤ pid) (hmax : pid < pidMax) :
    (pidT pid).toInt32.toInt = pid := by
  obtain ⟨n, rfl⟩ := Int.eq_ofNat_of_zero_le hmin
  have hlt : n < 32768 := by
    have hmax' : (n : Int) < 32768 := hmax
    omega
  have hnat : (pidT n).toBitVec.toNat = n := by
    change (UInt32.ofInt (n : Int)).toNat = n
    simp only [UInt32.ofInt, UInt32.toNat_ofNat']
    omega
  change (pidT n).toBitVec.toInt = n
  rw [BitVec.toInt_eq_toNat_of_lt (by omega), hnat]

theorem fetchCreation_oPid {k : Kernel} {hostname : CStr} {oPid : Int} {fetched : Fetched}
    (hrun : fetchCreation k hostname oPid = .ok fetched) : fetched.request.oPid = pidT oPid := by
  obtain ⟨⟨n, args⟩, -, hcont⟩ := bind_eq_ok hrun
  simp only at hcont
  split at hcont
  · split at hcont
    · cases hcont
      rfl
    · cases hcont
  · cases hcont

namespace Daemon

variable {s s' : Daemon}

theorem Inv.move (h : s.Inv) (hkernel : s'.kernel = s.kernel) (hself : s'.self = s.self)
    (hholders : s'.holders = s.holders) (hrunning : s'.phase ≠ .exited)
    (hstarting : s'.phase ≠ .starting) (hregistered : s'.phase ≠ .registered)
    (hattentive : Attentive s → Attentive s') : s'.Inv where
  kernel := hkernel ▸ h.kernel
  tasked := hkernel ▸ hself ▸ h.tasked
  positive := hself ▸ h.positive
  running := hrunning
  accounts := by
    rw [hkernel, hholders]
    exact h.accounts
  attentive := by
    intro t n d hs hstate
    rw [hkernel] at hs
    exact hattentive (h.attentive t n d hs hstate)
  started := fun hphase => absurd hphase hstarting
  unmasked := by
    rintro (hphase | hphase)
    · exact absurd hphase hstarting
    · exact absurd hphase hregistered
  registered := by
    rw [hkernel, hself]
    exact h.registered

theorem Inv.answered (h : s.Inv) {pid req : Int} {arg : RespArg} {k : Kernel} {n : Int}
    (hheld : s.holders.Perm ((pid, req) :: s'.holders))
    (hrun : dkmPutResp s.kernel pid req arg = .ok (k, n)) (hkernel : s'.kernel = k)
    (hself : s'.self = s.self) (hrunning : s'.phase ≠ .exited)
    (hattentive : Attentive s → Attentive s')
    (hstarting : s'.phase = .starting → s.phase = .starting)
    (hmask : s'.phase = .starting ∨ s'.phase = .registered → s'.blocked = false) :
    n = 0 ∧ s'.Inv := by
  subst hkernel
  have haccounts := h.accounts.perm hheld
  obtain ⟨t, m, d, rfl, hs, rfl, -⟩ := haccounts.held pid req (List.mem_cons_self ..)
  obtain ⟨rfl, hreleases⟩ :=
    h.kernel.putResp_releases hs (findTaskByPid_mem h.kernel hs.1) hrun
  have htasks : s'.kernel.tasks = s.kernel.tasks := by
    rcases h.kernel.putResp_cases hrun with hsame | ⟨u, -, _, _, a, e, e', -, -, -, -, -, -, -, hsame⟩
    · rw [hsame]
    · rw [hsame]
      rfl
  refine ⟨rfl, ?_⟩
  constructor
  · exact h.kernel.putResp hrun
  · rw [hself]
    exact h.tasked.of_tasks htasks
  · rw [hself]
    exact h.positive
  · exact hrunning
  · exact haccounts.releases hreleases
  · intro u m' e hu hstate
    have hne : u.pid ≠ t.pid := fun hpid => hreleases.gone u m' e hpid hu
    exact hattentive (h.attentive u m' e ((hreleases.others u m' e hne).mp hu) hstate)
  · intro hphase
    rw [hreleases.ikcd]
    exact h.started (hstarting hphase)
  · exact hmask
  · rw [hreleases.ikcd, hself]
    exact h.registered

theorem Inv.fetched_none (h : s.Inv) {k : Kernel} (hphase : s.phase = .fetching)
    (hrun : dkmGetReq s.kernel s.self = .ok (k, none)) :
    ({ s with kernel := k, phase := .suspended } : Daemon).Inv ∧
      ∀ t n d, Sleeper k t n d → d.reqState ≠ .inDoReq := by
  rcases h.kernel.getReq_cases hrun with ⟨-, rfl, hnext⟩ | ⟨t, -, _, _, _, _, -, -, -, -, -, -, hsome, -⟩
  · have hnone : ∀ t n d, Sleeper s.kernel t n d → d.reqState ≠ .inDoReq := by
      intro t n d hs hstate
      obtain ⟨site, a, -, hp, hd, hwait⟩ := h.kernel.sleeper_cases hs
      exact nextRequest_none hnext t hs.1 a d hp hd (hwait.fetchable hs.2.2.2 hstate)
    have haccounts := h.accounts
    rw [holders_eq hphase] at haccounts
    refine ⟨⟨h.kernel, h.tasked, h.positive, nofun, haccounts, ?_, nofun, nofun, h.registered⟩, hnone⟩
    intro t n d hs hstate
    exact absurd hstate (hnone t n d hs)
  · cases hsome

/-- A fetched request is with the main thread. -/
theorem Inv.fetched_some (h : s.Inv) {k : Kernel} {pid req : Int} (hphase : s.phase = .fetching)
    (hrun : dkmGetReq s.kernel s.self = .ok (k, some (pid, req))) {phase : MainPhase}
    (hholds : phase.holds = [(pid, req)]) :
    ({ s with kernel := k, phase := phase } : Daemon).Inv := by
  have hmarks := h.kernel.getReq_marks hrun
  have hk := h.kernel.getReq hrun
  have hattentive : Attentive { s with kernel := k, phase := phase } := by
    cases phase <;> trivial
  refine ⟨hk, h.tasked.getReq h.kernel hrun, h.positive, ?_, ?_, fun _ _ _ _ _ => hattentive, ?_, ?_, ?_⟩
  · rintro (rfl : phase = .exited)
    cases hholds
  · have haccounts := h.accounts.marks h.kernel hk hmarks
    rw [holders_eq hphase] at haccounts
    rw [Daemon.holders, hholds]
    exact haccounts
  · rintro (rfl : phase = .starting)
    cases hholds
  · rintro ((rfl : phase = .starting) | (rfl : phase = .registered)) <;> cases hholds
  · change k.ikcdPid = -1 ∨ k.ikcdPid = s.self
    rw [hmarks.ikcd]
    exact h.registered

theorem Inv.main (h : s.Inv) {bestNode : CStr} (hstep : mainStep s bestNode = .ok s') : s'.Inv := by
  unfold mainStep at hstep
  cases hphase : s.phase with
  | starting =>
      simp only [hphase] at hstep
      obtain ⟨k, hreg, hcont⟩ := bind_eq_ok hstep
      cases hcont
      obtain ⟨t, -, hset⟩ := bind_eq_ok hreg
      cases hset
      refine ⟨h.kernel.registered s.self, h.tasked.of_tasks rfl, h.positive, nofun, ?_, ?_, nofun, ?_, .inr rfl⟩
      · have haccounts := h.accounts
        rw [holders_eq hphase] at haccounts
        exact ⟨haccounts.distinct, haccounts.held, haccounts.all⟩
      · intro t n d hs hstate
        have hfalse := h.attentive t n d hs hstate
        simp only [Attentive, hphase] at hfalse
      · exact fun _ => h.unmasked (.inl hphase)
  | registered =>
      simp only [hphase] at hstep
      cases hstep
      refine h.move rfl rfl (holders_eq hphase).symm nofun nofun nofun ?_
      intro hatt
      simp only [Attentive, hphase] at hatt
      exact hatt.imp_right fun hflag => ⟨hflag, h.unmasked (.inr hphase)⟩
  | suspended =>
      simp only [hphase] at hstep
      cases hstep
  | resumed =>
      simp only [hphase] at hstep
      cases hstep
      by_cases hflag : s.usr2Flag = true
      · rw [if_pos hflag]
        exact h.move rfl rfl (holders_eq hphase).symm nofun nofun nofun fun _ => trivial
      · rw [if_neg hflag]
        refine h.move rfl rfl (holders_eq hphase).symm nofun nofun nofun ?_
        intro hatt
        simp only [Attentive, hphase] at hatt
        exact .inl (hatt.resolve_right hflag)
  | flagged =>
      simp only [hphase] at hstep
      cases hstep
      exact h.move rfl rfl (holders_eq hphase).symm nofun nofun nofun fun _ => trivial
  | cleared =>
      simp only [hphase] at hstep
      cases hstep
      exact h.move rfl rfl (holders_eq hphase).symm nofun nofun nofun fun _ => trivial
  | fetching =>
      simp only [hphase] at hstep
      obtain ⟨⟨k, result⟩, hget, hcont⟩ := bind_eq_ok hstep
      cases result with
      | none =>
          cases hcont
          exact (h.fetched_none hphase hget).1
      | some found =>
          obtain ⟨pid, req⟩ := found
          have hkind := (h.kernel.getReq_marks hget).kind
          simp only at hcont
          split at hcont
          · next hmap =>
            cases hcont
            exact h.fetched_some hphase hget (by rw [hmap]; rfl)
          · next hmap =>
            rw [if_pos (hkind.resolve_left hmap)] at hcont
            cases hcont
            exact h.fetched_some hphase hget (by rw [hkind.resolve_left hmap]; rfl)
  | mapping oPid =>
      simp only [hphase] at hstep
      obtain ⟨⟨n, args⟩, hargs, hcont⟩ := bind_eq_ok hstep
      simp only at hcont
      split at hcont
      · next appName =>
        split at hcont
        · cases hcont
          exact h.move rfl rfl (holders_eq hphase).symm nofun nofun nofun fun _ => trivial
        · cases hcont
      · cases hcont
  | answering oPid appName =>
      simp only [hphase] at hstep
      obtain ⟨⟨k, n⟩, hput, hcont⟩ := bind_eq_ok hstep
      cases hcont
      have hanswered : n = 0 ∧ ({ s with kernel := k, phase := .fetching } : Daemon).Inv := by
        refine h.answered ?_ hput rfl rfl nofun (fun _ => trivial) nofun nofun
        rw [holders_eq hphase]
        exact .refl _
      exact hanswered.2
  | creating oPid =>
      simp only [hphase] at hstep
      obtain ⟨fetched, hfetch, hcont⟩ := bind_eq_ok hstep
      cases hcont
      have hasked : fetched.asked = (oPid, Dkmke.procCreatReq) := by
        have hmem : (oPid, Dkmke.procCreatReq) ∈ s.holders := by
          rw [holders_eq hphase]
          exact List.mem_append_left _ (List.mem_singleton_self _)
        obtain ⟨t, n, d, rfl, hs, -⟩ := h.accounts.held _ _ hmem
        obtain ⟨hmin, hmax⟩ := h.tasked.pids t hs.1
        rw [Fetched.asked, Fetched.oPid, fetchCreation_oPid hfetch, pidT_roundtrip hmin hmax]
      refine h.move rfl rfl ?_ nofun nofun nofun fun _ => trivial
      rw [holders_eq hphase, Daemon.holders, MainPhase.holds, MainPhase.holds, hasked]
  | queueing fetched =>
      simp only [hphase] at hstep
      cases hstep
      have hperm : ([fetched] ++ (s.pendingOut ++ Daemon.held s.worker)).Perm
          ((s.pendingOut ++ [fetched]) ++ Daemon.held s.worker) := by
        rw [← List.append_assoc]
        exact List.perm_append_comm.append_right _
      have haccounts := h.accounts
      rw [holders_eq hphase] at haccounts
      exact ⟨h.kernel, h.tasked, h.positive, nofun, haccounts.perm (hperm.map Fetched.asked),
        fun _ _ _ _ _ => trivial, nofun, nofun, h.registered⟩
  | exited =>
      simp only [hphase] at hstep
      cases hstep

theorem interrupted_holds (p : MainPhase) : p.interrupted.holds = p.holds := by
  cases p <;> rfl

theorem interrupted_eq {p q : MainPhase} (hq : q ≠ .resumed) (h : p.interrupted = q) : p = q := by
  cases p <;> first | exact h | exact absurd h.symm hq

/-- A signal handler ran, whatever it did to the registration. -/
theorem Inv.handled (h : s.Inv) {ikcdPid : Int} (hikcd : ikcdPid = -1 ∨ ikcdPid = s.kernel.ikcdPid)
    {flag pending : Bool}
    (hattentive : s.pending = true ∨ s.usr2Flag = true → pending = true ∨ flag = true) :
    ({ s with
      kernel := { s.kernel with ikcdPid := ikcdPid }
      usr2Flag := flag
      pending := pending
      phase := s.phase.interrupted } : Daemon).Inv where
  kernel := h.kernel.registered ikcdPid
  tasked := h.tasked.of_tasks rfl
  positive := h.positive
  running := fun hphase => h.running (interrupted_eq nofun hphase)
  accounts := by
    have haccounts := h.accounts
    rw [Daemon.holders, ← interrupted_holds] at haccounts
    exact ⟨haccounts.distinct, haccounts.held, haccounts.all⟩
  attentive := by
    intro t n d hs hstate
    have hatt := h.attentive t n d hs hstate
    cases hphase : s.phase <;> simp only [Attentive, MainPhase.interrupted, hphase] at hatt ⊢
    case registered => exact hattentive hatt
    case resumed => exact hattentive hatt
    case suspended => exact hattentive (hatt.imp_right And.left)
  started := by
    intro hphase
    rcases hikcd with hnone | hsame
    · exact hnone
    · exact hsame.trans (h.started (interrupted_eq nofun hphase))
  unmasked := by
    rintro (hphase | hphase)
    · exact h.unmasked (.inl (interrupted_eq nofun hphase))
    · exact h.unmasked (.inr (interrupted_eq nofun hphase))
  registered := by
    rcases hikcd with hnone | hsame
    · exact .inl hnone
    · exact hsame ▸ h.registered

theorem Inv.dequeue (h : s.Inv) {w : Fin 3} (hstep : daemonStep s (.dequeue w) = .ok s') : s'.Inv := by
  simp only [daemonStep] at hstep
  split at hstep
  · cases hstep
    exact h
  · next r rest hfree hqueue =>
    cases hstep
    have hput := held_put (s := { s with pendingOut := rest }) hfree r
    have hperm : s.holders.Perm (({ s with pendingOut := rest } : Daemon).put w (some r)).holders := by
      rw [Daemon.holders, hqueue]
      refine List.Perm.append_left _ (List.Perm.map _ ?_)
      refine List.Perm.trans ?_ (hput.symm.append_left rest)
      exact List.perm_middle.symm
    exact ⟨h.kernel, h.tasked, h.positive, h.running, h.accounts.perm hperm, h.attentive, h.started,
      h.unmasked, h.registered⟩
  · cases hstep

theorem Inv.respond (h : s.Inv) {w : Fin 3} {rPid : Int}
    (hstep : daemonStep s (.respond w rPid) = .ok s') : s'.Inv := by
  simp only [daemonStep] at hstep
  split at hstep
  · cases hstep
  · next r hr =>
    obtain ⟨⟨k, n⟩, hput, hcont⟩ := bind_eq_ok hstep
    cases hcont
    have hperm : s.holders.Perm (r.asked :: (({ s with kernel := k } : Daemon).put w none).holders) := by
      refine (List.Perm.append_left _ (List.Perm.map _ ((held_take hr).append_left _))).trans ?_
      refine (List.Perm.append_left _ (List.Perm.map _ List.perm_middle)).trans ?_
      exact List.perm_middle
    exact (h.answered hperm hput rfl rfl h.running id id h.unmasked).2

theorem Inv.task (h : s.Inv) {act : KAction} (hstep : daemonStep s (.task act) = .ok s') : s'.Inv := by
  simp only [daemonStep] at hstep
  split at hstep
  · next helse =>
    obtain ⟨k, hk, hcont⟩ := bind_eq_ok hstep
    cases hcont
    have hact : NoCommand act := by cases act <;> trivial
    have hadds := h.kernel.adds_step hact hk
    refine ⟨h.kernel.step hk, h.tasked.step h.kernel helse hk, h.positive, h.running,
      h.accounts.adds hadds, ?_, ?_, h.unmasked, ?_⟩
    · intro t n d hs hstate
      rcases hadds.new t n d hs with hold | ⟨-, hcalls, hpos⟩
      · have hatt := h.attentive t n d hold hstate
        have hpending : s.pending = true → (s.pending || s.signalled k) = true := fun hp => by rw [hp]; rfl
        cases hphase : s.phase <;> simp only [Attentive, hphase] at hatt ⊢
        case registered => exact hatt.imp_left hpending
        case resumed => exact hatt.imp_left hpending
        case suspended => exact hatt.imp_left hpending
      · have hself : s.kernel.ikcdPid = s.self := h.registered.resolve_left fun hnone => by omega
        have hsignal : (s.pending || s.signalled k) = true := by
          rw [Daemon.signalled, decide_eq_true ⟨hcalls, hself, h.tasked.find h.kernel⟩, Bool.or_true]
        cases hphase : s.phase <;> simp only [Attentive]
        case starting =>
          have hnone := h.started hphase
          omega
        case registered => exact .inl hsignal
        case resumed => exact .inl hsignal
        case suspended => exact .inl hsignal
    · intro hphase
      change k.ikcdPid = -1
      rw [hadds.ikcd]
      exact h.started hphase
    · change k.ikcdPid = -1 ∨ k.ikcdPid = s.self
      rw [hadds.ikcd]
      exact h.registered
  · cases hstep

/-- Every step of any party keeps the invariant. -/
theorem Inv.step (h : s.Inv) {act : DaemonAction} (hstep : daemonStep s act = .ok s') : s'.Inv := by
  cases act with
  | main bestNode => exact h.main hstep
  | sigusr2 =>
      simp only [daemonStep] at hstep
      split at hstep
      · cases hstep
        exact h.handled (.inr rfl) fun _ => .inr rfl
      · cases hstep
  | sigterm =>
      obtain ⟨k, hunreg, hcont⟩ := bind_eq_ok hstep
      cases hcont
      obtain ⟨t, -, hset⟩ := bind_eq_ok hunreg
      cases hset
      exact h.handled (.inl rfl) id
  | dequeue w => exact h.dequeue hstep
  | respond w rPid => exact h.respond hstep
  | task act => exact h.task hstep

end Daemon

/-! ## Runs of the daemon -/

/-- The daemon is about to register in a kernel in which nothing was asked yet. -/
structure Boot (k : Kernel) (ikcd : Int) : Prop where
  initial : Initial k
  tasked : Tasked k ikcd
  positive : 0 < ikcd
  unregistered : k.ikcdPid = -1

section Runs

variable {k : Kernel} {ikcd : Int} {hostname : CStr} {s : Daemon}

theorem Boot.inv (h : Boot k ikcd) (hostname : CStr) : (Daemon.start k ikcd hostname).Inv where
  kernel := h.initial.inv
  tasked := h.tasked
  positive := h.positive
  running := nofun
  accounts := by
    refine ⟨List.nodup_nil, fun _ _ hmem => absurd hmem List.not_mem_nil, ?_⟩
    intro t n d hs _
    exact absurd hs (h.initial.no_sleeper t n d)
  attentive := by
    intro t n d hs _
    exact absurd hs (h.initial.no_sleeper t n d)
  started := fun _ => h.unregistered
  unmasked := fun _ => rfl
  registered := .inl h.unregistered

theorem Boot.reached (h : Boot k ikcd) {as : List DaemonAction}
    (hrun : steps daemonStep as (.start k ikcd hostname) = .ok s) : s.Inv :=
  steps_invariant Daemon.Inv (fun _ _ _ hs _ hstep => hs.step hstep) as _ s (h.inv hostname)
    (along_true as _) hrun

/-- At any time a request that was fetched and not answered is with exactly one
holder: the main thread, the queue, or a worker; and every holder has the request
of a task that sleeps for it. The main thread never gives up. -/
theorem requests_accounted (k : Kernel) (ikcd : Int) (hostname : CStr) (hboot : Boot k ikcd)
    (as : List DaemonAction) (s : Daemon)
    (hrun : steps daemonStep as (.start k ikcd hostname) = .ok s) :
    s.phase ≠ .exited ∧ (s.holders.map Prod.fst).Nodup ∧
      ∀ pid req, (pid, req) ∈ s.holders ↔
        ∃ t n d, t.pid = pid ∧ Sleeper s.kernel t n d ∧ d.req = req ∧ d.reqState = .inGetReq := by
  have h := hboot.reached hrun
  refine ⟨h.running, h.accounts.distinct, ?_⟩
  intro pid req
  constructor
  · exact h.accounts.held pid req
  · rintro ⟨t, n, d, rfl, hs, rfl, hstate⟩
    exact h.accounts.all t n d hs hstate

/-- The answer of a worker is always taken: the task that made the request has the pid, and
with it leaves the call when it is woken; nothing else changes for any task, so that just this
one waits no more. -/
theorem worker_releases (k : Kernel) (ikcd : Int) (hostname : CStr) (hboot : Boot k ikcd)
    (as : List DaemonAction) (s : Daemon)
    (hrun : steps daemonStep as (.start k ikcd hostname) = .ok s) (w : Fin 3) (r : Fetched)
    (hr : s.worker w = some r) (rPid : Int) :
    ∃ t n d s', t.pid = r.oPid ∧ Sleeper s.kernel t n d ∧ d.req = Dkmke.procCreatReq ∧
      daemonStep s (.respond w rPid) = .ok s' ∧
      s'.kernel.dkms.load t.dkm =
        .ok { d with rPid := some rPid, pendingReq := false, reqState := .notInProgress } ∧
      (∃ s'', daemonStep s' (.task (.wake t.pid)) = .ok s'' ∧
        { t with phase := .user } ∈ s''.kernel.tasks ∧
        s''.kernel.dkms.load t.dkm = .ok { d with
          rPid := some rPid, pendingReq := false, reqState := .notInProgress, req := dkmNop }) ∧
      s'.kernel.tasks = s.kernel.tasks ∧
      (∀ u ∈ s.kernel.tasks, u.pid ≠ t.pid → s'.kernel.dkms.load u.dkm = s.kernel.dkms.load u.dkm) ∧
      (∀ u m e, Sleeper s'.kernel u m e ↔ Sleeper s.kernel u m e ∧ u.pid ≠ t.pid) := by
  have h := hboot.reached hrun
  have hmem : r.asked ∈ s.holders := by
    have hworker : r ∈ Daemon.held s.worker := List.mem_filterMap.mpr ⟨w, List.mem_finRange w, hr⟩
    exact List.mem_append_right _ (List.mem_map_of_mem (List.mem_append_right _ hworker))
  obtain ⟨t, n, d, hpid, hs, hreq, -⟩ := h.accounts.held _ _ hmem
  have hfind := findTaskByPid_mem h.kernel hs.1
  obtain ⟨k', hput, hbrings⟩ := h.kernel.putResp_brings hs hreq ⟨[], rPid⟩ hfind
  obtain ⟨-, hreleases⟩ := h.kernel.putResp_releases hs hfind (by rw [hreq]; exact hput)
  obtain ⟨k'', hwake, huser, hleft⟩ := h.kernel.brings_wakes hs hreq hbrings
  refine ⟨t, n, d, ({ s with kernel := k' } : Daemon).put w none, hpid, hs, hreq, ?_, hbrings.answer, ?_,
    hbrings.tasks, hbrings.others, ?_⟩
  · rw [hpid] at hput
    simp only [daemonStep, hr, hput, ok_bind]
  · have hfind' : k'.findTaskByPid t.pid = some t := by
      rw [Kernel.findTaskByPid, hbrings.tasks]
      exact hfind
    refine ⟨{ ({ s with kernel := k' } : Daemon).put w none with
      kernel := k'', pending := s.pending || (({ s with kernel := k' } : Daemon).put w none).signalled k'' },
      ?_, huser, hleft⟩
    simp only [daemonStep, Daemon.put, Elsewhere, if_true, kernelStep, hfind', hwake, ok_bind]
  · intro u m e
    change Sleeper k' u m e ↔ _
    by_cases hsame : u.pid = t.pid
    · exact iff_of_false (hreleases.gone u m e hsame) fun hu => hu.2 hsame
    · rw [hreleases.others u m e hsame, and_iff_left hsame]

end Runs

theorem boot_twoTasks : Boot twoTasks 10 where
  initial := initial_twoTasks
  tasked := by
    refine ⟨⟨_, .head _, rfl, rfl⟩, ?_⟩
    intro t ht
    simp only [twoTasks, List.mem_cons, List.not_mem_nil, or_false] at ht
    rcases ht with rfl | rfl <;> decide
  positive := by decide
  unregistered := rfl

def askedWhileSuspended : List DaemonAction := [.main [], .main [], .task (.exec 20 [] [])]

def creationDequeued : List DaemonAction :=
  askedWhileSuspended ++
    [.sigusr2, .main [], .main [], .main [], .main [], .main [], .main (lit ['b']), .task (.wake 20), .main [],
      .main [], .main [], .dequeue 1]

theorem requests_accounted_creation :
    ∃ s, steps daemonStep creationDequeued (.start twoTasks 10 []) = .ok s ∧
      (20, Dkmke.procCreatReq) ∈ s.holders ∧
      ∃ t n d, t.pid = 20 ∧ Sleeper s.kernel t n d ∧ d.req = Dkmke.procCreatReq ∧ d.reqState = .inGetReq := by
  obtain ⟨s, hrun, hmem⟩ : ∃ s, steps daemonStep creationDequeued (.start twoTasks 10 []) = .ok s ∧
      (20, Dkmke.procCreatReq) ∈ s.holders := ⟨_, rfl, .head _⟩
  have h := requests_accounted twoTasks 10 [] boot_twoTasks _ s hrun
  exact ⟨s, hrun, hmem, (h.2.2 20 Dkmke.procCreatReq).mp hmem⟩

/-- The worker answers 77. -/
theorem worker_releases_creation :
    ∃ s t n d s' s'', steps daemonStep creationDequeued (.start twoTasks 10 []) = .ok s ∧
      t.pid = 20 ∧ Sleeper s.kernel t n d ∧ daemonStep s (.respond 1 77) = .ok s' ∧
      ¬ Sleeper s'.kernel t n d ∧ daemonStep s' (.task (.wake 20)) = .ok s'' ∧
      { t with phase := .user } ∈ s''.kernel.tasks ∧
      ∃ e, s''.kernel.dkms.load t.dkm = .ok e ∧ e.rPid = some 77 := by
  obtain ⟨s, r, hrun, hr, hpid⟩ : ∃ s r,
      steps daemonStep creationDequeued (.start twoTasks 10 []) = .ok s ∧ s.worker 1 = some r ∧
      r.oPid = 20 := ⟨_, _, rfl, rfl, rfl⟩
  obtain ⟨t, n, d, s', ht, hs, -, hstep, -, ⟨s'', hwake, huser, hleft⟩, -, -, hreleased⟩ :=
    worker_releases twoTasks 10 [] boot_twoTasks _ s hrun 1 r hr 77
  have ht20 := ht.trans hpid
  rw [ht20] at hwake
  exact ⟨s, t, n, d, s', s'', hrun, ht20, hs, hstep, fun h => ((hreleased t n d).mp h).2 rfl, hwake, huser,
    _, hleft, rfl⟩

end Dkmp.Ikcd
