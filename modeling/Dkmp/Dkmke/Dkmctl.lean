import Dkmp.Dkmke.Fork

/-! # `dkmctl` with arbitrary arguments

Any task may issue the system call, with any number and any pid. The commands look the task
up and go through its `dkm` pointer, which is NULL in a task whose parent had none when it
was forked.
-/

namespace Dkmp.Dkmke

open Machine

/-! ## The system call -/

def dkmIkcdReg : Int := 2
def dkmIkcdUnreg : Int := 3

/-- The numbers of `DKM_GET_REQ`, `DKM_GET_ARGS`, `DKM_PUT_RESP` and `DKM_DO_REQ`. -/
def getReqCmd : Int := 10
def getArgsCmd : Int := 11
def putRespCmd : Int := 12
def doReqCmd : Int := 13

/-- `sys_dkmctl`: the value that `do_dkmctl` returns, or none when the caller goes to sleep. -/
def sysDkmctl (k : Kernel) (current : Task) (cmd pid req : Int) (arg : RespArg) :
    Exec (Kernel × Option Int) :=
  if cmd = dkmIkcdReg then .ok ({ k with ikcdPid := pid }, some 0)
  else if cmd = dkmIkcdUnreg then .ok ({ k with ikcdPid := -1 }, some 0)
  else if cmd = getReqCmd then do
    let (k, found) ← dkmGetReq k current.pid
    .ok (k, some (if found.isSome then 0 else 1))
  else if cmd = getArgsCmd then do
    let (ret, _) ← dkmGetArgs k pid req
    .ok (k, some ret)
  else if cmd = putRespCmd then do
    let (k, ret) ← dkmPutResp k pid req arg
    .ok (k, some ret)
  else if cmd = doReqCmd then do
    match ← dkmDoReq k current with
    | (k, .sleeps serial) => .ok (k.setPhase current.pid (.asleep .direct serial), none)
    | (k, .returned ret _) => .ok (k, some ret)
  else .ok (k, some 0)

def Cmd.number : Cmd → Int
  | .ikcdReg _ => dkmIkcdReg
  | .ikcdUnreg => dkmIkcdUnreg
  | .getReq => getReqCmd
  | .getArgs _ _ => getArgsCmd
  | .putResp _ _ _ => putRespCmd
  | .doReq => doReqCmd

def Cmd.pid : Cmd → Int
  | .ikcdReg pid | .getArgs pid _ | .putResp pid _ _ => pid
  | .ikcdUnreg | .getReq | .doReq => 0

def Cmd.req : Cmd → Int
  | .getArgs _ req | .putResp _ req _ => req
  | .ikcdReg _ | .ikcdUnreg | .getReq | .doReq => 0

def Cmd.arg : Cmd → RespArg
  | .putResp _ _ arg => arg
  | .ikcdReg _ | .ikcdUnreg | .getReq | .getArgs _ _ | .doReq => ⟨[], 0⟩

theorem sysDkmctl_doDkmctl (k : Kernel) (current : Task) (cmd : Cmd) :
    (sysDkmctl k current cmd.number cmd.pid cmd.req cmd.arg).map Prod.fst = doDkmctl k current cmd := by
  cases cmd with
  | ikcdReg pid => rfl
  | ikcdUnreg => rfl
  | getReq =>
      show Except.map _ (dkmGetReq k current.pid >>= _) = _
      rw [doDkmctl]
      cases dkmGetReq k current.pid <;> rfl
  | getArgs pid req =>
      show Except.map _ (dkmGetArgs k pid req >>= _) = _
      rw [doDkmctl]
      cases dkmGetArgs k pid req <;> rfl
  | putResp pid req arg =>
      show Except.map _ (dkmPutResp k pid req arg >>= _) = _
      rw [doDkmctl]
      cases dkmPutResp k pid req arg <;> rfl
  | doReq =>
      show Except.map _ (dkmDoReq k current >>= _) = _
      rw [doDkmctl]
      cases dkmDoReq k current with
      | error f => rfl
      | ok r =>
          obtain ⟨k', result⟩ := r
          cases result <;> rfl

/-! ## Arbitrary arguments -/

def NoDkm (k : Kernel) (pid : Int) : Prop :=
  ∀ t, k.findTaskByPid pid = some t → t.dkm = none

def Refused (k : Kernel) (current : Task) (cmd pid req : Int) (arg : RespArg) : Prop :=
  ∃ k', sysDkmctl k current cmd pid req arg = .ok (k', some (-1))

/-- A call that has no structure to go to is refused, and a call that is refused changes the
structure of no task. -/
structure Survives (k : Kernel) (current : Task) (cmd pid req : Int) (arg : RespArg) : Prop where
  getArgs : cmd = getArgsCmd → NoDkm k pid → Refused k current cmd pid req arg
  putResp : cmd = putRespCmd → NoDkm k pid → Refused k current cmd pid req arg
  doReq : cmd = doReqCmd → current.dkm = none → Refused k current cmd pid req arg
  unchanged : ∀ k', sysDkmctl k current cmd pid req arg = .ok (k', some (-1)) →
    k'.tasks = k.tasks ∧ k'.dkms = k.dkms

structure Guarded (k : Kernel) (current : Task) (cmd pid : Int) : Prop where
  getArgs : cmd = getArgsCmd → ∃ t, k.findTaskByPid pid = some t ∧ t.dkm ≠ none
  putResp : cmd = putRespCmd → ∀ t, k.findTaskByPid pid = some t → t.dkm ≠ none
  doReq : cmd = doReqCmd → current.pid = k.ikcdPid ∨ current.dkm ≠ none

variable {k : Kernel} {current : Task} {pid req : Int} {arg : RespArg}

/-- `DKM_GET_ARGS` looks at the task before it knows that there is one. -/
theorem dkmGetArgs_null (h : NoDkm k pid) : dkmGetArgs k pid req = .error .null := by
  unfold dkmGetArgs
  cases htask : k.findTaskByPid pid with
  | none => rfl
  | some t => simp only [h t htask, Heap.load_none, error_bind]

/-- `DKM_PUT_RESP` knows that there is a task, and not that it has a structure. -/
theorem dkmPutResp_null {t : Task} (htask : k.findTaskByPid pid = some t) (hdkm : t.dkm = none) :
    dkmPutResp k pid req arg = .error .null := by
  simp only [dkmPutResp, htask, hdkm, Heap.load_none, error_bind]

theorem dkmDoReq_null (hother : current.pid ≠ k.ikcdPid) (hdkm : current.dkm = none) :
    dkmDoReq k current = .error .null := by
  simp only [dkmDoReq, if_neg hother, hdkm, Heap.load_none, error_bind]

theorem dkmPutResp_refused {k' : Kernel} (h : dkmPutResp k pid req arg = .ok (k', -1)) : k' = k := by
  unfold dkmPutResp at h
  cases htask : k.findTaskByPid pid with
  | none =>
      rw [htask] at h
      exact (Prod.mk.inj (Except.ok.inj h)).1.symm
  | some t =>
      rw [htask] at h
      obtain ⟨d, -, h⟩ := bind_eq_ok h
      split at h
      · exact (Prod.mk.inj (Except.ok.inj h)).1.symm
      split at h
      · split at h
        · cases h
        · split at h
          · obtain ⟨k₁, -, h⟩ := bind_eq_ok h
            cases (Prod.mk.inj (Except.ok.inj h)).2
          · cases h
      split at h
      · obtain ⟨k₁, -, h⟩ := bind_eq_ok h
        cases (Prod.mk.inj (Except.ok.inj h)).2
      · exact (Prod.mk.inj (Except.ok.inj h)).1.symm

theorem dkmDoReq_refused {k' : Kernel} {serial : Option Nat}
    (h : dkmDoReq k current = .ok (k', .returned (-1) serial)) : k' = k := by
  unfold dkmDoReq at h
  split at h
  · exact (Prod.mk.inj (Except.ok.inj h)).1.symm
  obtain ⟨d, -, h⟩ := bind_eq_ok h
  split at h
  · exact (Prod.mk.inj (Except.ok.inj h)).1.symm
  split at h
  · obtain ⟨k₁, -, h⟩ := bind_eq_ok h
    dsimp only at h
    split at h
    · cases (Prod.mk.inj (Except.ok.inj h)).2
    · cases (Prod.mk.inj (Except.ok.inj h)).2
  · exact (Prod.mk.inj (Except.ok.inj h)).1.symm

/-- A call that returns -1 leaves the kernel as it is. -/
theorem sysDkmctl_refused {cmd : Int} {k' : Kernel}
    (h : sysDkmctl k current cmd pid req arg = .ok (k', some (-1))) : k' = k := by
  unfold sysDkmctl at h
  split at h
  · cases (Prod.mk.inj (Except.ok.inj h)).2
  split at h
  · cases (Prod.mk.inj (Except.ok.inj h)).2
  split at h
  · obtain ⟨⟨k₁, found⟩, -, h⟩ := bind_eq_ok h
    have hret := Option.some.inj (Prod.mk.inj (Except.ok.inj h)).2
    split at hret <;> cases hret
  split at h
  · obtain ⟨_, -, h⟩ := bind_eq_ok h
    exact (Prod.mk.inj (Except.ok.inj h)).1.symm
  split at h
  · obtain ⟨⟨k₁, ret⟩, hput, h⟩ := bind_eq_ok h
    obtain ⟨rfl, hret⟩ := Prod.mk.inj (Except.ok.inj h)
    rw [Option.some.inj hret] at hput
    exact dkmPutResp_refused hput
  split at h
  · obtain ⟨⟨k₁, result⟩, hdo, h⟩ := bind_eq_ok h
    cases result with
    | sleeps serial => cases (Prod.mk.inj (Except.ok.inj h)).2
    | returned ret serial =>
        obtain ⟨rfl, hret⟩ := Prod.mk.inj (Except.ok.inj h)
        rw [Option.some.inj hret] at hdo
        exact dkmDoReq_refused hdo
  · cases (Prod.mk.inj (Except.ok.inj h)).2

theorem sysDkmctl_getArgs :
    sysDkmctl k current getArgsCmd pid req arg = (do
      let (ret, _) ← dkmGetArgs k pid req
      .ok (k, some ret)) := rfl

theorem sysDkmctl_putResp :
    sysDkmctl k current putRespCmd pid req arg = (do
      let (k, ret) ← dkmPutResp k pid req arg
      .ok (k, some ret)) := rfl

theorem sysDkmctl_doReq :
    sysDkmctl k current doReqCmd pid req arg = (do
      match ← dkmDoReq k current with
      | (k, .sleeps serial) => .ok (k.setPhase current.pid (.asleep .direct serial), none)
      | (k, .returned ret _) => .ok (k, some ret)) := rfl

theorem Survives.guarded {cmd : Int} (h : Survives k current cmd pid req arg) :
    Guarded k current cmd pid where
  getArgs := by
    rintro rfl
    by_contra hnone
    have hno : NoDkm k pid := fun t ht => by_contra fun hdkm => hnone ⟨t, ht, hdkm⟩
    obtain ⟨k', hret⟩ := h.getArgs rfl hno
    rw [sysDkmctl_getArgs, dkmGetArgs_null hno] at hret
    cases hret
  putResp := by
    rintro rfl t ht hdkm
    have hno : NoDkm k pid := by
      intro u hu
      rw [ht, Option.some.injEq] at hu
      rw [← hu, hdkm]
    obtain ⟨k', hret⟩ := h.putResp rfl hno
    rw [sysDkmctl_putResp, dkmPutResp_null ht hdkm] at hret
    cases hret
  doReq := by
    rintro rfl
    by_contra hcond
    obtain ⟨hother, hdkm⟩ := not_or.mp hcond
    rw [not_not] at hdkm
    obtain ⟨k', hret⟩ := h.doReq rfl hdkm
    rw [sysDkmctl_doReq, dkmDoReq_null hother hdkm] at hret
    cases hret

theorem Guarded.survives {cmd : Int} (h : Guarded k current cmd pid) :
    Survives k current cmd pid req arg where
  getArgs := by
    intro hcmd hno
    obtain ⟨t, ht, hdkm⟩ := h.getArgs hcmd
    exact absurd (hno t ht) hdkm
  putResp := by
    rintro rfl hno
    have hnone : k.findTaskByPid pid = none := by
      by_contra hsome
      obtain ⟨t, ht⟩ := Option.ne_none_iff_exists'.mp hsome
      exact h.putResp rfl t ht (hno t ht)
    refine ⟨k, ?_⟩
    rw [sysDkmctl_putResp, dkmPutResp, hnone]
    rfl
  doReq := by
    rintro rfl hdkm
    have hikcd := (h.doReq rfl).resolve_right fun hne => hne hdkm
    refine ⟨k, ?_⟩
    rw [sysDkmctl_doReq, dkmDoReq, if_pos hikcd]
    rfl
  unchanged := by
    intro k' hret
    rw [sysDkmctl_refused hret]
    exact ⟨rfl, rfl⟩

/-- **Arbitrary arguments.** In every task table a call by any task with any command, pid and
request survives exactly if its command is kept away from a NULL pointer: `DKM_GET_ARGS` by
the structure of the task it names, `DKM_PUT_RESP` by that or by the lack of a task,
`DKM_DO_REQ` by the caller's structure or by its being the daemon. -/
theorem dkmctl_survives_iff (k : Kernel) (current : Task) (cmd pid req : Int) (arg : RespArg) :
    Survives k current cmd pid req arg ↔ Guarded k current cmd pid :=
  ⟨Survives.guarded, Guarded.survives⟩

/-- A child of a task with a structure has one, and all three commands survive for it. -/
theorem dkmctl_survives_iff_child :
    ∃ k child, steps forkStep [.fork 20 plainCall] twoTasks = .ok k ∧ k.running 30 = .ok child ∧
      Survives k child getArgsCmd 30 mapReq ⟨[], 0⟩ ∧ Survives k child putRespCmd 30 mapReq ⟨[], 0⟩ ∧
      Survives k child doReqCmd 30 0 ⟨[], 0⟩ := by
  obtain ⟨k, hrun, hrunning, hfind⟩ : ∃ k, steps forkStep [.fork 20 plainCall] twoTasks = .ok k ∧
      k.running 30 = .ok ⟨30, some 1, .user⟩ ∧ k.findTaskByPid 30 = some ⟨30, some 1, .user⟩ := ⟨_, rfl, rfl, rfl⟩
  have hguarded : ∀ cmd, Guarded k ⟨30, some 1, .user⟩ cmd 30 := fun cmd =>
    { getArgs := fun _ => ⟨_, hfind, Option.some_ne_none _⟩
      putResp := by
        intro _ t ht
        cases hfind.symm.trans ht
        exact Option.some_ne_none _
      doReq := fun _ => .inr (Option.some_ne_none _) }
  exact ⟨k, _, hrun, hrunning, (dkmctl_survives_iff k _ _ _ _ _).mpr (hguarded _),
    (dkmctl_survives_iff k _ _ _ _ _).mpr (hguarded _), (dkmctl_survives_iff k _ _ _ _ _).mpr (hguarded _)⟩

def bootTask : Kernel where
  tasks := [⟨1, none, .user⟩]
  dkms := .empty
  ikcdPid := -1
  nodename := []
  calls := 0
  delivered := []
  answered := []
  returns := []
  compared := []

theorem initial_bootTask : Initial bootTask where
  pids := by decide
  unshared := by
    intro t ht u hu a hta hua
    rw [List.mem_singleton.mp ht] at hta
    cases hta
  idle := by
    intro t ht
    rw [List.mem_singleton.mp ht]
    exact ⟨rfl, fun a ha => by cases ha⟩
  calls := rfl
  delivered := rfl
  answered := rfl
  returns := rfl
  compared := rfl

/-- The first child of a task without a structure has none either. All three commands run
into a NULL pointer: for a pid without a task, for the child's, and in a call by the child. -/
theorem null_dkm_dereferenced :
    Initial bootTask ∧ ∃ k child, steps forkStep [.fork 1 plainCall] bootTask = .ok k ∧
      k.running 30 = .ok child ∧
      sysDkmctl k child getArgsCmd 99 mapReq ⟨[], 0⟩ = .error .null ∧
      ¬ Survives k child getArgsCmd 99 mapReq ⟨[], 0⟩ ∧
      ¬ Survives k child putRespCmd 30 mapReq ⟨[], 0⟩ ∧
      ¬ Survives k child doReqCmd 0 0 ⟨[], 0⟩ := by
  refine ⟨initial_bootTask, _, ⟨30, none, .user⟩, rfl, rfl, rfl, fun h => ?_, fun h => ?_, fun h => ?_⟩
  · obtain ⟨t, ht, -⟩ := h.guarded.getArgs rfl
    cases ht
  · exact h.guarded.putResp rfl ⟨30, none, .user⟩ rfl rfl
  · rcases h.guarded.doReq rfl with hikcd | hdkm
    · cases hikcd
    · exact hdkm rfl

end Dkmp.Dkmke
