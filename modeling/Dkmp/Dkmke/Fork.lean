import Dkmp.Dkmke.Answered
import Mathlib.Data.Fintype.EquivFin

/-! # `do_fork` with its failure exits

The task structure of the child is a copy of the parent's, with the pointer to the
`dkm_struct` in it. The structure that `do_fork` allocates for the child is then
attached to `current`: the child goes on with the state of its parent, and the parent
with a fresh one.
-/

namespace Dkmp.Dkmke

open Machine

def ePerm : Int := 1
def eAgain : Int := 11
def eNoMem : Int := 12

/-- What one call of `do_fork` meets: its flag, the memory it asks for, the results of
the functions it calls, and the number `get_pid` finds. -/
structure ForkCall where
  clonePid : Bool
  taskStruct : Bool
  userLimit : Bool
  taskSlot : Bool
  pid : Int
  copyFiles : Int
  copyFs : Int
  copySighand : Int
  copyMm : Int
  copyThread : Int
  dkmStruct : Bool

/-- The ends of `do_fork`: a failure exit with its result, or a new task. -/
inductive Forked where
  | failed (retval : Int)
  | child (p : Task)
deriving DecidableEq, Repr

/-- The search of `get_pid` ends at a positive number that no task has. -/
def getPid (k : Kernel) (current : Task) (call : ForkCall) : Exec Int :=
  if call.clonePid then .ok current.pid
  else if 0 < call.pid ∧ k.findTaskByPid call.pid = none then .ok call.pid
  else .error .blocked

def attachDkm (k : Kernel) (current : Task) : Kernel :=
  { k with
    dkms := k.dkms.alloc freshDkm
    tasks := k.tasks.map fun t =>
      if t.pid = current.pid then { t with dkm := some k.dkms.next } else t }

/-- A missing `dkm_struct` is a panic. The idle threads, which share the pid 0 of the
boot thread, are not linked with the other tasks. -/
def doForkCall (k : Kernel) (current : Task) (call : ForkCall) : Exec (Kernel × Forked) :=
  if call.clonePid ∧ current.pid ≠ 0 then .ok (k, .failed (-ePerm))
  else if ¬ call.taskStruct then .ok (k, .failed (-eNoMem))
  else if call.userLimit ∨ ¬ call.taskSlot then .ok (k, .failed (-eAgain))
  else do
    let pid ← getPid k current call
    if call.copyFiles ≠ 0 ∨ call.copyFs ≠ 0 ∨ call.copySighand ≠ 0 ∨ call.copyMm ≠ 0 then
      .ok (k, .failed (-eNoMem))
    else if call.copyThread ≠ 0 then .ok (k, .failed call.copyThread)
    else if ¬ call.dkmStruct then .error .exited
    else if pid ≠ 0 then .ok (doFork k current pid, .child ⟨pid, current.dkm, .user⟩)
    else .ok (attachDkm k current, .child ⟨pid, current.dkm, .user⟩)

inductive FAction where
  | kernel (a : KAction)
  | fork (pid : Int) (call : ForkCall)

def forkStep (k : Kernel) : FAction → Exec Kernel
  | .kernel a => kernelStep k a
  | .fork pid call => do
      let t ← k.running pid
      let (k, _) ← doForkCall k t call
      .ok k

/-! ## The ends of a call -/

theorem getPid_cases {k : Kernel} {current : Task} {call : ForkCall} {pid : Int}
    (h : getPid k current call = .ok pid) :
    (call.clonePid = true ∧ pid = current.pid) ∨ (0 < pid ∧ k.findTaskByPid pid = none) := by
  unfold getPid at h
  split at h
  · next hclone => exact .inl ⟨hclone, (Except.ok.inj h).symm⟩
  · split at h
    · next hfree =>
      rw [← Except.ok.inj h]
      exact .inr hfree
    · cases h

/-- A call fails and leaves the kernel alone, or it has a new task: one with an unused
pid that is linked with the others, or one with pid 0 that is not. -/
theorem doForkCall_cases {k k' : Kernel} {current : Task} {call : ForkCall} {r : Forked}
    (h : doForkCall k current call = .ok (k', r)) :
    (∃ retval, r = .failed retval ∧ k' = k) ∨
      ∃ p : Task, r = .child p ∧ p.dkm = current.dkm ∧
        ((k.findTaskByPid p.pid = none ∧ p = ⟨p.pid, current.dkm, .user⟩ ∧
            k' = doFork k current p.pid) ∨
          k' = attachDkm k current) := by
  unfold doForkCall at h
  split at h
  · cases h
    exact .inl ⟨_, rfl, rfl⟩
  · next hperm =>
    split at h
    · cases h
      exact .inl ⟨_, rfl, rfl⟩
    · split at h
      · cases h
        exact .inl ⟨_, rfl, rfl⟩
      · obtain ⟨pid, hpid, hrest⟩ := bind_eq_ok h
        split at hrest
        · cases hrest
          exact .inl ⟨_, rfl, rfl⟩
        · split at hrest
          · cases hrest
            exact .inl ⟨_, rfl, rfl⟩
          · split at hrest
            · cases hrest
            · split at hrest
              · next hlinked =>
                cases hrest
                refine .inr ⟨_, rfl, rfl, .inl ⟨?_, rfl, rfl⟩⟩
                rcases getPid_cases hpid with ⟨hclone, hsame⟩ | ⟨-, hfree⟩
                · exact absurd ⟨hclone, hsame ▸ hlinked⟩ hperm
                · exact hfree
              · cases hrest
                exact .inr ⟨_, rfl, rfl, .inr rfl⟩

namespace KInv

variable {k k' : Kernel} {t u : Task}

theorem mem_attachDkm (h : KInv k) (ht : t ∈ k.tasks) (hu : u ∈ (attachDkm k t).tasks) :
    u = { t with dkm := some k.dkms.next } ∨ (u ∈ k.tasks ∧ u.pid ≠ t.pid) :=
  @mem_change k t u h ht (fun v => { v with dkm := some k.dkms.next }) hu

/-- Attaching a structure is a `fork` whose child is gone at once. -/
theorem attach (h : KInv k) (ht : t ∈ k.tasks) (hphase : t.phase = .user) :
    KInv (attachDkm k t) := by
  obtain ⟨child, hchild⟩ := Infinite.exists_notMem_finset (k.tasks.map Task.pid).toFinset
  rw [List.mem_toFinset] at hchild
  have hother : ∀ u ∈ k.tasks, u.pid ≠ child :=
    fun u hu hEq => hchild (hEq ▸ List.mem_map_of_mem hu)
  have hnew : k.findTaskByPid child = none := by
    apply List.find?_eq_none.mpr
    intro u hu
    simpa using hother u hu
  have hgone : (doFork k t child).tasks.filter (fun u => u.pid ≠ child) = (attachDkm k t).tasks := by
    have hlast : [Task.mk child t.dkm .user].filter (fun u => u.pid ≠ child) = [] := by simp
    have hkept : (attachDkm k t).tasks.filter (fun u => u.pid ≠ child) = (attachDkm k t).tasks := by
      apply List.filter_eq_self.mpr
      intro u hu
      rcases h.mem_attachDkm ht hu with rfl | ⟨hu, -⟩
      · simpa using hother t ht
      · simpa using hother u hu
    have hsplit : (doFork k t child).tasks =
        (attachDkm k t).tasks ++ [Task.mk child t.dkm .user] := rfl
    rw [hsplit, List.filter_append, hkept, hlast, List.append_nil]
  have hinv := (h.fork ht hphase hnew).exit fun u => u.pid ≠ child
  rw [hgone] at hinv
  exact hinv

theorem forkCall (h : KInv k) (ht : t ∈ k.tasks) (hphase : t.phase = .user) {call : ForkCall}
    {r : Forked} (hcall : doForkCall k t call = .ok (k', r)) : KInv k' := by
  rcases doForkCall_cases hcall with ⟨_, -, rfl⟩ | ⟨p, -, -, ⟨hfree, -, rfl⟩ | rfl⟩
  · exact h
  · exact h.fork ht hphase hfree
  · exact h.attach ht hphase

theorem of_forkRun {k₀ : Kernel} (hinit : Initial k₀) {as : List FAction}
    (hrun : steps forkStep as k₀ = .ok k) : KInv k := by
  refine steps_invariant KInv ?_ as k₀ k hinit.inv (along_true as k₀) hrun
  intro k a k' h _ hstep
  cases a with
  | kernel a => exact h.step hstep
  | fork pid call =>
      obtain ⟨t, hrunning, hcont⟩ := bind_eq_ok hstep
      obtain ⟨ht, -, hphase⟩ := mem_of_running hrunning
      obtain ⟨⟨k₁, r⟩, hcall, hk'⟩ := bind_eq_ok hcont
      rw [← Except.ok.inj hk']
      exact h.forkCall ht hphase hcall

end KInv

/-! ## Whose state is whose -/

/-- A structure as `do_fork` initialises it; `r_pid` is not assigned there. -/
structure Fresh (d : DkmStruct) : Prop where
  distributed : d.distributed = 0
  pendingReq : d.pendingReq = false
  reqState : d.reqState = .notInProgress
  req : d.req = dkmNop
  fileName : d.fileName = none
  oNode : d.oNode = none
  rNode : d.rNode = none

/-- What the parent keeps. -/
def DkmStruct.kept (d : DkmStruct) :
    Int × Int × Option Int × Option CStr × Option CStr × Option NodeBuf :=
  (d.distributed, d.req, d.rPid, d.fileName, d.oNode, d.rNode)

def Kernel.dkmOf (k : Kernel) (t : Task) : Option DkmStruct := t.dkm.bind k.dkms.cell

/-- The child has a fresh structure that no other task has, and that of the parent is
what it was. -/
structure OwnState (k k' : Kernel) (current child : Task) : Prop where
  child : ∃ a d, child.dkm = some a ∧ k'.dkms.cell a = some d ∧ Fresh d ∧
    ∀ t ∈ k'.tasks, t.dkm = some a → t = child
  parent : ∀ t ∈ k'.tasks, t.pid = current.pid →
    (k'.dkmOf t).map DkmStruct.kept = (k.dkmOf current).map DkmStruct.kept

theorem freshDkm_iff (d : DkmStruct) : d = freshDkm ↔ Fresh d ∧ d.kept = freshDkm.kept := by
  constructor
  · rintro rfl
    exact ⟨⟨rfl, rfl, rfl, rfl, rfl, rfl, rfl⟩, rfl⟩
  · rintro ⟨hfresh, hkept⟩
    have hpid : d.rPid = none := congrArg (fun x => x.2.2.1) hkept
    calc d = ⟨d.distributed, d.pendingReq, d.reqState, d.req, d.rPid, d.fileName, d.oNode, d.rNode⟩ := rfl
      _ = freshDkm := by
        rw [hfresh.distributed, hfresh.pendingReq, hfresh.reqState, hfresh.req, hpid, hfresh.fileName,
          hfresh.oNode, hfresh.rNode]
        rfl

/-- With the new structure at the parent and the old one at the child, each has what it
should have exactly when the two are the same. -/
theorem KInv.ownState_iff {k k' : Kernel} {t p : Task} (h : KInv k) (ht : t ∈ k.tasks)
    (hdkms : k'.dkms = k.dkms.alloc freshDkm) (hp : p.dkm = t.dkm)
    (hparent : { t with dkm := some k.dkms.next } ∈ k'.tasks)
    (hmem : ∀ u ∈ k'.tasks, u = { t with dkm := some k.dkms.next } ∨ (u = p ∧ p.pid ≠ t.pid) ∨
      (u ∈ k.tasks ∧ u.pid ≠ t.pid)) :
    OwnState k k' t p ↔ k.dkmOf t = some freshDkm := by
  have hnew : k'.dkmOf { t with dkm := some k.dkms.next } = some freshDkm := by
    rw [Kernel.dkmOf, hdkms]
    exact Heap.alloc_self _ _
  have hold : ∀ a d, t.dkm = some a → (k'.dkms.cell a = some d ↔ k.dkms.cell a = some d) := by
    intro a d ha
    have hlt := h.dkm_lt_next ht ha
    rw [hdkms, Heap.alloc_cell, if_neg (by omega)]
  constructor
  · rintro ⟨⟨a, d, ha, hd, hfresh, -⟩, hkept⟩
    rw [hp] at ha
    have hat : k.dkmOf t = some d := by
      rw [Kernel.dkmOf, ha]
      exact (hold a d ha).mp hd
    have hsame := hkept _ hparent rfl
    rw [hnew, hat, Option.map_some, Option.map_some, Option.some.injEq] at hsame
    rw [hat, (freshDkm_iff d).mpr ⟨hfresh, hsame.symm⟩]
  · intro hat
    obtain ⟨a, ha, hd⟩ := Option.bind_eq_some_iff.mp hat
    refine ⟨⟨a, freshDkm, hp.trans ha, (hold a _ ha).mpr hd, ((freshDkm_iff _).mp rfl).1, ?_⟩, ?_⟩
    · intro u hu hua
      rcases hmem u hu with rfl | ⟨rfl, -⟩ | ⟨hu, hne⟩
      · have hlt := h.dkm_lt_next ht ha
        have hanext : k.dkms.next = a := Option.some.inj hua
        omega
      · rfl
      · exact absurd (h.unshared u hu t ht a hua ha) hne
    · intro u hu hpid
      rcases hmem u hu with rfl | ⟨rfl, hne⟩ | ⟨hu, hne⟩
      · rw [hnew, hat]
      · exact absurd hpid hne
      · exact absurd hpid hne

/-- **Own state.** In every reachable task table a `do_fork` that fails changes nothing.
After one that succeeds the child has a fresh structure of its own and the parent the one
it had, exactly when the parent's was as good as new. -/
theorem fork_own_state_iff (k₀ : Kernel) (hinit : Initial k₀) (as : List FAction) (k : Kernel)
    (hrun : steps forkStep as k₀ = .ok k) (pid : Int) (current : Task)
    (hcurrent : k.running pid = .ok current) (call : ForkCall) :
    (∀ k' retval, doForkCall k current call = .ok (k', .failed retval) → k' = k) ∧
    ∀ k' child, doForkCall k current call = .ok (k', .child child) →
      (OwnState k k' current child ↔ k.dkmOf current = some freshDkm) := by
  have h := KInv.of_forkRun hinit hrun
  obtain ⟨ht, -, -⟩ := mem_of_running hcurrent
  have hparent : { current with dkm := some k.dkms.next } ∈ (attachDkm k current).tasks :=
    List.mem_map.mpr ⟨current, ht, if_pos rfl⟩
  refine ⟨?_, ?_⟩
  · intro k' retval hcall
    rcases doForkCall_cases hcall with ⟨_, -, rfl⟩ | ⟨p, hr, -⟩
    · rfl
    · cases hr
  · intro k' child hcall
    rcases doForkCall_cases hcall with ⟨_, hr, -⟩ | ⟨p, hr, hp, hcase⟩
    · cases hr
    · cases hr
      rcases hcase with ⟨hfree, hchild, rfl⟩ | rfl
      · have hne : child.pid ≠ current.pid := by
          have hother := List.find?_eq_none.mp hfree current ht
          simpa using Ne.symm (by simpa using hother)
        apply h.ownState_iff ht rfl hp (List.mem_append_left _ hparent)
        intro u hu
        rcases h.mem_doFork ht hu with rfl | rfl | hold
        · exact .inl rfl
        · exact .inr (.inl ⟨hchild.symm, hne⟩)
        · exact .inr (.inr hold)
      · apply h.ownState_iff ht rfl hp hparent
        intro u hu
        rcases h.mem_attachDkm ht hu with rfl | hold
        · exact .inl rfl
        · exact .inr (.inr hold)

def plainCall : ForkCall where
  clonePid := false
  taskStruct := true
  userLimit := false
  taskSlot := true
  pid := 30
  copyFiles := 0
  copyFs := 0
  copySighand := 0
  copyMm := 0
  copyThread := 0
  dkmStruct := true

/-- A task forks, and then its child. -/
theorem fork_own_state_iff_again :
    ∃ k current k' child, steps forkStep [.fork 20 plainCall] twoTasks = .ok k ∧ k.running 30 = .ok current ∧
      doForkCall k current { plainCall with pid := 40 } = .ok (k', .child child) ∧
      child.pid = 40 ∧ OwnState k k' current child :=
  ⟨_, _, _, _, rfl, rfl, rfl, rfl, ((fork_own_state_iff twoTasks initial_twoTasks [.fork 20 plainCall] _ rfl 30 _ rfl
    { plainCall with pid := 40 }).2 _ _ rfl).mpr rfl⟩

/-- A task forks after its `execve`: the child is distributed as the parent was. -/
theorem fork_after_execve :
    ¬ ∀ (k₀ : Kernel), Initial k₀ → ∀ (as : List FAction) (k : Kernel),
      steps forkStep as k₀ = .ok k → ∀ pid current, k.running pid = .ok current →
      ∀ call k' child, doForkCall k current call = .ok (k', .child child) →
        OwnState k k' current child := by
  intro hall
  obtain ⟨k, current, k', child, hrun, hcurrent, hcall, hstate⟩ : ∃ k current k' child,
      steps forkStep (answeredExec.map .kernel) twoTasks = .ok k ∧ k.running 20 = .ok current ∧
      doForkCall k current plainCall = .ok (k', .child child) ∧
      (k'.dkmOf child).map DkmStruct.distributed = some 1 :=
    ⟨_, _, _, _, rfl, rfl, rfl, rfl⟩
  obtain ⟨⟨a, d, ha, hd, hfresh, -⟩, -⟩ :=
    hall twoTasks initial_twoTasks _ k hrun 20 current hcurrent plainCall k' child hcall
  rw [Kernel.dkmOf, ha, Option.bind_some, hd, Option.map_some, Option.some.injEq,
    hfresh.distributed] at hstate
  cases hstate

end Dkmp.Dkmke
