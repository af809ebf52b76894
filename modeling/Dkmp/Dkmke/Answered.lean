import Dkmp.Dkmke.Handshake

/-! # Requests that return successfully

`DKM_DO_REQ` sets its flags before it looks for the task of the daemon. When that
task is gone the call returns 0 with the flags set and nothing answered. As long
as the registered daemon exists whenever a request is made, a call that returns
successfully was answered.
-/

namespace Dkmp.Dkmke

open Machine

def IkcdThere (k : Kernel) : Prop :=
  0 < k.ikcdPid → (k.findTaskByPid k.ikcdPid).isSome = true

/-- A request is made only while the registered daemon exists: by an `execve`, or
by a task that goes on after the answer to its first request named another node. -/
def AskedInPresence (k : Kernel) : KAction → Prop
  | .exec _ _ _ => IkcdThere k
  | .wake pid => ∀ t serial d r o, k.findTaskByPid pid = some t → t.phase = .asleep .map serial →
      k.dkms.load t.dkm = .ok d → d.pendingReq = false → d.rNode = some r → d.oNode = some o →
      r.text ≠ o → IkcdThere k
  | _ => True

theorem hearing_of_there {k : Kernel} (h : IkcdThere k) (pid : Int) : hearing k pid ≠ .unheard := by
  unfold hearing
  split
  · decide
  · next hnot =>
    rw [if_pos (h (by omega))]
    decide

/-- A successful return was answered, with the flags taken back, and the nodes
were compared only when the daemon wrote one. -/
structure AnsweredReturns (k : Kernel) : Prop where
  returns : ∀ x ∈ k.returns, 0 ≤ x.ret → ∃ serial, x.serial = some serial ∧
    serial ∈ k.answered ∧ x.pendingReq = false ∧ x.reqState = .notInProgress
  compared : ∀ c ∈ k.compared, c = true

theorem Initial.answeredReturns {k : Kernel} (h : Initial k) : AnsweredReturns k where
  returns := by
    rw [h.returns]
    intro x hx
    cases hx
  compared := by
    rw [h.compared]
    intro c hc
    cases hc

namespace AnsweredReturns

variable {k k' : Kernel} {t : Task}

theorem keep (h : AnsweredReturns k) (hreturns : k'.returns = k.returns)
    (hcompared : k'.compared = k.compared) (hanswered : ∀ n ∈ k.answered, n ∈ k'.answered) :
    AnsweredReturns k' where
  returns := by
    rw [hreturns]
    intro x hx hret
    obtain ⟨serial, hserial, hmem, hflags⟩ := h.returns x hx hret
    exact ⟨serial, hserial, hanswered serial hmem, hflags⟩
  compared := by
    rw [hcompared]
    exact h.compared

theorem after (h : AnsweredReturns k) {pid : Int} {a : Nat} {d : DkmStruct} {phase : Phase}
    {calls : Nat} {returns : List Returned} {compared : List Bool}
    (hreturns : ∀ x ∈ returns, 0 ≤ x.ret → ∃ serial, x.serial = some serial ∧
      serial ∈ k.answered ∧ x.pendingReq = false ∧ x.reqState = .notInProgress)
    (hcompared : ∀ c ∈ compared, c = true) :
    AnsweredReturns (k.after pid a d phase calls returns compared) where
  returns := by
    intro x hx
    rcases List.mem_append.mp hx with hx | hx
    · exact hreturns x hx
    · exact h.returns x hx
  compared := by
    intro c hc
    rcases List.mem_append.mp hc with hc | hc
    · exact hcompared c hc
    · exact h.compared c hc

theorem execve (h : AnsweredReturns k) (hinv : KInv k) (ht : t ∈ k.tasks)
    (hphase : t.phase = .user) {filename garbage : CStr} (hthere : IkcdThere k)
    (hrun : dkmExecve k t filename garbage = .ok k') : AnsweredReturns k' := by
  rcases hinv.execve_cases ht hphase hrun with
    rfl | ⟨a, d, -, -, ⟨d', rfl, -⟩ | ⟨d', phase, calls, returns, compared, rfl, -, hheard⟩⟩
  · exact h
  · exact h.keep rfl rfl fun _ hn => hn
  · obtain ⟨rfl, hrefused⟩ := hheard (hearing_of_there hthere t.pid)
    apply h.after
    · intro x hx hret
      have hneg := hrefused x hx
      omega
    · intro c hc
      cases hc

theorem woken (h : AnsweredReturns k) (hinv : KInv k) {pid : Int}
    (hfind : k.findTaskByPid pid = some t) (hpresent : AskedInPresence k (.wake pid))
    (hrun : wake k t = .ok k') : AnsweredReturns k' := by
  obtain ⟨ht, -⟩ := mem_of_findTaskByPid hfind
  obtain ⟨site, serial, a, d, hphase, hp, hd, hwait, hcases⟩ := hinv.wake_cases ht hrun
  rcases hcases with
    ⟨-, rfl⟩ | ⟨hpending, d', phase, calls, returns, compared, rfl, -, hrefused, hcompared⟩
  · exact h
  · obtain ⟨hstate, hanswered, hmap⟩ := hwait.closed hpending
    have hload : k.dkms.load t.dkm = .ok d := by
      rw [hp]
      exact Heap.load_some hd
    have hneg := hrefused (by
      rintro rfl r o hr ho hne
      exact hearing_of_there (hpresent t serial d r o hfind hphase hload hpending hr ho hne) t.pid)
    apply h.after
    · intro x hx hret
      rcases List.mem_append.mp hx with hx | hx
      · have hlt := hneg x hx
        omega
      · rw [List.mem_singleton.mp hx]
        exact ⟨serial, rfl, hanswered, rfl, hstate⟩
    · intro c hc
      obtain ⟨hsite, r, hr, rfl⟩ := hcompared c hc
      obtain ⟨r', hr', htrue⟩ := hmap hsite
      rw [hr, Option.some.injEq] at hr'
      rw [hr', htrue]

theorem dkmctl (h : AnsweredReturns k) (hinv : KInv k) (ht : t ∈ k.tasks) (hphase : t.phase = .user)
    {cmd : Cmd} (hrun : doDkmctl k t cmd = .ok k') : AnsweredReturns k' := by
  cases cmd with
  | ikcdReg pid | ikcdUnreg =>
      rw [← Except.ok.inj hrun]
      exact h.keep rfl rfl fun _ hn => hn
  | getReq =>
      obtain ⟨⟨k₁, result⟩, hget, hk'⟩ := bind_eq_ok hrun
      rw [← Except.ok.inj hk']
      rcases hinv.getReq_cases hget with
        ⟨-, rfl, -⟩ | ⟨_, _, _, _, _, _, _, _, _, _, _, _, _, rfl⟩
      · exact h
      · exact h.keep rfl rfl fun _ hn => hn
  | getArgs pid req =>
      obtain ⟨-, -, hk'⟩ := bind_eq_ok hrun
      rw [← Except.ok.inj hk']
      exact h
  | putResp pid req arg =>
      obtain ⟨⟨k₁, n⟩, hput, hk'⟩ := bind_eq_ok hrun
      rw [← Except.ok.inj hk']
      rcases hinv.putResp_cases hput with
        rfl | ⟨_, _, _, _, _, _, _, _, _, _, _, _, _, _, rfl⟩
      · exact h
      · exact h.keep rfl rfl fun _ hn => List.mem_cons_of_mem _ hn
  | doReq =>
      obtain ⟨result, hdo, hk'⟩ := bind_eq_ok hrun
      rw [hinv.doReq_refused ht hphase hdo] at hk'
      rw [← Except.ok.inj hk']
      exact h

theorem step (h : AnsweredReturns k) (hinv : KInv k) {a : KAction} (hpresent : AskedInPresence k a)
    (hstep : kernelStep k a = .ok k') : AnsweredReturns k' := by
  cases a with
  | fork pid child =>
      obtain ⟨t, -, hcont⟩ := bind_eq_ok hstep
      split at hcont
      · cases hcont
      · rw [← Except.ok.inj hcont]
        exact h.keep rfl rfl fun _ hn => hn
  | exec pid filename garbage =>
      obtain ⟨t, hrunning, hcont⟩ := bind_eq_ok hstep
      obtain ⟨ht, -, hphase⟩ := mem_of_running hrunning
      exact h.execve hinv ht hphase hpresent hcont
  | wake pid =>
      simp only [kernelStep] at hstep
      split at hstep
      · next t hfind => exact h.woken hinv hfind hpresent hstep
      · cases hstep
  | exit pid =>
      obtain ⟨t, -, hcont⟩ := bind_eq_ok hstep
      rw [← Except.ok.inj hcont]
      exact h.keep rfl rfl fun _ hn => hn
  | ctl caller cmd =>
      obtain ⟨t, hrunning, hcont⟩ := bind_eq_ok hstep
      obtain ⟨ht, -, hphase⟩ := mem_of_running hrunning
      exact h.dkmctl hinv ht hphase hcont

end AnsweredReturns

/-- **Answered requests.** In every run in which requests are made only while the
registered daemon exists, a `DKM_DO_REQ` that returned 0 or more was answered by a
`DKM_PUT_RESP` during the call and left the flags taken back, and the nodes were
compared only when the daemon wrote `r_node`. -/
theorem successful_return_answered (k₀ : Kernel) (hinit : Initial k₀) (as : List KAction) (k : Kernel)
    (hrun : steps kernelStep as k₀ = .ok k) (hpresent : Along kernelStep AskedInPresence as k₀) :
    (∀ x ∈ k.returns, 0 ≤ x.ret → ∃ serial, x.serial = some serial ∧ serial ∈ k.answered ∧
      x.pendingReq = false ∧ x.reqState = .notInProgress) ∧
    ∀ c ∈ k.compared, c = true := by
  have hinv : KInv k ∧ AnsweredReturns k :=
    steps_invariant (fun k => KInv k ∧ AnsweredReturns k)
      (fun _ _ _ h hP hstep => ⟨h.1.step hstep, h.2.step h.1 hP hstep⟩) as k₀ k
      ⟨hinit.inv, hinit.answeredReturns⟩ hpresent hrun
  exact ⟨hinv.2.returns, hinv.2.compared⟩

def answeredExec : List KAction :=
  [.ctl 10 (.ikcdReg 10), .exec 20 [] [], .ctl 10 .getReq, .ctl 10 (.putResp 20 1 ⟨[], 0⟩), .wake 20]

theorem present_answeredExec : Along kernelStep AskedInPresence answeredExec twoTasks := by
  refine .cons trivial rfl (.cons ?_ rfl (.cons trivial rfl (.cons trivial rfl (.cons ?_ rfl trivial))))
  · intro _
    rfl
  · intro t serial d r o _ _ _ _ _ _ _ _
    rfl

theorem successful_return_answered_exec :
    ∃ k, steps kernelStep answeredExec twoTasks = .ok k ∧
      k.returns = [⟨20, 1, 0, some 0, false, .notInProgress⟩] ∧
      (∀ x ∈ k.returns, 0 ≤ x.ret → ∃ serial, x.serial = some serial ∧ serial ∈ k.answered ∧
        x.pendingReq = false ∧ x.reqState = .notInProgress) ∧
      ∀ c ∈ k.compared, c = true := by
  obtain ⟨k, hrun, hreturns⟩ : ∃ k, steps kernelStep answeredExec twoTasks = .ok k ∧
      k.returns = [⟨20, 1, 0, some 0, false, .notInProgress⟩] := ⟨_, rfl, rfl⟩
  exact ⟨k, hrun, hreturns,
    successful_return_answered twoTasks initial_twoTasks answeredExec k hrun present_answeredExec⟩

def execWithoutIkcd : List KAction := [.ctl 10 (.ikcdReg 10), .exit 10, .exec 20 [] []]

theorem successful_return_unanswered :
    ∃ k x, steps kernelStep execWithoutIkcd twoTasks = .ok k ∧ x ∈ k.returns ∧ x.pid = 20 ∧
      x.req = mapReq ∧ 0 ≤ x.ret ∧ x.pendingReq = true ∧ x.reqState = .inDoReq ∧
      k.answered = [] ∧ false ∈ k.compared :=
  ⟨_, _, rfl, List.mem_cons_self, rfl, rfl, by decide, rfl, rfl, rfl, List.mem_cons_self⟩

end Dkmp.Dkmke
