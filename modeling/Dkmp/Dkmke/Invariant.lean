import Dkmp.Dkmke.Moves
import Dkmp.Machine.Trace
import Mathlib.Data.List.Nodup

/-! # The request of a task

Three fields of the structure of a task are written by the task, by the commands
of the daemon and, through the hand-over of the structure, by `fork`. The
invariant ties them to the call the task sleeps in. It is shown here for what a
task does on its own behalf.
-/

namespace Dkmp.Dkmke

open Machine

def Kernel.handedOut (k : Kernel) : List Nat := k.delivered.map Prod.fst

/-- The structure of a task that sleeps in a call. -/
structure Waiting (k : Kernel) (d : DkmStruct) (site : CallSite) (serial : Nat) : Prop where
  req : d.req = site.req
  asked : site ≠ .direct
  made : serial < k.calls
  pending : d.pendingReq = true →
    (d.reqState = .inDoReq ∧ serial ∉ k.handedOut) ∨ (d.reqState = .inGetReq ∧ serial ∈ k.handedOut)
  closed : d.pendingReq = false → d.reqState = .notInProgress ∧ serial ∈ k.answered ∧
    (site = .map → ∃ r, d.rNode = some r ∧ r.byIkcd = true)
  rNode : ∃ r, d.rNode = some r
  oNode : ∃ o, d.oNode = some o

def TaskOk (k : Kernel) (t : Task) : Prop :=
  match t.phase with
  | .user => ∀ a, t.dkm = some a → ∃ d, k.dkms.cell a = some d ∧ d.req = dkmNop
  | .asleep site serial =>
      ∃ a d, t.dkm = some a ∧ k.dkms.cell a = some d ∧ Waiting k d site serial

structure KInv (k : Kernel) : Prop where
  pids : (k.tasks.map Task.pid).Nodup
  unshared : ∀ t ∈ k.tasks, ∀ u ∈ k.tasks, ∀ a, t.dkm = some a → u.dkm = some a → t.pid = u.pid
  ok : ∀ t ∈ k.tasks, TaskOk k t
  serials : ∀ t ∈ k.tasks, ∀ u ∈ k.tasks, ∀ n, t.serial? = some n → u.serial? = some n → t.pid = u.pid
  nodup : k.handedOut.Nodup
  bound : ∀ n ∈ k.handedOut, n < k.calls

/-- A table before any request: tasks with distinct pids and structures of their
own, none of them with a request. -/
structure Initial (k : Kernel) : Prop where
  pids : (k.tasks.map Task.pid).Nodup
  unshared : ∀ t ∈ k.tasks, ∀ u ∈ k.tasks, ∀ a, t.dkm = some a → u.dkm = some a → t.pid = u.pid
  idle : ∀ t ∈ k.tasks, t.phase = .user ∧ ∀ a, t.dkm = some a →
    ∃ d, k.dkms.cell a = some d ∧ d.req = dkmNop ∧ d.pendingReq = false
  calls : k.calls = 0
  delivered : k.delivered = []
  answered : k.answered = []
  returns : k.returns = []
  compared : k.compared = []

theorem Initial.inv {k : Kernel} (h : Initial k) : KInv k where
  pids := h.pids
  unshared := h.unshared
  ok := by
    intro t ht
    obtain ⟨hphase, hidle⟩ := h.idle t ht
    unfold TaskOk
    rw [hphase]
    intro a ha
    obtain ⟨d, hd, hreq, -⟩ := hidle a ha
    exact ⟨d, hd, hreq⟩
  serials := by
    intro t ht u _ n hn
    rw [Task.serial?, (h.idle t ht).1] at hn
    cases hn
  nodup := by
    rw [Kernel.handedOut, h.delivered]
    exact List.nodup_nil
  bound := by
    intro n hn
    rw [Kernel.handedOut, h.delivered] at hn
    cases hn

/-! ## Tasks of the table -/

theorem mem_of_findTaskByPid {k : Kernel} {pid : Int} {t : Task}
    (h : k.findTaskByPid pid = some t) : t ∈ k.tasks ∧ t.pid = pid :=
  ⟨List.mem_of_find?_eq_some h, by simpa using List.find?_some h⟩

theorem mem_of_running {k : Kernel} {pid : Int} {t : Task} (h : k.running pid = .ok t) :
    t ∈ k.tasks ∧ t.pid = pid ∧ t.phase = .user := by
  unfold Kernel.running at h
  split at h
  · next u hu =>
    split at h
    · next hphase =>
      obtain ⟨hmem, hpid⟩ := mem_of_findTaskByPid hu
      rw [← Except.ok.inj h]
      exact ⟨hmem, hpid, hphase⟩
    · cases h
  · cases h

namespace KInv

variable {k k' : Kernel} {t u : Task} {a : Nat} {d : DkmStruct}

theorem eq_of_pid (h : KInv k) (ht : t ∈ k.tasks) (hu : u ∈ k.tasks) (hpid : t.pid = u.pid) :
    t = u := List.inj_on_of_nodup_map h.pids ht hu hpid

theorem user_req (h : KInv k) (ht : t ∈ k.tasks) (hphase : t.phase = .user) (hp : t.dkm = some a) :
    ∃ d, k.dkms.cell a = some d ∧ d.req = dkmNop := by
  have hok := h.ok t ht
  unfold TaskOk at hok
  rw [hphase] at hok
  exact hok a hp

theorem asleep_waiting (h : KInv k) (ht : t ∈ k.tasks) {site : CallSite} {serial : Nat}
    (hphase : t.phase = .asleep site serial) :
    ∃ a d, t.dkm = some a ∧ k.dkms.cell a = some d ∧ Waiting k d site serial := by
  have hok := h.ok t ht
  unfold TaskOk at hok
  rw [hphase] at hok
  exact hok

theorem waiting_at (h : KInv k) (ht : t ∈ k.tasks) {site : CallSite} {serial : Nat}
    (hphase : t.phase = .asleep site serial) (hp : t.dkm = some a) (hd : k.dkms.cell a = some d) :
    Waiting k d site serial := by
  obtain ⟨b, e, hb, he, hwait⟩ := h.asleep_waiting ht hphase
  rw [hp, Option.some.injEq] at hb
  rw [← hb, hd, Option.some.injEq] at he
  rwa [he]

theorem asleep_of_req (h : KInv k) (ht : t ∈ k.tasks) (hp : t.dkm = some a)
    (hd : k.dkms.cell a = some d) (hreq : d.req ≠ dkmNop) :
    ∃ site serial, t.phase = .asleep site serial ∧ Waiting k d site serial := by
  cases hphase : t.phase with
  | user =>
      obtain ⟨d', hd', hnop⟩ := h.user_req ht hphase hp
      rw [hd] at hd'
      rw [Option.some.inj hd'] at hreq
      exact absurd hnop hreq
  | asleep site serial => exact ⟨site, serial, rfl, h.waiting_at ht hphase hp hd⟩

theorem setPhase_self (h : KInv k) (ht : t ∈ k.tasks) : k.setPhase t.pid t.phase = k := by
  have htasks : k.tasks.map (fun u => if u.pid = t.pid then { u with phase := t.phase } else u) =
      k.tasks := by
    apply (List.map_congr_left ?_).trans (List.map_id _)
    intro u hu
    by_cases hpid : u.pid = t.pid
    · rw [if_pos hpid, h.eq_of_pid hu ht hpid]
      rfl
    · rw [if_neg hpid]
      rfl
  rw [Kernel.setPhase, htasks]

theorem serial_lt (h : KInv k) (ht : t ∈ k.tasks) {n : Nat} (hn : t.serial? = some n) :
    n < k.calls := by
  unfold Task.serial? at hn
  split at hn
  · cases hn
  · next site serial hphase =>
    obtain ⟨a, d, -, -, hwait⟩ := h.asleep_waiting ht hphase
    rw [← Option.some.inj hn]
    exact hwait.made

theorem mem_change (h : KInv k) (ht : t ∈ k.tasks) {f : Task → Task}
    (hu : u ∈ k.tasks.map fun v => if v.pid = t.pid then f v else v) :
    u = f t ∨ (u ∈ k.tasks ∧ u.pid ≠ t.pid) := by
  obtain ⟨v, hv, hvu⟩ := List.mem_map.mp hu
  by_cases hpid : v.pid = t.pid
  · rw [if_pos hpid, h.eq_of_pid hv ht hpid] at hvu
    exact .inl hvu.symm
  · rw [if_neg hpid] at hvu
    exact .inr ⟨hvu ▸ hv, hvu ▸ hpid⟩

theorem mem_setPhase (h : KInv k) (ht : t ∈ k.tasks) {phase : Phase}
    (hu : u ∈ (k.setPhase t.pid phase).tasks) :
    u = { t with phase := phase } ∨ (u ∈ k.tasks ∧ u.pid ≠ t.pid) :=
  h.mem_change ht hu

theorem transfer (h : KInv k) (hu : u ∈ k.tasks)
    (hcell : ∀ b, u.dkm = some b → k'.dkms.cell b = k.dkms.cell b)
    (hcalls : k.calls ≤ k'.calls) (hanswered : ∀ n ∈ k.answered, n ∈ k'.answered)
    (hdelivered : ∀ n, u.serial? = some n → (n ∈ k'.handedOut ↔ n ∈ k.handedOut)) :
    TaskOk k' u := by
  unfold TaskOk
  cases hphase : u.phase with
  | user =>
      intro b hb
      rw [hcell b hb]
      exact h.user_req hu hphase hb
  | asleep site serial =>
      obtain ⟨b, d, hb, hd, hwait⟩ := h.asleep_waiting hu hphase
      have hsame := hdelivered serial (by rw [Task.serial?, hphase])
      refine ⟨b, d, hb, (hcell b hb).trans hd, { hwait with made := ?_, pending := ?_, closed := ?_ }⟩
      · exact Nat.lt_of_lt_of_le hwait.made hcalls
      · rw [hsame]
        exact hwait.pending
      · intro hclosed
        obtain ⟨hstate, hans, hmap⟩ := hwait.closed hclosed
        exact ⟨hstate, hanswered serial hans, hmap⟩

/-- Another task does not share the structure that changed, nor the call. -/
theorem frame (h : KInv k) (ht : t ∈ k.tasks) (hu : u ∈ k.tasks) (hne : u.pid ≠ t.pid)
    (hp : t.dkm = some a) (hcell : ∀ b, b ≠ a → k'.dkms.cell b = k.dkms.cell b)
    (hcalls : k.calls ≤ k'.calls) (hanswered : ∀ n ∈ k.answered, n ∈ k'.answered)
    (hdelivered : ∀ n, t.serial? ≠ some n → (n ∈ k'.handedOut ↔ n ∈ k.handedOut)) :
    TaskOk k' u := by
  apply h.transfer hu ?_ hcalls hanswered
  · intro n hn
    exact hdelivered n fun htn => hne (h.serials u hu t ht n hn htn)
  · intro b hb
    apply hcell
    intro hba
    exact hne (h.unshared u hu t ht a (hba ▸ hb) hp)

theorem update (h : KInv k) (ht : t ∈ k.tasks) (hp : t.dkm = some a) {phase : Phase}
    (htasks : k'.tasks = (k.setPhase t.pid phase).tasks)
    (hcell : ∀ b, b ≠ a → k'.dkms.cell b = k.dkms.cell b)
    (hcalls : k.calls ≤ k'.calls) (hanswered : ∀ n ∈ k.answered, n ∈ k'.answered)
    (hdelivered : ∀ n, t.serial? ≠ some n → (n ∈ k'.handedOut ↔ n ∈ k.handedOut))
    (hnodup : k'.handedOut.Nodup) (hbound : ∀ n ∈ k'.handedOut, n < k'.calls)
    (hok : TaskOk k' { t with phase := phase })
    (hserial : ∀ n, Task.serial? { t with phase := phase } = some n →
      t.serial? = some n ∨ k.calls ≤ n) : KInv k' := by
  have hmem : ∀ v ∈ k'.tasks, v = { t with phase := phase } ∨ (v ∈ k.tasks ∧ v.pid ≠ t.pid) := by
    intro v hv
    rw [htasks] at hv
    exact h.mem_setPhase ht hv
  have hfresh : ∀ v ∈ k.tasks, v.pid ≠ t.pid → ∀ n, Task.serial? { t with phase := phase } = some n →
      v.serial? ≠ some n := by
    intro v hv hne n hn hvn
    rcases hserial n hn with hold | hnew
    · exact hne (h.serials v hv t ht n hvn hold)
    · have hlt := h.serial_lt hv hvn
      omega
  refine ⟨?_, ?_, ?_, ?_, hnodup, hbound⟩
  · have hpids : k'.tasks.map Task.pid = k.tasks.map Task.pid := by
      rw [htasks, Kernel.setPhase, List.map_map]
      apply List.map_congr_left
      intro v _
      simp only [Function.comp]
      split
      · rfl
      · rfl
    rw [hpids]
    exact h.pids
  · intro v hv w hw b hvb hwb
    rcases hmem v hv with rfl | ⟨hv', hvt⟩
    · rcases hmem w hw with rfl | ⟨hw', hwt⟩
      · rfl
      · exact h.unshared t ht w hw' b hvb hwb
    · rcases hmem w hw with rfl | ⟨hw', hwt⟩
      · exact h.unshared v hv' t ht b hvb hwb
      · exact h.unshared v hv' w hw' b hvb hwb
  · intro v hv
    rcases hmem v hv with rfl | ⟨hv', hvt⟩
    · exact hok
    · exact h.frame ht hv' hvt hp hcell hcalls hanswered hdelivered
  · intro v hv w hw n hvn hwn
    rcases hmem v hv with rfl | ⟨hv', hvt⟩
    · rcases hmem w hw with rfl | ⟨hw', hwt⟩
      · rfl
      · exact absurd hwn (hfresh w hw' hwt n hvn)
    · rcases hmem w hw with rfl | ⟨hw', hwt⟩
      · exact absurd hvn (hfresh v hv' hvt n hwn)
      · exact h.serials v hv' w hw' n hvn hwn

/-! ## A task's own calls -/

theorem after (h : KInv k) (ht : t ∈ k.tasks) (hp : t.dkm = some a) (hd : k.dkms.cell a = some d)
    {d' : DkmStruct} {phase : Phase} {calls : Nat} (hlands : Lands k d' phase calls)
    (returns : List Returned) (compared : List Bool) :
    KInv (k.after t.pid a d' phase calls returns compared) := by
  have hcell : ∀ b, (k.after t.pid a d' phase calls returns compared).dkms.cell b =
      if b = a then some d' else k.dkms.cell b := Kernel.cell_set hd d'
  have htasks : (k.after t.pid a d' phase calls returns compared).tasks =
      (k.setPhase t.pid phase).tasks := rfl
  refine h.update ht hp htasks (fun b hb => (hcell b).trans (if_neg hb)) hlands.1 (fun _ hn => hn)
    (fun _ _ => Iff.rfl) h.nodup (fun n hn => Nat.lt_of_lt_of_le (h.bound n hn) hlands.1) ?_ ?_
  · have hself : (k.after t.pid a d' phase calls returns compared).dkms.cell a = some d' :=
      (hcell a).trans (if_pos rfl)
    rcases hlands.2 with ⟨rfl, hnop⟩ | ⟨site, serial, rfl, hsite, hle, hlt, hasking, -⟩
    · intro b hb
      rw [hp, Option.some.injEq] at hb
      exact ⟨d', hb ▸ hself, hnop⟩
    · have hnew : serial ∉ k.handedOut := fun hn => Nat.not_lt.mpr hle (h.bound serial hn)
      refine ⟨a, d', hp, hself, ⟨hasking.req, hsite, hlt, fun _ => .inl ⟨hasking.state, hnew⟩, ?_,
        hasking.rNode, hasking.oNode⟩⟩
      rw [hasking.pending]
      intro hfalse
      cases hfalse
  · intro n hn
    rcases hlands.2 with ⟨rfl, -⟩ | ⟨site, serial, rfl, -, hle, -⟩
    · cases hn
    · exact .inr (Option.some.inj hn ▸ hle)

theorem set_user (h : KInv k) (ht : t ∈ k.tasks) (hphase : t.phase = .user) (hp : t.dkm = some a)
    (hd : k.dkms.cell a = some d) {d' : DkmStruct} (hreq : d'.req = d.req) : KInv (k.set a d') := by
  have hcell := Kernel.cell_set hd d'
  have hnop : d.req = dkmNop := by
    obtain ⟨e, he, hnop⟩ := h.user_req ht hphase hp
    rw [hd] at he
    rw [Option.some.inj he]
    exact hnop
  have htasks : (k.set a d').tasks = (k.setPhase t.pid .user).tasks := by
    rw [← hphase, h.setPhase_self ht]
    rfl
  refine h.update ht hp htasks (fun b hb => (hcell b).trans (if_neg hb)) (Nat.le_refl _)
    (fun _ hn => hn) (fun _ _ => Iff.rfl) h.nodup h.bound ?_ ?_
  · intro b hb
    rw [hp, Option.some.injEq] at hb
    rw [← hb]
    exact ⟨d', (hcell a).trans (if_pos rfl), hreq.trans hnop⟩
  · intro n hn
    cases hn

/-- What the `execve` of a task outside the kernel does. -/
theorem execve_cases (h : KInv k) (ht : t ∈ k.tasks) (hphase : t.phase = .user)
    {filename garbage : CStr} (hrun : dkmExecve k t filename garbage = .ok k') :
    k' = k ∨ ∃ a d, t.dkm = some a ∧ k.dkms.cell a = some d ∧
      ((∃ d', k' = k.set a d' ∧ d'.req = d.req) ∨
        ∃ d' phase calls returns compared, k' = k.after t.pid a d' phase calls returns compared ∧
          Lands k d' phase calls ∧
          (hearing k t.pid ≠ .unheard → compared = [] ∧ ∀ x ∈ returns, x.ret < 0)) := by
  cases hp : t.dkm with
  | none =>
      unfold dkmExecve at hrun
      split at hrun
      · exact .inl (Except.ok.inj hrun).symm
      · rw [hp] at hrun
        cases hrun
  | some a =>
      obtain ⟨d, hd, -⟩ := h.user_req ht hphase hp
      rcases dkmExecve_spec hp hd filename garbage with
        hsame | ⟨d', hset, hreq⟩ | ⟨d', phase, calls, returns, compared, hafter, hlands, hheard⟩
      · rw [hsame] at hrun
        exact .inl (Except.ok.inj hrun).symm
      · rw [hset] at hrun
        exact .inr ⟨a, d, rfl, hd, .inl ⟨d', (Except.ok.inj hrun).symm, hreq⟩⟩
      · rw [hafter] at hrun
        exact .inr ⟨a, d, rfl, hd, .inr ⟨d', phase, calls, returns, compared,
          (Except.ok.inj hrun).symm, hlands, hheard⟩⟩

theorem execve (h : KInv k) (ht : t ∈ k.tasks) (hphase : t.phase = .user) {filename garbage : CStr}
    (hrun : dkmExecve k t filename garbage = .ok k') : KInv k' := by
  rcases h.execve_cases ht hphase hrun with
    rfl | ⟨a, d, hp, hd, ⟨d', rfl, hreq⟩ | ⟨d', phase, calls, returns, compared, rfl, hlands, -⟩⟩
  · exact h
  · exact h.set_user ht hphase hp hd hreq
  · exact h.after ht hp hd hlands returns compared

/-- A task that is woken goes on only if its request is answered; then its call
returns, and the nodes are compared after a request for a node. -/
theorem wake_cases (h : KInv k) (ht : t ∈ k.tasks) (hrun : wake k t = .ok k') :
    ∃ site serial a d, t.phase = .asleep site serial ∧ t.dkm = some a ∧ k.dkms.cell a = some d ∧
      Waiting k d site serial ∧
      ((d.pendingReq = true ∧ k' = k) ∨
        (d.pendingReq = false ∧ ∃ d' phase calls returns compared,
          k' = k.after t.pid a d' phase calls
            (returns ++ [⟨t.pid, site.req, 0, some serial, false, d.reqState⟩]) compared ∧
          Lands k d' phase calls ∧
          ((site = .map → ∀ r o, d.rNode = some r → d.oNode = some o → r.text ≠ o →
            hearing k t.pid ≠ .unheard) → ∀ x ∈ returns, x.ret < 0) ∧
          ∀ c ∈ compared, site = .map ∧ ∃ r, d.rNode = some r ∧ c = r.byIkcd)) := by
  cases hphase : t.phase with
  | user =>
      unfold wake at hrun
      rw [hphase] at hrun
      cases hrun
  | asleep site serial =>
      obtain ⟨a, d, hp, hd, hwait⟩ := h.asleep_waiting ht hphase
      refine ⟨site, serial, a, d, rfl, hp, hd, hwait, ?_⟩
      cases hpending : d.pendingReq with
      | true =>
          rw [wake_pending hp hd hphase hpending] at hrun
          exact .inl ⟨rfl, (Except.ok.inj hrun).symm⟩
      | false =>
          refine .inr ⟨rfl, ?_⟩
          cases site with
          | map =>
              obtain ⟨r, hr⟩ := hwait.rNode
              obtain ⟨o, ho⟩ := hwait.oNode
              obtain ⟨d', phase, calls, returns, compared, hwake, hlands, hrefused, hcompared⟩ :=
                wake_map hp hd hphase hpending hr ho
              rw [hwake] at hrun
              refine ⟨d', phase, calls, returns, compared, (Except.ok.inj hrun).symm, hlands, ?_, ?_⟩
              · intro hheard
                by_cases hsame : r.text = o
                · exact hrefused (.inr hsame)
                · exact hrefused (.inl (hheard rfl r o hr ho hsame))
              · intro c hc
                exact ⟨rfl, r, hr, hcompared c hc⟩
          | creat =>
              have hwake := wake_creat hp hd hphase hpending
              rw [hrun] at hwake
              rw [hpending] at hwake
              exact ⟨_, .user, k.calls, [], [], Except.ok.inj hwake,
                ⟨Nat.le_refl _, .inl ⟨rfl, rfl⟩⟩, by simp, by simp⟩
          | direct => exact absurd rfl hwait.asked

theorem woken (h : KInv k) (ht : t ∈ k.tasks) (hrun : wake k t = .ok k') : KInv k' := by
  obtain ⟨site, serial, a, d, -, hp, hd, -, hcases⟩ := h.wake_cases ht hrun
  rcases hcases with ⟨-, rfl⟩ | ⟨-, d', phase, calls, returns, compared, rfl, hlands, -, -⟩
  · exact h
  · exact h.after ht hp hd hlands _ compared

end KInv

end Dkmp.Dkmke
