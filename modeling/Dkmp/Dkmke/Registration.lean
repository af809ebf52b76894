import Dkmp.Dkmke.Handshake
import Dkmp.Machine.Linked

/-! # Who can answer a sleeping task

A task sleeps until its request is answered, whatever becomes of the daemon. Its
request can be fetched while some daemon is registered, and once it was fetched
only the daemon that has it will answer. Nothing in the commands that change the
registration looks at the tasks that wait.
-/

namespace Dkmp.Dkmke

open Machine

/-- A task asleep in `DKM_DO_REQ` with its request pending. -/
def Sleeper (k : Kernel) (t : Task) (serial : Nat) (d : DkmStruct) : Prop :=
  t ∈ k.tasks ∧ (∃ site, t.phase = .asleep site serial) ∧ k.dkms.load t.dkm = .ok d ∧
    d.pendingReq = true

/-- The request can still be fetched, or the registered daemon has it. -/
def Answerable (k : Kernel) (serial : Nat) (d : DkmStruct) : Prop :=
  (d.reqState = .inDoReq ∧ 0 < k.ikcdPid) ∨ (serial, k.ikcdPid) ∈ k.delivered

/-- The registration is taken back only while nobody sleeps, another daemon is
registered only while no fetched request is open, and only the registered daemon
fetches requests. -/
def Orderly (k : Kernel) : KAction → Prop
  | .ctl _ .ikcdUnreg => ∀ t serial d, ¬ Sleeper k t serial d
  | .ctl _ (.ikcdReg pid) => ∀ t serial d, Sleeper k t serial d →
      pid = k.ikcdPid ∨ (0 < pid ∧ d.reqState = .inDoReq)
  | .ctl caller .getReq => ∀ t serial d, Sleeper k t serial d → d.reqState = .inDoReq →
      caller = k.ikcdPid
  | _ => True

def NoneStranded (k : Kernel) : Prop :=
  ∀ t serial d, Sleeper k t serial d → Answerable k serial d

theorem Initial.no_sleeper {k : Kernel} (h : Initial k) (t : Task) (serial : Nat) (d : DkmStruct) :
    ¬ Sleeper k t serial d := by
  rintro ⟨ht, ⟨site, hphase⟩, -⟩
  rw [(h.idle t ht).1] at hphase
  cases hphase

theorem Initial.noneStranded {k : Kernel} (h : Initial k) : NoneStranded k :=
  fun t serial d hsleeper => absurd hsleeper (h.no_sleeper t serial d)

theorem load_set {k : Kernel} {a : Nat} {d : DkmStruct} (hd : k.dkms.cell a = some d)
    (d' : DkmStruct) (p : Ptr) :
    (k.set a d').dkms.load p = if p = some a then .ok d' else k.dkms.load p := by
  cases p with
  | none => rfl
  | some b =>
      have hcell := Kernel.cell_set hd d' b
      by_cases hb : b = a
      · rw [if_pos hb] at hcell
        rw [if_pos (congrArg some hb), Heap.load_some hcell]
      · rw [if_neg hb] at hcell
        rw [if_neg (fun h => hb (Option.some.inj h))]
        simp only [Heap.load, hcell]

namespace NoneStranded

variable {k k' : Kernel} {t : Task} {a : Nat} {d d' : DkmStruct}

theorem of_set (h : NoneStranded k) (hinv : KInv k) (ht : t ∈ k.tasks) (hp : t.dkm = some a)
    (hd : k.dkms.cell a = some d) (hikcd : k'.ikcdPid = k.ikcdPid)
    (hdelivered : ∀ x ∈ k.delivered, x ∈ k'.delivered)
    {u : Task} (hu : u ∈ k.tasks) (hne : u.pid ≠ t.pid) {serial : Nat} {e : DkmStruct}
    (hphase : ∃ site, u.phase = .asleep site serial) (hload : (k.set a d').dkms.load u.dkm = .ok e)
    (hpending : e.pendingReq = true) : Answerable k' serial e := by
  have hother : u.dkm ≠ some a := fun hua => hne (hinv.unshared u hu t ht a hua hp)
  rw [load_set hd, if_neg hother] at hload
  rcases h u serial e ⟨hu, hphase, hload, hpending⟩ with ⟨hstate, hpos⟩ | hmem
  · exact .inl ⟨hstate, hikcd.symm ▸ hpos⟩
  · exact .inr (hdelivered _ (hikcd.symm ▸ hmem))

theorem after (h : NoneStranded k) (hinv : KInv k) (ht : t ∈ k.tasks) (hp : t.dkm = some a)
    (hd : k.dkms.cell a = some d) {phase : Phase} {calls : Nat} (hlands : Lands k d' phase calls)
    (returns : List Returned) (compared : List Bool) :
    NoneStranded (k.after t.pid a d' phase calls returns compared) := by
  intro u serial e hsleeper
  obtain ⟨hu, hphase, hload, hpending⟩ := hsleeper
  rcases hinv.mem_setPhase ht hu with rfl | ⟨hu', hne⟩
  · have hload' : (k.set a d').dkms.load t.dkm = .ok e := hload
    rw [load_set hd, if_pos hp, Except.ok.injEq] at hload'
    rcases hlands.2 with ⟨rfl, -⟩ | ⟨site, n, -, -, -, -, hasking, hpos⟩
    · obtain ⟨site, hsite⟩ := hphase
      cases hsite
    · exact .inl ⟨hload' ▸ hasking.state, hpos⟩
  · exact h.of_set hinv ht hp hd rfl (fun _ hx => hx) hu' hne hphase hload hpending

theorem set_user (h : NoneStranded k) (hinv : KInv k) (ht : t ∈ k.tasks) (huser : t.phase = .user)
    (hp : t.dkm = some a) (hd : k.dkms.cell a = some d) : NoneStranded (k.set a d') := by
  intro u serial e hsleeper
  obtain ⟨hu, hphase, hload, hpending⟩ := hsleeper
  have hne : u.pid ≠ t.pid := by
    intro hpid
    obtain ⟨site, hsite⟩ := hphase
    rw [hinv.eq_of_pid hu ht hpid, huser] at hsite
    cases hsite
  exact h.of_set hinv ht hp hd rfl (fun _ hx => hx) hu hne hphase hload hpending

theorem fork (h : NoneStranded k) (hinv : KInv k) (ht : t ∈ k.tasks) (huser : t.phase = .user)
    (child : Int) : NoneStranded (doFork k t child) := by
  intro u serial e hsleeper
  obtain ⟨hu, ⟨site, hphase⟩, hload, hpending⟩ := hsleeper
  rcases hinv.mem_doFork ht hu with rfl | rfl | ⟨hu', -⟩
  · rw [huser] at hphase
    cases hphase
  · cases hphase
  · obtain ⟨b, f, hb, hf, -⟩ := hinv.asleep_waiting hu' hphase
    have hold : (k.dkms.alloc freshDkm).cell b = some f := Heap.alloc_old _ hf
    have hload' : (k.dkms.alloc freshDkm).load u.dkm = .ok e := hload
    rw [hb, Heap.load_some hold, ← Heap.load_some hf, ← hb] at hload'
    exact h u serial e ⟨hu', ⟨site, hphase⟩, hload', hpending⟩

theorem getReq (h : NoneStranded k) (hinv : KInv k) {caller : Int}
    (horderly : ∀ t serial d, Sleeper k t serial d → d.reqState = .inDoReq → caller = k.ikcdPid)
    {result : Option (Int × Int)} (hrun : dkmGetReq k caller = .ok (k', result)) :
    NoneStranded k' := by
  rcases hinv.getReq_cases hrun with
    ⟨-, rfl, -⟩ | ⟨t, ht, site, serial, a, d, hphase, hp, hd, hfetch, -, -, -, rfl⟩
  · exact h
  · have hload : k.dkms.load t.dkm = .ok d := by
      rw [hp]
      exact Heap.load_some hd
    have hcaller := horderly t serial d ⟨ht, ⟨site, hphase⟩, hload, hfetch.1⟩ hfetch.2.1
    intro u n e hsleeper
    obtain ⟨hu, hsite, hload', hpending⟩ := hsleeper
    by_cases hpid : u.pid = t.pid
    · obtain ⟨site', hphase'⟩ := hsite
      rw [hinv.eq_of_pid hu ht hpid, hphase] at hphase'
      cases hphase'
      refine .inr ?_
      show (serial, k.ikcdPid) ∈ (serial, caller) :: k.delivered
      rw [hcaller]
      exact List.mem_cons_self
    · refine h.of_set hinv ht hp hd ?_ ?_ hu hpid hsite hload' hpending
      · rfl
      · intro x hx
        exact List.mem_cons_of_mem _ hx

theorem putResp (h : NoneStranded k) (hinv : KInv k) {pid req : Int} {arg : RespArg} {n : Int}
    (hrun : dkmPutResp k pid req arg = .ok (k', n)) : NoneStranded k' := by
  rcases hinv.putResp_cases hrun with
    rfl | ⟨t, ht, site, serial, a, d, d', -, -, hphase, hp, hd, -, hans, rfl⟩
  · exact h
  · intro u m e hsleeper
    obtain ⟨hu, hsite, hload, hpending⟩ := hsleeper
    by_cases hpid : u.pid = t.pid
    · have hload' : (k.set a d').dkms.load u.dkm = .ok e := hload
      rw [load_set hd, hinv.eq_of_pid hu ht hpid, if_pos hp, Except.ok.injEq] at hload'
      rw [← hload', hans.pending] at hpending
      cases hpending
    · exact h.of_set hinv ht hp hd rfl (fun _ hx => hx) hu hpid hsite hload hpending

theorem registered (h : NoneStranded k) {pid : Int}
    (hpid : ∀ t serial d, Sleeper k t serial d →
      pid = k.ikcdPid ∨ (0 < pid ∧ d.reqState = .inDoReq)) :
    NoneStranded { k with ikcdPid := pid } := by
  intro u serial e hsleeper
  rcases hpid u serial e hsleeper with rfl | ⟨hpos, hstate⟩
  · exact h u serial e hsleeper
  · exact .inl ⟨hstate, hpos⟩

theorem step (h : NoneStranded k) (hinv : KInv k) {act : KAction} (horderly : Orderly k act)
    (hstep : kernelStep k act = .ok k') : NoneStranded k' := by
  cases act with
  | fork pid child =>
      obtain ⟨t, hrunning, hcont⟩ := bind_eq_ok hstep
      obtain ⟨ht, -, huser⟩ := mem_of_running hrunning
      split at hcont
      · cases hcont
      · rw [← Except.ok.inj hcont]
        exact h.fork hinv ht huser child
  | exec pid filename garbage =>
      obtain ⟨t, hrunning, hcont⟩ := bind_eq_ok hstep
      obtain ⟨ht, -, huser⟩ := mem_of_running hrunning
      rcases hinv.execve_cases ht huser hcont with
        rfl | ⟨a, d, hp, hd, ⟨d', rfl, -⟩ | ⟨d', phase, calls, returns, compared, rfl, hlands, -⟩⟩
      · exact h
      · exact h.set_user hinv ht huser hp hd
      · exact h.after hinv ht hp hd hlands returns compared
  | wake pid =>
      simp only [kernelStep] at hstep
      split at hstep
      · next t hfind =>
        obtain ⟨ht, -⟩ := mem_of_findTaskByPid hfind
        obtain ⟨site, serial, a, d, -, hp, hd, -, hcases⟩ := hinv.wake_cases ht hstep
        rcases hcases with ⟨-, rfl⟩ | ⟨-, d', phase, calls, returns, compared, rfl, hlands, -, -⟩
        · exact h
        · exact h.after hinv ht hp hd hlands _ compared
      · cases hstep
  | exit pid =>
      obtain ⟨t, -, hcont⟩ := bind_eq_ok hstep
      rw [← Except.ok.inj hcont]
      intro u serial e hsleeper
      obtain ⟨hu, hrest⟩ := hsleeper
      exact h u serial e ⟨List.mem_of_mem_filter hu, hrest⟩
  | ctl caller cmd =>
      obtain ⟨t, hrunning, hcont⟩ := bind_eq_ok hstep
      obtain ⟨ht, hpid, huser⟩ := mem_of_running hrunning
      cases cmd with
      | ikcdReg pid =>
          rw [← Except.ok.inj hcont]
          exact h.registered horderly
      | ikcdUnreg =>
          rw [← Except.ok.inj hcont]
          exact h.registered fun u serial d hsleeper => absurd hsleeper (horderly u serial d)
      | getReq =>
          obtain ⟨⟨k₁, result⟩, hget, hk'⟩ := bind_eq_ok hcont
          rw [← Except.ok.inj hk']
          rw [hpid] at hget
          exact h.getReq hinv horderly hget
      | getArgs pid req =>
          obtain ⟨-, -, hk'⟩ := bind_eq_ok hcont
          rw [← Except.ok.inj hk']
          exact h
      | putResp pid req arg =>
          obtain ⟨⟨k₁, n⟩, hput, hk'⟩ := bind_eq_ok hcont
          rw [← Except.ok.inj hk']
          exact h.putResp hinv hput
      | doReq =>
          obtain ⟨result, hdo, hk'⟩ := bind_eq_ok hcont
          rw [hinv.doReq_refused ht huser hdo] at hk'
          rw [← Except.ok.inj hk']
          exact h

end NoneStranded

/-! ## Fetching a request -/

def fetch (k : Kernel) (caller : Int) : Exec Kernel := do
  let (k, _) ← dkmGetReq k caller
  .ok k

theorem nextRequest_ok {dkms : Heap DkmStruct} {l : List Task}
    (h : ∀ t ∈ l, ∀ a, t.dkm = some a → ∃ d, dkms.cell a = some d) :
    ∃ found, nextRequest dkms l = .ok found := by
  induction l with
  | nil => exact ⟨none, rfl⟩
  | cons t l ih =>
      have hrest := ih fun u hu => h u (List.mem_cons_of_mem t hu)
      unfold nextRequest
      split
      · exact hrest
      · next a ha =>
        obtain ⟨d, hd⟩ := h t List.mem_cons_self a ha
        rw [Heap.load_some hd, ok_bind]
        split
        · exact ⟨some (t, d), rfl⟩
        · exact hrest

namespace KInv

variable {k : Kernel} {t : Task} {serial : Nat} {d : DkmStruct}

theorem getReq_ok (h : KInv k) (caller : Int) :
    ∃ k' result, dkmGetReq k caller = .ok (k', result) := by
  obtain ⟨found, hnext⟩ := nextRequest_ok fun t ht a hp => h.dkm_cell ht hp
  unfold dkmGetReq
  rw [hnext, ok_bind]
  cases found with
  | none => exact ⟨k, none, rfl⟩
  | some x =>
      obtain ⟨t, d⟩ := x
      obtain ⟨-, a, hp, hd, -⟩ := nextRequest_some hnext
      simp only [hp, Kernel.onDkm_eq hd, ok_bind]
      exact ⟨_, _, rfl⟩

/-- While a request waits to be fetched, a fetch takes it or another one. -/
theorem fetch_step (h : KInv k) (hsleeper : Sleeper k t serial d) (hstate : d.reqState = .inDoReq)
    (caller : Int) :
    ∃ k', fetch k caller = .ok k' ∧ KInv k' ∧ k'.calls = k.calls ∧
      k'.handedOut.length = k.handedOut.length + 1 ∧
      ((serial, caller) ∈ k'.delivered ∨ Sleeper k' t serial d) := by
  obtain ⟨ht, ⟨site, hphase⟩, hload, hpending⟩ := hsleeper
  obtain ⟨a, hp, hd⟩ := Heap.load_eq_ok hload
  obtain ⟨k', result, hget⟩ := h.getReq_ok caller
  refine ⟨k', by rw [fetch, hget, ok_bind], h.getReq hget, ?_⟩
  rcases h.getReq_cases hget with
    ⟨-, rfl, hnext⟩ | ⟨u, hu, site', n, b, e, hphase', hb, he, -, -, -, -, rfl⟩
  · have hwait := h.waiting_at ht hphase hp hd
    exact absurd (hwait.fetchable hpending hstate) (nextRequest_none hnext t ht a d hp hd)
  · refine ⟨rfl, rfl, ?_⟩
    by_cases hpid : t.pid = u.pid
    · rw [h.eq_of_pid ht hu hpid, hphase'] at hphase
      cases hphase
      exact .inl List.mem_cons_self
    · have hother : t.dkm ≠ some b := fun htb => hpid (h.unshared t ht u hu b htb hb)
      refine .inr ⟨ht, ⟨site, hphase⟩, ?_, hpending⟩
      exact (load_set he _ t.dkm).trans ((if_neg hother).trans hload)

/-- A request that waits to be fetched is returned to a daemon that fetches often
enough: each fetch hands out one of the requests that were made. -/
theorem fetched (h : KInv k) (hsleeper : Sleeper k t serial d) (hstate : d.reqState = .inDoReq)
    (caller : Int) :
    ∃ n k', steps fetch (List.replicate n caller) k = .ok k' ∧ (serial, caller) ∈ k'.delivered := by
  have hroom : ∃ m, k.calls ≤ k.handedOut.length + m := ⟨k.calls, Nat.le_add_left _ _⟩
  obtain ⟨m, hm⟩ := hroom
  induction m generalizing k with
  | zero =>
      obtain ⟨k', -, hinv, hcalls, hlength, -⟩ := h.fetch_step hsleeper hstate caller
      have hle := length_le_of_lt hinv.nodup hinv.bound
      omega
  | succ m ih =>
      obtain ⟨k₁, hfetch, hinv, hcalls, hlength, hnext⟩ := h.fetch_step hsleeper hstate caller
      rcases hnext with hmem | hsleeper'
      · exact ⟨1, k₁, by rw [List.replicate_one, steps, hfetch, ok_bind, steps], hmem⟩
      · obtain ⟨n, k', hrun, hmem⟩ := ih hinv hsleeper' (by omega)
        exact ⟨n + 1, k', by rw [List.replicate_succ, steps, hfetch, ok_bind, hrun], hmem⟩

end KInv

/-- **No stranded task.** In every orderly run, a task that sleeps with its request
pending can be answered: its request waits to be fetched while a daemon is
registered, and is returned once that daemon fetched often enough, or the
registered daemon has it. -/
theorem sleeper_answerable (k₀ : Kernel) (hinit : Initial k₀) (as : List KAction) (k : Kernel)
    (hrun : steps kernelStep as k₀ = .ok k) (horderly : Along kernelStep Orderly as k₀) :
    ∀ t ∈ k.tasks, ∀ site serial d, t.phase = .asleep site serial →
      k.dkms.load t.dkm = .ok d → d.pendingReq = true →
      (d.reqState = .inDoReq ∧ 0 < k.ikcdPid ∧
        ∃ n k', steps fetch (List.replicate n k.ikcdPid) k = .ok k' ∧
          (serial, k.ikcdPid) ∈ k'.delivered) ∨
      (serial, k.ikcdPid) ∈ k.delivered := by
  have hinv : KInv k ∧ NoneStranded k :=
    steps_invariant (fun k => KInv k ∧ NoneStranded k)
      (fun _ _ _ h hP hstep => ⟨h.1.step hstep, h.2.step h.1 hP hstep⟩) as k₀ k
      ⟨hinit.inv, hinit.noneStranded⟩ horderly hrun
  intro t ht site serial d hphase hload hpending
  have hsleeper : Sleeper k t serial d := ⟨ht, ⟨site, hphase⟩, hload, hpending⟩
  rcases hinv.2 t serial d hsleeper with ⟨hstate, hpos⟩ | hmem
  · exact .inl ⟨hstate, hpos, hinv.1.fetched hsleeper hstate k.ikcdPid⟩
  · exact .inr hmem

def fetchedExec : List KAction := [.ctl 10 (.ikcdReg 10), .exec 20 [] [], .ctl 10 .getReq]

theorem orderly_fetchedExec : Along kernelStep Orderly fetchedExec twoTasks := by
  refine .cons ?_ rfl (.cons trivial rfl (.cons ?_ rfl trivial))
  · intro t serial d hsleeper
    exact absurd hsleeper (initial_twoTasks.no_sleeper t serial d)
  · intro t serial d _ _
    rfl

theorem sleeper_answerable_fetched :
    ∃ k t d, steps kernelStep fetchedExec twoTasks = .ok k ∧ t ∈ k.tasks ∧
      t.phase = .asleep .map 0 ∧ k.dkms.load t.dkm = .ok d ∧ d.pendingReq = true ∧
      ((d.reqState = .inDoReq ∧ 0 < k.ikcdPid ∧
        ∃ n k', steps fetch (List.replicate n k.ikcdPid) k = .ok k' ∧
          (0, k.ikcdPid) ∈ k'.delivered) ∨
      (0, k.ikcdPid) ∈ k.delivered) := by
  obtain ⟨k, t, d, hrun, ht, hphase, hload, hpending⟩ :
      ∃ k t d, steps kernelStep fetchedExec twoTasks = .ok k ∧ t ∈ k.tasks ∧
        t.phase = .asleep .map 0 ∧ k.dkms.load t.dkm = .ok d ∧ d.pendingReq = true :=
    ⟨_, _, _, rfl, List.mem_cons_of_mem _ List.mem_cons_self, rfl, rfl, rfl⟩
  exact ⟨k, t, d, hrun, ht, hphase, hload, hpending,
    sleeper_answerable twoTasks initial_twoTasks fetchedExec k hrun orderly_fetchedExec t ht .map 0 d
      hphase hload hpending⟩

def unregWhileAsleep : List KAction :=
  [.ctl 10 (.ikcdReg 10), .exec 20 [] [], .ctl 10 .ikcdUnreg]

theorem sleeper_stranded :
    Initial twoTasks ∧ ∃ k t d, steps kernelStep unregWhileAsleep twoTasks = .ok k ∧ t ∈ k.tasks ∧
      t.phase = .asleep .map 0 ∧ k.dkms.load t.dkm = .ok d ∧ d.pendingReq = true ∧
      ¬ ((d.reqState = .inDoReq ∧ 0 < k.ikcdPid) ∨ (0, k.ikcdPid) ∈ k.delivered) := by
  refine ⟨initial_twoTasks, _, _, _, rfl, List.mem_cons_of_mem _ List.mem_cons_self, rfl, rfl, rfl, ?_⟩
  rintro (⟨-, hpos⟩ | hmem)
  · revert hpos
    decide
  · cases hmem

end Dkmp.Dkmke
