import Dkmp.Ikcd.MainLoop

/-! # The main thread comes to rest

Whatever the others do, the main thread of `ikcd` needs a bounded number of own
steps until it sleeps in `sigsuspend` again. A request that nobody fetched is then
left only in one case: the signal for it was handled after the registration and
before the first `sigsuspend`, where the flag wakes nobody.
-/

namespace Dkmp.Ikcd

open Machine Dkmke

/-- What the main thread does by itself: its steps and its handler of `SIGUSR2`. -/
def Own : DaemonAction → Prop
  | .main _ => True
  | .sigusr2 => True
  | _ => False

def MainPhase.rank : MainPhase → Nat
  | .suspended => 0
  | .exited => 0
  | .fetching => 1
  | .registered => 1
  | .starting => 2
  | .cleared => 2
  | .answering _ _ => 2
  | .queueing _ => 2
  | .flagged => 3
  | .mapping _ => 3
  | .creating _ => 3
  | .resumed => 4

namespace Daemon

variable {s s' : Daemon}

def unfetched (s : Daemon) : Nat := s.kernel.calls - s.kernel.handedOut.length

/-- A request takes the main thread at most three steps, a signal at most four until
it fetches. -/
def rank (s : Daemon) : Nat := s.phase.rank + (if s.pending then 8 else 0) + 5 * s.unfetched

theorem phase_rank_le (p : MainPhase) : p.rank ≤ 4 := by
  cases p <;> simp only [MainPhase.rank] <;> omega

theorem rank_le (s : Daemon) : s.rank ≤ 5 * s.unfetched + 12 := by
  have hphase := phase_rank_le s.phase
  unfold rank
  split <;> omega

theorem handedOut_le {k : Kernel} (h : KInv k) : k.handedOut.length ≤ k.calls := by
  have hsub : k.handedOut ⊆ List.range k.calls := fun n hn => List.mem_range.mpr (h.bound n hn)
  simpa only [List.length_range] using (List.subperm_of_subset h.nodup hsub).length_le

theorem rank_lt {p q : MainPhase} (hold : s.phase = p) (hnew : s'.phase = q)
    (hphase : q.rank < p.rank) (hpending : s'.pending = s.pending)
    (hcalls : s'.kernel.calls = s.kernel.calls)
    (hhanded : s'.kernel.handedOut = s.kernel.handedOut) : s'.rank < s.rank := by
  unfold rank unfetched
  rw [hold, hnew, hpending, hcalls, hhanded]
  omega

theorem Inv.main_rank (h : s.Inv) {bestNode : CStr} (hstep : mainStep s bestNode = .ok s') :
    s'.rank < s.rank := by
  unfold mainStep at hstep
  cases hphase : s.phase with
  | starting =>
      simp only [hphase] at hstep
      obtain ⟨k, hreg, hcont⟩ := bind_eq_ok hstep
      cases hcont
      obtain ⟨t, -, hset⟩ := bind_eq_ok hreg
      cases hset
      exact rank_lt hphase rfl (by simp [MainPhase.rank]) rfl rfl rfl
  | registered =>
      simp only [hphase] at hstep
      cases hstep
      exact rank_lt hphase rfl (by simp [MainPhase.rank]) rfl rfl rfl
  | suspended =>
      simp only [hphase] at hstep
      cases hstep
  | resumed =>
      simp only [hphase] at hstep
      cases hstep
      refine rank_lt hphase rfl ?_ rfl rfl rfl
      split <;> simp [MainPhase.rank]
  | flagged =>
      simp only [hphase] at hstep
      cases hstep
      exact rank_lt hphase rfl (by simp [MainPhase.rank]) rfl rfl rfl
  | cleared =>
      simp only [hphase] at hstep
      cases hstep
      exact rank_lt hphase rfl (by simp [MainPhase.rank]) rfl rfl rfl
  | fetching =>
      simp only [hphase] at hstep
      obtain ⟨⟨k, result⟩, hget, hcont⟩ := bind_eq_ok hstep
      cases result with
      | none =>
          cases hcont
          rcases h.kernel.getReq_cases hget with ⟨-, rfl, -⟩ | ⟨t, -, _, _, _, _, -, -, -, -, -, -, hsome, -⟩
          · exact rank_lt hphase rfl (by simp [MainPhase.rank]) rfl rfl rfl
          · cases hsome
      | some found =>
          obtain ⟨pid, req⟩ := found
          have hmarks := h.kernel.getReq_marks hget
          have hle := handedOut_le (h.kernel.getReq hget)
          have hcalls := hmarks.calls
          have hhanded := hmarks.handed
          have hlower : ∀ p : MainPhase, p.rank ≤ 3 →
              ({ s with kernel := k, phase := p } : Daemon).rank < s.rank := by
            intro p hp
            have hfetching : MainPhase.fetching.rank = 1 := rfl
            simp only [rank, unfetched, hphase, hfetching]
            omega
          simp only at hcont
          split at hcont
          · cases hcont
            exact hlower (.mapping pid) (Nat.le_refl _)
          · next hmap =>
            rw [if_pos (hmarks.kind.resolve_left hmap)] at hcont
            cases hcont
            exact hlower (.creating pid) (Nat.le_refl _)
  | mapping oPid =>
      simp only [hphase] at hstep
      obtain ⟨⟨n, args⟩, -, hcont⟩ := bind_eq_ok hstep
      simp only at hcont
      split at hcont
      · split at hcont
        · cases hcont
          exact rank_lt hphase rfl (by simp [MainPhase.rank]) rfl rfl rfl
        · cases hcont
      · cases hcont
  | answering oPid appName =>
      simp only [hphase] at hstep
      obtain ⟨⟨k, n⟩, hput, hcont⟩ := bind_eq_ok hstep
      cases hcont
      rcases h.kernel.putResp_cases hput with rfl | ⟨u, -, _, _, a, e, e', -, -, -, -, -, -, -, rfl⟩
      · exact rank_lt hphase rfl (by simp [MainPhase.rank]) rfl rfl rfl
      · exact rank_lt hphase rfl (by simp [MainPhase.rank]) rfl rfl rfl
  | creating oPid =>
      simp only [hphase] at hstep
      obtain ⟨fetched, -, hcont⟩ := bind_eq_ok hstep
      cases hcont
      exact rank_lt hphase rfl (by simp [MainPhase.rank]) rfl rfl rfl
  | queueing fetched =>
      simp only [hphase] at hstep
      cases hstep
      exact rank_lt hphase rfl (by simp [MainPhase.rank]) rfl rfl rfl
  | exited =>
      simp only [hphase] at hstep
      cases hstep

/-- Each step of its own brings the main thread nearer to `sigsuspend`. -/
theorem Inv.own_rank (h : s.Inv) {act : DaemonAction} (hown : Own act)
    (hstep : daemonStep s act = .ok s') : s'.rank < s.rank := by
  cases act with
  | main bestNode => exact h.main_rank hstep
  | sigusr2 =>
      simp only [daemonStep] at hstep
      split at hstep
      · next hdeliver =>
        cases hstep
        have hle : s.phase.interrupted.rank ≤ 4 := phase_rank_le _
        simp only [rank, unfetched, if_pos hdeliver.1]
        simp only [Bool.false_eq_true, if_false]
        omega
      · cases hstep
  | sigterm => exact hown.elim
  | dequeue w => exact hown.elim
  | respond w rPid => exact hown.elim
  | task act => exact hown.elim

theorem getArgs_ne_blocked (k : Kernel) (pid req : Int) :
    dkmGetArgs k pid req ≠ .error .blocked := by
  unfold dkmGetArgs
  split
  · nofun
  · refine bind_ne_error (Heap.load_ne_blocked _ _) ?_
    intro d _
    repeat' split
    all_goals nofun

theorem putResp_ne_blocked (k : Kernel) (pid req : Int) (arg : RespArg) :
    dkmPutResp k pid req arg ≠ .error .blocked := by
  have honDkm : ∀ p f, k.onDkm p f ≠ .error .blocked := fun p f =>
    bind_ne_error (Heap.update_ne_blocked _ _ _) nofun
  unfold dkmPutResp
  split
  · nofun
  · refine bind_ne_error (Heap.load_ne_blocked _ _) ?_
    intro d _
    split
    · nofun
    · split
      · split
        · nofun
        · split
          · exact bind_ne_error (honDkm _ _) nofun
          · nofun
      · split
        · exact bind_ne_error (honDkm _ _) nofun
        · nofun

/-- The main thread waits nowhere but in `sigsuspend`. -/
theorem Inv.main_blocked (h : s.Inv) {bestNode : CStr}
    (hblocked : mainStep s bestNode = .error .blocked) : s.phase = .suspended := by
  unfold mainStep at hblocked
  cases hphase : s.phase with
  | starting =>
      obtain ⟨t, ht, hpid, huser⟩ := h.tasked.main
      have hfind := findTaskByPid_mem h.kernel ht
      simp only [hphase, kernelStep, Kernel.running, ← hpid, hfind, huser, if_true, ok_bind, doDkmctl] at hblocked
      cases hblocked
  | registered =>
      simp only [hphase] at hblocked
      cases hblocked
  | suspended => rfl
  | resumed =>
      simp only [hphase] at hblocked
      cases hblocked
  | flagged =>
      simp only [hphase] at hblocked
      cases hblocked
  | cleared =>
      simp only [hphase] at hblocked
      cases hblocked
  | fetching =>
      obtain ⟨k, result, hget⟩ := h.kernel.getReq_ok s.self
      simp only [hphase, hget, ok_bind] at hblocked
      split at hblocked
      · cases hblocked
      · split at hblocked
        · cases hblocked
        · split at hblocked
          · cases hblocked
          · split at hblocked <;> cases hblocked
  | mapping oPid =>
      simp only [hphase] at hblocked
      refine absurd hblocked (bind_ne_error (getArgs_ne_blocked _ _ _) ?_)
      rintro ⟨n, args⟩ - hargs
      simp only at hargs
      split at hargs
      · split at hargs <;> cases hargs
      · cases hargs
  | answering oPid appName =>
      simp only [hphase] at hblocked
      refine absurd hblocked (bind_ne_error (putResp_ne_blocked _ _ _ _) ?_)
      rintro ⟨k, n⟩ - hput
      cases hput
  | creating oPid =>
      simp only [hphase] at hblocked
      refine absurd hblocked (bind_ne_error (bind_ne_error (getArgs_ne_blocked _ _ _) ?_) ?_)
      · rintro ⟨n, args⟩ - hargs
        simp only at hargs
        split at hargs
        · split at hargs <;> cases hargs
        · cases hargs
      · intro fetched _ hfetched
        cases hfetched
  | queueing fetched =>
      simp only [hphase] at hblocked
      cases hblocked
  | exited =>
      simp only [hphase] at hblocked
      cases hblocked

end Daemon

/-! ## Requests that nobody fetched -/

/-- The main thread can do nothing by itself. -/
def AtRest (s : Daemon) : Prop := ∀ act, Own act → daemonStep s act = .error .blocked

theorem atRest_iff {s : Daemon} (h : s.Inv) :
    AtRest s ↔ s.phase = .suspended ∧ s.pending = false := by
  constructor
  · intro hrest
    have hphase := h.main_blocked (hrest (.main []) trivial)
    refine ⟨hphase, ?_⟩
    have hhandler := hrest .sigusr2 trivial
    simp only [daemonStep, hphase] at hhandler
    split at hhandler
    · cases hhandler
    · next hno => exact Bool.eq_false_iff.mpr fun hpending => hno ⟨hpending, .inr rfl⟩
  · rintro ⟨hphase, hpending⟩ act hown
    cases act with
    | main bestNode => simp only [daemonStep, mainStep, hphase]
    | sigusr2 => simp only [daemonStep, hpending, Bool.false_eq_true, false_and, if_false]
    | sigterm => exact hown.elim
    | dequeue w => exact hown.elim
    | respond w rPid => exact hown.elim
    | task act => exact hown.elim

/-- The signal for a request is not handled between the registration and the first
`sigsuspend`. -/
def HandledLater (s : Daemon) (act : DaemonAction) : Prop :=
  act = .sigusr2 → s.phase ≠ .registered

/-- A flag that is set is one that the main thread will read. -/
def FlagHeeded (s : Daemon) : Prop :=
  match s.phase with
  | .starting => s.pending = false ∧ s.usr2Flag = false
  | .registered => s.usr2Flag = false
  | .suspended => s.blocked = true ∨ s.usr2Flag = false
  | .resumed => True
  | .flagged => True
  | .cleared => True
  | _ => s.blocked = true

theorem FlagHeeded.main {s s' : Daemon} (h : FlagHeeded s) {bestNode : CStr}
    (hstep : mainStep s bestNode = .ok s') : FlagHeeded s' := by
  unfold mainStep at hstep
  cases hphase : s.phase <;> simp only [FlagHeeded, hphase] at h <;> simp only [hphase] at hstep
  case starting =>
    obtain ⟨k, -, hcont⟩ := bind_eq_ok hstep
    cases hcont
    exact h.2
  case registered =>
    cases hstep
    exact .inr h
  case suspended => cases hstep
  case resumed =>
    cases hstep
    by_cases hflag : s.usr2Flag = true
    · rw [if_pos hflag]
      trivial
    · rw [if_neg hflag]
      exact .inr (Bool.eq_false_iff.mpr hflag)
  case flagged =>
    cases hstep
    trivial
  case cleared =>
    cases hstep
    rfl
  case fetching =>
    obtain ⟨⟨k, result⟩, -, hcont⟩ := bind_eq_ok hstep
    cases result with
    | none =>
        cases hcont
        exact .inl h
    | some found =>
        simp only at hcont
        split at hcont
        · cases hcont
          exact h
        · split at hcont
          · cases hcont
            exact h
          · split at hcont <;> cases hcont <;> exact h
  case mapping =>
    obtain ⟨⟨n, args⟩, -, hcont⟩ := bind_eq_ok hstep
    simp only at hcont
    split at hcont
    · split at hcont
      · cases hcont
        exact h
      · cases hcont
    · cases hcont
  case answering =>
    obtain ⟨_, -, hcont⟩ := bind_eq_ok hstep
    cases hcont
    exact h
  case creating =>
    obtain ⟨fetched, -, hcont⟩ := bind_eq_ok hstep
    cases hcont
    exact h
  case queueing =>
    cases hstep
    exact h
  case exited => cases hstep

/-- Neither the kernel nor who holds a request counts, and a signal that becomes
pending does only before the registration. -/
theorem FlagHeeded.keep {s s' : Daemon} (h : FlagHeeded s) (hphase : s'.phase = s.phase)
    (hflag : s'.usr2Flag = s.usr2Flag) (hblocked : s'.blocked = s.blocked)
    (hpending : s.phase = .starting → s'.pending = s.pending) : FlagHeeded s' := by
  unfold FlagHeeded at h ⊢
  rw [hphase, hflag, hblocked]
  cases hold : s.phase <;> simp only [hold] at h ⊢ <;> try exact h
  exact ⟨(hpending hold).trans h.1, h.2⟩

theorem FlagHeeded.step {s s' : Daemon} (h : FlagHeeded s) (hinv : s.Inv) {act : DaemonAction}
    (hlater : HandledLater s act) (hstep : daemonStep s act = .ok s') : FlagHeeded s' := by
  cases act with
  | main bestNode => exact h.main hstep
  | sigusr2 =>
      simp only [daemonStep] at hstep
      split at hstep
      · next hdeliver =>
        cases hstep
        cases hphase : s.phase <;> simp only [FlagHeeded, hphase, MainPhase.interrupted] at h ⊢ <;>
          try exact h
        case starting =>
          rw [h.1] at hdeliver
          cases hdeliver.1
        case registered => exact absurd hphase (hlater rfl)
      · cases hstep
  | sigterm =>
      obtain ⟨k, -, hcont⟩ := bind_eq_ok hstep
      cases hcont
      cases hphase : s.phase <;> simp only [FlagHeeded, hphase, MainPhase.interrupted] at h ⊢ <;> exact h
  | dequeue w =>
      simp only [daemonStep] at hstep
      split at hstep
      · cases hstep
        exact h
      · cases hstep
        exact h.keep rfl rfl rfl fun _ => rfl
      · cases hstep
  | respond w rPid =>
      simp only [daemonStep] at hstep
      split at hstep
      · cases hstep
      · obtain ⟨⟨k, n⟩, -, hcont⟩ := bind_eq_ok hstep
        cases hcont
        exact h.keep rfl rfl rfl fun _ => rfl
  | task act =>
      simp only [daemonStep] at hstep
      split at hstep
      · obtain ⟨k, -, hcont⟩ := bind_eq_ok hstep
        cases hcont
        refine h.keep rfl rfl rfl ?_
        intro hphase
        have hnone := hinv.started hphase
        have hpos := hinv.positive
        have hquiet : s.signalled k = false :=
          decide_eq_false fun hsignal => by
            have hself := hsignal.2.1
            omega
        change (s.pending || s.signalled k) = s.pending
        rw [hquiet, Bool.or_false]
      · cases hstep

section Runs

variable {k : Kernel} {ikcd : Int} {hostname : CStr} {s : Daemon}

/-- From any state of any run the main thread is at rest after a bounded number of own
steps: five for each request that was made and not handed out, and twelve. Then no
request is left unfetched, except where the flag was set before signals were ever
blocked. -/
theorem main_settles (k : Kernel) (ikcd : Int) (hostname : CStr) (hboot : Boot k ikcd)
    (as : List DaemonAction) (s : Daemon)
    (hrun : steps daemonStep as (.start k ikcd hostname) = .ok s)
    (own : List DaemonAction) (hown : ∀ act ∈ own, Own act) (s' : Daemon)
    (hafter : steps daemonStep own s = .ok s') :
    own.length ≤ 5 * (s.kernel.calls - s.kernel.handedOut.length) + 12 ∧
      (AtRest s' → s'.usr2Flag = false ∨ s'.blocked = true →
        ∀ t n d, Sleeper s'.kernel t n d → d.reqState = .inGetReq) := by
  have h := hboot.reached hrun
  have halong : Along daemonStep (fun _ act => Own act) own s := along_of_forall hown s
  constructor
  · have hlower : ∀ (u : Daemon) (act : DaemonAction) (u' : Daemon), u.Inv → Own act →
        daemonStep u act = .ok u' → u'.Inv ∧ u'.rank < u.rank :=
      fun _ _ _ hu hact hstep => ⟨hu.step hstep, hu.own_rank hact hstep⟩
    have hlength := steps_ranked Daemon.Inv Daemon.rank hlower own s s' h halong hafter
    have hrank := s.rank_le
    unfold Daemon.unfetched at hrank
    omega
  · intro hrest hflag t n d hs
    have h' : s'.Inv := steps_invariant Daemon.Inv (fun _ _ _ hu _ hstep => hu.step hstep) own s s' h
      (along_true own s) hafter
    obtain ⟨hphase, hpending⟩ := (atRest_iff h').mp hrest
    rcases h'.kernel.sleeper_state hs with hstate | hstate
    · have hatt := h'.attentive t n d hs hstate
      simp only [Attentive, hphase, hpending, Bool.false_eq_true, false_or] at hatt
      rcases hflag with hflag | hblocked
      · rw [hflag] at hatt
        cases hatt.1
      · rw [hblocked] at hatt
        cases hatt.2
    · exact hstate

/-- When every signal is handled after the first `sigsuspend` began, a request that
nobody fetched never finds the main thread at rest. -/
theorem request_heeded (k : Kernel) (ikcd : Int) (hostname : CStr) (hboot : Boot k ikcd)
    (as : List DaemonAction) (s : Daemon)
    (hrun : steps daemonStep as (.start k ikcd hostname) = .ok s)
    (hlater : Along daemonStep HandledLater as (.start k ikcd hostname)) (t : Task) (n : Nat)
    (d : DkmStruct) (hs : Sleeper s.kernel t n d) (hstate : d.reqState = .inDoReq) :
    ¬ AtRest s := by
  have hstart : FlagHeeded (.start k ikcd hostname) := ⟨rfl, rfl⟩
  have hboth : s.Inv ∧ FlagHeeded s :=
    steps_invariant (fun u => u.Inv ∧ FlagHeeded u)
      (fun _ _ _ hu hact hstep => ⟨hu.1.step hstep, hu.2.step hu.1 hact hstep⟩) as _ s
      ⟨hboot.inv hostname, hstart⟩ hlater hrun
  intro hrest
  obtain ⟨hphase, hpending⟩ := (atRest_iff hboth.1).mp hrest
  have hatt := hboth.1.attentive t n d hs hstate
  have hheeded := hboth.2
  simp only [Attentive, hphase, hpending, Bool.false_eq_true, false_or] at hatt
  simp only [FlagHeeded, hphase, hatt.1, hatt.2, Bool.false_eq_true, reduceCtorEq, or_self] at hheeded

end Runs

/-- The main thread finds no other request, handles the signal of the last one, looks once
more and rests. -/
def restOwn : List DaemonAction := [.main [], .sigusr2, .main [], .main [], .main [], .main []]

theorem main_settles_rest :
    ∃ s s' t n d, steps daemonStep creationDequeued (.start twoTasks 10 []) = .ok s ∧
      steps daemonStep restOwn s = .ok s' ∧ AtRest s' ∧
      restOwn.length ≤ 5 * (s.kernel.calls - s.kernel.handedOut.length) + 12 ∧
      Sleeper s'.kernel t n d ∧ d.reqState = .inGetReq := by
  obtain ⟨s, s', t, n, d, hrun, hafter, hphase, hpending, hblocked, hs⟩ : ∃ s s' t n d,
      steps daemonStep creationDequeued (.start twoTasks 10 []) = .ok s ∧
      steps daemonStep restOwn s = .ok s' ∧ s'.phase = .suspended ∧ s'.pending = false ∧ s'.blocked = true ∧
      Sleeper s'.kernel t n d :=
    ⟨_, _, _, _, _, rfl, rfl, rfl, rfl, rfl, .tail _ (.head _), ⟨_, rfl⟩, rfl, rfl⟩
  have hown : ∀ act ∈ restOwn, Own act := by
    intro act hact
    simp only [restOwn, List.mem_cons, List.not_mem_nil, or_false] at hact
    rcases hact with rfl | rfl | rfl | rfl | rfl | rfl <;> trivial
  obtain ⟨hlength, hfetched⟩ := main_settles twoTasks 10 [] boot_twoTasks _ s hrun restOwn hown s' hafter
  have hrest : AtRest s' := by
    have hboth : steps daemonStep (creationDequeued ++ restOwn) (.start twoTasks 10 []) = .ok s' := by
      rw [steps_append, hrun]
      exact hafter
    exact (atRest_iff (boot_twoTasks.reached hboth)).mpr ⟨hphase, hpending⟩
  exact ⟨s, s', t, n, d, hrun, hafter, hrest, hlength, hs, hfetched hrest (.inr hblocked) t n d hs⟩

theorem request_heeded_pending :
    ∃ s t n d, steps daemonStep askedWhileSuspended (.start twoTasks 10 []) = .ok s ∧
      Sleeper s.kernel t n d ∧ d.reqState = .inDoReq ∧ ¬ AtRest s := by
  obtain ⟨s, t, n, d, hrun, hs, hstate⟩ : ∃ s t n d,
      steps daemonStep askedWhileSuspended (.start twoTasks 10 []) = .ok s ∧
      Sleeper s.kernel t n d ∧ d.reqState = .inDoReq :=
    ⟨_, _, _, _, rfl, ⟨.tail _ (.head _), ⟨_, rfl⟩, rfl, rfl⟩, rfl⟩
  have hlater : Along daemonStep HandledLater askedWhileSuspended (.start twoTasks 10 []) :=
    ⟨nofun, fun _ _ => ⟨nofun, fun _ _ => ⟨nofun, fun _ _ => trivial⟩⟩⟩
  exact ⟨s, t, n, d, hrun, hs, hstate,
    request_heeded twoTasks 10 [] boot_twoTasks _ s hrun hlater t n d hs hstate⟩

/-- When a request is made and its signal handled before the first `sigsuspend`, it is not
fetched while no other one is made. -/
example :
    ∃ s t n d, steps daemonStep [.main [], .task (.exec 20 [] []), .sigusr2, .main []] (.start twoTasks 10 []) = .ok s ∧
      Sleeper s.kernel t n d ∧ d.reqState = .inDoReq ∧ s.phase = .suspended ∧ s.pending = false :=
  ⟨_, _, _, _, rfl, ⟨.tail _ (.head _), ⟨_, rfl⟩, rfl, rfl⟩, rfl, rfl, rfl⟩

end Dkmp.Ikcd
