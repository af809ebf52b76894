import Dkmp.Dkmke.Registration

/-! # The tasks that wait

How each step changes the set of tasks that sleep with a pending request: what
another task does adds at most a request that nobody fetched yet, `DKM_GET_REQ`
marks one request as fetched, and `DKM_PUT_RESP` takes one out.
-/

namespace Dkmp.Dkmke

open Machine

variable {k k' : Kernel} {t u : Task} {a : Nat} {d d' : DkmStruct} {serial : Nat}

theorem sleeper_of_cell {site : CallSite} (ht : t ∈ k.tasks) (hphase : t.phase = .asleep site serial)
    (hp : t.dkm = some a) (hd : k.dkms.cell a = some d) (hpending : d.pendingReq = true) :
    Sleeper k t serial d := by
  refine ⟨ht, ⟨site, hphase⟩, ?_, hpending⟩
  rw [hp]
  exact Heap.load_some hd

theorem KInv.sleeper_cases (h : KInv k) (hs : Sleeper k t serial d) :
    ∃ site a, t.phase = .asleep site serial ∧ t.dkm = some a ∧ k.dkms.cell a = some d ∧
      Waiting k d site serial := by
  obtain ⟨ht, ⟨site, hphase⟩, hload, -⟩ := hs
  obtain ⟨a, hp, hd⟩ := Heap.load_eq_ok hload
  exact ⟨site, a, hphase, hp, hd, h.waiting_at ht hphase hp hd⟩

/-- A task sleeps in one call, with one structure. -/
theorem KInv.sleeper_unique (h : KInv k) {n m : Nat} {e : DkmStruct} (ht : Sleeper k t n d)
    (hu : Sleeper k u m e) (hpid : t.pid = u.pid) : t = u ∧ n = m ∧ d = e := by
  have htu := h.eq_of_pid ht.1 hu.1 hpid
  subst htu
  obtain ⟨-, ⟨site, hphase⟩, hload, -⟩ := ht
  obtain ⟨-, ⟨site', hphase'⟩, hload', -⟩ := hu
  rw [hphase] at hphase'
  rw [hload] at hload'
  cases hphase'
  cases hload'
  exact ⟨rfl, rfl, rfl⟩

theorem KInv.sleeper_state (h : KInv k) (hs : Sleeper k t serial d) :
    d.reqState = .inDoReq ∨ d.reqState = .inGetReq := by
  obtain ⟨site, a, -, -, -, hwait⟩ := h.sleeper_cases hs
  rcases hwait.pending hs.2.2.2 with ⟨hstate, -⟩ | ⟨hstate, -⟩
  · exact .inl hstate
  · exact .inr hstate

/-! ## Steps of other tasks -/

structure Adds (k k' : Kernel) : Prop where
  kept : ∀ t serial d, Sleeper k t serial d → Sleeper k' t serial d
  new : ∀ t serial d, Sleeper k' t serial d → Sleeper k t serial d ∨
    (d.reqState = .inDoReq ∧ k.calls < k'.calls ∧ 0 < k.ikcdPid)
  calls : k.calls ≤ k'.calls
  ikcd : k'.ikcdPid = k.ikcdPid
  handed : k'.handedOut = k.handedOut

theorem Adds.refl (k : Kernel) : Adds k k where
  kept := fun _ _ _ hs => hs
  new := fun _ _ _ hs => .inl hs
  calls := Nat.le_refl _
  ikcd := rfl
  handed := rfl

theorem KInv.sleeper_after (h : KInv k) (ht : t ∈ k.tasks) (hp : t.dkm = some a)
    (hd : k.dkms.cell a = some d) (phase : Phase) (calls : Nat) (returns : List Returned)
    (compared : List Bool) {e : DkmStruct} (hne : u.pid ≠ t.pid) :
    Sleeper (k.after t.pid a d' phase calls returns compared) u serial e ↔ Sleeper k u serial e := by
  constructor
  · rintro ⟨hu, hsite, hload, hpending⟩
    rcases h.mem_setPhase ht hu with rfl | ⟨hu', -⟩
    · exact absurd rfl hne
    · have hother : u.dkm ≠ some a := fun hua => hne (h.unshared u hu' t ht a hua hp)
      have hload' : (k.set a d').dkms.load u.dkm = .ok e := hload
      rw [load_set hd, if_neg hother] at hload'
      exact ⟨hu', hsite, hload', hpending⟩
  · intro hs
    obtain ⟨site, b, hphase, hb, he, -⟩ := h.sleeper_cases hs
    obtain ⟨hmem, hcell⟩ := h.kept_after hs.1 ht hne hb he hp hd phase calls returns compared
    exact sleeper_of_cell hmem hphase hb hcell hs.2.2.2

theorem KInv.adds_after (h : KInv k) (ht : t ∈ k.tasks) (hp : t.dkm = some a)
    (hd : k.dkms.cell a = some d) (hawake : ∀ n e, ¬ Sleeper k t n e) {phase : Phase} {calls : Nat}
    (hlands : Lands k d' phase calls) (returns : List Returned) (compared : List Bool) :
    Adds k (k.after t.pid a d' phase calls returns compared) where
  kept := by
    intro u n e hs
    refine (h.sleeper_after ht hp hd phase calls returns compared ?_).mpr hs
    intro hpid
    rw [h.eq_of_pid hs.1 ht hpid] at hs
    exact hawake n e hs
  new := by
    intro u n e hs
    by_cases hpid : u.pid = t.pid
    · obtain ⟨hu, ⟨site, hsite⟩, hload, -⟩ := hs
      rcases h.mem_setPhase ht hu with rfl | ⟨-, hne⟩
      · have hload' : (k.set a d').dkms.load t.dkm = .ok e := hload
        rw [load_set hd, if_pos hp, Except.ok.injEq] at hload'
        rcases hlands.2 with ⟨rfl, -⟩ | ⟨site', m, rfl, -, hle, hlt, hasking, hpos⟩
        · cases hsite
        · exact .inr ⟨hload' ▸ hasking.state, Nat.lt_of_le_of_lt hle hlt, hpos⟩
      · exact absurd hpid hne
    · exact .inl ((h.sleeper_after ht hp hd phase calls returns compared hpid).mp hs)
  calls := hlands.1
  ikcd := rfl
  handed := rfl

theorem not_sleeper_of_user (huser : t.phase = .user) (n : Nat) (e : DkmStruct) :
    ¬ Sleeper k t n e := by
  rintro ⟨-, ⟨site, hsite⟩, -⟩
  rw [huser] at hsite
  cases hsite

theorem KInv.set_eq_after (h : KInv k) (ht : t ∈ k.tasks) (huser : t.phase = .user) (a : Nat)
    (d' : DkmStruct) : k.set a d' = k.after t.pid a d' .user k.calls [] [] := by
  have htasks := congrArg Kernel.tasks (h.setPhase_self ht)
  rw [huser] at htasks
  simp only [Kernel.setPhase] at htasks
  simp only [Kernel.after, Kernel.setPhase, Kernel.set, List.nil_append, htasks]

theorem KInv.adds_fork (h : KInv k) (ht : t ∈ k.tasks) (huser : t.phase = .user) (child : Int) :
    Adds k (doFork k t child) where
  kept := by
    intro u n e hs
    obtain ⟨site, b, hphase, hb, he, -⟩ := h.sleeper_cases hs
    have hne := h.asleep_pid_ne hs.1 hphase ht huser
    have hmem : u ∈ (doFork k t child).tasks :=
      List.mem_append_left _ (List.mem_map.mpr ⟨u, hs.1, if_neg hne⟩)
    exact sleeper_of_cell hmem hphase hb (Heap.alloc_old _ he) hs.2.2.2
  new := by
    intro u n e hs
    obtain ⟨hu, ⟨site, hphase⟩, hload, hpending⟩ := hs
    rcases h.mem_doFork ht hu with rfl | rfl | ⟨hu', -⟩
    · rw [huser] at hphase
      cases hphase
    · cases hphase
    · obtain ⟨b, f, hb, hf, -⟩ := h.asleep_waiting hu' hphase
      have hold : (k.dkms.alloc freshDkm).load u.dkm = .ok f := by
        rw [hb]
        exact Heap.load_some (Heap.alloc_old _ hf)
      have hload' : (k.dkms.alloc freshDkm).load u.dkm = .ok e := hload
      rw [hold, Except.ok.injEq] at hload'
      exact .inl (sleeper_of_cell hu' hphase hb (hload' ▸ hf) hpending)
  calls := Nat.le_refl _
  ikcd := rfl
  handed := rfl

def NoCommand : KAction → Prop
  | .ctl _ _ => False
  | _ => True

/-- What another task does adds at most a request that was not fetched yet. -/
theorem KInv.adds_step (h : KInv k) {act : KAction} (hact : NoCommand act)
    (hstep : kernelStep k act = .ok k') : Adds k k' := by
  cases act with
  | fork pid child =>
      obtain ⟨t, hrunning, hcont⟩ := bind_eq_ok hstep
      obtain ⟨ht, -, huser⟩ := mem_of_running hrunning
      split at hcont
      · cases hcont
      · rw [← Except.ok.inj hcont]
        exact h.adds_fork ht huser child
  | exec pid filename garbage =>
      obtain ⟨t, hrunning, hcont⟩ := bind_eq_ok hstep
      obtain ⟨ht, -, huser⟩ := mem_of_running hrunning
      have hawake := not_sleeper_of_user (k := k) huser
      rcases h.execve_cases ht huser hcont with
        rfl | ⟨a, d, hp, hd, ⟨d', rfl, hreq⟩ | ⟨d', phase, calls, returns, compared, rfl, hlands, -⟩⟩
      · exact .refl _
      · obtain ⟨e, he, hnop⟩ := h.user_req ht huser hp
        rw [hd, Option.some.injEq] at he
        rw [h.set_eq_after ht huser a d']
        have hlands : Lands k d' .user k.calls :=
          ⟨Nat.le_refl _, .inl ⟨rfl, by rw [hreq, he, hnop]⟩⟩
        exact h.adds_after ht hp hd hawake hlands [] []
      · exact h.adds_after ht hp hd hawake hlands returns compared
  | wake pid =>
      simp only [kernelStep] at hstep
      split at hstep
      · next t hfind =>
        obtain ⟨ht, -⟩ := mem_of_findTaskByPid hfind
        obtain ⟨site, serial, a, d, -, hp, hd, -, hcases⟩ := h.wake_cases ht hstep
        rcases hcases with ⟨-, rfl⟩ | ⟨hclosed, d', phase, calls, returns, compared, rfl, hlands, -, -⟩
        · exact .refl _
        · have hawake : ∀ n e, ¬ Sleeper k t n e := by
            rintro n e ⟨-, -, hload, hpending⟩
            rw [hp, Heap.load_some hd, Except.ok.injEq] at hload
            rw [← hload, hclosed] at hpending
            cases hpending
          exact h.adds_after ht hp hd hawake hlands _ compared
      · cases hstep
  | exit pid =>
      obtain ⟨t, hrunning, hcont⟩ := bind_eq_ok hstep
      obtain ⟨ht, -, huser⟩ := mem_of_running hrunning
      rw [← Except.ok.inj hcont]
      refine ⟨?_, ?_, Nat.le_refl _, rfl, rfl⟩
      · intro u n e hs
        obtain ⟨site, b, hphase, -⟩ := h.sleeper_cases hs
        have hne := h.asleep_pid_ne hs.1 hphase ht huser
        exact ⟨List.mem_filter.mpr ⟨hs.1, by simpa using hne⟩, hs.2⟩
      · intro u n e hs
        exact .inl ⟨List.mem_of_mem_filter hs.1, hs.2⟩
  | ctl caller cmd => exact hact.elim

/-! ## Commands of the daemon -/

theorem KInv.sleeper_set (h : KInv k) (ht : t ∈ k.tasks) (hp : t.dkm = some a)
    (hd : k.dkms.cell a = some d) (d' : DkmStruct) {e : DkmStruct} (hne : u.pid ≠ t.pid) :
    Sleeper (k.set a d') u serial e ↔ Sleeper k u serial e := by
  refine and_congr_right fun hu => and_congr_right fun _ => and_congr_left fun _ => ?_
  have hother : u.dkm ≠ some a := fun hua => hne (h.unshared u hu t ht a hua hp)
  rw [load_set hd, if_neg hother]

theorem req_kind {site : CallSite} (h : site ≠ .direct) :
    site.req = mapReq ∨ site.req = procCreatReq := by
  cases site with
  | map => exact .inl rfl
  | creat => exact .inr rfl
  | direct => exact absurd rfl h

/-- What a `DKM_GET_REQ` that finds a request changes: one sleeper, now marked. -/
structure Marks (k k' : Kernel) (pid req : Int) : Prop where
  found : ∃ t n d, t.pid = pid ∧ Sleeper k t n d ∧ d.req = req ∧ d.reqState = .inDoReq ∧
    Sleeper k' t n { d with reqState := .inGetReq }
  others : ∀ u m e, u.pid ≠ pid → (Sleeper k' u m e ↔ Sleeper k u m e)
  kind : req = mapReq ∨ req = procCreatReq
  calls : k'.calls = k.calls
  ikcd : k'.ikcdPid = k.ikcdPid
  handed : k'.handedOut.length = k.handedOut.length + 1

theorem KInv.getReq_marks (h : KInv k) {caller pid req : Int}
    (hrun : dkmGetReq k caller = .ok (k', some (pid, req))) : Marks k k' pid req := by
  rcases h.getReq_cases hrun with
    ⟨hnone, -, -⟩ | ⟨t, ht, site, serial, a, d, hphase, hp, hd, hfetch, hwait, -, hresult, rfl⟩
  · cases hnone
  · cases hresult
    have hcell := Kernel.cell_set hd { d with reqState := .inGetReq } a
    rw [if_pos rfl] at hcell
    refine ⟨⟨t, serial, d, rfl, ?_, hwait.req, hfetch.2.1, ?_⟩, ?_, req_kind hwait.asked, rfl, rfl, rfl⟩
    · exact sleeper_of_cell ht hphase hp hd hfetch.1
    · exact sleeper_of_cell ht hphase hp hcell hfetch.1
    · intro u m e hne
      exact h.sleeper_set ht hp hd { d with reqState := .inGetReq } hne

/-- What the answer to a marked request changes: that sleeper is none any more. -/
structure Releases (k k' : Kernel) (pid : Int) : Prop where
  gone : ∀ u m e, u.pid = pid → ¬ Sleeper k' u m e
  others : ∀ u m e, u.pid ≠ pid → (Sleeper k' u m e ↔ Sleeper k u m e)
  calls : k'.calls = k.calls
  ikcd : k'.ikcdPid = k.ikcdPid
  handed : k'.handedOut = k.handedOut

theorem KInv.releases (h : KInv k) (hs : Sleeper k t serial d) (hp : t.dkm = some a)
    (hd : k.dkms.cell a = some d) (hanswered : d'.pendingReq = false) (answered : List Nat) :
    Releases k { k.set a d' with answered := answered } t.pid where
  gone := by
    rintro u m e hpid ⟨hu, -, hload, hpending⟩
    rw [h.eq_of_pid hu hs.1 hpid, hp] at hload
    change (k.set a d').dkms.load (some a) = .ok e at hload
    rw [Kernel.load_eq (Kernel.set_self hd d'), Except.ok.injEq] at hload
    rw [← hload, hanswered] at hpending
    cases hpending
  others := by
    intro u m e hne
    exact h.sleeper_set hs.1 hp hd d' hne
  calls := rfl
  ikcd := rfl
  handed := rfl

/-- The answer to the request of a sleeper is taken and releases it. -/
theorem KInv.putResp_releases (h : KInv k) (hs : Sleeper k t serial d)
    (hfind : k.findTaskByPid t.pid = some t) {arg : RespArg} {n : Int}
    (hrun : dkmPutResp k t.pid d.req arg = .ok (k', n)) : n = 0 ∧ Releases k k' t.pid := by
  obtain ⟨site, a, hphase, hp, hd, hwait⟩ := h.sleeper_cases hs
  obtain ⟨r, hr⟩ := hwait.rNode
  simp only [dkmPutResp, hfind, hp, Kernel.load_eq hd, ok_bind, ne_eq, not_true_eq_false, if_false,
    hr, Kernel.onDkm_eq hd] at hrun
  split at hrun
  · split at hrun
    · cases hrun
      exact ⟨rfl, h.releases hs hp hd rfl _⟩
    · cases hrun
  · split at hrun
    · cases hrun
      exact ⟨rfl, h.releases hs hp hd rfl _⟩
    · next hmap hcreat =>
      exfalso
      rw [hwait.req] at hmap hcreat
      cases site with
      | map => exact hmap rfl
      | creat => exact hcreat rfl
      | direct => exact hwait.asked rfl

/-- The answer to a request for a process: the pid is in the structure of the sleeper, and the
structures of all other tasks are as they were. -/
structure Brings (k k' : Kernel) (t : Task) (d : DkmStruct) (rPid : Int) : Prop where
  tasks : k'.tasks = k.tasks
  answer : k'.dkms.load t.dkm =
    .ok { d with rPid := some rPid, pendingReq := false, reqState := .notInProgress }
  others : ∀ u ∈ k.tasks, u.pid ≠ t.pid → k'.dkms.load u.dkm = k.dkms.load u.dkm

theorem KInv.putResp_brings (h : KInv k) (hs : Sleeper k t serial d) (hreq : d.req = procCreatReq)
    (arg : RespArg) (hfind : k.findTaskByPid t.pid = some t) :
    ∃ k', dkmPutResp k t.pid procCreatReq arg = .ok (k', 0) ∧ Brings k k' t d arg.rPid := by
  obtain ⟨site, a, -, hp, hd, -⟩ := h.sleeper_cases hs
  have hnotmap : procCreatReq ≠ mapReq := by decide
  have hload : ∀ ptr : Ptr, (k.set a { d with
      rPid := some arg.rPid, pendingReq := false, reqState := .notInProgress }).dkms.load ptr =
      if ptr = some a then .ok { d with
        rPid := some arg.rPid, pendingReq := false, reqState := .notInProgress } else k.dkms.load ptr :=
    load_set hd _
  refine ⟨{ k.set a { d with rPid := some arg.rPid, pendingReq := false, reqState := .notInProgress } with
    answered := t.serial?.toList ++ k.answered }, ?_, ?_⟩
  · simp only [dkmPutResp, hfind, hp, Kernel.load_eq hd, ok_bind, hreq, ne_eq, not_true_eq_false, if_false,
      if_neg hnotmap, if_true, Kernel.onDkm_eq hd]
    rfl
  · refine ⟨rfl, (hload t.dkm).trans (if_pos hp), ?_⟩
    intro u hu hne
    exact (hload u.dkm).trans (if_neg fun hua => hne (h.unshared u hu t hs.1 a hua hp))

/-- The task that is woken after it leaves the call and has the pid. -/
theorem KInv.brings_wakes (h : KInv k) (hs : Sleeper k t serial d) (hreq : d.req = procCreatReq)
    {rPid : Int} (hbrings : Brings k k' t d rPid) :
    ∃ k'', wake k' t = .ok k'' ∧ { t with phase := .user } ∈ k''.tasks ∧
      k''.dkms.load t.dkm = .ok { d with
        rPid := some rPid, pendingReq := false, reqState := .notInProgress, req := dkmNop } := by
  obtain ⟨site, a, hphase, hp, -, hwait⟩ := h.sleeper_cases hs
  have hcreat : site = .creat := by
    have hsite := hwait.req.symm.trans hreq
    cases site with
    | map => exact absurd hsite (by decide)
    | creat => rfl
    | direct => exact absurd hsite (by decide)
  subst hcreat
  obtain ⟨b, hpb, hd'⟩ := Heap.load_eq_ok hbrings.answer
  obtain rfl : a = b := Option.some.inj (hp.symm.trans hpb)
  have hcell := Kernel.set_self hd' { d with
    rPid := some rPid, pendingReq := false, reqState := .notInProgress, req := dkmNop }
  refine ⟨_, wake_creat hp hd' hphase rfl, ?_, ?_⟩
  · exact List.mem_map.mpr ⟨t, hbrings.tasks ▸ hs.1, if_pos rfl⟩
  · rw [hp]
    exact Heap.load_some hcell

/-! ## Who has the requests that were fetched -/

/-- The list has every fetched request that is not answered yet, by pid and request,
once. -/
structure Accounts (k : Kernel) (l : List (Int × Int)) : Prop where
  distinct : (l.map Prod.fst).Nodup
  held : ∀ pid req, (pid, req) ∈ l → ∃ t n d, t.pid = pid ∧ Sleeper k t n d ∧ d.req = req ∧
    d.reqState = .inGetReq
  all : ∀ t n d, Sleeper k t n d → d.reqState = .inGetReq → (t.pid, d.req) ∈ l

namespace Accounts

variable {l l' : List (Int × Int)} {pid req : Int}

theorem perm (h : Accounts k l) (hperm : l.Perm l') : Accounts k l' where
  distinct := (hperm.map Prod.fst).nodup_iff.mp h.distinct
  held := fun pid req hmem => h.held pid req (hperm.mem_iff.mpr hmem)
  all := fun t n d hs hstate => hperm.mem_iff.mp (h.all t n d hs hstate)

theorem adds (h : Accounts k l) (hadds : Adds k k') : Accounts k' l where
  distinct := h.distinct
  held := by
    intro pid req hmem
    obtain ⟨t, n, d, hpid, hs, hrest⟩ := h.held pid req hmem
    exact ⟨t, n, d, hpid, hadds.kept t n d hs, hrest⟩
  all := by
    intro t n d hs hstate
    rcases hadds.new t n d hs with hold | ⟨hfresh, -, -⟩
    · exact h.all t n d hold hstate
    · rw [hstate] at hfresh
      cases hfresh

theorem marks (h : Accounts k l) (hk : KInv k) (hk' : KInv k') (hmarks : Marks k k' pid req) :
    Accounts k' ((pid, req) :: l) := by
  obtain ⟨t, n, d, hpid, hs, hreq, hstate, hs'⟩ := hmarks.found
  have hapart : ∀ p r, (p, r) ∈ l → p ≠ pid := by
    rintro p r hmem rfl
    obtain ⟨u, m, e, hu, hsu, -, hfetched⟩ := h.held p r hmem
    obtain ⟨-, -, rfl⟩ := hk.sleeper_unique hs hsu (hpid.trans hu.symm)
    rw [hstate] at hfetched
    cases hfetched
  refine ⟨?_, ?_, ?_⟩
  · rw [List.map_cons, List.nodup_cons]
    refine ⟨?_, h.distinct⟩
    intro hmem
    obtain ⟨⟨p, r⟩, hx, rfl⟩ := List.mem_map.mp hmem
    exact hapart p r hx rfl
  · intro p r hmem
    rcases List.mem_cons.mp hmem with heq | hmem
    · cases heq
      exact ⟨t, n, _, hpid, hs', hreq, rfl⟩
    · obtain ⟨u, m, e, hu, hsu, hrest⟩ := h.held p r hmem
      have hne : u.pid ≠ pid := hu ▸ hapart p r hmem
      exact ⟨u, m, e, hu, (hmarks.others u m e hne).mpr hsu, hrest⟩
  · intro u m e hsu hfetched
    by_cases hu : u.pid = pid
    · obtain ⟨rfl, -, rfl⟩ := hk'.sleeper_unique hs' hsu (hpid.trans hu.symm)
      rw [hpid, ← hreq]
      exact List.mem_cons_self
    · exact List.mem_cons_of_mem _ (h.all u m e ((hmarks.others u m e hu).mp hsu) hfetched)

theorem releases (h : Accounts k ((pid, req) :: l)) (hreleases : Releases k k' pid) :
    Accounts k' l := by
  have hdistinct := h.distinct
  rw [List.map_cons, List.nodup_cons] at hdistinct
  refine ⟨hdistinct.2, ?_, ?_⟩
  · intro p r hmem
    obtain ⟨t, n, d, hpid, hs, hrest⟩ := h.held p r (List.mem_cons_of_mem _ hmem)
    have hne : t.pid ≠ pid := by
      intro heq
      exact hdistinct.1 (List.mem_map.mpr ⟨(p, r), hmem, hpid.symm.trans heq⟩)
    exact ⟨t, n, d, hpid, (hreleases.others t n d hne).mpr hs, hrest⟩
  · intro t n d hs hstate
    have hne : t.pid ≠ pid := fun heq => hreleases.gone t n d heq hs
    rcases List.mem_cons.mp (h.all t n d ((hreleases.others t n d hne).mp hs) hstate) with heq | hmem
    · exact absurd (congrArg Prod.fst heq) hne
    · exact hmem

end Accounts

end Dkmp.Dkmke
