import Dkmp.Dkmke.Invariant

/-! # The handshake between a task and the daemon

The invariant under the commands of the daemon, `fork` and the end of a task, and
with it the contract of the handshake over every run from a quiet table.
-/

namespace Dkmp.Dkmke

open Machine

/-! ## The commands -/

def Fetchable (d : DkmStruct) : Prop :=
  d.pendingReq = true ∧ d.reqState = .inDoReq ∧ dkmMinReq ≤ d.req ∧ d.req ≤ dkmMaxReq

theorem nextRequest_some {dkms : Heap DkmStruct} {l : List Task} {t : Task} {d : DkmStruct}
    (h : nextRequest dkms l = .ok (some (t, d))) :
    t ∈ l ∧ ∃ a, t.dkm = some a ∧ dkms.cell a = some d ∧ Fetchable d := by
  induction l with
  | nil => cases h
  | cons u l ih =>
      unfold nextRequest at h
      split at h
      · obtain ⟨hmem, hrest⟩ := ih h
        exact ⟨List.mem_cons_of_mem u hmem, hrest⟩
      · next a ha =>
        obtain ⟨e, hload, hcont⟩ := bind_eq_ok h
        split at hcont
        · next hfetch =>
          cases hcont
          obtain ⟨b, hb, hcell⟩ := Heap.load_eq_ok hload
          exact ⟨List.mem_cons_self, b, ha.trans hb, hcell, hfetch⟩
        · obtain ⟨hmem, hrest⟩ := ih hcont
          exact ⟨List.mem_cons_of_mem u hmem, hrest⟩

theorem nextRequest_none {dkms : Heap DkmStruct} {l : List Task}
    (h : nextRequest dkms l = .ok none) :
    ∀ t ∈ l, ∀ a d, t.dkm = some a → dkms.cell a = some d → ¬ Fetchable d := by
  induction l with
  | nil =>
      intro t ht
      cases ht
  | cons u l ih =>
      intro t ht a d hp hd hfetch
      unfold nextRequest at h
      split at h
      · next hnone =>
        rcases List.mem_cons.mp ht with rfl | ht
        · rw [hp] at hnone
          cases hnone
        · exact ih h t ht a d hp hd hfetch
      · next b hb =>
        obtain ⟨e, hload, hcont⟩ := bind_eq_ok h
        split at hcont
        · cases hcont
        · next hnot =>
          rcases List.mem_cons.mp ht with rfl | ht
          · rw [hp, Option.some.injEq] at hb
            rw [← hb, Heap.load_some hd] at hload
            exact hnot (Except.ok.inj hload ▸ hfetch)
          · exact ih hcont t ht a d hp hd hfetch

theorem not_nop_of_fetchable {d : DkmStruct} (h : Fetchable d) : d.req ≠ dkmNop := by
  intro hnop
  have hmin := h.2.2.1
  rw [hnop] at hmin
  revert hmin
  decide

namespace KInv

variable {k k' : Kernel} {t : Task} {a : Nat} {d : DkmStruct}

/-- What `DKM_GET_REQ` returns is the request of a task asleep in the call that
made it, and was not returned before. -/
theorem getReq_cases (h : KInv k) {caller : Int} {result : Option (Int × Int)}
    (hrun : dkmGetReq k caller = .ok (k', result)) :
    (result = none ∧ k' = k ∧ nextRequest k.dkms k.tasks = .ok none) ∨
      ∃ t ∈ k.tasks, ∃ site serial a d, t.phase = .asleep site serial ∧ t.dkm = some a ∧
        k.dkms.cell a = some d ∧ Fetchable d ∧ Waiting k d site serial ∧
        serial ∉ k.handedOut ∧ result = some (t.pid, site.req) ∧
        k' = { k.set a { d with reqState := .inGetReq } with
          delivered := (serial, caller) :: k.delivered } := by
  obtain ⟨found, hnext, hcont⟩ := bind_eq_ok hrun
  cases found with
  | none =>
      cases hcont
      exact .inl ⟨rfl, rfl, hnext⟩
  | some x =>
      obtain ⟨t, d⟩ := x
      obtain ⟨ht, a, hp, hd, hfetch⟩ := nextRequest_some hnext
      obtain ⟨site, serial, hphase, hwait⟩ :=
        h.asleep_of_req ht hp hd (not_nop_of_fetchable hfetch)
      have hnew : serial ∉ k.handedOut := by
        rcases hwait.pending hfetch.1 with ⟨-, hnot⟩ | ⟨hstate, -⟩
        · exact hnot
        · rw [hfetch.2.1] at hstate
          cases hstate
      simp only [hp, Kernel.onDkm_eq hd, ok_bind, Task.serial?, hphase, Except.ok.injEq,
        Prod.mk.injEq] at hcont
      obtain ⟨hk', hresult⟩ := hcont
      refine .inr ⟨t, ht, site, serial, a, d, hphase, hp, hd, hfetch, hwait, hnew, ?_, hk'.symm⟩
      rw [← hresult, hwait.req]

theorem getReq (h : KInv k) {caller : Int} {result : Option (Int × Int)}
    (hrun : dkmGetReq k caller = .ok (k', result)) : KInv k' := by
  rcases h.getReq_cases hrun with
    ⟨-, rfl, -⟩ | ⟨t, ht, site, serial, a, d, hphase, hp, hd, hfetch, hwait, hnew, -, rfl⟩
  · exact h
  · have hcell := Kernel.cell_set hd { d with reqState := .inGetReq }
    have hserial : t.serial? = some serial := by rw [Task.serial?, hphase]
    have htasks : k.tasks = (k.setPhase t.pid t.phase).tasks := by rw [h.setPhase_self ht]
    refine h.update ht hp htasks (fun b hb => (hcell b).trans (if_neg hb)) (Nat.le_refl _)
      (fun _ hn => hn) ?_ (List.nodup_cons.mpr ⟨hnew, h.nodup⟩) ?_ ?_ (fun n hn => .inl hn)
    · intro n hn
      rw [hserial] at hn
      show n ∈ serial :: k.handedOut ↔ n ∈ k.handedOut
      rw [List.mem_cons]
      constructor
      · rintro (rfl | hmem)
        · exact absurd rfl hn
        · exact hmem
      · exact .inr
    · intro n hn
      rcases List.mem_cons.mp hn with rfl | hn
      · exact hwait.made
      · exact h.bound n hn
    · unfold TaskOk
      simp only [hphase]
      refine ⟨a, _, hp, (hcell a).trans (if_pos rfl), { hwait with pending := ?_, closed := ?_ }⟩
      · intro _
        exact .inr ⟨rfl, List.mem_cons_self⟩
      · intro hclosed
        rw [show d.pendingReq = true from hfetch.1] at hclosed
        cases hclosed

structure Answered (d d' : DkmStruct) (site : CallSite) : Prop where
  req : d'.req = d.req
  pending : d'.pendingReq = false
  state : d'.reqState = .notInProgress
  oNode : d'.oNode = d.oNode
  rNode : ∃ r, d'.rNode = some r ∧ (site = .map → r.byIkcd = true)

/-- A `DKM_PUT_RESP` that does anything names a task asleep in a call with that
very request. -/
theorem putResp_cases (h : KInv k) {pid req : Int} {arg : RespArg} {n : Int}
    (hrun : dkmPutResp k pid req arg = .ok (k', n)) :
    k' = k ∨ ∃ t ∈ k.tasks, ∃ site serial a d d', t.pid = pid ∧ site.req = req ∧
      t.phase = .asleep site serial ∧ t.dkm = some a ∧ k.dkms.cell a = some d ∧
      Waiting k d site serial ∧ Answered d d' site ∧
      k' = { k.set a d' with answered := serial :: k.answered } := by
  unfold dkmPutResp at hrun
  split at hrun
  · cases hrun
    exact .inl rfl
  · next t hfind =>
    obtain ⟨ht, hpid⟩ := mem_of_findTaskByPid hfind
    obtain ⟨d, hload, hcont⟩ := bind_eq_ok hrun
    obtain ⟨a, hp, hd⟩ := Heap.load_eq_ok hload
    split at hcont
    · cases hcont
      exact .inl rfl
    · next hreq =>
      rw [ne_eq, not_not] at hreq
      split at hcont
      · next hmap =>
        obtain ⟨site, serial, hphase, hwait⟩ :=
          h.asleep_of_req ht hp hd (by rw [hreq, hmap]; decide)
        split at hcont
        · cases hcont
        · split at hcont
          · simp only [hp, Kernel.onDkm_eq hd, ok_bind, Task.serial?, hphase, Except.ok.injEq,
              Prod.mk.injEq] at hcont
            have hans : Answered d { d with
                rNode := some ⟨arg.node, true⟩
                pendingReq := false
                reqState := .notInProgress } site := ⟨rfl, rfl, rfl, rfl, _, rfl, fun _ => rfl⟩
            exact .inr ⟨t, ht, site, serial, a, d, _, hpid, hwait.req.symm.trans hreq, hphase, hp, hd,
              hwait, hans, hcont.1.symm⟩
          · cases hcont
      · next hmap =>
        split at hcont
        · next hcreat =>
          obtain ⟨site, serial, hphase, hwait⟩ :=
            h.asleep_of_req ht hp hd (by rw [hreq, hcreat]; decide)
          have hsite : site ≠ .map := by
            intro hEq
            rw [hEq] at hwait
            exact hmap (hreq.symm.trans hwait.req)
          obtain ⟨r, hr⟩ := hwait.rNode
          simp only [hp, Kernel.onDkm_eq hd, ok_bind, Task.serial?, hphase, Except.ok.injEq,
            Prod.mk.injEq] at hcont
          have hans : Answered d { d with
              rPid := some arg.rPid
              pendingReq := false
              reqState := .notInProgress } site :=
            ⟨rfl, rfl, rfl, rfl, r, hr, fun hEq => absurd hEq hsite⟩
          exact .inr ⟨t, ht, site, serial, a, d, _, hpid, hwait.req.symm.trans hreq, hphase, hp, hd,
            hwait, hans, hcont.1.symm⟩
        · cases hcont
          exact .inl rfl

theorem putResp (h : KInv k) {pid req : Int} {arg : RespArg} {n : Int}
    (hrun : dkmPutResp k pid req arg = .ok (k', n)) : KInv k' := by
  rcases h.putResp_cases hrun with
    rfl | ⟨t, ht, site, serial, a, d, d', -, -, hphase, hp, hd, hwait, hans, rfl⟩
  · exact h
  · have hcell := Kernel.cell_set hd d'
    have htasks : k.tasks = (k.setPhase t.pid t.phase).tasks := by rw [h.setPhase_self ht]
    refine h.update ht hp htasks (fun b hb => (hcell b).trans (if_neg hb)) (Nat.le_refl _)
      (fun _ hn => List.mem_cons_of_mem _ hn) (fun _ _ => Iff.rfl) h.nodup h.bound ?_
      (fun n hn => .inl hn)
    unfold TaskOk
    simp only [hphase]
    obtain ⟨r, hr, hmap⟩ := hans.rNode
    obtain ⟨o, ho⟩ := hwait.oNode
    refine ⟨a, d', hp, (hcell a).trans (if_pos rfl),
      ⟨hans.req.trans hwait.req, hwait.asked, hwait.made, ?_, ?_, ⟨r, hr⟩, ⟨o, hans.oNode.trans ho⟩⟩⟩
    · intro hpending
      rw [hans.pending] at hpending
      cases hpending
    · intro _
      exact ⟨hans.state, List.mem_cons_self, fun hsite => ⟨r, hr, hmap hsite⟩⟩

theorem doReq_refused (h : KInv k) (ht : t ∈ k.tasks) (hphase : t.phase = .user)
    {result : Kernel × DoReq} (hrun : dkmDoReq k t = .ok result) :
    result = (k, .returned (-1) none) := by
  unfold dkmDoReq at hrun
  split at hrun
  · exact (Except.ok.inj hrun).symm
  · obtain ⟨d, hload, hcont⟩ := bind_eq_ok hrun
    obtain ⟨a, hp, hd⟩ := Heap.load_eq_ok hload
    obtain ⟨e, he, hnop⟩ := h.user_req ht hphase hp
    rw [hd, Option.some.injEq] at he
    have hlow : d.req < dkmMinReq ∨ dkmMaxReq < d.req := by
      rw [he, hnop]
      exact .inl (by decide)
    rw [if_pos hlow] at hcont
    exact (Except.ok.inj hcont).symm

theorem registered (h : KInv k) (pid : Int) : KInv { k with ikcdPid := pid } :=
  { h with
    ok := fun _ ht => h.transfer ht (fun _ _ => rfl) (Nat.le_refl _) (fun _ hn => hn)
      (fun _ _ => Iff.rfl) }

theorem dkmctl (h : KInv k) (ht : t ∈ k.tasks) (hphase : t.phase = .user) {cmd : Cmd}
    (hrun : doDkmctl k t cmd = .ok k') : KInv k' := by
  cases cmd with
  | ikcdReg pid =>
      rw [← Except.ok.inj hrun]
      exact h.registered pid
  | ikcdUnreg =>
      rw [← Except.ok.inj hrun]
      exact h.registered (-1)
  | getReq =>
      obtain ⟨⟨k₁, result⟩, hget, hk'⟩ := bind_eq_ok hrun
      rw [← Except.ok.inj hk']
      exact h.getReq hget
  | getArgs pid req =>
      obtain ⟨-, -, hk'⟩ := bind_eq_ok hrun
      rw [← Except.ok.inj hk']
      exact h
  | putResp pid req arg =>
      obtain ⟨⟨k₁, n⟩, hput, hk'⟩ := bind_eq_ok hrun
      rw [← Except.ok.inj hk']
      exact h.putResp hput
  | doReq =>
      obtain ⟨result, hdo, hk'⟩ := bind_eq_ok hrun
      rw [h.doReq_refused ht hphase hdo] at hk'
      rw [← Except.ok.inj hk']
      exact h

/-! ## `fork` and the end of a task -/

/-- The tasks after a `fork`: the parent with the new structure, the child with
the old one, the others as they were. -/
theorem mem_doFork (h : KInv k) (ht : t ∈ k.tasks) {child : Int} {u : Task}
    (hu : u ∈ (doFork k t child).tasks) :
    u = { t with dkm := some k.dkms.next } ∨ u = ⟨child, t.dkm, .user⟩ ∨
      (u ∈ k.tasks ∧ u.pid ≠ t.pid) := by
  rcases List.mem_append.mp hu with hu | hu
  · rcases h.mem_change ht hu with rfl | hold
    · exact .inl rfl
    · exact .inr (.inr hold)
  · exact .inr (.inl (List.mem_singleton.mp hu))

theorem pids_doFork (k : Kernel) (t : Task) (child : Int) :
    (doFork k t child).tasks.map Task.pid = k.tasks.map Task.pid ++ [child] := by
  rw [doFork, List.map_append, List.map_map]
  congr 1
  apply List.map_congr_left
  intro u _
  simp only [Function.comp]
  split
  · rfl
  · rfl

theorem dkm_cell (h : KInv k) {u : Task} (hu : u ∈ k.tasks) {a : Nat} (hp : u.dkm = some a) :
    ∃ d, k.dkms.cell a = some d := by
  cases hphase : u.phase with
  | user =>
      obtain ⟨d, hd, -⟩ := h.user_req hu hphase hp
      exact ⟨d, hd⟩
  | asleep site serial =>
      obtain ⟨b, d, hb, hd, -⟩ := h.asleep_waiting hu hphase
      rw [hp, Option.some.injEq] at hb
      exact ⟨d, hb ▸ hd⟩

theorem dkm_lt_next (h : KInv k) {u : Task} (hu : u ∈ k.tasks) {a : Nat} (hp : u.dkm = some a) :
    a < k.dkms.next := by
  obtain ⟨d, hd⟩ := h.dkm_cell hu hp
  exact Heap.lt_next hd

theorem fork (h : KInv k) (ht : t ∈ k.tasks) (hphase : t.phase = .user) {child : Int}
    (hnew : k.findTaskByPid child = none) : KInv (doFork k t child) := by
  have hfresh : ∀ u ∈ k.tasks, u.pid ≠ child := by
    intro u hu
    have := List.find?_eq_none.mp hnew u hu
    simpa using this
  have hold : ∀ {b : Nat}, b < k.dkms.next → (k.dkms.alloc freshDkm).cell b = k.dkms.cell b := by
    intro b hb
    rw [Heap.alloc_cell, if_neg (by omega)]
  have hserial : ∀ u ∈ (doFork k t child).tasks, ∀ n, u.serial? = some n →
      u ∈ k.tasks ∧ u.pid ≠ t.pid := by
    intro u hu n hn
    rcases h.mem_doFork ht hu with rfl | rfl | hmem
    · rw [Task.serial?, hphase] at hn
      cases hn
    · cases hn
    · exact hmem
  have hapart : ∀ u ∈ k.tasks, u.pid ≠ t.pid → ∀ b, u.dkm = some b →
      b ≠ k.dkms.next ∧ t.dkm ≠ some b := by
    intro u hu hne b hb
    have hlt := h.dkm_lt_next hu hb
    exact ⟨by omega, fun htb => hne (h.unshared u hu t ht b hb htb)⟩
  have hparent : t.dkm ≠ some k.dkms.next := by
    intro hp
    exact Nat.lt_irrefl _ (h.dkm_lt_next ht hp)
  refine ⟨?_, ?_, ?_, ?_, h.nodup, h.bound⟩
  · rw [pids_doFork, List.nodup_append]
    refine ⟨h.pids, List.nodup_singleton child, ?_⟩
    intro p hp q hq
    obtain ⟨u, hu, rfl⟩ := List.mem_map.mp hp
    rw [List.mem_singleton.mp hq]
    exact hfresh u hu
  · intro u hu v hv b hub hvb
    rcases h.mem_doFork ht hu with rfl | rfl | ⟨hu', hne⟩
    · have hbnext : k.dkms.next = b := Option.some.inj hub
      rcases h.mem_doFork ht hv with rfl | rfl | ⟨hv', hne'⟩
      · rfl
      · exact absurd (hvb.trans (congrArg some hbnext.symm)) hparent
      · exact absurd hbnext.symm (hapart v hv' hne' b hvb).1
    · rcases h.mem_doFork ht hv with rfl | rfl | ⟨hv', hne'⟩
      · exact absurd (hub.trans hvb.symm) hparent
      · rfl
      · exact absurd hub (hapart v hv' hne' b hvb).2
    · obtain ⟨hbnext, htb⟩ := hapart u hu' hne b hub
      rcases h.mem_doFork ht hv with rfl | rfl | ⟨hv', hne'⟩
      · exact absurd (Option.some.inj hvb).symm hbnext
      · exact absurd hvb htb
      · exact h.unshared u hu' v hv' b hub hvb
  · intro u hu
    rcases h.mem_doFork ht hu with rfl | rfl | ⟨hu', hne⟩
    · unfold TaskOk
      simp only [hphase]
      intro b hb
      rw [← Option.some.inj hb]
      exact ⟨freshDkm, Heap.alloc_self _ _, rfl⟩
    · intro b hb
      obtain ⟨d, hd, hnop⟩ := h.user_req ht hphase hb
      exact ⟨d, (hold (Heap.lt_next hd)).trans hd, hnop⟩
    · exact h.transfer hu' (fun b hb => hold (h.dkm_lt_next hu' hb)) (Nat.le_refl _)
        (fun _ hn => hn) (fun _ _ => Iff.rfl)
  · intro u hu v hv n hun hvn
    exact h.serials u (hserial u hu n hun).1 v (hserial v hv n hvn).1 n hun hvn

theorem exit (h : KInv k) (p : Task → Bool) : KInv { k with tasks := k.tasks.filter p } where
  pids := (List.filter_sublist.map Task.pid).nodup h.pids
  unshared := fun u hu v hv =>
    h.unshared u (List.mem_of_mem_filter hu) v (List.mem_of_mem_filter hv)
  ok := fun _ hu => h.transfer (List.mem_of_mem_filter hu) (fun _ _ => rfl) (Nat.le_refl _)
    (fun _ hn => hn) (fun _ _ => Iff.rfl)
  serials := fun u hu v hv =>
    h.serials u (List.mem_of_mem_filter hu) v (List.mem_of_mem_filter hv)
  nodup := h.nodup
  bound := h.bound

/-- Every step keeps the invariant. -/
theorem step (h : KInv k) {a : KAction} (hstep : kernelStep k a = .ok k') : KInv k' := by
  cases a with
  | fork pid child =>
      obtain ⟨t, hrunning, hcont⟩ := bind_eq_ok hstep
      obtain ⟨ht, -, hphase⟩ := mem_of_running hrunning
      split at hcont
      · cases hcont
      · next hnew =>
        rw [← Except.ok.inj hcont]
        exact h.fork ht hphase hnew
  | exec pid filename garbage =>
      obtain ⟨t, hrunning, hcont⟩ := bind_eq_ok hstep
      obtain ⟨ht, -, hphase⟩ := mem_of_running hrunning
      exact h.execve ht hphase hcont
  | wake pid =>
      simp only [kernelStep] at hstep
      split at hstep
      · next t hfind => exact h.woken (mem_of_findTaskByPid hfind).1 hstep
      · cases hstep
  | exit pid =>
      obtain ⟨t, -, hcont⟩ := bind_eq_ok hstep
      rw [← Except.ok.inj hcont]
      exact h.exit _
  | ctl caller cmd =>
      obtain ⟨t, hrunning, hcont⟩ := bind_eq_ok hstep
      obtain ⟨ht, -, hphase⟩ := mem_of_running hrunning
      exact h.dkmctl ht hphase hcont

/-! ## A task that waits -/

theorem kept_other (h : KInv k) (ht : t ∈ k.tasks) {u : Task} (hu : u ∈ k.tasks)
    (hne : t.pid ≠ u.pid) (hp : t.dkm = some a) {b : Nat} (hb : u.dkm = some b) (phase : Phase) :
    t ∈ (k.setPhase u.pid phase).tasks ∧ a ≠ b := by
  constructor
  · exact List.mem_map.mpr ⟨t, ht, if_neg hne⟩
  · intro hab
    exact hne (h.unshared t ht u hu a hp (hab ▸ hb))

theorem kept_cell (h : KInv k) (ht : t ∈ k.tasks) {u : Task} (hu : u ∈ k.tasks)
    (hne : t.pid ≠ u.pid) (hp : t.dkm = some a) {b : Nat} {e : DkmStruct}
    (hb : u.dkm = some b) (he : k.dkms.cell b = some e) (e' : DkmStruct) :
    (k.set b e').dkms.cell a = k.dkms.cell a :=
  (Kernel.cell_set he e' a).trans (if_neg (h.kept_other ht hu hne hp hb u.phase).2)

theorem kept_after (h : KInv k) (ht : t ∈ k.tasks) {u : Task} (hu : u ∈ k.tasks)
    (hne : t.pid ≠ u.pid) (hp : t.dkm = some a) (hd : k.dkms.cell a = some d) {b : Nat}
    {e e' : DkmStruct} (hb : u.dkm = some b) (he : k.dkms.cell b = some e) (phase : Phase)
    (calls : Nat) (returns : List Returned) (compared : List Bool) :
    t ∈ (k.after u.pid b e' phase calls returns compared).tasks ∧
      (k.after u.pid b e' phase calls returns compared).dkms.cell a = some d := by
  constructor
  · exact (h.kept_other ht hu hne hp hb phase).1
  · exact (h.kept_cell ht hu hne hp hb he e').trans hd

theorem asleep_pid_ne (h : KInv k) (ht : t ∈ k.tasks) {site : CallSite} {serial : Nat}
    (hphase : t.phase = .asleep site serial) {u : Task} (hu : u ∈ k.tasks)
    (huser : u.phase = .user) : t.pid ≠ u.pid := by
  intro hpid
  rw [h.eq_of_pid ht hu hpid, huser] at hphase
  cases hphase

theorem sleeper_dkmctl (h : KInv k) (ht : t ∈ k.tasks) {site : CallSite} {serial : Nat}
    (hphase : t.phase = .asleep site serial) (hp : t.dkm = some a) (hd : k.dkms.cell a = some d)
    (hpending : d.pendingReq = true) {u : Task} (hu : u ∈ k.tasks) (huser : u.phase = .user)
    {cmd : Cmd} (hrun : doDkmctl k u cmd = .ok k') :
    (∃ arg, cmd = .putResp t.pid site.req arg) ∨
      (t ∈ k'.tasks ∧ ∃ d', k'.dkms.cell a = some d' ∧ d'.pendingReq = true) := by
  cases cmd with
  | ikcdReg pid | ikcdUnreg =>
      rw [← Except.ok.inj hrun]
      exact .inr ⟨ht, d, hd, hpending⟩
  | getReq =>
      obtain ⟨⟨k₁, result⟩, hget, hk'⟩ := bind_eq_ok hrun
      rw [← Except.ok.inj hk']
      rcases h.getReq_cases hget with
        ⟨-, rfl, -⟩ | ⟨v, hv, site', serial', b, e, -, hb, he, -, -, -, -, rfl⟩
      · exact .inr ⟨ht, d, hd, hpending⟩
      · have hcell := Kernel.cell_set he { e with reqState := .inGetReq } a
        by_cases hab : a = b
        · rw [if_pos hab] at hcell
          rw [← hab, hd, Option.some.injEq] at he
          exact .inr ⟨ht, _, hcell, by rw [← he]; exact hpending⟩
        · exact .inr ⟨ht, d, hcell.trans ((if_neg hab).trans hd), hpending⟩
  | getArgs pid req =>
      obtain ⟨-, -, hk'⟩ := bind_eq_ok hrun
      rw [← Except.ok.inj hk']
      exact .inr ⟨ht, d, hd, hpending⟩
  | putResp pid req arg =>
      obtain ⟨⟨k₁, n⟩, hput, hk'⟩ := bind_eq_ok hrun
      rw [← Except.ok.inj hk']
      rcases h.putResp_cases hput with
        rfl | ⟨v, hv, site', serial', b, e, e', hpid, hreq, hphase', hb, he, -, -, rfl⟩
      · exact .inr ⟨ht, d, hd, hpending⟩
      · by_cases hvt : t.pid = v.pid
        · rw [← h.eq_of_pid ht hv hvt, hphase] at hphase'
          cases hphase'
          exact .inl ⟨arg, by rw [hvt, hpid, hreq]⟩
        · exact .inr ⟨ht, d, (h.kept_cell ht hv hvt hp hb he e').trans hd, hpending⟩
  | doReq =>
      obtain ⟨result, hdo, hk'⟩ := bind_eq_ok hrun
      rw [h.doReq_refused hu huser hdo] at hk'
      rw [← Except.ok.inj hk']
      exact .inr ⟨ht, d, hd, hpending⟩

/-- A task whose request is pending stays asleep, with its request pending, unless
the step is a `DKM_PUT_RESP` that names its pid and its request. -/
theorem sleeper_kept (h : KInv k) (ht : t ∈ k.tasks) {site : CallSite} {serial : Nat}
    (hphase : t.phase = .asleep site serial) (hp : t.dkm = some a) (hd : k.dkms.cell a = some d)
    (hpending : d.pendingReq = true) {act : KAction} (hstep : kernelStep k act = .ok k') :
    (∃ caller arg, act = .ctl caller (.putResp t.pid site.req arg)) ∨
      (t ∈ k'.tasks ∧ ∃ d', k'.dkms.cell a = some d' ∧ d'.pendingReq = true) := by
  have hother : ∀ {pid : Int} {u : Task}, k.running pid = .ok u →
      u ∈ k.tasks ∧ u.phase = .user ∧ t.pid ≠ u.pid := by
    intro pid u hu
    obtain ⟨hmem, -, huser⟩ := mem_of_running hu
    exact ⟨hmem, huser, h.asleep_pid_ne ht hphase hmem huser⟩
  cases act with
  | fork pid child =>
      obtain ⟨u, hrunning, hcont⟩ := bind_eq_ok hstep
      obtain ⟨hu, -, hne⟩ := hother hrunning
      split at hcont
      · cases hcont
      · rw [← Except.ok.inj hcont]
        refine .inr ⟨List.mem_append_left _ (List.mem_map.mpr ⟨t, ht, if_neg hne⟩), d, ?_, hpending⟩
        exact Heap.alloc_old _ hd
  | exec pid filename garbage =>
      obtain ⟨u, hrunning, hcont⟩ := bind_eq_ok hstep
      obtain ⟨hu, huser, hne⟩ := hother hrunning
      rcases h.execve_cases hu huser hcont with
        rfl | ⟨b, e, hb, he, ⟨e', rfl, -⟩ | ⟨e', phase, calls, returns, compared, rfl, -, -⟩⟩
      · exact .inr ⟨ht, d, hd, hpending⟩
      · exact .inr ⟨ht, d, (h.kept_cell ht hu hne hp hb he e').trans hd, hpending⟩
      · obtain ⟨hmem, hcell⟩ := h.kept_after ht hu hne hp hd hb he phase calls returns compared
        exact .inr ⟨hmem, d, hcell, hpending⟩
  | wake pid =>
      simp only [kernelStep] at hstep
      split at hstep
      · next u hfind =>
        obtain ⟨hu, -⟩ := mem_of_findTaskByPid hfind
        obtain ⟨site', serial', b, e, -, hb, he, -, hcases⟩ := h.wake_cases hu hstep
        rcases hcases with ⟨-, rfl⟩ | ⟨hanswered, e', phase, calls, returns, compared, rfl, -, -, -⟩
        · exact .inr ⟨ht, d, hd, hpending⟩
        · have hne : t.pid ≠ u.pid := by
            intro hpid
            rw [← h.eq_of_pid ht hu hpid, hp, Option.some.injEq] at hb
            rw [← hb, hd, Option.some.injEq] at he
            rw [← he, hpending] at hanswered
            cases hanswered
          obtain ⟨hmem, hcell⟩ := h.kept_after ht hu hne hp hd hb he phase calls _ compared
          exact .inr ⟨hmem, d, hcell, hpending⟩
      · cases hstep
  | exit pid =>
      obtain ⟨u, hrunning, hcont⟩ := bind_eq_ok hstep
      obtain ⟨-, -, hne⟩ := hother hrunning
      rw [← Except.ok.inj hcont]
      exact .inr ⟨List.mem_filter.mpr ⟨ht, by simpa using hne⟩, d, hd, hpending⟩
  | ctl caller cmd =>
      obtain ⟨u, hrunning, hcont⟩ := bind_eq_ok hstep
      obtain ⟨hu, huser, -⟩ := hother hrunning
      rcases h.sleeper_dkmctl ht hphase hp hd hpending hu huser hcont with ⟨arg, rfl⟩ | hkept
      · exact .inl ⟨caller, arg, rfl⟩
      · exact .inr hkept

theorem of_run {k₀ : Kernel} (hinit : Initial k₀) {as : List KAction}
    (hrun : steps kernelStep as k₀ = .ok k) : KInv k :=
  steps_invariant KInv (fun _ _ _ h _ hstep => h.step hstep) as k₀ k hinit.inv
    (along_true as k₀) hrun

end KInv

theorem req_range {site : CallSite} (h : site ≠ .direct) :
    dkmMinReq ≤ site.req ∧ site.req ≤ dkmMaxReq := by
  cases site with
  | map => decide
  | creat => decide
  | direct => exact absurd rfl h

theorem Waiting.fetchable {k : Kernel} {d : DkmStruct} {site : CallSite} {serial : Nat}
    (hwait : Waiting k d site serial) (hpending : d.pendingReq = true)
    (hstate : d.reqState = .inDoReq) : Fetchable d := by
  have hrange := req_range hwait.asked
  rw [← hwait.req] at hrange
  exact ⟨hpending, hstate, hrange⟩

/-- **The handshake.** In every state of every run from a quiet table: no request
was handed out twice; `DKM_GET_REQ` returns the request of a task asleep in the
call that made it, and finds nothing only if every pending request was handed out;
a pending request stays pending, and its task asleep, until a `DKM_PUT_RESP` names
both; and a `DKM_PUT_RESP` touches the structure of no other task. -/
theorem request_handshake (k₀ : Kernel) (hinit : Initial k₀) (as : List KAction) (k : Kernel)
    (hrun : steps kernelStep as k₀ = .ok k) :
    k.handedOut.Nodup ∧
    (∀ caller k' pid req, dkmGetReq k caller = .ok (k', some (pid, req)) →
      ∃ t ∈ k.tasks, ∃ site serial d, t.pid = pid ∧ t.phase = .asleep site serial ∧
        site.req = req ∧ k.dkms.load t.dkm = .ok d ∧ d.req = req ∧ d.pendingReq = true ∧
        k'.delivered = (serial, caller) :: k.delivered) ∧
    (∀ caller k', dkmGetReq k caller = .ok (k', none) →
      ∀ t ∈ k.tasks, ∀ site serial d, t.phase = .asleep site serial →
        k.dkms.load t.dkm = .ok d → d.pendingReq = true → serial ∈ k.handedOut) ∧
    (∀ t ∈ k.tasks, ∀ site serial d, t.phase = .asleep site serial →
      k.dkms.load t.dkm = .ok d →
      (d.pendingReq = false → serial ∈ k.answered) ∧
      (d.pendingReq = true → ∀ act k', kernelStep k act = .ok k' →
        (∃ caller arg, act = .ctl caller (.putResp t.pid site.req arg)) ∨
          (t ∈ k'.tasks ∧ ∃ d', k'.dkms.load t.dkm = .ok d' ∧ d'.pendingReq = true))) ∧
    (∀ pid req arg k' n, dkmPutResp k pid req arg = .ok (k', n) →
      ∀ t ∈ k.tasks, t.pid ≠ pid → k'.dkms.load t.dkm = k.dkms.load t.dkm) := by
  have h := KInv.of_run hinit hrun
  refine ⟨h.nodup, ?_, ?_, ?_, ?_⟩
  · intro caller k' pid req hget
    rcases h.getReq_cases hget with
      ⟨hnone, -, -⟩ | ⟨t, ht, site, serial, a, d, hphase, hp, hd, hfetch, hwait, -, hresult, rfl⟩
    · cases hnone
    · cases hresult
      refine ⟨t, ht, site, serial, d, rfl, hphase, rfl, ?_, hwait.req, hfetch.1, rfl⟩
      rw [hp]
      exact Heap.load_some hd
  · intro caller k' hget t ht site serial d hphase hload hpending
    obtain ⟨a, hp, hd⟩ := Heap.load_eq_ok hload
    rcases h.getReq_cases hget with ⟨-, -, hnext⟩ | ⟨_, _, _, _, _, _, _, _, _, _, _, _, hresult, _⟩
    · have hwait := h.waiting_at ht hphase hp hd
      rcases hwait.pending hpending with ⟨hstate, -⟩ | ⟨-, hmem⟩
      · exact absurd (hwait.fetchable hpending hstate) (nextRequest_none hnext t ht a d hp hd)
      · exact hmem
    · cases hresult
  · intro t ht site serial d hphase hload
    obtain ⟨a, hp, hd⟩ := Heap.load_eq_ok hload
    constructor
    · intro hclosed
      have hwait := h.waiting_at ht hphase hp hd
      exact (hwait.closed hclosed).2.1
    · intro hpending act k' hstep
      rcases h.sleeper_kept ht hphase hp hd hpending hstep with hput | ⟨hmem, d', hd', hpending'⟩
      · exact .inl hput
      · refine .inr ⟨hmem, d', ?_, hpending'⟩
        rw [hp]
        exact Heap.load_some hd'
  · intro pid req arg k' n hput t ht hne
    rcases h.putResp_cases hput with
      rfl | ⟨u, hu, site, serial, b, e, e', hpid, -, -, hb, he, -, -, rfl⟩
    · rfl
    · cases hp : t.dkm with
      | none => rfl
      | some a =>
          have hcell := h.kept_cell ht hu (hpid ▸ hne) hp hb he e'
          show (k.set b e').dkms.load (some a) = _
          simp only [Heap.load, hcell]

def twoTasks : Kernel where
  tasks := [⟨10, some 0, .user⟩, ⟨20, some 1, .user⟩]
  dkms := (Heap.empty.alloc freshDkm).alloc freshDkm
  ikcdPid := -1
  nodename := []
  calls := 0
  delivered := []
  answered := []
  returns := []
  compared := []

theorem initial_twoTasks : Initial twoTasks where
  pids := by decide
  unshared := by
    intro t ht u hu a hta hua
    simp only [twoTasks, List.mem_cons, List.not_mem_nil, or_false] at ht hu
    rcases ht with rfl | rfl
    · rcases hu with rfl | rfl
      · rfl
      · rw [← hta] at hua
        cases hua
    · rcases hu with rfl | rfl
      · rw [← hta] at hua
        cases hua
      · rfl
  idle := by
    intro t ht
    simp only [twoTasks, List.mem_cons, List.not_mem_nil, or_false] at ht
    rcases ht with rfl | rfl
    · refine ⟨rfl, ?_⟩
      intro a ha
      cases ha
      exact ⟨freshDkm, rfl, rfl, rfl⟩
    · refine ⟨rfl, ?_⟩
      intro a ha
      cases ha
      exact ⟨freshDkm, rfl, rfl, rfl⟩
  calls := rfl
  delivered := rfl
  answered := rfl
  returns := rfl
  compared := rfl

theorem request_handshake_exec :
    ∃ k k', steps kernelStep [.ctl 10 (.ikcdReg 10), .exec 20 [] []] twoTasks = .ok k ∧
      k.handedOut.Nodup ∧ dkmGetReq k 10 = .ok (k', some (20, 1)) ∧
      ∃ t ∈ k.tasks, ∃ site serial, t.pid = 20 ∧ t.phase = .asleep site serial ∧ site.req = 1 := by
  obtain ⟨k, k', hrun, hget⟩ : ∃ k k',
      steps kernelStep [.ctl 10 (.ikcdReg 10), .exec 20 [] []] twoTasks = .ok k ∧
      dkmGetReq k 10 = .ok (k', some (20, 1)) := ⟨_, _, rfl, rfl⟩
  have h := request_handshake twoTasks initial_twoTasks _ k hrun
  obtain ⟨t, ht, site, serial, d, hpid, hphase, hreq, -⟩ := h.2.1 10 k' 20 1 hget
  exact ⟨k, k', hrun, h.1, hget, t, ht, site, serial, hpid, hphase, hreq⟩

end Dkmp.Dkmke
