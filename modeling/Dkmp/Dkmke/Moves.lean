import Dkmp.Dkmke.Kernel
import Mathlib.Tactic.Common

/-! # What a task does to the kernel

The calls a task makes on its own behalf change its own structure and its own
phase, and count the requests they make. The results below give the state after
such a call as one such change, so that the invariants need not look into the
calls.
-/

namespace Dkmp.Dkmke

open Machine

namespace Kernel

def set (k : Kernel) (a : Nat) (d : DkmStruct) : Kernel :=
  { k with dkms := k.dkms.modify a fun _ => d }

/-- A task changed its structure and its phase, made requests and saw them return. -/
def after (k : Kernel) (pid : Int) (a : Nat) (d : DkmStruct) (phase : Phase) (calls : Nat)
    (returns : List Returned) (compared : List Bool) : Kernel :=
  { (k.set a d).setPhase pid phase with
    calls := calls
    returns := returns ++ k.returns
    compared := compared ++ k.compared }

theorem cell_set {k : Kernel} {a : Nat} {d : DkmStruct} (h : k.dkms.cell a = some d)
    (d' : DkmStruct) (b : Nat) :
    (k.set a d').dkms.cell b = if b = a then some d' else k.dkms.cell b := by
  rw [set, Heap.modify_cell]
  by_cases hb : b = a
  · rw [if_pos hb, if_pos hb, hb, h, Option.map_some]
  · rw [if_neg hb, if_neg hb]

@[simp] theorem set_ikcdPid (k : Kernel) (a : Nat) (d : DkmStruct) :
    (k.set a d).ikcdPid = k.ikcdPid := rfl

@[simp] theorem set_set (k : Kernel) (a : Nat) (d d' : DkmStruct) :
    (k.set a d).set a d' = k.set a d' := by
  simp only [set, Heap.modify_modify]
  rfl

theorem onDkm_eq {k : Kernel} {a : Nat} {d : DkmStruct} (h : k.dkms.cell a = some d)
    (f : DkmStruct → DkmStruct) : k.onDkm (some a) f = .ok (k.set a (f d)) := by
  rw [onDkm, Heap.update_some f h, ok_bind, Heap.modify_eq_const f h]
  rfl

theorem load_eq {k : Kernel} {a : Nat} {d : DkmStruct} (h : k.dkms.cell a = some d) :
    k.dkms.load (some a) = .ok d := Heap.load_some h

theorem set_self {k : Kernel} {a : Nat} {d : DkmStruct} (h : k.dkms.cell a = some d)
    (d' : DkmStruct) : (k.set a d').dkms.cell a = some d' := by
  rw [cell_set h, if_pos rfl]

theorem after_set (k : Kernel) (a : Nat) (d d' : DkmStruct) (n : Nat) (pid : Int) (phase : Phase)
    (calls : Nat) (returns : List Returned) (compared : List Bool) :
    ({ k.set a d with calls := n } : Kernel).after pid a d' phase calls returns compared =
      k.after pid a d' phase calls returns compared := by
  simp only [after, set, setPhase, Heap.modify_modify]
  rfl

theorem after_records (k : Kernel) (a : Nat) (d d' : DkmStruct) (r : List Returned) (c : List Bool)
    (pid : Int) (phase : Phase) (calls : Nat) (returns : List Returned) (compared : List Bool) :
    ({ k.set a d with returns := r ++ k.returns, compared := c ++ k.compared } : Kernel).after pid a
        d' phase calls returns compared =
      k.after pid a d' phase calls (returns ++ r) (compared ++ c) := by
  simp only [after, set, setPhase, Heap.modify_modify, List.append_assoc]
  rfl

theorem after_of_set (k : Kernel) (a : Nat) (d d' : DkmStruct) (pid : Int) (phase : Phase)
    (calls : Nat) (returns : List Returned) (compared : List Bool) :
    (k.set a d).after pid a d' phase calls returns compared =
      k.after pid a d' phase calls returns compared := by
  rw [after, set_set]
  rfl

theorem set_eq_self {k : Kernel} {a : Nat} {d : DkmStruct} (h : k.dkms.cell a = some d) :
    k.set a d = k := by
  have hheap : k.dkms.modify a (fun _ => d) = k.dkms.modify a id :=
    (Heap.modify_eq_const id h).symm
  rw [set, hheap, Heap.modify_id]

end Kernel

/-! ## `DKM_DO_REQ` -/

/-- What becomes of a valid request: refused without a daemon, not heard when the
daemon's task is gone. -/
inductive Hearing where
  | refused
  | unheard
  | heard
deriving DecidableEq, Repr

def hearing (k : Kernel) (pid : Int) : Hearing :=
  if pid = k.ikcdPid ∨ k.ikcdPid ≤ 0 then .refused
  else if (k.findTaskByPid k.ikcdPid).isSome then .heard
  else .unheard

def DkmStruct.asking (d : DkmStruct) : DkmStruct :=
  { d with pendingReq := true, reqState := .inDoReq }

theorem dkmDoReq_eq {k : Kernel} {t : Task} {a : Nat} {d : DkmStruct} (hp : t.dkm = some a)
    (hd : k.dkms.cell a = some d) (hmin : dkmMinReq ≤ d.req) (hmax : d.req ≤ dkmMaxReq) :
    dkmDoReq k t =
      match hearing k t.pid with
      | .refused => .ok (k, .returned (-1) none)
      | .unheard => .ok ({ k.set a d.asking with calls := k.calls + 1 }, .returned 0 (some k.calls))
      | .heard => .ok ({ k.set a d.asking with calls := k.calls + 1 }, .sleeps k.calls) := by
  have hrange : ¬ (d.req < dkmMinReq ∨ dkmMaxReq < d.req) := by omega
  have hflags : k.onDkm (some a) (fun d => { d with pendingReq := true, reqState := .inDoReq }) =
      .ok (k.set a d.asking) := Kernel.onDkm_eq hd _
  unfold dkmDoReq hearing
  by_cases hself : t.pid = k.ikcdPid
  · rw [if_pos hself, if_pos (.inl hself)]
  · rw [if_neg hself, hp, Kernel.load_eq hd, ok_bind, if_neg hrange]
    by_cases hpos : 0 < k.ikcdPid
    · rw [if_pos hpos, if_neg (by omega)]
      simp only [hflags, ok_bind]
      cases k.findTaskByPid k.ikcdPid with
      | none => rfl
      | some u => rfl
    · rw [if_neg hpos, if_pos (.inr (by omega))]

/-! ## `dkm_execve` -/

/-- A request that the daemon can fetch, of a task that has its buffers. -/
structure Asking (d : DkmStruct) (site : CallSite) : Prop where
  req : d.req = site.req
  pending : d.pendingReq = true
  state : d.reqState = .inDoReq
  rNode : ∃ r, d.rNode = some r
  oNode : ∃ o, d.oNode = some o

/-- Where a task is after its call: outside the kernel with no request, or asleep
with a new one. -/
def Lands (k : Kernel) (d : DkmStruct) (phase : Phase) (calls : Nat) : Prop :=
  k.calls ≤ calls ∧
    ((phase = .user ∧ d.req = dkmNop) ∨
      ∃ site serial, phase = .asleep site serial ∧ site ≠ .direct ∧ k.calls ≤ serial ∧
        serial < calls ∧ Asking d site ∧ 0 < k.ikcdPid)

theorem Lands.mono {k k' : Kernel} {d : DkmStruct} {phase : Phase} {calls : Nat}
    (h : Lands k' d phase calls) (hcalls : k.calls ≤ k'.calls) (hpid : k'.ikcdPid = k.ikcdPid) :
    Lands k d phase calls := by
  obtain ⟨hle, huser | ⟨site, serial, hphase, hsite, hold, hnew, hasking, hpos⟩⟩ := h
  · exact ⟨Nat.le_trans hcalls hle, .inl huser⟩
  · exact ⟨Nat.le_trans hcalls hle, .inr ⟨site, serial, hphase, hsite, Nat.le_trans hcalls hold, hnew,
      hasking, hpid ▸ hpos⟩⟩

theorem hearing_heard {k : Kernel} {pid : Int} (h : hearing k pid = .heard) : 0 < k.ikcdPid := by
  unfold hearing at h
  split at h
  · cases h
  · next hnot => omega

section Execve

variable {k : Kernel} {t : Task} {a : Nat} {d : DkmStruct}

theorem noteReturn_eq (hp : t.dkm = some a) (hd : k.dkms.cell a = some d) (site : CallSite)
    (ret : Int) (serial : Option Nat) :
    noteReturn k t site ret serial = .ok { k with
      returns := ⟨t.pid, site.req, ret, serial, d.pendingReq, d.reqState⟩ :: k.returns } := by
  rw [noteReturn, hp, Kernel.load_eq hd, ok_bind]

/-- The return of the second request and the rest of the call. -/
theorem dkmExecveCreated_eq (hp : t.dkm = some a) (hd : k.dkms.cell a = some d) (ret : Int)
    (serial : Option Nat) :
    (do
      let k ← noteReturn k t .creat ret serial
      dkmExecveCreated k t) = .ok (k.after t.pid a { d with req := dkmNop } .user k.calls
        [⟨t.pid, procCreatReq, ret, serial, d.pendingReq, d.reqState⟩] []) := by
  rw [noteReturn_eq hp hd, ok_bind, dkmExecveCreated, hp]
  have hcell : ({ k with returns := ⟨t.pid, CallSite.creat.req, ret, serial, d.pendingReq,
      d.reqState⟩ :: k.returns } : Kernel).dkms.cell a = some d := hd
  rw [Kernel.onDkm_eq hcell, ok_bind]
  rfl

theorem dkmExecve_creat {r : NodeBuf} {o : CStr} (hp : t.dkm = some a)
    (hd : k.dkms.cell a = some d) (hreq : d.req = procCreatReq) (hr : d.rNode = some r)
    (ho : d.oNode = some o) :
    ∃ d' phase calls returns,
      (do
        match ← dkmDoReq k t with
        | (k, .sleeps serial) => .ok (k.setPhase t.pid (.asleep .creat serial))
        | (k, .returned ret serial) => do
            let k ← noteReturn k t .creat ret serial
            dkmExecveCreated k t) = Except.ok (k.after t.pid a d' phase calls returns []) ∧
      Lands k d' phase calls ∧
      (hearing k t.pid ≠ .unheard → ∀ x ∈ returns, x.ret < 0) := by
  have hdo := dkmDoReq_eq hp hd (by rw [hreq]; decide) (by rw [hreq]; decide)
  cases hhear : hearing k t.pid with
  | refused =>
      rw [hhear] at hdo
      rw [hdo]
      refine ⟨_, .user, k.calls, _, dkmExecveCreated_eq hp hd (-1) none,
        ⟨Nat.le_refl _, .inl ⟨rfl, rfl⟩⟩, ?_⟩
      intro _ x hx
      rw [List.mem_singleton.mp hx]
      show (-1 : Int) < 0
      decide
  | heard =>
      rw [hhear] at hdo
      rw [hdo]
      have hasking : Asking d.asking .creat := ⟨hreq, rfl, rfl, ⟨r, hr⟩, ⟨o, ho⟩⟩
      exact ⟨d.asking, .asleep .creat k.calls, k.calls + 1, [], rfl, ⟨Nat.le_succ _, .inr ⟨.creat, _,
        rfl, by decide, Nat.le_refl _, Nat.lt_succ_self _, hasking, hearing_heard hhear⟩⟩, by simp⟩
  | unheard =>
      rw [hhear] at hdo
      rw [hdo]
      have hcell : ({ k.set a d.asking with calls := k.calls + 1 } : Kernel).dkms.cell a =
          some d.asking := Kernel.set_self hd _
      have hreturn := dkmExecveCreated_eq hp hcell 0 (some k.calls)
      rw [Kernel.after_set] at hreturn
      exact ⟨_, .user, k.calls + 1, _, hreturn, ⟨Nat.le_succ _, .inl ⟨rfl, rfl⟩⟩, by simp⟩

/-- The comparison of the nodes, and the second request if they differ. -/
theorem dkmExecve_compare {r : NodeBuf} {o : CStr} (hp : t.dkm = some a)
    (hd : k.dkms.cell a = some d) (hreq : d.req = dkmNop) (hr : d.rNode = some r)
    (ho : d.oNode = some o) (c : Bool) :
    ∃ d' phase calls returns,
      (if r.text ≠ o then do
        let k ← ({ k with compared := c :: k.compared } : Kernel).onDkm t.dkm fun d =>
          { d with req := procCreatReq }
        match ← dkmDoReq k t with
        | (k, .sleeps serial) => .ok (k.setPhase t.pid (.asleep .creat serial))
        | (k, .returned ret serial) => do
            let k ← noteReturn k t .creat ret serial
            dkmExecveCreated k t
      else .ok (({ k with compared := c :: k.compared } : Kernel).setPhase t.pid .user)) =
        Except.ok (k.after t.pid a d' phase calls returns [c]) ∧
      Lands k d' phase calls ∧
      (hearing k t.pid ≠ .unheard ∨ r.text = o → ∀ x ∈ returns, x.ret < 0) := by
  by_cases hsame : r.text = o
  · rw [if_neg (fun hne => hne hsame)]
    refine ⟨d, .user, k.calls, [], ?_, ⟨Nat.le_refl _, .inl ⟨rfl, hreq⟩⟩, by simp⟩
    rw [Kernel.after, Kernel.set_eq_self hd]
    rfl
  · rw [if_pos hsame, hp]
    have hasks : ({ k with compared := c :: k.compared } : Kernel).onDkm (some a)
        (fun d => { d with req := procCreatReq }) = .ok (({ k with
          compared := c :: k.compared } : Kernel).set a { d with req := procCreatReq }) :=
      @Kernel.onDkm_eq { k with compared := c :: k.compared } a d hd _
    have hcell := Kernel.set_self hd { d with req := procCreatReq }
    obtain ⟨d', phase, calls, returns, hrun, hlands, hrefused⟩ :=
      @dkmExecve_creat (({ k with compared := c :: k.compared } : Kernel).set a
        { d with req := procCreatReq }) t a _ r o hp hcell rfl hr ho
    have hrecords := Kernel.after_records k a { d with req := procCreatReq } d' [] [c] t.pid phase
      calls returns []
    rw [List.append_nil] at hrecords
    refine ⟨d', phase, calls, returns, ?_, hlands, ?_⟩
    · rw [hasks, ok_bind, hrun]
      exact congrArg Except.ok hrecords
    · rintro (hheard | hEq)
      · exact hrefused hheard
      · exact absurd hEq hsame

/-- `dkm_execve` after the first request returned: the nodes are compared only if
it succeeded, and then what was compared is the buffer the request left. -/
theorem dkmExecveMapped_spec {r : NodeBuf} {o : CStr} (hp : t.dkm = some a)
    (hd : k.dkms.cell a = some d) (hr : d.rNode = some r) (ho : d.oNode = some o) (ret : Int) :
    ∃ d' phase calls returns compared,
      dkmExecveMapped k t ret = .ok (k.after t.pid a d' phase calls returns compared) ∧
      Lands k d' phase calls ∧
      (hearing k t.pid ≠ .unheard ∨ r.text = o → ∀ x ∈ returns, x.ret < 0) ∧
      ∀ c ∈ compared, 0 ≤ ret ∧ c = r.byIkcd := by
  have hcell := Kernel.set_self hd { d with req := dkmNop }
  rw [dkmExecveMapped, hp, Kernel.onDkm_eq hd, ok_bind]
  by_cases hret : ret < 0
  · rw [if_pos hret, Kernel.onDkm_eq hcell, ok_bind, Kernel.set_set]
    exact ⟨_, .user, k.calls, [], [], rfl, ⟨Nat.le_refl _, .inl ⟨rfl, rfl⟩⟩, by simp, by simp⟩
  · have hcell' := Kernel.set_self hd { d with req := dkmNop, distributed := 1 }
    obtain ⟨d', phase, calls, returns, hrun, hlands, hrefused⟩ :=
      dkmExecve_compare hp hcell' rfl hr ho r.byIkcd
    rw [Kernel.after_of_set, hp] at hrun
    rw [if_neg hret, Kernel.onDkm_eq hcell, ok_bind, Kernel.set_set, Kernel.load_eq hcell', ok_bind]
    refine ⟨d', phase, calls, returns, [r.byIkcd], ?_, hlands, hrefused, ?_⟩
    · cases d
      cases hr
      cases ho
      exact hrun
    · intro c hc
      exact ⟨by omega, List.mem_singleton.mp hc⟩

theorem dkmExecve_returned {r : NodeBuf} {o : CStr} (hp : t.dkm = some a)
    (hd : k.dkms.cell a = some d) (hr : d.rNode = some r) (ho : d.oNode = some o) (ret : Int)
    (serial : Option Nat) :
    ∃ d' phase calls returns compared,
      (do
        let k ← noteReturn k t .map ret serial
        dkmExecveMapped k t ret) = .ok (k.after t.pid a d' phase calls
          (returns ++ [⟨t.pid, mapReq, ret, serial, d.pendingReq, d.reqState⟩]) compared) ∧
      Lands k d' phase calls ∧
      (hearing k t.pid ≠ .unheard ∨ r.text = o → ∀ x ∈ returns, x.ret < 0) ∧
      ∀ c ∈ compared, 0 ≤ ret ∧ c = r.byIkcd := by
  obtain ⟨d', phase, calls, returns, compared, hrun, hlands, hrefused, hcompared⟩ :=
    @dkmExecveMapped_spec { k with
      returns := ⟨t.pid, mapReq, ret, serial, d.pendingReq, d.reqState⟩ :: k.returns } t a d r o
      hp hd hr ho ret
  refine ⟨d', phase, calls, returns, compared, ?_, hlands, hrefused, hcompared⟩
  have hrecords := Kernel.after_records k a d d'
    [⟨t.pid, mapReq, ret, serial, d.pendingReq, d.reqState⟩] [] t.pid phase calls returns compared
  rw [Kernel.set_eq_self hd, List.append_nil] at hrecords
  rw [noteReturn_eq hp hd, ok_bind, ← hrecords]
  exact hrun

theorem dkmExecve_map {r : NodeBuf} {o : CStr} (hp : t.dkm = some a)
    (hd : k.dkms.cell a = some d) (hreq : d.req = mapReq) (hr : d.rNode = some r)
    (ho : d.oNode = some o) :
    ∃ d' phase calls returns compared,
      (do
        match ← dkmDoReq k t with
        | (k, .sleeps serial) => .ok (k.setPhase t.pid (.asleep .map serial))
        | (k, .returned ret serial) => do
            let k ← noteReturn k t .map ret serial
            dkmExecveMapped k t ret) =
        Except.ok (k.after t.pid a d' phase calls returns compared) ∧
      Lands k d' phase calls ∧
      (hearing k t.pid ≠ .unheard → compared = [] ∧ ∀ x ∈ returns, x.ret < 0) := by
  have hdo := dkmDoReq_eq hp hd (by rw [hreq]; decide) (by rw [hreq]; decide)
  cases hhear : hearing k t.pid with
  | refused =>
      rw [hhear] at hdo
      rw [hdo]
      obtain ⟨d', phase, calls, returns, compared, hrun, hlands, hrefused, hcompared⟩ :=
        dkmExecve_returned hp hd hr ho (-1) none
      refine ⟨d', phase, calls, _, compared, hrun, hlands, ?_⟩
      intro hheard
      constructor
      · apply List.eq_nil_iff_forall_not_mem.mpr
        intro c hc
        have hpos := (hcompared c hc).1
        omega
      · intro x hx
        rcases List.mem_append.mp hx with hx | hx
        · exact hrefused (.inl (by rw [hhear]; exact hheard)) x hx
        · rw [List.mem_singleton.mp hx]
          show (-1 : Int) < 0
          decide
  | heard =>
      rw [hhear] at hdo
      rw [hdo]
      have hasking : Asking d.asking .map := ⟨hreq, rfl, rfl, ⟨r, hr⟩, ⟨o, ho⟩⟩
      exact ⟨d.asking, .asleep .map k.calls, k.calls + 1, [], [], rfl, ⟨Nat.le_succ _, .inr ⟨.map, _,
        rfl, by decide, Nat.le_refl _, Nat.lt_succ_self _, hasking, hearing_heard hhear⟩⟩, by simp⟩
  | unheard =>
      rw [hhear] at hdo
      rw [hdo]
      have hcell : ({ k.set a d.asking with calls := k.calls + 1 } : Kernel).dkms.cell a =
          some d.asking := Kernel.set_self hd _
      obtain ⟨d', phase, calls, returns, compared, hrun, hlands, -, -⟩ :=
        dkmExecve_returned hp hcell hr ho 0 (some k.calls)
      rw [Kernel.after_set] at hrun
      exact ⟨d', phase, calls, _, compared, hrun, hlands.mono (Nat.le_succ _) rfl, by simp⟩

/-- The whole of `dkm_execve` up to its first sleep: it does nothing without a
daemon, leaves the request alone for the daemon itself, and otherwise asks. -/
theorem dkmExecve_spec (hp : t.dkm = some a) (hd : k.dkms.cell a = some d)
    (filename garbage : CStr) :
    dkmExecve k t filename garbage = .ok k ∨
    (∃ d', dkmExecve k t filename garbage = .ok (k.set a d') ∧ d'.req = d.req) ∨
    ∃ d' phase calls returns compared,
      dkmExecve k t filename garbage = .ok (k.after t.pid a d' phase calls returns compared) ∧
      Lands k d' phase calls ∧
      (hearing k t.pid ≠ .unheard → compared = [] ∧ ∀ x ∈ returns, x.ret < 0) := by
  unfold dkmExecve
  by_cases hneg : k.ikcdPid < 0
  · exact .inl (if_pos hneg)
  · refine .inr ?_
    rw [if_neg hneg, hp, Kernel.onDkm_eq hd, ok_bind]
    have hcell := Kernel.set_self hd
      { d with fileName := some filename, rNode := some ⟨garbage, false⟩, oNode := some k.nodename }
    by_cases hself : t.pid = k.ikcdPid
    · rw [if_pos (.inr hself), Kernel.onDkm_eq hcell, Kernel.set_set]
      exact .inl ⟨_, rfl, rfl⟩
    · have hasks : ¬ (k.ikcdPid < 0 ∨ t.pid = k.ikcdPid) := fun h => h.elim hneg hself
      rw [Kernel.set_ikcdPid, if_neg hasks, Kernel.onDkm_eq hcell, ok_bind, Kernel.set_set]
      obtain ⟨d', phase, calls, returns, compared, hrun, hlands, hheard⟩ :=
        dkmExecve_map hp (Kernel.set_self hd { d with
          fileName := some filename
          rNode := some ⟨garbage, false⟩
          oNode := some k.nodename
          req := mapReq }) rfl rfl rfl
      rw [Kernel.after_of_set] at hrun
      exact .inr ⟨d', phase, calls, returns, compared, hrun, hlands, hheard⟩

/-- A task that is woken goes back to sleep while its request is pending. -/
theorem wake_pending {site : CallSite} {serial : Nat} (hp : t.dkm = some a)
    (hd : k.dkms.cell a = some d) (hphase : t.phase = .asleep site serial)
    (hpending : d.pendingReq = true) : wake k t = .ok k := by
  simp only [wake, hphase, hp, Kernel.load_eq hd, ok_bind, if_pos hpending]

theorem wake_creat {serial : Nat} (hp : t.dkm = some a) (hd : k.dkms.cell a = some d)
    (hphase : t.phase = .asleep .creat serial) (hpending : d.pendingReq = false) :
    wake k t = .ok (k.after t.pid a { d with req := dkmNop } .user k.calls
      [⟨t.pid, procCreatReq, 0, some serial, d.pendingReq, d.reqState⟩] []) := by
  have hnot : ¬ d.pendingReq = true := by rw [hpending]; decide
  unfold wake
  rw [hphase]
  show (k.dkms.load t.dkm >>= _) = _
  rw [hp, Kernel.load_eq hd, ok_bind, if_neg hnot]
  exact dkmExecveCreated_eq hp hd 0 (some serial)

theorem wake_map {serial : Nat} {r : NodeBuf} {o : CStr} (hp : t.dkm = some a)
    (hd : k.dkms.cell a = some d) (hphase : t.phase = .asleep .map serial)
    (hpending : d.pendingReq = false) (hr : d.rNode = some r) (ho : d.oNode = some o) :
    ∃ d' phase calls returns compared,
      wake k t = .ok (k.after t.pid a d' phase calls
        (returns ++ [⟨t.pid, mapReq, 0, some serial, false, d.reqState⟩]) compared) ∧
      Lands k d' phase calls ∧
      (hearing k t.pid ≠ .unheard ∨ r.text = o → ∀ x ∈ returns, x.ret < 0) ∧
      ∀ c ∈ compared, c = r.byIkcd := by
  have hnot : ¬ d.pendingReq = true := by rw [hpending]; decide
  obtain ⟨d', phase, calls, returns, compared, hrun, hlands, hrefused, hcompared⟩ :=
    dkmExecve_returned hp hd hr ho 0 (some serial)
  rw [hpending] at hrun
  refine ⟨d', phase, calls, returns, compared, ?_, hlands, hrefused, fun c hc => (hcompared c hc).2⟩
  unfold wake
  rw [hphase]
  show (k.dkms.load t.dkm >>= _) = _
  rw [hp, Kernel.load_eq hd, ok_bind, if_neg hnot]
  rw [← hrun]

end Execve

end Dkmp.Dkmke
