import Dkmp.Csdb.Refine

/-! # The two builds agree

Both builds refine the same store, mutex included, so a sequence of calls gives
the same replies in both; only the order of a child list is left open by the
store, and there the binary build sorts.
-/

namespace Dkmp.Csdb

open Machine

variable {b : Search} {db : Database} {t : Tree} {m : Paths} {s : Store}

/-! ## One call -/

theorem lock_blocked (hl : db.locked = true) : db.lock = .error .blocked := by
  simp [Database.lock, hl]

/-- A call that needs the mutex waits while it is taken. -/
theorem edit_blocked (e : Edit) (now : Int) (hl : db.locked = true) (he : e.locks = true) :
    e.call.exec b now db = .error .blocked := by
  cases e with
  | set key value =>
      have hparse : ∃ names, csdbParseKey key.val = .ok (some names) := by
        by_cases hk : key.val = [dot]
        · exact ⟨_, hk ▸ csdbParseKey_root⟩
        · exact ⟨_, csdbParseKey_valid key.property hk⟩
      obtain ⟨names, hnames⟩ := hparse
      simp [Edit.call, Call.exec, csdbSetValueForKey, hnames, lock_blocked hl, Except.map]
  | append key value btwn =>
      simp [Edit.call, Call.exec, csdbAppendValueForKey, lock_blocked hl, Except.map]
  | remove key =>
      have hroot : ¬ strcmp key.val [dot] = .eq := by
        intro hc
        simp [Edit.locks, strcmp_eq_iff.mp hc] at he
      simp [Edit.call, Call.exec, csdbRemoveFromKey, hroot, lock_blocked hl, Except.map]

/-- The only edit that does not need the mutex changes nothing. -/
theorem edit_lockless (b : Search) (db : Database) (e : Edit) (now : Int) (he : e.locks = false)
    (m : Paths) :
    e.call.exec b now db = .ok (.ret (e.spec m).1, db) ∧ (e.spec m).2 = m := by
  cases e with
  | set key value => simp [Edit.locks] at he
  | append key value btwn => simp [Edit.locks] at he
  | remove key =>
      have hkey : key.val = [dot] := by simpa [Edit.locks] using he
      have hspec : (Edit.remove key).spec m = (-1, m) := by
        simp [Edit.spec, ValidKey.path_eq_nil.mpr hkey]
      rw [hspec]
      exact ⟨by simp [Edit.call, Call.exec, hkey, csdbRemoveFromKey_root, Except.map], rfl⟩

theorem childNames_refines (h : Holds b db t) (hb : Bounded b t) (hm : Models t m)
    (key : ValidKey) :
    ∃ n out, csdbGetChildNamesForKey b db key.val = .ok (n, out) ∧
      (Reply.names n out).Gives b (.names (childrenOf m key.path)) := by
  obtain ⟨L, hrep⟩ := h
  have hbound := hm.bound_path key.path
  refine ⟨_, _, csdbGetChildNamesForKey_spec hrep hb key.property, ?_⟩
  change (Reply.names (namesReply (t.node key.path.reverse)).1
    (namesReply (t.node key.path.reverse)).2).Gives b _
  cases hn : t.node key.path.reverse with
  | none =>
      have hnone : childrenOf m key.path = none := by
        simp [childrenOf, hbound, Tree.record, hn]
      rw [hnone]
      exact ⟨rfl, rfl⟩
  | some d =>
      have hrecord : t.record key.path.reverse = some d.toRecord := by simp [Tree.record, hn]
      have hleaf := hm.plain _ _ hrecord
      have hmem := hm.mem_children hn
      rw [List.reverse_reverse] at hmem
      rw [hrecord, Option.map_some] at hbound
      by_cases hcond : d.leaf = true ∨ d.kids = []
      · have hnone : childrenOf m key.path = none := by
          apply if_neg
          rintro ⟨hb', n, hn'⟩
          rw [hbound, Option.some.injEq] at hb'
          rcases hcond with hl | hk
          · rw [hleaf, hb'] at hl
            cases hl
          · have := (hmem n).mpr hn'
            simp [hk] at this
        rw [hnone]
        simp [namesReply, hcond, Reply.Gives]
      · have hvalue : d.value = none := by
          have : ¬ d.value.isSome := fun hv => hcond (Or.inl (hleaf.trans hv))
          simpa using this
        obtain ⟨n, hn'⟩ : ∃ n, n ∈ d.kids :=
          List.exists_mem_of_ne_nil _ (fun hk => hcond (Or.inr hk))
        have hsome : childrenOf m key.path = some (m.children key.path) :=
          if_pos ⟨by rw [hbound, hvalue], n, (hmem n).mp hn'⟩
        rw [hsome]
        simp only [namesReply, if_neg hcond, Reply.Gives]
        exact ⟨d.kids, rfl, rfl, t.nodup _ d hn, hmem, fun hb' => hrep.sorted hb' _ d hn⟩

def Follows (b : Search) (x : Reply × Database) (y : Answer × Store) : Prop :=
  x.1.Gives b y.1 ∧ x.2.locked = y.2.locked ∧ ∃ t, Holds b x.2 t ∧ Models t y.2.map

theorem op_refines (h : Holds b db t) (hb : Bounded b t) (hm : Models t s.map)
    (hl : db.locked = s.locked) (op : Op) (now : Int) :
    Outcome (Follows b) (op.call.exec b now db) (op.spec s) := by
  cases op with
  | edit e =>
      by_cases hblock : e.locks = true ∧ s.locked = true
      · simp only [Op.call, edit_blocked e now (hl.trans hblock.2) hblock.1, Op.spec, if_pos hblock]
        rfl
      · simp only [Op.spec, if_neg hblock, Op.call]
        by_cases hs : s.locked = true
        · have he : e.locks = false := by simpa using fun he => hblock ⟨he, hs⟩
          obtain ⟨hexec, hmap⟩ := edit_lockless b db e now he s.map
          rw [hexec]
          exact ⟨rfl, hl, t, h, by rw [hmap]; exact hm⟩
        · have hfree : db.locked = false := by rw [hl]; simpa using hs
          obtain ⟨db', t', hexec, h', hfree', hm'⟩ := edit_refines h hb hfree hm e now
          rw [hexec]
          exact ⟨rfl, by rw [hfree', ← hl, hfree], t', h', hm'⟩
  | keyExist key =>
      by_cases hs : s.locked = true
      · simp only [Op.call, Call.exec, csdbKeyExist, lock_blocked (hl.trans hs), error_bind, Op.spec,
          if_pos hs]
        rfl
      · have hfree : db.locked = false := by rw [hl]; simpa using hs
        simp only [Op.call, Call.exec, keyExist_refines h hb hfree hm key, Op.spec, if_neg hs]
        exact ⟨rfl, hl, t, h, hm⟩
  | getValue key =>
      by_cases hs : s.locked = true
      · simp only [Op.call, Call.exec, csdbGetValueForKey, key.property, not_true_eq_false, if_false,
          lock_blocked (hl.trans hs), error_bind, Op.spec, if_pos hs]
        rfl
      · have hfree : db.locked = false := by rw [hl]; simpa using hs
        simp only [Op.call, Call.exec, getValue_refines h hb hfree hm key, Op.spec, if_neg hs]
        obtain ⟨L, hrep⟩ := h
        exact ⟨⟨rfl, rfl⟩, rfl, t, ⟨L, hrep.setLocked _⟩, hm⟩
  | childNames key =>
      obtain ⟨n, out, hok, hgives⟩ := childNames_refines h hb hm key
      simp only [Op.call, Call.exec, hok, Op.spec]
      exact ⟨hgives, hl, t, h, hm⟩

/-! ## Runs -/

def SparseRun (ops : List Op) (s : Store) : Prop :=
  ∀ pre, pre <+: ops → ∀ as s', Op.specRun pre s = .ok (as, s') → Sparse s'.map

theorem SparseRun.head {op : Op} {ops : List Op} (h : SparseRun (op :: ops) s) : Sparse s.map :=
  h [] (by simp) [] s rfl

theorem SparseRun.tail {op : Op} {ops : List Op} {a : Answer} {s' : Store}
    (h : SparseRun (op :: ops) s) (hstep : op.spec s = .ok (a, s')) : SparseRun ops s' := by
  intro pre hpre as s'' hrun
  apply h (op :: pre) (by simpa using hpre) (a :: as) s''
  simp [Op.specRun, hstep, hrun]

theorem ops_refine (clock : Nat → Int) (ops : List Op) (k : Nat) (h : Holds b db t)
    (hm : Models t s.map) (hl : db.locked = s.locked) (hs : SparseRun ops s) :
    Outcome (fun x y => List.Forall₂ (Reply.Gives b) x.1 y.1)
      (run b clock k (ops.map Op.call) db) (Op.specRun ops s) := by
  induction ops generalizing db t s k with
  | nil => exact List.Forall₂.nil
  | cons op ops ih =>
      apply (op_refines h (hm.bounded hs.head b) hm hl op (clock k)).bind
      intro x y hxy hspec
      obtain ⟨hgives, hl₁, t₁, h₁, hm₁⟩ := hxy
      apply (ih (k + 1) h₁ hm₁ hl₁ (hs.tail hspec)).bind
      intro x' y' hrest _
      exact List.Forall₂.cons hgives hrest

/-- Equal replies, except that the child lists are permutations of each other
and the one of the binary build is in `strcmp` order. -/
def Reply.Agree : Reply → Reply → Prop
  | .names n (some (l, joined)), .names n' (some (l', joined')) =>
      n = n' ∧ l.Perm l' ∧ l'.Pairwise (strcmp · · = .lt) ∧
        joined = l.flatMap (· ++ [space]) ∧ joined' = l'.flatMap (· ++ [space])
  | r, r' => r = r'

theorem Reply.Gives.agree {r r' : Reply} {a : Answer} (h : r.Gives .linear a)
    (h' : r'.Gives .binary a) : r.Agree r' := by
  cases a with
  | ret m =>
      cases r with
      | ret n =>
          cases r' with
          | ret n' =>
              rw [Reply.Gives] at h h'
              rw [h, h']
              rfl
          | _ => exact h'.elim
      | _ => exact h.elim
  | value m w =>
      cases r with
      | value n v =>
          cases r' with
          | value n' v' =>
              obtain ⟨rfl, rfl⟩ := h
              obtain ⟨rfl, rfl⟩ := h'
              rfl
          | _ => exact h'.elim
      | _ => exact h.elim
  | names out =>
      cases r with
      | names n o =>
          cases r' with
          | names n' o' =>
              cases out with
              | none =>
                  obtain ⟨rfl, rfl⟩ := h
                  obtain ⟨rfl, rfl⟩ := h'
                  rfl
              | some s =>
                  obtain ⟨l, rfl, rfl, hnodup, hmem, -⟩ := h
                  obtain ⟨l', rfl, rfl, hnodup', hmem', hsorted⟩ := h'
                  have hperm : l.Perm l' :=
                    (List.perm_ext_iff_of_nodup hnodup hnodup').mpr
                      (fun x => (hmem x).trans (hmem' x).symm)
                  exact ⟨by rw [hperm.length_eq], hperm, hsorted rfl, rfl, rfl⟩
          | _ => cases out <;> exact h'.elim
      | _ => cases out <;> exact h.elim

theorem forall₂_agree {rs rs' : List Reply} {as : List Answer}
    (h : List.Forall₂ (Reply.Gives .linear) rs as) (h' : List.Forall₂ (Reply.Gives .binary) rs' as) :
    List.Forall₂ Reply.Agree rs rs' := by
  induction h generalizing rs' with
  | nil =>
      cases h'
      exact List.Forall₂.nil
  | cons hr _ ih =>
      cases h' with
      | cons hr' hrest => exact List.Forall₂.cons (hr.agree hr') (ih hrest)

/-! ## Short runs are sparse -/

theorem edit_children_le (e : Edit) (m : Paths) (path : List CStr) :
    ((e.spec m).2.children path).ncard ≤ (m.children path).ncard + 1 := by
  cases e with
  | set key value => exact m.set_children_ncard_le _ _ _
  | append key value btwn =>
      simp only [Edit.spec]
      split
      · rw [PathMap.modify_children]
        exact Nat.le_succ _
      · exact Nat.le_succ _
  | remove key =>
      simp only [Edit.spec]
      split
      · exact Nat.le_succ _
      split
      · exact Nat.le_succ _
      · exact (Set.ncard_le_ncard (m.remove_children_subset key.path ‹_› path)
          (m.children_finite path)).trans (Nat.le_succ _)

theorem op_children_le {op : Op} {a : Answer} {s' : Store} (h : op.spec s = .ok (a, s'))
    (path : List CStr) : (s'.map.children path).ncard ≤ (s.map.children path).ncard + 1 := by
  cases op with
  | edit e =>
      simp only [Op.spec] at h
      split at h
      · cases h
      · obtain ⟨-, rfl⟩ := Prod.mk.inj (Except.ok.inj h)
        exact edit_children_le e s.map path
  | keyExist key =>
      simp only [Op.spec] at h
      split at h
      · cases h
      · obtain ⟨-, rfl⟩ := Prod.mk.inj (Except.ok.inj h)
        omega
  | getValue key =>
      simp only [Op.spec] at h
      split at h
      · cases h
      · obtain ⟨-, rfl⟩ := Prod.mk.inj (Except.ok.inj h)
        exact Nat.le_succ _
  | childNames key =>
      obtain ⟨-, rfl⟩ := Prod.mk.inj (Except.ok.inj h)
      omega

theorem specRun_children_le {ops : List Op} {as : List Answer} {s' : Store}
    (h : Op.specRun ops s = .ok (as, s')) (path : List CStr) :
    (s'.map.children path).ncard ≤ (s.map.children path).ncard + ops.length := by
  induction ops generalizing s as with
  | nil =>
      obtain ⟨-, rfl⟩ := Prod.mk.inj (Except.ok.inj h)
      simp
  | cons op ops ih =>
      obtain ⟨⟨a, s₁⟩, hop, h⟩ := bind_eq_ok h
      obtain ⟨⟨as', s₂⟩, hrest, h⟩ := bind_eq_ok h
      obtain ⟨-, rfl⟩ := Prod.mk.inj (Except.ok.inj h)
      have h₁ := op_children_le hop path
      have h₂ := ih hrest
      simp only [List.length_cons]
      omega

/-- A run of fewer than `2 ^ 31` calls cannot fill an entry. -/
theorem sparseRun_of_length {ops : List Op} (h : ops.length < 2 ^ 31) :
    SparseRun ops ⟨.init, false⟩ := by
  intro pre hpre as s' hrun path
  have hle := specRun_children_le hrun path
  have hlen := hpre.length_le
  simp only [PathMap.init_children, Set.ncard_empty] at hle
  omega

/-! ## The two builds -/

/-- **The two builds agree.** On every sequence of calls with valid keys from
`csdb_init` during which no entry has `2 ^ 31` children, both builds give the
same replies, or both wait for the mutex at the same call; the times at which
the two run do not matter. -/
theorem searches_agree (now now' : Int) (clock clock' : Nat → Int) (ops : List Op)
    (hsparse : SparseRun ops ⟨.init, false⟩) :
    ∃ db₀ db₀', csdbInit now = .ok db₀ ∧ csdbInit now' = .ok db₀' ∧
      Outcome (fun x y => List.Forall₂ Reply.Agree x.1 y.1)
        (run .linear clock 0 (ops.map Op.call) db₀) (run .binary clock' 0 (ops.map Op.call) db₀') := by
  obtain ⟨db₀, hinit, h₀, hfree₀⟩ := csdbInit_spec .linear now
  obtain ⟨db₀', hinit', h₀', hfree₀'⟩ := csdbInit_spec .binary now'
  refine ⟨db₀, db₀', hinit, hinit', ?_⟩
  have hlinear := ops_refine (s := ⟨.init, false⟩) clock ops 0 h₀ (Models.init now) hfree₀ hsparse
  have hbinary := ops_refine (s := ⟨.init, false⟩) clock' ops 0 h₀' (Models.init now') hfree₀' hsparse
  exact hlinear.meet hbinary (fun x y z hx hy => forall₂_agree hx hy)

theorem dotA_valid : csdbIsValidKey (lit ['.', 'a']) = true := by decide

def twoKeys : List Op :=
  [.edit (.set ⟨lit ['.', 'a'], dotA_valid⟩ (lit ['1'])),
   .edit (.set ⟨lit ['.', 'b'], by decide⟩ (lit ['2'])),
   .childNames ⟨[dot], by decide⟩]

theorem searches_agree_twoKeys :
    SparseRun twoKeys ⟨.init, false⟩ ∧
    ∃ db₀ db₀', csdbInit 0 = .ok db₀ ∧ csdbInit 1 = .ok db₀' ∧
      Outcome (fun x y => List.Forall₂ Reply.Agree x.1 y.1)
        (run .linear (fun _ => 0) 0 (twoKeys.map Op.call) db₀)
        (run .binary (fun _ => 1) 0 (twoKeys.map Op.call) db₀') :=
  ⟨sparseRun_of_length (by decide),
    searches_agree 0 1 (fun _ => 0) (fun _ => 1) twoKeys (sparseRun_of_length (by decide))⟩

end Dkmp.Csdb
