import Dkmp.Csdb.CallSpec
import Dkmp.Csdb.Store

/-! # The database refines the store

`Models t m` reads a tree as a map: the same paths are present with the same
values, and an entry is a leaf exactly when it has a value. Each call keeps this
relation, in both builds, and answers as the store does; the runs follow by
induction.
-/

namespace Dkmp.Csdb

open Machine

variable {b : Search} {db : Database} {t t' : Tree} {m : Paths}

structure Models (t : Tree) (m : Paths) : Prop where
  bound : ∀ p, m.bound p.reverse = (t.record p).map Record.value
  plain : ∀ p r, t.record p = some r → r.leaf = r.value.isSome

theorem Models.bound_path (h : Models t m) (path : List CStr) :
    m.bound path = (t.record path.reverse).map Record.value := by
  rw [← h.bound, List.reverse_reverse]

theorem Models.init (now : Int) : Models (Tree.init now) .init where
  bound := by
    intro p
    rw [Tree.init_record]
    cases p with
    | nil => rfl
    | cons n p =>
        cases hr : (n :: p).reverse with
        | nil => simp at hr
        | cons x l => simp [PathMap.init]
  plain := by
    intro p r hr
    rw [Tree.init_record] at hr
    split at hr
    · rw [← Option.some.inj hr]
      rfl
    · cases hr

theorem Models.set (h : Models t m) {value : CStr} {now : Int} {target : UpPath}
    (hrec : ∀ q, t'.record q = setRecord (some value) now target t.record q) :
    Models t' (m.set target.reverse value) where
  bound := by
    intro q
    rw [PathMap.set_bound, hrec, setRecord]
    by_cases hq : q = target
    · simp [hq, Record.set]
    · rw [if_neg (by simpa using hq), if_neg hq]
      by_cases hs : q <:+ target
      · rw [if_pos (by simpa using hs), if_pos hs, h.bound]
        cases t.record q <;> rfl
      · rw [if_neg (by simpa using hs), if_neg hs, h.bound]
  plain := by
    intro q r hr
    rw [hrec, setRecord] at hr
    split at hr
    · rw [← Option.some.inj hr]
      rfl
    split at hr
    · cases hq : t.record q with
      | none =>
          rw [hq] at hr
          rw [← Option.some.inj hr]
          rfl
      | some r' =>
          rw [hq] at hr
          rw [← Option.some.inj hr]
          exact h.plain q r' hq
    · exact h.plain q r hr

theorem Models.append (h : Models t m) {r : Record} {old more : CStr} {target : UpPath}
    (hr : t.record target = some r) (hold : r.value = some old)
    (hrec : ∀ q, t'.record q = if q = target then some { r with value := some (old ++ more) }
      else t.record q) :
    Models t' (m.modify target.reverse (· ++ more)) where
  bound := by
    intro q
    rw [PathMap.modify_bound, hrec, h.bound]
    by_cases hq : q = target
    · simp [hq, hr, hold]
    · simp [hq]
  plain := by
    intro q r' hr'
    rw [hrec] at hr'
    split at hr'
    · rw [← Option.some.inj hr']
      simp [h.plain target r hr, hold]
    · exact h.plain q r' hr'

theorem Models.prune (h : Models t m) (n : CStr) (p : UpPath) (hne : (n :: p).reverse ≠ []) :
    Models (t.prune n p) (m.remove (n :: p).reverse hne) where
  bound := by
    intro q
    rw [PathMap.remove_bound, Tree.prune_record, h.bound]
    by_cases hs : n :: p <:+ q
    · rw [if_pos (List.reverse_prefix.mpr hs), if_pos hs, Option.map_none]
    · rw [if_neg (fun hp => hs (List.reverse_prefix.mp hp)), if_neg hs]
  plain := by
    intro q r hr
    rw [Tree.prune_record] at hr
    split at hr
    · cases hr
    · exact h.plain q r hr

/-! ## Child lists -/

theorem Models.mem_children (h : Models t m) {p : UpPath} {d : Node} (hd : t.node p = some d)
    (n : CStr) : n ∈ d.kids ↔ n ∈ m.children p.reverse := by
  have hp : p.reverse ++ [n] = (n :: p).reverse := by simp
  rw [PathMap.mem_children, hp, h.bound, Option.isSome_map, Tree.record_isSome, t.mem_kids_iff hd]

def Sparse (m : Paths) : Prop := ∀ path, (m.children path).ncard < 2 ^ 31

theorem Models.bounded (h : Models t m) (hs : Sparse m) (b : Search) : Bounded b t := by
  intro p d hd _
  have hset : m.children p.reverse = ↑d.kids.toFinset := by
    ext n
    rw [← h.mem_children hd]
    simp
  have hcard := hs p.reverse
  rwa [hset, Set.ncard_coe_finset, List.toFinset_card_of_nodup (t.nodup p d hd)] at hcard

/-! ## Edits -/

theorem ValidKey.path_eq_nil {key : ValidKey} : key.path = [] ↔ key.val = [dot] := by
  refine ⟨?_, fun h => by rw [ValidKey.path, h]; rfl⟩
  intro h
  by_contra hne
  exact (keyPath_valid key.property hne).1.ne_nil h

def Edit.Refined (e : Edit) (b : Search) (db : Database) (m : Paths) (now : Int) : Prop :=
  ∃ db' t', e.call.exec b now db = .ok (.ret (e.spec m).1, db') ∧ Holds b db' t' ∧
    db'.locked = false ∧ Models t' (e.spec m).2

theorem Edit.Refined.unchanged {e : Edit} {now ret : Int} (h : Holds b db t)
    (hfree : db.locked = false) (hm : Models t m)
    (hok : e.call.exec b now db = .ok (.ret ret, db)) (hspec : e.spec m = (ret, m)) :
    e.Refined b db m now := by
  refine ⟨db, t, ?_, h, hfree, ?_⟩
  · rw [hok, hspec]
  · rw [hspec]
    exact hm

section Edit

variable (h : Holds b db t) (hb : Bounded b t) (hfree : db.locked = false) (hm : Models t m)

include h hb hfree hm

theorem set_refines (key : ValidKey) (value : CStr) (now : Int) :
    (Edit.set key value).Refined b db m now := by
  obtain ⟨L, hrep⟩ := h
  obtain ⟨db', t', hok, hholds, hfree', hrec⟩ :=
    csdbSetValueForKey_spec hrep hb hfree key.property (some value) now
  have hmod := hm.set hrec
  rw [List.reverse_reverse] at hmod
  exact ⟨db', t', by simp [Edit.call, Call.exec, hok, Edit.spec, Except.map], hholds, hfree', hmod⟩

theorem append_refines (key : ValidKey) (value btwn : Option CStr) (now : Int) :
    (Edit.append key value btwn).Refined b db m now := by
  have hheld := h
  obtain ⟨L, hrep⟩ := h
  have hbound := hm.bound_path key.path
  by_cases happ : Appendable value (t.record key.path.reverse)
  · obtain ⟨hvalue, r, hr, hleaf⟩ := happ
    obtain ⟨v, rfl⟩ := Option.isSome_iff_exists.mp hvalue
    obtain ⟨old, hold⟩ : ∃ old, r.value = some old := by
      apply Option.isSome_iff_exists.mp
      rw [← hm.plain _ r hr, hleaf]
    obtain ⟨db', t', hok, hholds, hfree', hrec⟩ :=
      csdbAppendValueForKey_spec hrep (hrep.finds hb key.property) hfree v btwn now hr hleaf
    have happend : r.append v (btwn.getD []) now =
        { r with value := some (old ++ (btwn.getD [] ++ v)) } := by
      simp [Record.append, hold]
    have hmod := hm.append hr hold (fun q => by rw [hrec, happend]; rfl)
    rw [List.reverse_reverse] at hmod
    rw [hr, Option.map_some, hold] at hbound
    refine ⟨db', t', ?_, hholds, hfree', ?_⟩
    · simp [Edit.call, Call.exec, hok, Edit.spec, hbound, Except.map]
    · simpa [Edit.spec, hbound] using hmod
  · have hok := csdbAppendValueForKey_fail hrep (hrep.finds hb key.property) hfree value btwn now happ
    have hspec : (Edit.append key value btwn).spec m = (-1, m) := by
      cases value with
      | none => rfl
      | some v =>
          have hno : ∀ old, m.bound key.path ≠ some (some old) := by
            intro old hold
            rw [hbound] at hold
            obtain ⟨r, hr, hv⟩ := Option.map_eq_some_iff.mp hold
            exact happ ⟨rfl, r, hr, by rw [hm.plain _ r hr, hv]; rfl⟩
          simp only [Edit.spec]
          split
          · exact absurd ‹_› (hno _)
          · rfl
    exact .unchanged hheld hfree hm (by simp [Edit.call, Call.exec, hok, Except.map]) hspec

theorem remove_refines (key : ValidKey) (now : Int) :
    (Edit.remove key).Refined b db m now := by
  have hheld := h
  obtain ⟨L, hrep⟩ := h
  by_cases hroot : key.path = []
  · have hkey := ValidKey.path_eq_nil.mp hroot
    have hspec : (Edit.remove key).spec m = (-1, m) := by simp [Edit.spec, hroot]
    exact .unchanged hheld hfree hm
      (by simp [Edit.call, Call.exec, hkey, csdbRemoveFromKey_root, Except.map]) hspec
  have hkey : key.val ≠ [dot] := fun he => hroot (ValidKey.path_eq_nil.mpr he)
  have hbound := hm.bound_path key.path
  cases hr : t.record key.path.reverse with
  | none =>
      rw [hr, Option.map_none] at hbound
      have hspec : (Edit.remove key).spec m = (-ecsNoentry, m) := by
        simp [Edit.spec, hroot, hbound]
      have hok := csdbRemoveFromKey_absent hrep (hrep.finds hb key.property) hfree hkey hr
      exact .unchanged hheld hfree hm (by simp [Edit.call, Call.exec, hok, Except.map]) hspec
  | some r =>
      rw [hr, Option.map_some] at hbound
      have hspec : (Edit.remove key).spec m = (0, m.remove key.path hroot) := by
        simp [Edit.spec, hroot, hbound]
      obtain ⟨n, p, hpath⟩ : ∃ n p, key.path.reverse = n :: p :=
        List.exists_cons_of_ne_nil (by simpa using hroot)
      have hback : key.path = (n :: p).reverse := by rw [← hpath, List.reverse_reverse]
      rw [hpath] at hr
      obtain ⟨db', hok, hholds, hfree'⟩ :=
        csdbRemoveFromKey_spec hrep (hrep.finds hb key.property) hfree hkey hpath (by simp [hr])
      have hmod := hm.prune n p (by simp)
      refine ⟨db', t.prune n p, ?_, hholds, hfree', ?_⟩
      · rw [hspec]
        simp [Edit.call, Call.exec, hok, Except.map]
      · rw [hspec]
        simpa [hback] using hmod

theorem edit_refines (e : Edit) (now : Int) :
    ∃ db' t', e.call.exec b now db = .ok (.ret (e.spec m).1, db') ∧ Holds b db' t' ∧
      db'.locked = false ∧ Models t' (e.spec m).2 := by
  cases e with
  | set key value => exact set_refines h hb hfree hm key value now
  | append key value btwn => exact append_refines h hb hfree hm key value btwn now
  | remove key => exact remove_refines h hb hfree hm key now

end Edit

/-- Every run of edits in the linear build follows the map, return values
included. -/
theorem edits_refine (clock : Nat → Int) (edits : List Edit) (k : Nat)
    (h : Holds .linear db t) (hfree : db.locked = false) (hm : Models t m) :
    ∃ db' t', run .linear clock k (edits.map Edit.call) db =
        .ok ((Edit.specRun edits m).1.map Reply.ret, db') ∧
      Holds .linear db' t' ∧ db'.locked = false ∧ Models t' (Edit.specRun edits m).2 := by
  induction edits generalizing db t m k with
  | nil => exact ⟨db, t, rfl, h, hfree, hm⟩
  | cons e edits ih =>
      obtain ⟨db₁, t₁, hok₁, h₁, hfree₁, hm₁⟩ :=
        edit_refines h (bounded_linear t) hfree hm e (clock k)
      obtain ⟨db', t', hok', h', hfree', hm'⟩ := ih (k + 1) h₁ hfree₁ hm₁
      refine ⟨db', t', ?_, h', hfree', hm'⟩
      simp only [List.map_cons, run, hok₁, ok_bind, hok']
      rfl

theorem edits_reach (now : Int) (clock : Nat → Int) (edits : List Edit) {db₀ db : Database}
    {replies : List Reply} (hinit : csdbInit now = .ok db₀)
    (hrun : run .linear clock 0 (edits.map Edit.call) db₀ = .ok (replies, db)) :
    ∃ t, Holds .linear db t ∧ db.locked = false ∧ Models t (Edit.specRun edits .init).2 := by
  obtain ⟨db₁, hinit₁, h₁, hfree₁⟩ := csdbInit_spec .linear now
  obtain rfl : db₁ = db₀ := Except.ok.inj (hinit₁.symm.trans hinit)
  obtain ⟨db₂, t, hrun₂, h₂, hfree₂, hm₂⟩ := edits_refine clock edits 0 h₁ hfree₁ (Models.init now)
  obtain rfl : db₂ = db := (Prod.mk.inj (Except.ok.inj (hrun₂.symm.trans hrun))).2
  exact ⟨t, h₂, hfree₂, hm₂⟩

/-! ## Queries -/

theorem keyExist_refines (h : Holds b db t) (hb : Bounded b t) (hfree : db.locked = false)
    (hm : Models t m) (key : ValidKey) :
    csdbKeyExist b db key.val = .ok (if (m.bound key.path).isSome then 1 else 0, db) := by
  obtain ⟨L, hrep⟩ := h
  rw [csdbKeyExist_spec hrep hb hfree key.property, hm.bound_path, Option.isSome_map]
  rfl

/-- The mutex stays taken exactly when there is no value to give. -/
theorem getValue_refines (h : Holds b db t) (hb : Bounded b t) (hfree : db.locked = false)
    (hm : Models t m) (key : ValidKey) :
    csdbGetValueForKey b db key.val = .ok ((valueOf (m.bound key.path)).1,
      (valueOf (m.bound key.path)).2,
      { db with locked := (valueOf (m.bound key.path)).2.isNone }) := by
  obtain ⟨L, hrep⟩ := h
  have hplain := hm.plain key.path.reverse
  rw [csdbGetValueForKey_spec hrep hb hfree key.property, hm.bound_path]
  change valueReply db (t.record key.path.reverse) = _
  cases hr : t.record key.path.reverse with
  | none => rfl
  | some r =>
      have hleaf := hplain r hr
      obtain ⟨leaf, value, mtime⟩ := r
      simp only at hleaf
      subst hleaf
      cases value with
      | none => rfl
      | some v =>
          cases db
          simp_all [valueReply, valueOf]

/-- **Refinement.** After `csdb_init` and any sequence of sets, appends and
removals with valid keys, in the build the Makefile selects, every call has
returned what the map says, nothing has faulted, and `csdb_key_exist` and
`csdb_get_value_for_key` agree with the map on every valid key. -/
theorem csdb_refines_paths (now : Int) (clock : Nat → Int) (edits : List Edit) :
    ∃ db₀ db, csdbInit now = .ok db₀ ∧
      run .linear clock 0 (edits.map Edit.call) db₀ =
        .ok ((Edit.specRun edits .init).1.map Reply.ret, db) ∧
      ∀ key : ValidKey,
        csdbKeyExist .linear db key.val =
          .ok (if ((Edit.specRun edits .init).2.bound key.path).isSome then 1 else 0, db) ∧
        ∃ db', csdbGetValueForKey .linear db key.val =
          .ok ((valueOf ((Edit.specRun edits .init).2.bound key.path)).1,
            (valueOf ((Edit.specRun edits .init).2.bound key.path)).2, db') := by
  obtain ⟨db₀, hinit, h₀, hfree₀⟩ := csdbInit_spec .linear now
  obtain ⟨db, t, hrun, h, hfree, hm⟩ := edits_refine clock edits 0 h₀ hfree₀ (Models.init now)
  refine ⟨db₀, db, hinit, hrun, ?_⟩
  intro key
  exact ⟨keyExist_refines h (bounded_linear t) hfree hm key,
    _, getValue_refines h (bounded_linear t) hfree hm key⟩

end Dkmp.Csdb
