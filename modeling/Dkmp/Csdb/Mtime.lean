import Dkmp.Csdb.HeapInvariant

/-! # Modification times

`csdb_set_value` stamps the entry whose value it writes. An append to an entry
without a value goes through it; an append to a value reallocs the value alone and
leaves the old stamp. The results below follow the stamp of one key through a
sequence of edits, next to the time of the last call that wrote its value.
-/

namespace Dkmp.Csdb

open Machine

/-! ## What a sequence says about a key -/

/-- The call wrote the value of the key: it set it, or appended to it and succeeded. -/
def Call.writes (call : Call) (reply : Reply) (key : CStr) : Bool :=
  match call with
  | .set key' _ => key' = key
  | .append key' _ _ => key' = key ∧ reply = .ret 0
  | _ => false

def lastWrites (clock : Nat → Int) :
    Nat → List Call → List Reply → (CStr → Option Int) → CStr → Option Int
  | k, call :: calls, reply :: replies, w =>
      lastWrites clock (k + 1) calls replies fun key =>
        if call.writes reply key then some (clock k) else w key
  | _, _, _, w => w

/-- The call sets the key, or removes it or an entry above it: either way the stamp
the key had before is gone. -/
def Call.renews (call : Call) (key : CStr) : Prop :=
  match call with
  | .set key' _ => key' = key
  | .remove key' => key' ≠ [dot] ∧ keyPath key' <+: keyPath key
  | _ => False

def Call.appendsTo (call : Call) (key : CStr) : Prop :=
  match call with
  | .append key' (some _) _ => key' = key
  | _ => False

/-- Every append of a text to a key that holds a value at that time is followed, later
in the sequence, by a call that renews the key. -/
def AppendsRenewed (clock : Nat → Int) : Nat → List Call → Database → Prop
  | _, [], _ => True
  | k, call :: calls, db =>
      (∀ key, call.appendsTo key → (∃ v, valueFor .linear db key = .ok (some v)) →
        ∃ later ∈ calls, later.renews key) ∧
      match call.exec .linear (clock k) db with
      | .error _ => True
      | .ok (_, db') => AppendsRenewed clock (k + 1) calls db'

/-- A key with a value has the time of the last call that wrote it, an absent key 0. -/
def MtimesKept (db : Database) (w : CStr → Option Int) : Prop :=
  ∀ key, csdbIsValidKey key = true →
    ((∃ v, valueFor .linear db key = .ok (some v)) →
      ∃ m, w key = some m ∧ csdbGetMtimeForKey .linear db key = .ok (m, db)) ∧
    (csdbKeyExist .linear db key = .ok (0, db) → csdbGetMtimeForKey .linear db key = .ok (0, db))

/-! ## Stamps -/

def recordStamp : Option Record → Option Int
  | some ⟨true, some _, mtime⟩ => some mtime
  | _ => none

theorem recordStamp_eq_some {r : Option Record} {m : Int} :
    recordStamp r = some m ↔ ∃ v, r = some ⟨true, some v, m⟩ := by
  constructor
  · intro hm
    cases r with
    | none => cases hm
    | some r =>
        obtain ⟨leaf, value, mtime⟩ := r
        cases leaf with
        | false => cases hm
        | true =>
            cases value with
            | none => cases hm
            | some v =>
                cases hm
                exact ⟨v, rfl⟩
  · rintro ⟨v, rfl⟩
    rfl

def Tree.stamp (t : Tree) (key : CStr) : Option Int := recordStamp (t.record (keyPath key).reverse)

theorem Tree.stamp_record {t : Tree} {key : CStr} (hsome : (t.stamp key).isSome) :
    ∃ v m, t.stamp key = some m ∧ t.record (keyPath key).reverse = some ⟨true, some v, m⟩ := by
  obtain ⟨m, hm⟩ := Option.isSome_iff_exists.mp hsome
  obtain ⟨v, hr⟩ := recordStamp_eq_some.mp hm
  exact ⟨v, m, hm, hr⟩

section Reading

variable {db : Database} {t : Tree} (h : Holds .linear db t) (hfree : db.locked = false)
  {key : CStr} (hv : csdbIsValidKey key = true)

include h hfree hv

theorem valued_iff : (∃ v, valueFor .linear db key = .ok (some v)) ↔ (t.stamp key).isSome := by
  rw [valueFor_eq h (bounded_linear t) hfree hv, Tree.stamp]
  cases t.record (keyPath key).reverse with
  | none => simp [recordValue, recordStamp]
  | some r =>
      obtain ⟨leaf, value, mtime⟩ := r
      cases leaf with
      | false => simp [recordValue, recordStamp]
      | true => cases value <;> simp [recordValue, recordStamp]

theorem getMtime_stamp {m : Int} (hm : t.stamp key = some m) :
    csdbGetMtimeForKey .linear db key = .ok (m, db) := by
  obtain ⟨L, hrep⟩ := h
  obtain ⟨v, hr⟩ := recordStamp_eq_some.mp hm
  rw [csdbGetMtimeForKey_spec hrep (bounded_linear t) hfree hv, hr]
  rfl

theorem getMtime_absent (habsent : csdbKeyExist .linear db key = .ok (0, db)) :
    csdbGetMtimeForKey .linear db key = .ok (0, db) := by
  obtain ⟨L, hrep⟩ := h
  rw [csdbKeyExist_spec hrep (bounded_linear t) hfree hv] at habsent
  rw [csdbGetMtimeForKey_spec hrep (bounded_linear t) hfree hv]
  cases hr : t.record (keyPath key).reverse with
  | none => rfl
  | some r => simp [hr] at habsent

end Reading

/-- The times are kept exactly when every stamp is the last write of its key. -/
theorem mtimesKept_iff {db : Database} {t : Tree} (h : Holds .linear db t)
    (hfree : db.locked = false) (w : CStr → Option Int) :
    MtimesKept db w ↔
      ∀ key, csdbIsValidKey key = true → (t.stamp key).isSome → t.stamp key = w key := by
  constructor
  · intro hkept key hv hsome
    obtain ⟨m, hm⟩ := Option.isSome_iff_exists.mp hsome
    obtain ⟨m', hw, hread⟩ := (hkept key hv).1 ((valued_iff h hfree hv).mpr hsome)
    rw [getMtime_stamp h hfree hv hm, Except.ok.injEq, Prod.mk.injEq] at hread
    rw [hm, hw, hread.1]
  · intro hstamps key hv
    refine ⟨?_, getMtime_absent h hfree hv⟩
    intro hvalue
    have hsome := (valued_iff h hfree hv).mp hvalue
    obtain ⟨m, hm⟩ := Option.isSome_iff_exists.mp hsome
    exact ⟨m, by rw [← hstamps key hv hsome, hm], getMtime_stamp h hfree hv hm⟩

theorem Tree.stamp_init (now : Int) (key : CStr) : (Tree.init now).stamp key = none := by
  rw [Tree.stamp, Tree.init_record]
  split <;> rfl

theorem recordStamp_setRecord (value : Option CStr) (now : Int) (target q : UpPath)
    (r : UpPath → Option Record) :
    recordStamp (setRecord value now target r q) =
      if q = target then value.map fun _ => now else recordStamp (r q) := by
  rw [setRecord]
  by_cases hq : q = target
  · rw [if_pos hq, if_pos hq]
    cases value with
    | some v => rfl
    | none =>
        show recordStamp (some ⟨_, none, now⟩) = none
        cases ((r q).getD (.fresh now)).leaf <;> rfl
  · rw [if_neg hq, if_neg hq]
    split
    · cases r q <;> rfl
    · rfl

/-- An append stamps an entry without a value only. -/
theorem recordStamp_append {r : Record} (hleaf : r.leaf = true) (value btwn : CStr) (now : Int) :
    recordStamp (some (r.append value btwn now)) = some ((recordStamp (some r)).getD now) := by
  obtain ⟨leaf, old, mtime⟩ := r
  subst hleaf
  cases old <;> rfl

/-! ## One edit -/

def stampAfter (call : Call) (reply : Reply) (now : Int) (key : CStr) (m : Option Int) : Option Int :=
  match call with
  | .set key' value => if key' = key then value.map fun _ => now else m
  | .append key' _ _ => if key' = key ∧ reply = .ret 0 then some (m.getD now) else m
  | .remove key' => if key' ≠ [dot] ∧ keyPath key' <+: keyPath key then none else m
  | _ => m

/-- The database behind an edit: each stamp is as the edit left it, and an append to a
value succeeds exactly with a text. -/
structure Stamps (t : Tree) (call : Call) (now : Int) (reply : Reply) (db : Database) (t' : Tree) :
    Prop where
  holds : Holds .linear db t'
  free : db.locked = false
  stamp : ∀ key, csdbIsValidKey key = true →
    t'.stamp key = stampAfter call reply now key (t.stamp key)
  append : ∀ key text btwn, call = .append key text btwn → (t.stamp key).isSome →
    (reply = .ret 0 ↔ text.isSome)

section Edit

variable {db : Database} {t : Tree} (h : Holds .linear db t) (hfree : db.locked = false)

include h hfree

theorem set_stamps {key : CStr} (hv : csdbIsValidKey key = true) (value : Option CStr) (now : Int) :
    ∃ reply db' t', (Call.set key value).exec .linear now db = .ok (reply, db') ∧
      Stamps t (.set key value) now reply db' t' := by
  obtain ⟨L, hrep⟩ := h
  obtain ⟨db', t', hok, hholds, hfree', hrec⟩ :=
    csdbSetValueForKey_spec hrep (bounded_linear t) hfree hv value now
  refine ⟨.ret 0, db', t', map_of_ok _ hok, hholds, hfree', ?_, ?_⟩
  · intro key' hv'
    rw [Tree.stamp, hrec, recordStamp_setRecord]
    have hsame : (keyPath key').reverse = (keyPath key).reverse ↔ key = key' :=
      ⟨fun he => keyPath_inj hv hv' (List.reverse_injective he).symm, fun he => by rw [he]⟩
    simp only [hsame]
    rfl
  · intro _ _ _ hcall
    cases hcall

theorem append_stamps {key : CStr} (hv : csdbIsValidKey key = true) (value btwn : Option CStr)
    (now : Int) :
    ∃ reply db' t', (Call.append key value btwn).exec .linear now db = .ok (reply, db') ∧
      Stamps t (.append key value btwn) now reply db' t' := by
  have hholds := h
  obtain ⟨L, hrep⟩ := h
  have hfind := hrep.finds (bounded_linear t) hv
  by_cases happ : Appendable value (t.record (keyPath key).reverse)
  · obtain ⟨hvalue, r, hr, hleaf⟩ := happ
    obtain ⟨v, rfl⟩ := Option.isSome_iff_exists.mp hvalue
    obtain ⟨db', t', hok, hholds', hfree', hrec⟩ :=
      csdbAppendValueForKey_spec hrep hfind hfree v btwn now hr hleaf
    refine ⟨.ret 0, db', t', map_of_ok _ hok, hholds', hfree', ?_, ?_⟩
    · intro key' hv'
      rw [Tree.stamp, hrec]
      by_cases hk : key = key'
      · subst hk
        rw [if_pos rfl, recordStamp_append hleaf, stampAfter, if_pos ⟨rfl, rfl⟩, Tree.stamp, hr]
      · have hpath : (keyPath key').reverse ≠ (keyPath key).reverse := fun he =>
          hk (keyPath_inj hv hv' (List.reverse_injective he).symm)
        rw [if_neg hpath, stampAfter, if_neg fun he => hk he.1, Tree.stamp]
    · intro _ text _ hcall _
      cases hcall
      simp
  · have hok := csdbAppendValueForKey_fail hrep hfind hfree value btwn now happ
    refine ⟨.ret (-1), db, t, map_of_ok _ hok, hholds, hfree, ?_, ?_⟩
    · intro key' _
      rw [stampAfter, if_neg]
      rintro ⟨-, hret⟩
      cases hret
    · -- a key with a value can be appended to, so there was no text
      intro key' text btwn' hcall hsome
      cases hcall
      constructor
      · intro hret
        cases hret
      · intro htext
        obtain ⟨v, m, -, hr⟩ := t.stamp_record hsome
        exact absurd ⟨htext, _, hr, rfl⟩ happ

theorem remove_stamps {key : CStr} (hv : csdbIsValidKey key = true) (now : Int) :
    ∃ reply db' t', (Call.remove key).exec .linear now db = .ok (reply, db') ∧
      Stamps t (.remove key) now reply db' t' := by
  by_cases hk : key = [dot]
  · subst hk
    have hok : (Call.remove [dot]).exec .linear now db = .ok (.ret (-1), db) := by
      rw [Call.exec, csdbRemoveFromKey_root]
      rfl
    refine ⟨.ret (-1), db, t, hok, h, hfree, ?_, ?_⟩
    · intro key' _
      rw [stampAfter, if_neg fun he => he.1 rfl]
    · intro _ _ _ hcall
      cases hcall
  · obtain ⟨L, hrep⟩ := h
    obtain ⟨ret, db', t', hok, hholds, hfree', hrec⟩ :=
      csdbRemoveFromKey_valid hrep (bounded_linear t) hfree hv hk
    refine ⟨.ret ret, db', t', map_of_ok _ hok, hholds, hfree', ?_, ?_⟩
    · intro key' _
      rw [Tree.stamp, hrec, stampAfter, Tree.stamp]
      simp only [List.reverse_suffix]
      by_cases hp : keyPath key <+: keyPath key'
      · rw [if_pos hp, if_pos ⟨hk, hp⟩]
        rfl
      · rw [if_neg hp, if_neg fun he => hp he.2]
    · intro _ _ _ hcall
      cases hcall

theorem edit_stamps {call : Call} (hedit : call.edits = true) (hv : csdbIsValidKey call.key = true)
    (now : Int) :
    ∃ reply db' t', call.exec .linear now db = .ok (reply, db') ∧ Stamps t call now reply db' t' := by
  cases call with
  | set key value => exact set_stamps h hfree hv value now
  | append key value btwn => exact append_stamps h hfree hv value btwn now
  | remove key => exact remove_stamps h hfree hv now
  | _ => cases hedit

end Edit

/-! ## Stamps against last writes -/

def Increasing (clock : Nat → Int) : Prop := ∀ i j, i < j → clock i < clock j

def Stale (w : CStr → Option Int) (t : Tree) (key : CStr) : Prop :=
  (t.stamp key).isSome ∧ t.stamp key ≠ w key

def Dated (now : Int) (w : CStr → Option Int) (t : Tree) : Prop :=
  ∀ key, csdbIsValidKey key = true → ∀ m, t.stamp key = some m →
    ∃ last, w key = some last ∧ m ≤ last ∧ last < now

def writesAfter (call : Call) (reply : Reply) (now : Int) (w : CStr → Option Int) (key : CStr) :
    Option Int :=
  if call.writes reply key then some now else w key

theorem Call.appendsTo.key_eq {call : Call} {key : CStr} (h : call.appendsTo key) :
    call.key = key := by
  cases call with
  | append key' value btwn =>
      cases value with
      | none => cases h
      | some text => exact h
  | _ => cases h

section Step

variable {t t' : Tree} {call : Call} {now : Int} {reply : Reply} {db' : Database}
  {w : CStr → Option Int} {key : CStr}

theorem Stamps.dated (h : Stamps t call now reply db' t') (hdated : Dated now w t) {later : Int}
    (hlater : now < later) : Dated later (writesAfter call reply now w) t' := by
  intro key hv m hm
  rw [h.stamp key hv] at hm
  have hkept : t.stamp key = some m →
      ∃ last, w key = some last ∧ m ≤ last ∧ last < later := by
    intro hold
    obtain ⟨last, hw, hle, hlt⟩ := hdated key hv m hold
    exact ⟨last, hw, hle, by omega⟩
  unfold writesAfter
  cases call with
  | set key' value =>
      simp only [stampAfter] at hm
      by_cases hk : key' = key
      · rw [if_pos hk] at hm
        obtain ⟨v, -, rfl⟩ := Option.map_eq_some_iff.mp hm
        exact ⟨now, by simp [Call.writes, hk], le_refl now, hlater⟩
      · rw [if_neg hk] at hm
        simpa [Call.writes, hk] using hkept hm
  | append key' value btwn =>
      simp only [stampAfter] at hm
      by_cases hk : key' = key ∧ reply = .ret 0
      · rw [if_pos hk, Option.some.injEq] at hm
        refine ⟨now, by simp [Call.writes, hk], ?_, hlater⟩
        cases hold : t.stamp key with
        | none =>
            rw [hold, Option.getD_none] at hm
            omega
        | some old =>
            obtain ⟨last, -, hle, hlt⟩ := hdated key hv old hold
            rw [hold, Option.getD_some] at hm
            omega
      · rw [if_neg hk] at hm
        simpa [Call.writes, hk] using hkept hm
  | remove key' =>
      simp only [stampAfter] at hm
      split at hm
      · cases hm
      · exact hkept hm
  | _ => exact hkept hm

/-- A stamp is stale behind an edit exactly when it was and the edit does not renew it,
or when the edit appended a text to the value. -/
theorem Stamps.stale_iff (h : Stamps t call now reply db' t') (hdated : Dated now w t)
    (hv : csdbIsValidKey key = true) :
    Stale (writesAfter call reply now w) t' key ↔
      (Stale w t key ∧ ¬ call.renews key) ∨ (call.appendsTo key ∧ (t.stamp key).isSome) := by
  unfold Stale writesAfter
  rw [h.stamp key hv]
  cases call with
  | set key' value =>
      by_cases hk : key' = key
      · cases value <;> simp [stampAfter, Call.writes, Call.renews, Call.appendsTo, hk]
      · simp [stampAfter, Call.writes, Call.renews, Call.appendsTo, hk]
  | remove key' =>
      by_cases hk : key' ≠ [dot] ∧ keyPath key' <+: keyPath key
      · simp [stampAfter, Call.writes, Call.renews, Call.appendsTo, hk]
      · simp [stampAfter, Call.writes, Call.renews, Call.appendsTo, hk]
  | append key' value btwn =>
      have hrenews : ¬ (Call.append key' value btwn).renews key := fun hf => hf
      by_cases hk : key' = key
      · subst hk
        cases hold : t.stamp key' with
        | none => by_cases hret : reply = .ret 0 <;> simp [stampAfter, Call.writes, hret]
        | some m =>
            -- the stamp is older than this append
            obtain ⟨last, hw, hle, hlt⟩ := hdated key' hv m hold
            have hne : m ≠ now := by omega
            have hsucceeds := h.append key' value btwn rfl (by rw [hold]; rfl)
            cases value with
            | none =>
                have hret : reply ≠ .ret 0 := fun he => by simpa using hsucceeds.mp he
                simp [stampAfter, Call.writes, Call.appendsTo, hret, hrenews]
            | some text =>
                have hret : reply = .ret 0 := hsucceeds.mpr rfl
                simp [stampAfter, Call.writes, Call.appendsTo, hret, hne]
      · cases value <;> simp [stampAfter, Call.writes, Call.appendsTo, hk, hrenews]
  | _ =>
      simp [stampAfter, Call.writes, Call.renews, Call.appendsTo]

end Step

/-! ## Runs -/

/-- From any database, the times are kept at the end exactly when every append to a value
is renewed later, and so is every stamp that is stale at the start. -/
theorem run_mtimes {clock : Nat → Int} (hclock : Increasing clock) (calls : List Call) :
    ∀ (k : Nat) (db : Database) (t : Tree) (w : CStr → Option Int), Holds .linear db t →
      db.locked = false → Dated (clock k) w t →
      (∀ call ∈ calls, call.edits = true ∧ csdbIsValidKey call.key = true) →
      ∃ replies db', run .linear clock k calls db = .ok (replies, db') ∧
        (MtimesKept db' (lastWrites clock k calls replies w) ↔
          AppendsRenewed clock k calls db ∧
            ∀ key, csdbIsValidKey key = true → Stale w t key → ∃ call ∈ calls, call.renews key) := by
  induction calls with
  | nil =>
      intro k db t w h hfree _ _
      refine ⟨[], db, rfl, ?_⟩
      show MtimesKept db w ↔ _
      rw [mtimesKept_iff h hfree]
      constructor
      · intro hkept
        exact ⟨trivial, fun key hv hstale => absurd (hkept key hv hstale.1) hstale.2⟩
      · rintro ⟨-, hnone⟩ key hv hsome
        by_contra hne
        obtain ⟨call, hmem, -⟩ := hnone key hv ⟨hsome, hne⟩
        cases hmem
  | cons call calls ih =>
      intro k db t w h hfree hdated hcalls
      obtain ⟨hedit, hv⟩ := hcalls call List.mem_cons_self
      obtain ⟨reply, db₁, t₁, hexec, hstamps⟩ := edit_stamps h hfree hedit hv (clock k)
      obtain ⟨replies, db', hrun, hkept⟩ := ih (k + 1) db₁ t₁ (writesAfter call reply (clock k) w)
        hstamps.holds hstamps.free (hstamps.dated hdated (hclock k (k + 1) (Nat.lt_succ_self k)))
        fun c hc => hcalls c (List.mem_cons_of_mem call hc)
      refine ⟨reply :: replies, db', by simp only [run, hexec, ok_bind, hrun], ?_⟩
      have hlast : lastWrites clock k (call :: calls) (reply :: replies) w =
          lastWrites clock (k + 1) calls replies (writesAfter call reply (clock k) w) := rfl
      rw [hlast, hkept]
      simp only [AppendsRenewed, hexec]
      constructor
      · rintro ⟨hrest, hstale⟩
        refine ⟨⟨?_, hrest⟩, ?_⟩
        · intro key happends hvalue
          have hvkey := happends.key_eq ▸ hv
          have hsome := (valued_iff h hfree hvkey).mp hvalue
          exact hstale key hvkey ((hstamps.stale_iff hdated hvkey).mpr (.inr ⟨happends, hsome⟩))
        · intro key hvkey hold
          by_cases hrenews : call.renews key
          · exact ⟨call, List.mem_cons_self, hrenews⟩
          · obtain ⟨later, hmem, hlater⟩ :=
              hstale key hvkey ((hstamps.stale_iff hdated hvkey).mpr (.inl ⟨hold, hrenews⟩))
            exact ⟨later, List.mem_cons_of_mem call hmem, hlater⟩
      · rintro ⟨⟨happend, hrest⟩, hstale⟩
        refine ⟨hrest, ?_⟩
        intro key hvkey hnew
        rcases (hstamps.stale_iff hdated hvkey).mp hnew with ⟨hold, hrenews⟩ | ⟨happends, hsome⟩
        · obtain ⟨later, hmem, hlater⟩ := hstale key hvkey hold
          rcases List.mem_cons.mp hmem with rfl | hmem
          · exact absurd hlater hrenews
          · exact ⟨later, hmem, hlater⟩
        · exact happend key happends ((valued_iff h hfree hvkey).mpr hsome)

theorem dated_init (first now : Int) (w : CStr → Option Int) : Dated first w (Tree.init now) := by
  intro key _ m hm
  rw [Tree.stamp_init] at hm
  cases hm

/-- **Modification times.** After a sequence of sets, appends and removals on a fresh
database under a strictly increasing clock, every key with a value has the time of the
last call that wrote it and every absent key has 0, exactly when every append to a
value was followed by a call that renews the key. -/
theorem mtimes_kept_iff (now : Int) (clock : Nat → Int) (hclock : Increasing clock)
    (calls : List Call)
    (hcalls : ∀ call ∈ calls, call.edits = true ∧ csdbIsValidKey call.key = true) :
    ∃ db₀ replies db, csdbInit now = .ok db₀ ∧
      run .linear clock 0 calls db₀ = .ok (replies, db) ∧
      (MtimesKept db (lastWrites clock 0 calls replies fun _ => none) ↔
        AppendsRenewed clock 0 calls db₀) := by
  obtain ⟨db₀, hinit, h, hfree⟩ := csdbInit_spec .linear now
  obtain ⟨replies, db, hrun, hkept⟩ := run_mtimes hclock calls 0 db₀ _ (fun _ => none) h hfree
    (dated_init (clock 0) now _) hcalls
  refine ⟨db₀, replies, db, hinit, hrun, ?_⟩
  rw [hkept]
  constructor
  · exact fun hrenewed => hrenewed.1
  · intro hrenewed
    refine ⟨hrenewed, ?_⟩
    intro key _ hstale
    rw [Stale, Tree.stamp_init] at hstale
    cases hstale.1

def setThenAppend : List Call :=
  [.set (lit ['.', 'k']) (some (lit ['a'])), .append (lit ['.', 'k']) (some (lit ['b'])) none]

/-- A second set renews what the append left stale. -/
def appendThenSet : List Call := setThenAppend ++ [.set (lit ['.', 'k']) (some (lit ['c']))]

theorem mtimes_kept_iff_renewed :
    ∃ db₀ replies db, csdbInit 0 = .ok db₀ ∧
      run .linear (fun k => k) 0 appendThenSet db₀ = .ok (replies, db) ∧
      MtimesKept db (lastWrites (fun k => k) 0 appendThenSet replies fun _ => none) := by
  obtain ⟨db₀, replies, db, hinit, hrun, hkept⟩ :=
    mtimes_kept_iff 0 (fun k => k) (fun _ _ h => Int.ofNat_lt.mpr h) appendThenSet (by decide)
  refine ⟨db₀, replies, db, hinit, hrun, hkept.mpr ?_⟩
  cases hinit
  refine And.intro (fun key happends => happends.elim) (And.intro ?_ (And.intro (fun key happends => happends.elim)
    trivial))
  rintro key rfl -
  exact ⟨.set (lit ['.', 'k']) (some (lit ['c'])), List.mem_singleton_self _, rfl⟩

/-- The append at time 1 leaves the time 0 of the set. -/
theorem append_keeps_old_mtime :
    (∃ db₀ replies db, csdbInit 0 = .ok db₀ ∧
      run .linear (fun k => k) 0 setThenAppend db₀ = .ok (replies, db) ∧
      csdbGetMtimeForKey .linear db (lit ['.', 'k']) = .ok (0, db) ∧
      lastWrites (fun k => k) 0 setThenAppend replies (fun _ => none) (lit ['.', 'k']) = some 1) ∧
    ¬ ∀ (now : Int) (clock : Nat → Int), Increasing clock → ∀ calls : List Call,
      (∀ call ∈ calls, call.edits = true ∧ csdbIsValidKey call.key = true) →
      ∃ db₀ replies db, csdbInit now = .ok db₀ ∧
        run .linear clock 0 calls db₀ = .ok (replies, db) ∧
        MtimesKept db (lastWrites clock 0 calls replies fun _ => none) := by
  obtain ⟨db₀, hinit⟩ : ∃ db₀, csdbInit 0 = .ok db₀ := ⟨_, rfl⟩
  obtain ⟨db, hrun, hvalue, hmtime⟩ : ∃ db,
      run .linear (fun k => k) 0 setThenAppend db₀ = .ok ([.ret 0, .ret 0], db) ∧
      valueFor .linear db (lit ['.', 'k']) = .ok (some (lit ['a', 'b'])) ∧
      csdbGetMtimeForKey .linear db (lit ['.', 'k']) = .ok (0, db) := by
    cases hinit
    exact ⟨_, rfl, rfl, rfl⟩
  refine ⟨⟨db₀, _, db, hinit, hrun, hmtime, rfl⟩, ?_⟩
  intro hclaim
  obtain ⟨db₀', replies, db', hinit', hrun', hkept⟩ :=
    hclaim 0 (fun k => k) (fun _ _ h => Int.ofNat_lt.mpr h) setThenAppend (by decide)
  rw [hinit] at hinit'
  cases hinit'
  rw [hrun] at hrun'
  cases hrun'
  obtain ⟨m, hlast, hread⟩ := (hkept (lit ['.', 'k']) (by decide)).1 ⟨_, hvalue⟩
  rw [hmtime] at hread
  cases hread
  cases hlast

end Dkmp.Csdb
