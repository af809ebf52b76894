import Dkmp.Csdb.Dump

/-! # The mutex over whole runs

Six of the seven locking calls give `csdb_root_mutex` back on every return.
`csdb_get_value_for_key` gives it back only when it finds a value, so a run
keeps the mutex free exactly as long as every such call names a leaf.
-/

namespace Dkmp.Csdb

open Machine

variable {db db' : Database} {t : Tree}

def Call.locking : Call → Bool
  | .childNames _ => false
  | _ => true

/-- The databases that calls with valid keys can produce after `csdb_init`. -/
inductive Reachable : Database → Prop where
  | init (now : Int) (db : Database) : csdbInit now = .ok db → Reachable db
  | call (now : Int) (call : Call) (reply : Reply) (db db' : Database) : Reachable db →
      csdbIsValidKey call.key = true → call.exec .linear now db = .ok (reply, db') → Reachable db'

def NamesLeaf (db : Database) (key : CStr) : Prop :=
  ∃ a e, csdbGetEntry .linear db key = .ok (some a) ∧ db.entries.cell a = some e ∧ e.isLeaf = true

/-- Every call of the run that returns leaves the mutex free, and none waits. -/
def KeepsFree (clock : Nat → Int) : Nat → List Call → Database → Prop
  | _, [], _ => True
  | k, call :: calls, db =>
      match call.exec .linear (clock k) db with
      | .error f => f ≠ .blocked
      | .ok (_, db') => db'.locked = false ∧ KeepsFree clock (k + 1) calls db'

def FetchesLeaves (clock : Nat → Int) : Nat → List Call → Database → Prop
  | _, [], _ => True
  | k, call :: calls, db =>
      (∀ key, call = .getValue key → NamesLeaf db key) ∧
      match call.exec .linear (clock k) db with
      | .error _ => True
      | .ok (_, db') => FetchesLeaves clock (k + 1) calls db'

/-! ## One call -/

/-- A locking call other than `csdb_get_value_for_key` returns with the mutex
free. -/
theorem exec_keeps_free (h : Holds .linear db t) (hfree : db.locked = false) (call : Call)
    (hv : csdbIsValidKey call.key = true) (hget : ∀ key, call ≠ .getValue key) (now : Int) :
    ∃ reply db' t', call.exec .linear now db = .ok (reply, db') ∧ Holds .linear db' t' ∧
      db'.locked = false := by
  obtain ⟨L, hrep⟩ := h
  have hb := bounded_linear t
  cases call with
  | getMtime key =>
      exact ⟨_, db, t, map_of_ok _ (csdbGetMtimeForKey_spec hrep hb hfree hv), ⟨L, hrep⟩, hfree⟩
  | keyExist key =>
      exact ⟨_, db, t, map_of_ok _ (csdbKeyExist_spec hrep hb hfree hv), ⟨L, hrep⟩, hfree⟩
  | remove key =>
      by_cases hk : key = [dot]
      · subst hk
        refine ⟨.ret (-1), db, t, ?_, ⟨L, hrep⟩, hfree⟩
        rw [Call.exec, csdbRemoveFromKey_root]
        rfl
      · cases hr : t.record (keyPath key).reverse with
        | none =>
            exact ⟨_, db, t, map_of_ok _ (csdbRemoveFromKey_absent hrep (hrep.finds hb hv) hfree hk hr),
              ⟨L, hrep⟩, hfree⟩
        | some r =>
            obtain ⟨n, p, hpath⟩ : ∃ n p, (keyPath key).reverse = n :: p :=
              keyPath_reverse_cons hv hk
            rw [hpath] at hr
            obtain ⟨db', hok, hholds, hfree'⟩ :=
              csdbRemoveFromKey_spec hrep (hrep.finds hb hv) hfree hk hpath (by simp [hr])
            exact ⟨_, db', _, map_of_ok _ hok, hholds, hfree'⟩
  | dump key =>
      exact ⟨_, db, t, map_of_ok _ (csdbDumpFromKey_spec hrep hb hfree hv), ⟨L, hrep⟩, hfree⟩
  | getValue key => exact absurd rfl (hget key)
  | childNames key =>
      exact ⟨_, db, t, map_of_ok _ (csdbGetChildNamesForKey_spec hrep hb hv), ⟨L, hrep⟩, hfree⟩
  | append key value btwn =>
      by_cases happ : Appendable value (t.record (keyPath key).reverse)
      · obtain ⟨hvalue, r, hr, hleaf⟩ := happ
        obtain ⟨v, rfl⟩ := Option.isSome_iff_exists.mp hvalue
        obtain ⟨db', t', hok, hholds, hfree', -⟩ :=
          csdbAppendValueForKey_spec hrep (hrep.finds hb hv) hfree v btwn now hr hleaf
        exact ⟨_, db', t', map_of_ok _ hok, hholds, hfree'⟩
      · exact ⟨_, db, t,
          map_of_ok _ (csdbAppendValueForKey_fail hrep (hrep.finds hb hv) hfree value btwn now happ),
          ⟨L, hrep⟩, hfree⟩
  | set key value =>
      obtain ⟨db', t', hok, hholds, hfree', -⟩ :=
        csdbSetValueForKey_spec hrep hb hfree hv value now
      exact ⟨_, db', t', map_of_ok _ hok, hholds, hfree'⟩

theorem namesLeaf_iff {L : Layout} (hrep : Rep .linear db L t) {key : CStr}
    (hv : csdbIsValidKey key = true) :
    NamesLeaf db key ↔ ∃ r, t.record (keyPath key).reverse = some r ∧ r.leaf = true := by
  have hget := csdbGetEntry_spec hrep (bounded_linear t) hv
  cases hn : t.node (keyPath key).reverse with
  | none =>
      rw [hn] at hget
      simp [NamesLeaf, hget, Tree.record, hn]
  | some d =>
      rw [hn] at hget
      obtain ⟨c, hc, hcell⟩ := hrep.cell _ d hn
      have hleaf := hcell.leaf
      simp [NamesLeaf, hget, Tree.record, hn, hc, hleaf]

/-- `csdb_get_value_for_key` gives the mutex back exactly on a leaf; on a leaf
whose value is `NULL` it does not return at all. -/
theorem getValue_cases (h : Holds .linear db t) (hfree : db.locked = false) {key : CStr}
    (hv : csdbIsValidKey key = true) (now : Int) :
    (NamesLeaf db key ∧
      ((∃ v, (Call.getValue key).exec .linear now db = .ok (.value 0 (some v), db)) ∨
        (Call.getValue key).exec .linear now db = .error .null)) ∨
    (¬ NamesLeaf db key ∧
      ∃ ret, (Call.getValue key).exec .linear now db =
        .ok (.value ret none, { db with locked := true })) := by
  obtain ⟨L, hrep⟩ := h
  rw [namesLeaf_iff hrep hv, Call.exec, csdbGetValueForKey_spec hrep (bounded_linear t) hfree hv]
  cases hr : t.record (keyPath key).reverse with
  | none => exact Or.inr ⟨by simp, _, rfl⟩
  | some r =>
      obtain ⟨leaf, value, mtime⟩ := r
      cases leaf with
      | false => exact Or.inr ⟨by simp, _, rfl⟩
      | true =>
          cases value with
          | none => exact Or.inl ⟨by simp, Or.inr rfl⟩
          | some v => exact Or.inl ⟨by simp, Or.inl ⟨v, rfl⟩⟩

/-! ## Runs -/

/-- While the mutex is taken no call changes the database. -/
theorem exec_locked (hl : db.locked = true) (call : Call) (hv : csdbIsValidKey call.key = true)
    (now : Int) {reply : Reply} (hok : call.exec .linear now db = .ok (reply, db')) : db' = db := by
  have hlock : db.lock = .error .blocked := by simp [Database.lock, hl]
  cases call with
  | getMtime key => simp [Call.exec, csdbGetMtimeForKey, hlock, Except.map] at hok
  | keyExist key => simp [Call.exec, csdbKeyExist, hlock, Except.map] at hok
  | remove key =>
      by_cases hk : strcmp key [dot] = .eq
      · simp only [Call.exec, csdbRemoveFromKey, if_pos hk, Except.map, Except.ok.injEq,
          Prod.mk.injEq] at hok
        exact hok.2.symm
      · simp [Call.exec, csdbRemoveFromKey, hk, hlock, Except.map] at hok
  | dump key => simp [Call.exec, csdbDumpFromKey, hlock, Except.map] at hok
  | getValue key =>
      have hv' : csdbIsValidKey key = true := hv
      simp [Call.exec, csdbGetValueForKey, hv', hlock, Except.map] at hok
  | childNames key =>
      simp only [Call.exec] at hok
      cases hx : csdbGetChildNamesForKey .linear db key with
      | error f => simp [hx, Except.map] at hok
      | ok x =>
          simp only [hx, Except.map, Except.ok.injEq, Prod.mk.injEq] at hok
          exact hok.2.symm
  | append key value btwn => simp [Call.exec, csdbAppendValueForKey, hlock, Except.map] at hok
  | set key value =>
      simp only [Call.exec, csdbSetValueForKey] at hok
      cases hx : csdbParseKey key with
      | error f => simp [hx, Except.map] at hok
      | ok names =>
          cases names with
          | none =>
              simp only [hx, ok_bind, Except.map, Except.ok.injEq, Prod.mk.injEq] at hok
              exact hok.2.symm
          | some names => simp [hx, hlock, Except.map] at hok

/-- Every reachable database holds a tree, whatever became of its mutex. -/
theorem Reachable.holds (h : Reachable db) : ∃ t, Holds .linear db t := by
  induction h with
  | init now db hinit =>
      obtain ⟨db₀, hinit', h₀, -⟩ := csdbInit_spec .linear now
      rw [hinit] at hinit'
      rw [Except.ok.inj hinit']
      exact ⟨_, h₀⟩
  | call now call reply db db' _ hv hok ih =>
      obtain ⟨t, h⟩ := ih
      by_cases hl : db.locked = true
      · rw [exec_locked hl call hv now hok]
        exact ⟨t, h⟩
      · have hfree : db.locked = false := by simpa using hl
        by_cases hget : ∃ key, call = .getValue key
        · obtain ⟨key, rfl⟩ := hget
          obtain ⟨L, hrep⟩ := id h
          have hkey : csdbIsValidKey key = true := hv
          rcases getValue_cases h hfree hkey now with ⟨-, ⟨v, hx⟩ | hx⟩ | ⟨-, ret, hx⟩
          · rw [hx, Except.ok.injEq, Prod.mk.injEq] at hok
            rw [← hok.2]
            exact ⟨t, h⟩
          · rw [hx] at hok
            cases hok
          · rw [hx, Except.ok.injEq, Prod.mk.injEq] at hok
            rw [← hok.2]
            exact ⟨t, L, hrep.setLocked true⟩
        · obtain ⟨reply', db₁, t₁, hx, h₁, -⟩ := exec_keeps_free h hfree call hv
            (fun key he => hget ⟨key, he⟩) now
          rw [hx, Except.ok.injEq, Prod.mk.injEq] at hok
          rw [← hok.2]
          exact ⟨t₁, h₁⟩

theorem Reachable.run {clock : Nat → Int} {calls : List Call} {replies : List Reply} {k : Nat}
    (h : Reachable db) (hcalls : ∀ call ∈ calls, csdbIsValidKey call.key = true)
    (hrun : run .linear clock k calls db = .ok (replies, db')) : Reachable db' := by
  induction calls generalizing db k replies with
  | nil =>
      rw [Csdb.run, Except.ok.injEq, Prod.mk.injEq] at hrun
      rw [← hrun.2]
      exact h
  | cons call calls ih =>
      rw [Csdb.run] at hrun
      obtain ⟨⟨reply, db₁⟩, hcall, hrest⟩ := bind_eq_ok hrun
      obtain ⟨⟨more, db₂⟩, hmore, hend⟩ := bind_eq_ok hrest
      rw [Except.ok.injEq, Prod.mk.injEq] at hend
      rw [hend.2] at hmore
      exact ih (.call (clock k) call reply db db₁ h (hcalls call (by simp)) hcall)
        (fun c hc => hcalls c (by simp [hc])) hmore

theorem Reachable.set (hreach : Reachable db) (h : Holds .linear db t)
    (hfree : db.locked = false) {key : CStr} (hv : csdbIsValidKey key = true) (value : CStr) :
    ∃ db' t', Reachable db' ∧ Holds .linear db' t' ∧ db'.locked = false ∧
      (∀ q, (t'.record q).isSome ↔ q <:+ (keyPath key).reverse ∨ (t.record q).isSome) ∧
      ∀ key', csdbIsValidKey key' = true →
        valueFor .linear db' key' =
          if key' = key then .ok (some value) else valueFor .linear db key' := by
  obtain ⟨db', t', hset, h', hfree', hrec, hvalues⟩ :=
    csdbSetValueForKey_values h (bounded_linear t) hfree hv value 0
  have hcall : (Call.set key (some value)).exec .linear 0 db = .ok (.ret 0, db') := map_of_ok _ hset
  have hreach' : Reachable db' := .call 0 (.set key (some value)) (.ret 0) db db' hreach hv hcall
  refine ⟨db', t', hreach', h', hfree', ?_, ?_⟩
  · intro q
    rw [hrec, setRecord_isSome]
  · exact fun key' hv' => hvalues key' hv' (bounded_linear t')

theorem keepsFree_iff_fetchesLeaves (clock : Nat → Int) (calls : List Call) (k : Nat)
    (hcalls : ∀ call ∈ calls, csdbIsValidKey call.key = true) (h : Holds .linear db t)
    (hfree : db.locked = false) :
    KeepsFree clock k calls db ↔ FetchesLeaves clock k calls db := by
  induction calls generalizing k db t with
  | nil => exact Iff.rfl
  | cons call calls ih =>
      have hv := hcalls call (by simp)
      have hrest := fun c hc => hcalls c (List.mem_cons_of_mem call hc)
      by_cases hget : ∃ key, call = .getValue key
      · obtain ⟨key, rfl⟩ := hget
        have hvalid : csdbIsValidKey key = true := hv
        have hkey : (∀ key', Call.getValue key = .getValue key' → NamesLeaf db key') ↔
            NamesLeaf db key := by simp
        simp only [KeepsFree, FetchesLeaves, hkey]
        rcases getValue_cases h hfree hvalid (clock k) with ⟨hleaf, ⟨v, hx⟩ | hx⟩ | ⟨hleaf, ret, hx⟩
        · simp only [hx, hfree, hleaf, true_and]
          exact ih (k + 1) hrest h hfree
        · simp [hx, hleaf]
        · simp [hx, hleaf]
      · have hne : ∀ key, call ≠ .getValue key := fun key he => hget ⟨key, he⟩
        obtain ⟨reply, db₁, t₁, hx, h₁, hfree₁⟩ := exec_keeps_free h hfree call hv hne (clock k)
        have hkey : ∀ key, call = .getValue key → NamesLeaf db key :=
          fun key he => absurd he (hne key)
        simp only [KeepsFree, FetchesLeaves, hx, hfree₁, true_and]
        rw [ih (k + 1) hrest h₁ hfree₁]
        exact ⟨fun hf => ⟨hkey, hf⟩, fun hf => hf.2⟩

/-- **The mutex over a run.** From any reachable database with a free mutex, a
sequence of locking calls with valid keys leaves it free after every call, and no
call ever waits for it, exactly when every `csdb_get_value_for_key` of the
sequence names an entry with a value at that time. -/
theorem mutex_free_iff (hreach : Reachable db) (hfree : db.locked = false) (clock : Nat → Int)
    (calls : List Call)
    (hcalls : ∀ call ∈ calls, call.locking = true ∧ csdbIsValidKey call.key = true) :
    KeepsFree clock 0 calls db ↔ FetchesLeaves clock 0 calls db := by
  obtain ⟨t, h⟩ := hreach.holds
  exact keepsFree_iff_fetchesLeaves clock calls 0 (fun call hc => (hcalls call hc).2) h hfree

def setAndFetch : List Call :=
  [.set (lit ['.', 'a']) (some (lit ['1'])), .set (lit ['.', 'a', '.', 'b']) (some (lit ['2'])),
    .getValue (lit ['.', 'a', '.', 'b']), .remove (lit ['.', 'a', '.', 'b']), .getValue (lit ['.', 'a'])]

theorem mutex_free_iff_set_get :
    ∃ db, csdbInit 0 = .ok db ∧ KeepsFree (fun _ => 0) 0 setAndFetch db := by
  obtain ⟨db, hinit, -, hfree⟩ := csdbInit_spec .linear 0
  refine ⟨db, hinit, (mutex_free_iff (.init 0 db hinit) hfree _ _ (by decide)).mpr ?_⟩
  cases hinit
  have hleaf : ∀ {db : Database} {key key' : CStr}, NamesLeaf db key → Call.getValue key = .getValue key' →
      NamesLeaf db key' := by
    intro db key key' hnames hsame
    cases hsame
    exact hnames
  refine And.intro (fun _ h => by cases h) (And.intro (fun _ h => by cases h)
    (And.intro (fun _ => hleaf ⟨_, _, rfl, rfl, rfl⟩) (And.intro (fun _ h => by cases h)
      (And.intro (fun _ => hleaf ⟨_, _, rfl, rfl, rfl⟩) trivial))))

/-- Fetching a key that does not exist leaves the mutex taken. -/
theorem mutex_taken_after_absent_key :
    ¬ ∀ (db : Database), Reachable db → db.locked = false → ∀ (clock : Nat → Int)
      (calls : List Call),
      (∀ call ∈ calls, call.locking = true ∧ csdbIsValidKey call.key = true) →
      KeepsFree clock 0 calls db := by
  intro hall
  obtain ⟨db, hinit, h, hfree⟩ := csdbInit_spec .linear 0
  have hkeep := hall db (.init 0 db hinit) hfree (fun _ => 0) [.getValue (lit ['.', 'a'])]
    (by decide)
  rw [keepsFree_iff_fetchesLeaves _ _ _ (by decide) h hfree] at hkeep
  obtain ⟨L, hrep⟩ := h
  have hleaf := (namesLeaf_iff hrep (by decide)).mp (hkeep.1 (lit ['.', 'a']) rfl)
  obtain ⟨r, hr, -⟩ := hleaf
  rw [Tree.init_record, if_neg (by decide)] at hr
  cases hr

end Dkmp.Csdb
