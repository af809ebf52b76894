import Dkmp.Csdb.Call
import Dkmp.Csdb.Remove

/-! # What the calls do to the tree

One specification for each database call on a valid key, on a heap that holds a
tree and whose mutex is free: what it returns, which records change, and whether
the mutex is free afterwards.
-/

namespace Dkmp.Csdb

open Machine

variable {b : Search} {db : Database} {L : Layout} {t : Tree} {p : UpPath} {d : Node}

def Holds (b : Search) (db : Database) (t : Tree) : Prop := ∃ L, Rep b db L t

theorem Rep.setLocked (h : Rep b db L t) (x : Bool) : Rep b { db with locked := x } L t :=
  h.mono rfl (fun _ _ hc => hc) (fun _ _ ha => ha)

theorem lock_free (hfree : db.locked = false) : db.lock = .ok { db with locked := true } := by
  simp [Database.lock, hfree]

theorem unlock_locked (hfree : db.locked = false) :
    Database.unlock { db with locked := true } = db := by
  cases db
  simp_all [Database.unlock]

/-! ## Reading -/

/-- `csdb_get_entry` returns under the lock, with what it has to find. -/
def Finds (b : Search) (db : Database) (L : Layout) (t : Tree) (key : CStr) : Prop :=
  csdbGetEntry b { db with locked := true } key =
    .ok (if (t.node (keyPath key).reverse).isSome then some (L.addr (keyPath key).reverse) else none)

theorem Rep.finds (h : Rep b db L t) (hb : Bounded b t) {key : CStr}
    (hv : csdbIsValidKey key = true) : Finds b db L t key :=
  csdbGetEntry_spec (h.setLocked true) hb hv

theorem Finds.cases {key : CStr} (hfind : Finds b db L t key) (h : Rep b db L t) :
    (t.node (keyPath key).reverse = none ∧ csdbGetEntry b { db with locked := true } key = .ok none) ∨
    ∃ d c, t.node (keyPath key).reverse = some d ∧
      csdbGetEntry b { db with locked := true } key = .ok (some (L.addr (keyPath key).reverse)) ∧
      db.entries.cell (L.addr (keyPath key).reverse) = some c ∧
      CellRep b db.strings L (keyPath key).reverse d c := by
  unfold Finds at hfind
  cases hn : t.node (keyPath key).reverse with
  | none =>
      rw [hn] at hfind
      exact Or.inl ⟨rfl, hfind⟩
  | some d =>
      rw [hn] at hfind
      obtain ⟨c, hc, hrep⟩ := h.cell _ d hn
      exact Or.inr ⟨d, c, rfl, hfind, hc, hrep⟩

theorem csdbGetMtimeForKey_spec (h : Rep b db L t) (hb : Bounded b t) (hfree : db.locked = false)
    {key : CStr} (hv : csdbIsValidKey key = true) :
    csdbGetMtimeForKey b db key =
      .ok (((t.record (keyPath key).reverse).map Record.mtime).getD 0, db) := by
  simp only [csdbGetMtimeForKey, lock_free hfree, ok_bind, Tree.record]
  rcases (h.finds hb hv).cases h with ⟨hn, hget⟩ | ⟨d, c, hn, hget, hc, hrep⟩
  · simp [hget, hn, unlock_locked hfree]
  · simp [hget, hn, Heap.load_some hc, hrep.mtime, unlock_locked hfree]

theorem csdbKeyExist_spec (h : Rep b db L t) (hb : Bounded b t) (hfree : db.locked = false)
    {key : CStr} (hv : csdbIsValidKey key = true) :
    csdbKeyExist b db key =
      .ok (if (t.record (keyPath key).reverse).isSome then 1 else 0, db) := by
  simp only [csdbKeyExist, lock_free hfree, ok_bind, Tree.record]
  rcases (h.finds hb hv).cases h with ⟨hn, hget⟩ | ⟨d, c, hn, hget, hc, hrep⟩
  · simp [hget, hn, unlock_locked hfree]
  · simp [hget, hn, unlock_locked hfree]

/-- The call does not ask whether the key is valid. -/
theorem csdbKeyExist_dot (h : Rep b db L t) (hb : Bounded b t) (hfree : db.locked = false)
    {rest : CStr} (hne : rest ≠ []) :
    csdbKeyExist b db (dot :: rest) =
      .ok (if (t.record (readParts (rest.splitOn dot)).reverse).isSome then 1 else 0, db) := by
  simp only [csdbKeyExist, lock_free hfree, ok_bind, Tree.record_isSome,
    csdbGetEntry_dot (h.setLocked true) hb hne, unlock_locked hfree]
  split <;> simp [*]

def valueReply (db : Database) : Option Record → Exec (Int × Option CStr × Database)
  | none => .ok (-ecsInvalidkey, none, { db with locked := true })
  | some ⟨false, _, _⟩ => .ok (-ecsNoleaf, none, { db with locked := true })
  | some ⟨true, none, _⟩ => .error .null
  | some ⟨true, some v, _⟩ => .ok (0, some v, db)

theorem csdbGetValueForKey_spec (h : Rep b db L t) (hb : Bounded b t) (hfree : db.locked = false)
    {key : CStr} (hv : csdbIsValidKey key = true) :
    csdbGetValueForKey b db key = valueReply db (t.record (keyPath key).reverse) := by
  simp only [csdbGetValueForKey, hv, not_true_eq_false, if_false, lock_free hfree, ok_bind,
    Tree.record]
  rcases (h.finds hb hv).cases h with ⟨hn, hget⟩ | ⟨⟨⟨leaf, value, mtime⟩, kids⟩, c, hn, hget, hc, hrep⟩
  · simp [hget, hn, valueReply]
  · have hleaf : c.isLeaf = leaf := hrep.leaf
    have hval : ValueRep db.strings L (keyPath key).reverse value c.value := hrep.value
    simp only [hget, ok_bind, reduceCtorEq, if_false, Heap.load_some hc, hleaf, hn, Option.map_some]
    cases leaf with
    | false => simp [valueReply]
    | true =>
        cases value with
        | none =>
            have hnull : c.value = none := hval
            simp [hnull, valueReply]
        | some v =>
            obtain ⟨a, ha, hstr, -⟩ := hval
            simp [ha, Heap.load_some hstr, valueReply, unlock_locked hfree]

theorem childNamesLoop_spec (h : Rep b db L t) (hd : t.node p = some d) (l₁ l₂ : List CStr)
    (hk : d.kids = l₁ ++ l₂) (fuel : Nat) (hfuel : l₂.length < fuel) :
    loop (childNamesBody db) fuel (l₂.head?.map (L.kid p), l₁) = .ok d.kids := by
  induction l₂ generalizing l₁ fuel with
  | nil =>
      obtain ⟨fuel, rfl⟩ : ∃ f, fuel = f + 1 := ⟨fuel - 1, by omega⟩
      rw [hk, List.append_nil]
      exact loop_exit rfl
  | cons x l₂ ih =>
      obtain ⟨fuel, rfl⟩ : ∃ f, fuel = f + 1 := ⟨fuel - 1, by omega⟩
      obtain ⟨d', c, -, hc, hrep, hnext, -⟩ := h.kid_cell hd hk
      obtain ⟨a, hname, hstr, -⟩ := hrep.name
      have hstep : childNamesBody db (some (L.kid p x), l₁) =
          .ok (.inl (l₂.head?.map (L.kid p), l₁ ++ [x])) := by
        simp [childNamesBody, Heap.load_some hc, hname, Heap.load_some hstr, nameOf, hnext]
      rw [List.head?_cons, Option.map_some, loop_next hstep,
        ih (l₁ ++ [x]) (by simp [hk]) fuel (by simpa using hfuel)]

def namesReply : Option Node → Int × Option (List CStr × CStr)
  | none => (-1, none)
  | some d =>
      if d.leaf ∨ d.kids = [] then (-1, none)
      else (d.kids.length, some (d.kids, d.kids.flatMap (· ++ [space])))

theorem csdbGetChildNamesForKey_spec (h : Rep b db L t) (hb : Bounded b t) {key : CStr}
    (hv : csdbIsValidKey key = true) :
    csdbGetChildNamesForKey b db key = .ok (namesReply (t.node (keyPath key).reverse)) := by
  simp only [csdbGetChildNamesForKey, csdbGetEntry_spec h hb hv, ok_bind]
  cases hn : t.node (keyPath key).reverse with
  | none => simp [namesReply]
  | some d =>
      obtain ⟨c, hc, hrep⟩ := h.cell _ d hn
      have hlen := h.kids_length_le hn
      have hloop := childNamesLoop_spec h hn [] d.kids rfl (db.entries.next + 1) (by omega)
      simp only [Option.isSome_some, if_true, reduceCtorEq, if_false, Heap.load_some hc, ok_bind,
        hrep.leaf, hrep.childs, hloop, Option.map_eq_none_iff, List.head?_eq_none_iff, namesReply]
      by_cases hleaf : d.leaf = true
      · simp [hleaf]
      · by_cases hk : d.kids = []
        · simp [hleaf, hk]
        · simp [hleaf, hk]

/-! ## Setting a value -/

def setRecord (value : Option CStr) (now : Int) (target : UpPath) (r : UpPath → Option Record)
    (q : UpPath) : Option Record :=
  if q = target then some (((r q).getD (.fresh now)).set value now)
  else if q <:+ target then some ((r q).getD (.fresh now))
  else r q

theorem Counted.write {f : Record → Record} (h : Counted b t) (p : UpPath) :
    Counted b (t.write p f) := by
  intro q d hd hb
  rcases Tree.write_cases hd with ⟨rfl, d', hd', rfl⟩ | ⟨-, hd⟩
  · exact h q d' hd' hb
  · exact h q d hd hb

structure HasChild (b : Search) (t t' : Tree) (n : CStr) (p : UpPath) (now : Int) : Prop where
  record : ∀ q, t'.record q =
    if q = n :: p then some ((t.record q).getD (.fresh now)) else t.record q
  below : ∀ q, n :: p <:+ q → ∀ e, t'.node q = some e → t.node q = some e ∨ e.kids = []
  counted : Counted b t → Counted b t'

theorem HasChild.found {n : CStr} (now : Int) (hd : t.node p = some d) (hmem : n ∈ d.kids) :
    HasChild b t t n p now where
  record := by
    intro q
    obtain ⟨r, hr⟩ : ∃ r, t.record (n :: p) = some r := by
      apply Option.isSome_iff_exists.mp
      rw [Tree.record_isSome]
      exact t.kid_isSome hd hmem
    by_cases hq : q = n :: p
    · simp [hq, hr]
    · simp [hq]
  below := fun q _ e he => Or.inl he
  counted := id

theorem NewChild.hasChild {t' : Tree} {n : CStr} {now : Int} (h : NewChild b t t' n p now)
    (hnew : ¬ (t.node (n :: p)).isSome) : HasChild b t t' n p now where
  record := by
    intro q
    rw [h.record]
    by_cases hq : q = n :: p
    · have hnone : t.record (n :: p) = none := by
        rw [← Option.not_isSome_iff_eq_none, Tree.record_isSome]
        exact hnew
      simp [hq, hnone]
    · simp [hq]
  below := by
    intro q hs e he
    by_cases hq : q = n :: p
    · subst hq
      rw [h.node] at he
      exact Or.inr (by rw [← Option.some.inj he])
    · -- nothing lies below a fresh entry
      exfalso
      have hsome : (t'.record q).isSome := by simp [Tree.record, he]
      rw [h.record, if_neg hq, Tree.record_isSome] at hsome
      exact hnew (t.suffix_isSome hs hsome)
  counted := h.counted

theorem findOrCreate_settles {D : Prop} (h : Rep b db L t) (hd : t.node p = some d)
    (hb : Room D b d.kids) {n : CStr} (hn : dot ∉ n) (now : Int) :
    Settles D (findOrCreate b db (some (L.addr p)) n now) fun r =>
      ∃ L' t', r.1 = some (L'.addr (n :: p)) ∧ Rep b r.2 L' t' ∧ r.2.locked = db.locked ∧
        HasChild b t t' n p now := by
  have hdot : n ≠ [dot] := by
    rintro rfl
    simp at hn
  apply (csdbFindChild_settles h hd hb n hdot).bind
  rintro entry rfl
  by_cases hmem : n ∈ d.kids
  · rw [if_pos hmem]
    exact .of_ok rfl ⟨L, t, rfl, h, rfl, .found now hd hmem⟩
  · have hnew : ¬ (t.node (n :: p)).isSome := fun hs => hmem ((t.mem_kids_iff hd).mpr hs)
    obtain ⟨db₁, hcreate, happend⟩ := newChild_settles h hd hb hnew hn now
    simp only [if_neg hmem, hcreate, ok_bind]
    apply happend.bind
    rintro db' ⟨L', t', hrep, haddr, hlock, hchild⟩
    exact .of_ok rfl ⟨L', t', by rw [haddr], hrep, hlock, hchild.hasChild hnew⟩

/-- The last part holds the value. -/
theorem setRecord_last {t₁ : Tree} {n : CStr} {now : Int} (h : HasChild b t t₁ n p now)
    (hp : (t.node p).isSome) (value : Option CStr) (q : UpPath) :
    (t₁.write (n :: p) (·.set value now)).record q = setRecord value now (n :: p) t.record q := by
  rw [Tree.write_record, h.record]
  simp only [setRecord]
  by_cases hq : q = n :: p
  · simp [hq]
  · rw [if_neg hq, if_neg hq, if_neg hq]
    split
    · have hqp : q <:+ p := by
        rcases List.suffix_cons_iff.mp ‹_› with he | hs
        · exact absurd he hq
        · exact hs
      obtain ⟨r, hr⟩ : ∃ r, t.record q = some r := by
        apply Option.isSome_iff_exists.mp
        rw [Tree.record_isSome]
        exact t.suffix_isSome hqp hp
      simp [hr]
    · rfl

theorem setRecord_inner {t₁ : Tree} {n : CStr} {now : Int} (h : HasChild b t t₁ n p now)
    (value : Option CStr) {target : UpPath} (hs : n :: p <:+ target) (q : UpPath) :
    setRecord value now target t₁.record q = setRecord value now target t.record q := by
  have hgetD : ∀ q, (t₁.record q).getD (.fresh now) = (t.record q).getD (.fresh now) := by
    intro q
    rw [h.record]
    split <;> rfl
  simp only [setRecord, hgetD]
  split
  · rfl
  split
  · rfl
  · have hq : q ≠ n :: p := by
      rintro rfl
      exact ‹¬ n :: p <:+ _› hs
    rw [h.record, if_neg hq]

theorem setLoop_settles {D : Prop} (value : Option CStr) (now : Int) (names : List CStr)
    (hne : names ≠ []) (hnames : ∀ n ∈ names, dot ∉ n) (h : Rep b db L t) (hp : (t.node p).isSome)
    (hb : ∀ q d, p <:+ q → t.node q = some d → Room D b d.kids) :
    Settles D (setLoop b value now db (some (L.addr p)) names) fun db' =>
      ∃ L' t', Rep b db' L' t' ∧ db'.locked = db.locked ∧
        (∀ q, t'.record q = setRecord value now (names.reverse ++ p) t.record q) ∧
        (Counted b t → Counted b t') := by
  induction names generalizing db L t p with
  | nil => exact absurd rfl hne
  | cons n names ih =>
      obtain ⟨d, hd⟩ := Option.isSome_iff_exists.mp hp
      apply (findOrCreate_settles h hd (hb p d List.suffix_rfl hd) (hnames n (by simp)) now).bind
      rintro ⟨entry, db₁⟩ ⟨L₁, t₁, rfl, hrep₁, hlock₁, hchild⟩
      simp only at hrep₁ hlock₁ ⊢
      have hsome : (t₁.node (n :: p)).isSome := by
        rw [← Tree.record_isSome, hchild.record, if_pos rfl]
        rfl
      obtain ⟨d₁, hd₁⟩ := Option.isSome_iff_exists.mp hsome
      by_cases hlast : names = []
      · subst hlast
        obtain ⟨db₂, L₂, hok₂, hrep₂, hlock₂⟩ := csdbSetValue_spec hrep₁ hd₁ value now
        refine .of_ok (a := db₂) (by simp [hok₂, setLoop]) ⟨L₂, _, hrep₂, hlock₂.trans hlock₁, ?_,
          fun hcount => (hchild.counted hcount).write _⟩
        exact setRecord_last hchild hp value
      · have hb₁ : ∀ q d, n :: p <:+ q → t₁.node q = some d → Room D b d.kids := by
          intro q e hs he
          rcases hchild.below q hs e he with hold | hnil
          · exact hb q e ((List.suffix_cons n p).trans hs) hold
          · intro _
            simp [hnil]
        have htarget : (n :: names).reverse ++ p = names.reverse ++ n :: p := by simp
        rw [if_neg hlast, ok_bind, htarget]
        apply (ih hlast (fun m hm => hnames m (by simp [hm])) hrep₁ hsome hb₁).mono
        rintro db₂ ⟨L₂, t₂, hrep₂, hlock₂, hrec₂, hcount₂⟩
        refine ⟨L₂, t₂, hrep₂, hlock₂.trans hlock₁, ?_, fun hcount => hcount₂ (hchild.counted hcount)⟩
        intro q
        rw [hrec₂]
        exact setRecord_inner hchild value (List.suffix_append _ _) q

/-- The call does not ask whether the key is valid. -/
theorem csdbSetValueForKey_dot {D : Prop} (h : Rep b db L t)
    (hb : ∀ p d, t.node p = some d → Room D b d.kids) (hfree : db.locked = false)
    {rest : CStr} (hne : rest ≠ []) (value : Option CStr) (now : Int) :
    Settles D (csdbSetValueForKey b db (dot :: rest) value now) fun r =>
      r.1 = 0 ∧ ∃ t', Holds b r.2 t' ∧ r.2.locked = false ∧
        (∀ q, t'.record q = setRecord value now (readParts (rest.splitOn dot)).reverse t.record q) ∧
        (Counted b t → Counted b t') := by
  have h' := h.setLocked true
  have hnames : ∀ n ∈ readParts (rest.splitOn dot), dot ∉ n := fun n hn =>
    splitOn_no_dot rest n (readParts_subset _ hn)
  have hloop := setLoop_settles value now _ (readParts_splitOn_ne_nil hne) hnames h' t.root
    (fun q d _ hd => hb q d hd)
  rw [← h.root] at hloop
  simp only [csdbSetValueForKey, csdbParseKey_dot hne, ok_bind, lock_free hfree]
  apply hloop.bind
  rintro db' ⟨L', t', hrep, -, hrec, hcount⟩
  exact .of_ok rfl ⟨rfl, t', ⟨L', hrep.setLocked false⟩, rfl, by simpa using hrec, hcount⟩

theorem csdbSetValueForKey_settles {D : Prop} (h : Rep b db L t)
    (hb : ∀ p d, t.node p = some d → Room D b d.kids) (hfree : db.locked = false)
    {key : CStr} (hv : csdbIsValidKey key = true) (value : Option CStr) (now : Int) :
    Settles D (csdbSetValueForKey b db key value now) fun r =>
      r.1 = 0 ∧ ∃ t', Holds b r.2 t' ∧ r.2.locked = false ∧
        (∀ q, t'.record q = setRecord value now (keyPath key).reverse t.record q) ∧
        (Counted b t → Counted b t') := by
  have h' := h.setLocked true
  by_cases hk : key = [dot]
  · subst hk
    obtain ⟨d, hd⟩ := Option.isSome_iff_exists.mp t.root
    obtain ⟨c, hc, -⟩ := h'.cell [] d hd
    obtain ⟨db', L', hok, hrep, -⟩ := csdbSetValue_spec h' hd value now
    have hfind : csdbFindChild b { db with locked := true } db.root [dot] =
        .ok (some (L.addr [])) := by
      cases b <;> simp [csdbFindChild, h.root, Heap.load_some hc]
    refine .of_ok (a := (0, db'.unlock)) ?_
      ⟨rfl, _, ⟨L', hrep.setLocked false⟩, rfl, ?_, fun hcount => hcount.write _⟩
    · simp [csdbSetValueForKey, csdbParseKey_root, lock_free hfree, setLoop, findOrCreate, hfind, hok]
    · intro q
      rw [Tree.write_record]
      simp only [setRecord, keyPath, if_pos, List.reverse_nil, List.suffix_nil]
      by_cases hq : q = []
      · simp [hq, Tree.record, hd]
      · simp [hq]
  · obtain rfl | ⟨rest, rfl, hne, -⟩ := csdbIsValidKey_iff.mp hv
    · exact absurd rfl hk
    rw [← readParts_valid hv hne]
    exact csdbSetValueForKey_dot h hb hfree hne value now

theorem csdbSetValueForKey_spec (h : Rep b db L t) (hb : Bounded b t) (hfree : db.locked = false)
    {key : CStr} (hv : csdbIsValidKey key = true) (value : Option CStr) (now : Int) :
    ∃ db' t', csdbSetValueForKey b db key value now = .ok (0, db') ∧ Holds b db' t' ∧
      db'.locked = false ∧
      ∀ q, t'.record q = setRecord value now (keyPath key).reverse t.record q := by
  obtain ⟨⟨ret, db'⟩, hok, rfl, t', hholds, hfree', hrec, -⟩ :=
    (csdbSetValueForKey_settles h (fun p d hd => (hb p d hd).room False) hfree hv value now).total id
  exact ⟨db', t', hok, hholds, hfree', hrec⟩

/-! ## Values alone -/

def valueFor (b : Search) (db : Database) (key : CStr) : Exec (Option CStr) :=
  (csdbGetValueForKey b db key).map fun (_, value, _) => value

def recordValue : Option Record → Exec (Option CStr)
  | none => .ok none
  | some ⟨false, _, _⟩ => .ok none
  | some ⟨true, none, _⟩ => .error .null
  | some ⟨true, some v, _⟩ => .ok (some v)

theorem valueFor_eq (h : Holds b db t) (hb : Bounded b t) (hfree : db.locked = false) {key : CStr}
    (hv : csdbIsValidKey key = true) :
    valueFor b db key = recordValue (t.record (keyPath key).reverse) := by
  obtain ⟨L, hrep⟩ := h
  rw [valueFor, csdbGetValueForKey_spec hrep hb hfree hv]
  cases t.record (keyPath key).reverse with
  | none => rfl
  | some r =>
      obtain ⟨leaf, value, mtime⟩ := r
      cases leaf with
      | false => rfl
      | true => cases value <;> rfl

theorem valueFor_init {now : Int} (h : Holds b db (Tree.init now)) (hb : Bounded b (Tree.init now))
    (hfree : db.locked = false) {key : CStr} (hv : csdbIsValidKey key = true) :
    valueFor b db key = .ok none := by
  rw [valueFor_eq h hb hfree hv, Tree.init_record]
  split <;> rfl

theorem csdbGetValueForKey_value (h : Holds b db t) (hb : Bounded b t) (hfree : db.locked = false)
    {key value : CStr} (hv : csdbIsValidKey key = true) (hvalue : valueFor b db key = .ok (some value)) :
    csdbGetValueForKey b db key = .ok (0, some value, db) := by
  rw [valueFor_eq h hb hfree hv] at hvalue
  obtain ⟨L, hrep⟩ := h
  rw [csdbGetValueForKey_spec hrep hb hfree hv]
  cases hr : t.record (keyPath key).reverse with
  | none => simp [hr, recordValue] at hvalue
  | some r =>
      obtain ⟨leaf, v, mtime⟩ := r
      cases leaf with
      | false => simp [hr, recordValue] at hvalue
      | true =>
          cases v with
          | none => simp [hr, recordValue] at hvalue
          | some v =>
              have he : v = value := by simpa [hr, recordValue] using hvalue
              rw [he, valueReply]

theorem csdbKeyExist_value (h : Holds b db t) (hb : Bounded b t) (hfree : db.locked = false)
    {key value : CStr} (hv : csdbIsValidKey key = true) (hvalue : valueFor b db key = .ok (some value)) :
    csdbKeyExist b db key = .ok (1, db) := by
  rw [valueFor_eq h hb hfree hv] at hvalue
  obtain ⟨L, hrep⟩ := h
  rw [csdbKeyExist_spec hrep hb hfree hv]
  cases hr : t.record (keyPath key).reverse with
  | none => simp [hr, recordValue] at hvalue
  | some r => rfl

/-- A call that passes no value back fails and keeps the mutex. -/
theorem csdbGetValueForKey_none (h : Holds b db t) (hb : Bounded b t) (hfree : db.locked = false)
    {key : CStr} (hv : csdbIsValidKey key = true) (hvalue : valueFor b db key = .ok none) :
    ∃ error, error < 0 ∧
      csdbGetValueForKey b db key = .ok (error, none, { db with locked := true }) := by
  rw [valueFor_eq h hb hfree hv] at hvalue
  obtain ⟨L, hrep⟩ := h
  rw [csdbGetValueForKey_spec hrep hb hfree hv]
  cases hr : t.record (keyPath key).reverse with
  | none => exact ⟨-ecsInvalidkey, by decide, rfl⟩
  | some r =>
      obtain ⟨leaf, v, mtime⟩ := r
      cases leaf with
      | false => exact ⟨-ecsNoleaf, by decide, rfl⟩
      | true => cases v <;> simp [hr, recordValue] at hvalue

theorem setRecord_isSome (value : Option CStr) (now : Int) (target q : UpPath)
    (r : UpPath → Option Record) :
    (setRecord value now target r q).isSome ↔ q <:+ target ∨ (r q).isSome := by
  rw [setRecord]
  split
  · simp [*]
  split
  · simp [*]
  · simp [*]

theorem suffix_pair_iff {first name name' : CStr} :
    [name', first] <:+ [name, first] ↔ name' = name := by
  constructor
  · intro h
    exact (List.cons.inj (h.eq_of_length rfl)).1
  · rintro rfl
    exact List.suffix_rfl

/-- An inner entry does not become a leaf. -/
theorem setRecord_leaf {value : Option CStr} {now : Int} {target q : UpPath}
    {r : UpPath → Option Record} (hq : q ≠ target) (h : ∀ x, r q = some x → x.leaf = false) :
    ∀ x, setRecord value now target r q = some x → x.leaf = false := by
  intro x hx
  rw [setRecord, if_neg hq] at hx
  split at hx
  · cases hr : r q with
    | none =>
        rw [hr] at hx
        rw [← Option.some.inj hx]
        rfl
    | some y =>
        rw [hr] at hx
        rw [← Option.some.inj hx]
        exact h y hr
  · exact h x hx

theorem recordValue_setRecord_self (value : CStr) (now : Int) (target : UpPath)
    (r : UpPath → Option Record) :
    recordValue (setRecord (some value) now target r target) = .ok (some value) := by
  rw [setRecord, if_pos rfl]
  rfl

theorem recordValue_setRecord_other (value : Option CStr) (now : Int) {target q : UpPath}
    (r : UpPath → Option Record) (hq : q ≠ target) :
    recordValue (setRecord value now target r q) = recordValue (r q) := by
  rw [setRecord, if_neg hq]
  split
  · cases r q <;> rfl
  · rfl

/-- A set gives its key the value and leaves that of every other key. -/
theorem csdbSetValueForKey_values (h : Holds b db t) (hb : Bounded b t) (hfree : db.locked = false)
    {key : CStr} (hv : csdbIsValidKey key = true) (value : CStr) (now : Int) :
    ∃ db' t', csdbSetValueForKey b db key (some value) now = .ok (0, db') ∧ Holds b db' t' ∧
      db'.locked = false ∧
      (∀ q, t'.record q = setRecord (some value) now (keyPath key).reverse t.record q) ∧
      (∀ key', csdbIsValidKey key' = true → Bounded b t' →
        valueFor b db' key' = if key' = key then .ok (some value) else valueFor b db key') := by
  obtain ⟨L, hrep⟩ := id h
  obtain ⟨db', t', hok, hholds, hfree', hrec⟩ :=
    csdbSetValueForKey_spec hrep hb hfree hv (some value) now
  refine ⟨db', t', hok, hholds, hfree', hrec, ?_⟩
  intro key' hv' hb'
  rw [valueFor_eq hholds hb' hfree' hv', valueFor_eq h hb hfree hv', hrec]
  by_cases hk : key' = key
  · rw [if_pos hk, hk, recordValue_setRecord_self]
  · have hpath : (keyPath key').reverse ≠ (keyPath key).reverse := fun he =>
      hk (keyPath_inj hv' hv (List.reverse_injective he))
    rw [if_neg hk, recordValue_setRecord_other _ _ _ hpath]

/-! ## Appending to a value -/

def Record.append (value btwn : CStr) (now : Int) (r : Record) : Record :=
  match r.value with
  | none => r.set (some value) now
  | some old => { r with value := some (old ++ (btwn ++ value)) }

def Appendable (value : Option CStr) (r : Option Record) : Prop :=
  value.isSome ∧ ∃ r', r = some r' ∧ r'.leaf = true

theorem csdbAppendValueForKey_fail (h : Rep b db L t) {key : CStr} (hfind : Finds b db L t key)
    (hfree : db.locked = false) (value btwn : Option CStr) (now : Int)
    (hno : ¬ Appendable value (t.record (keyPath key).reverse)) :
    csdbAppendValueForKey b db key value btwn now = .ok (-1, db) := by
  simp only [csdbAppendValueForKey, lock_free hfree, ok_bind]
  rcases hfind.cases h with ⟨hn, hget⟩ | ⟨d, c, hn, hget, hc, hrep⟩
  · simp [hget, unlock_locked hfree]
  · cases value with
    | none => simp [hget, unlock_locked hfree]
    | some v =>
        have hleaf : d.leaf = false := by
          by_contra hl
          exact hno ⟨rfl, d.toRecord, by simp [Tree.record, hn], by simpa using hl⟩
        simp [hget, Heap.load_some hc, hrep.leaf, hleaf, unlock_locked hfree]

theorem csdbAppendValueForKey_spec (h : Rep b db L t) {key : CStr} (hfind : Finds b db L t key)
    (hfree : db.locked = false) (value : CStr)
    (btwn : Option CStr) (now : Int) {r : Record}
    (hr : t.record (keyPath key).reverse = some r) (hleaf : r.leaf = true) :
    ∃ db' t', csdbAppendValueForKey b db key (some value) btwn now = .ok (0, db') ∧
      Holds b db' t' ∧ db'.locked = false ∧
      ∀ q, t'.record q = if q = (keyPath key).reverse then
        some (r.append value (btwn.getD []) now) else t.record q := by
  simp only [csdbAppendValueForKey, lock_free hfree, ok_bind]
  have h' := h.setLocked true
  rcases hfind.cases h with ⟨hn, -⟩ | ⟨d, c, hn, hget, hc, hrep⟩
  · simp [Tree.record, hn] at hr
  obtain rfl : d.toRecord = r := by simpa [Tree.record, hn] using hr
  have hrecord : t.record (keyPath key).reverse = some d.toRecord := by simp [Tree.record, hn]
  have hval := hrep.value
  cases hd : d.value with
  | none =>
      rw [hd] at hval
      have hnull : c.value = none := hval
      obtain ⟨db', L', hok, hrep', -⟩ := csdbSetValue_spec h' hn (some value) now
      refine ⟨db'.unlock, _, ?_, ⟨L', hrep'.setLocked false⟩, rfl, ?_⟩
      · simp [hget, Heap.load_some hc, hrep.leaf, hleaf, hnull, hok]
      · intro q
        rw [Tree.write_record]
        by_cases hq : q = (keyPath key).reverse
        · simp [hq, hrecord, Record.append, hd]
        · simp [hq]
  | some old =>
      obtain ⟨c', a, strings, L', hc', hptr, hold, hfreed, hrep'⟩ :=
        realloc_spec h' hn hd (btwn.getD [] ++ value)
      obtain rfl : c = c' := Option.some.inj (hc.symm.trans hc')
      refine ⟨_, _, ?_, ⟨L', hrep'.setLocked false⟩, rfl, ?_⟩
      · simp only [hget, ok_bind, Heap.load_some hc, hrep.leaf, hleaf, not_true_eq_false, if_false,
          hptr, reduceCtorEq, Heap.load_some hold, hfreed, Heap.update_some _ hc]
        rfl
      · intro q
        rw [Tree.write_record]
        by_cases hq : q = (keyPath key).reverse
        · simp [hq, hrecord, Record.append, hd]
        · simp [hq]

/-! ## Removing -/

theorem csdbRemoveFromKey_root (db : Database) : csdbRemoveFromKey b db [dot] = .ok (-1, db) := by
  simp [csdbRemoveFromKey]

theorem csdbRemoveFromKey_none (hfree : db.locked = false) {key : CStr} (hk : key ≠ [dot])
    (hget : csdbGetEntry b { db with locked := true } key = .ok none) :
    csdbRemoveFromKey b db key = .ok (-ecsNoentry, db) := by
  have hroot : ¬ strcmp key [dot] = .eq := fun he => hk (strcmp_eq_iff.mp he)
  simp only [csdbRemoveFromKey, if_neg hroot, lock_free hfree, ok_bind]
  simp [hget, unlock_locked hfree]

theorem csdbRemoveFromKey_some (h : Rep b db L t) (hfree : db.locked = false) {key : CStr}
    (hk : key ≠ [dot]) {n : CStr} (hsome : (t.record (n :: p)).isSome)
    (hget : csdbGetEntry b { db with locked := true } key = .ok (some (L.addr (n :: p)))) :
    ∃ db', csdbRemoveFromKey b db key = .ok (0, db') ∧ Holds b db' (t.prune n p) ∧
      db'.locked = false := by
  have hroot : ¬ strcmp key [dot] = .eq := fun he => hk (strcmp_eq_iff.mp he)
  have h' := h.setLocked true
  rw [Tree.record_isSome] at hsome
  obtain ⟨d, hd, hmem⟩ := (t.child_iff n p).mp hsome
  obtain ⟨l₁, l₂, hsplit⟩ := List.append_of_mem hmem
  -- free what lies below, then unlink, then free the entry itself
  obtain ⟨db₁, hok₁, hf₁⟩ := removeFromEntry_spec h' (db.entries.next + 1) (n :: p) hsome
    { db with locked := true } rfl ⟨fun _ _ _ => rfl, fun _ _ => rfl⟩ (by simp; omega)
  have hsame : ∀ q, (t.node q).isSome → ¬ Below (n :: p) q →
      db₁.entries.cell (L.addr q) = db.entries.cell (L.addr q) :=
    fun q hq hbelow => hf₁.cell h' hq hbelow
  obtain ⟨E, hunlink, hself, hE⟩ := unlink_spec h' hd hsplit hsame
  obtain ⟨dn, c, hdn, hc, hrep, -, -⟩ := h'.kid_cell hd hsplit
  have hself' : ¬ Below (n :: p) (n :: p) := fun hbelow => hbelow.2 rfl
  have hc₁ : E.cell (L.kid p n) = some c := by
    rw [hself, Layout.kid, hf₁.cell h' hsome hself']
    exact hc
  obtain ⟨s₁, s₂, hs₁, hs₂, hkeep⟩ := free_strings db₁.strings hrep (by
    intro a ha
    rw [hf₁.strings a (by rw [ha]; exact hself')])
  refine ⟨{ db₁ with entries := E.erase (L.kid p n), strings := s₂, locked := false }, ?_,
    ⟨L, ?_⟩, rfl⟩
  · simp only [csdbRemoveFromKey, if_neg hroot, lock_free hfree, ok_bind, hget, reduceCtorEq,
      if_false, csdbRemoveFromEntry, hok₁]
    simp only [Layout.kid] at hunlink hc₁
    simp only [hunlink, ok_bind, Heap.load_some hc₁, hs₁, hs₂, Heap.free_some hc₁]
    rfl
  · refine h'.prune hd hsplit hf₁.root ?_ ?_
    · intro q hq hout c' hc'
      have hne : L.addr q ≠ L.kid p n := h.addr_ne hq hsome (by rintro rfl; exact hout List.suffix_rfl)
      rw [Heap.erase_other hne, hE, hf₁.cell h' hq (fun hbelow => hout hbelow.1), hc',
        Option.map_some]
    · intro a v ha hout
      rw [hkeep a (fun he => hout (by rw [he])), hf₁.strings a (fun hbelow => hout hbelow.1), ha]

theorem csdbRemoveFromKey_absent (h : Rep b db L t) {key : CStr} (hfind : Finds b db L t key)
    (hfree : db.locked = false) (hk : key ≠ [dot])
    (hnone : t.record (keyPath key).reverse = none) :
    csdbRemoveFromKey b db key = .ok (-ecsNoentry, db) := by
  rcases hfind.cases h with ⟨-, hget⟩ | ⟨d, c, hn, -, -, -⟩
  · exact csdbRemoveFromKey_none hfree hk hget
  · simp [Tree.record, hn] at hnone

theorem csdbRemoveFromKey_spec (h : Rep b db L t) {key : CStr} (hfind : Finds b db L t key)
    (hfree : db.locked = false) (hk : key ≠ [dot]) {n : CStr}
    (hpath : (keyPath key).reverse = n :: p) (hsome : (t.record (n :: p)).isSome) :
    ∃ db', csdbRemoveFromKey b db key = .ok (0, db') ∧ Holds b db' (t.prune n p) ∧
      db'.locked = false := by
  have hget := hfind
  rw [Finds, hpath, if_pos (by rwa [← Tree.record_isSome])] at hget
  exact csdbRemoveFromKey_some h hfree hk hsome hget

/-- Whatever the key is that begins with a dot, exactly what lies at or below the path the
parser reads from it is gone. -/
theorem csdbRemoveFromKey_dot (h : Rep b db L t) (hb : Bounded b t) (hfree : db.locked = false)
    {rest : CStr} (hne : rest ≠ []) :
    ∃ ret db' t', csdbRemoveFromKey b db (dot :: rest) = .ok (ret, db') ∧ Holds b db' t' ∧
      db'.locked = false ∧
      ∀ q, t'.record q =
        if (readParts (rest.splitOn dot)).reverse <:+ q then none else t.record q := by
  have hk : dot :: rest ≠ [dot] := by simpa using hne
  have hget := csdbGetEntry_dot (h.setLocked true) hb hne
  obtain ⟨n, p, hpath⟩ : ∃ n p, (readParts (rest.splitOn dot)).reverse = n :: p :=
    List.exists_cons_of_ne_nil (by simpa using readParts_splitOn_ne_nil hne)
  rw [hpath] at hget ⊢
  by_cases hsome : (t.node (n :: p)).isSome
  · rw [if_pos hsome] at hget
    obtain ⟨db', hok, hholds, hfree'⟩ :=
      csdbRemoveFromKey_some h hfree hk (by rwa [Tree.record_isSome]) hget
    exact ⟨0, db', _, hok, hholds, hfree', Tree.prune_record t n p⟩
  · rw [if_neg hsome] at hget
    refine ⟨_, db, t, csdbRemoveFromKey_none hfree hk hget, ⟨L, h⟩, hfree, fun q => ?_⟩
    split
    · rename_i hs
      rw [← Option.not_isSome_iff_eq_none, Tree.record_isSome]
      exact fun hq => hsome (t.suffix_isSome hs hq)
    · rfl

theorem csdbRemoveFromKey_valid (h : Rep b db L t) (hb : Bounded b t) (hfree : db.locked = false)
    {key : CStr} (hv : csdbIsValidKey key = true) (hk : key ≠ [dot]) :
    ∃ ret db' t', csdbRemoveFromKey b db key = .ok (ret, db') ∧ Holds b db' t' ∧
      db'.locked = false ∧
      ∀ q, t'.record q = if (keyPath key).reverse <:+ q then none else t.record q := by
  obtain rfl | ⟨rest, rfl, hne, -⟩ := csdbIsValidKey_iff.mp hv
  · exact absurd rfl hk
  rw [← readParts_valid hv hne]
  exact csdbRemoveFromKey_dot h hb hfree hne

/-! ## The fresh database -/

theorem csdbInit_spec (b : Search) (now : Int) :
    ∃ db, csdbInit now = .ok db ∧ Holds b db (Tree.init now) ∧ db.locked = false := by
  obtain ⟨db₁, hcreate, e⟩ := csdbCreateEntry_spec { blank with locked := true } [dot] now
  obtain ⟨E, hu, hE⟩ := Heap.update_spec (fun e : Csdbe => { e with parent := some 0 }) e.new
  have hname : db₁.strings.cell 0 = some [dot] := by
    rw [e.strings]
    exact Heap.alloc_self _ _
  have hnode : ∀ p d, (Tree.init now).node p = some d → p = [] ∧ d = ⟨.fresh now, []⟩ := by
    intro p d hd
    by_cases hp : p = []
    · simp only [Tree.init, if_pos hp, Option.some.injEq] at hd
      exact ⟨hp, hd.symm⟩
    · simp [Tree.init, hp] at hd
  have hnil : ∀ p, ((Tree.init now).node p).isSome → p = [] := by
    intro p hp
    obtain ⟨d, hd⟩ := Option.isSome_iff_exists.mp hp
    exact (hnode p d hd).1
  refine ⟨{ db₁ with entries := E, root := some 0, locked := false }, ?_,
    ⟨⟨fun _ => 0, fun _ => ([], false)⟩, ?_⟩, rfl⟩
  · have hlock : blank.lock = .ok { blank with locked := true } := rfl
    have hu' : db₁.entries.update (some 0) (fun e => { e with parent := some 0 }) = .ok E := hu
    have hc' : csdbCreateEntry { blank with locked := true } (some [dot]) none now =
      .ok (some 0, db₁) := hcreate
    simp only [csdbInit, hlock, ok_bind, hc', hu']
    rfl
  · refine ⟨rfl, ?_, ?_, ?_, ?_, ?_⟩
    · intro p q hp hq _
      rw [hnil p hp, hnil q hq]
    · intro n p hp
      cases hnil (n :: p) hp
    · intro p d hd
      obtain ⟨rfl, rfl⟩ := hnode p d hd
      exact ⟨_, (hE 0).trans (if_pos rfl), rfl, rfl, rfl, rfl, fun _ => rfl, ⟨0, rfl, hname, rfl⟩, rfl⟩
    · intro p d hd
      obtain ⟨rfl, rfl⟩ := hnode p d hd
      exact Linked.nil
    · intro _ p d hd
      obtain ⟨rfl, rfl⟩ := hnode p d hd
      exact List.Pairwise.nil

end Dkmp.Csdb
