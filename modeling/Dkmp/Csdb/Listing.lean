import Dkmp.Csdb.Agree

/-! # Listing the children of an entry

`csdb_get_child_names_for_key` does not look for children in an entry that
`csdb_set_value` has marked as a leaf. Nothing keeps keys from being set below such an
entry, and then it has children that are not listed.
-/

namespace Dkmp.Csdb

open Machine

variable {db : Database} {t : Tree} {m : Paths}

/-! ## Existing keys -/

/-- Some existing key has the path of `key` followed by `c` as a prefix. A key is any
string here, since `csdb_key_exist` does not ask for valid ones: only a key such as `.a..`
names an entry whose last name is empty. -/
def Child (db : Database) (key : ValidKey) (c : CStr) : Prop :=
  ∃ other names, other ≠ [dot] ∧ csdbParseKey other = .ok (some names) ∧
    csdbKeyExist .linear db other = .ok (1, db) ∧ key.path ++ [c] <+: names

def Lists (db : Database) (key : ValidKey) : Prop :=
  ∃ ret out, csdbGetChildNamesForKey .linear db key.val = .ok (ret, out) ∧
    (ret = -1 → csdbKeyExist .linear db key.val = .ok (0, db) ∨ ∀ c, ¬ Child db key c) ∧
    (ret ≠ -1 → ∃ names : List CStr, out = some (names, names.flatMap (· ++ [space])) ∧
      ret = names.length ∧ names.Nodup ∧ ∀ c, c ∈ names ↔ Child db key c)

section Child

variable (h : Holds .linear db t) (hfree : db.locked = false) (hm : Models t m)

include h hfree hm

theorem child_iff (key : ValidKey) (c : CStr) : Child db key c ↔ c ∈ m.children key.path := by
  obtain ⟨L, hrep⟩ := h
  have hchild : c ∈ m.children key.path ↔ (t.node (c :: key.path.reverse)).isSome := by
    rw [PathMap.mem_children, hm.bound_path, Option.isSome_map, Tree.record_isSome]
    simp
  rw [hchild]
  constructor
  · rintro ⟨other, names, hroot, hparse, hexist, hpre⟩
    obtain ⟨rest, hne, rfl, rfl⟩ := csdbParseKey_some hparse hroot
    rw [csdbKeyExist_dot hrep (bounded_linear t) hfree hne] at hexist
    have hsome : (t.node (readParts (rest.splitOn dot)).reverse).isSome := by
      rw [← Tree.record_isSome]
      by_contra hnone
      rw [if_neg hnone] at hexist
      exact absurd (Prod.mk.inj (Except.ok.inj hexist)).1 (by decide)
    apply t.suffix_isSome _ hsome
    simpa using List.reverse_suffix.mpr hpre
  · intro hsome
    have hdot : ∀ n ∈ key.path ++ [c], dot ∉ n := by
      intro n hn
      have hn' : n ∈ c :: key.path.reverse := by simpa [or_comm] using hn
      obtain ⟨l₁, l₂, hsplit⟩ := List.append_of_mem hn'
      apply t.no_dot n l₂
      apply t.suffix_isSome _ hsome
      rw [hsplit]
      exact List.suffix_append l₁ (n :: l₂)
    obtain ⟨rest, hne, hparts⟩ := exists_key_of_names (by simp) hdot
    refine ⟨dot :: rest, key.path ++ [c], by simpa using hne, ?_, ?_, List.prefix_rfl⟩
    · rw [csdbParseKey_dot hne, hparts]
    · have hback : (key.path ++ [c]).reverse = c :: key.path.reverse := by simp
      rw [csdbKeyExist_dot hrep (bounded_linear t) hfree hne, hparts, hback, if_pos]
      rw [Tree.record_isSome]
      exact hsome

/-- A child with a name that is not empty is on the path of a valid key. -/
theorem child_valid {key : ValidKey} {c : CStr} (hchild : Child db key c) (hc : c ≠ []) :
    ∃ other : ValidKey, other.path = key.path ++ [c] ∧
      csdbKeyExist .linear db other.val = .ok (1, db) := by
  have hmem := (child_iff h hfree hm key c).mp hchild
  have hpath : IsPath (key.path ++ [c]) := by
    refine ⟨by simp, ?_, by simpa using hc⟩
    obtain ⟨other, names, hroot, hparse, -, hpre⟩ := hchild
    obtain ⟨rest, -, -, rfl⟩ := csdbParseKey_some hparse hroot
    intro n hn
    exact splitOn_no_dot rest n (readParts_subset _ (hpre.subset hn))
  have hkey := keyPath_pathKey hpath
  refine ⟨⟨pathKey (key.path ++ [c]), (pathKey_valid hpath).1⟩, hkey, ?_⟩
  rw [keyExist_refines h (bounded_linear t) hfree hm, ValidKey.path, hkey,
    if_pos (PathMap.mem_children.mp hmem)]

theorem valueFor_iff (key : ValidKey) (v : CStr) :
    valueFor .linear db key.val = .ok (some v) ↔ m.bound key.path = some (some v) := by
  rw [valueFor, getValue_refines h (bounded_linear t) hfree hm key]
  cases m.bound key.path with
  | none => simp [valueOf, Except.map]
  | some x => cases x <;> simp [valueOf, Except.map]

/-- The listing fails exactly on an entry that holds a value and has children. -/
theorem lists_iff (key : ValidKey) :
    Lists db key ↔ (∀ v, valueFor .linear db key.val ≠ .ok (some v)) ∨ ∀ c, ¬ Child db key c := by
  have hvalue := valueFor_iff h hfree hm key
  have hchild := child_iff h hfree hm key
  have hexist := keyExist_refines h (bounded_linear t) hfree hm key
  obtain ⟨ret, out, hok, hgives⟩ := childNames_refines h (bounded_linear t) hm key
  by_cases hinner : m.bound key.path = some none ∧ (m.children key.path).Nonempty
  · -- an entry without value that has children
    rw [childrenOf, if_pos hinner] at hgives
    obtain ⟨names, hout, hret, hnodup, hmem, -⟩ := hgives
    refine iff_of_true ⟨ret, out, hok, ?_, ?_⟩ ?_
    · intro hminus
      omega
    · intro _
      exact ⟨names, hout, hret, hnodup, fun c => (hmem c).trans (hchild c).symm⟩
    · refine Or.inl fun v hv => ?_
      rw [hvalue, hinner.1] at hv
      cases hv
  · rw [childrenOf, if_neg hinner] at hgives
    obtain ⟨rfl, rfl⟩ := hgives
    have hlists : Lists db key ↔
        csdbKeyExist .linear db key.val = .ok (0, db) ∨ ∀ c, ¬ Child db key c := by
      constructor
      · rintro ⟨ret, out, hok', hminus, -⟩
        rw [hok] at hok'
        exact hminus (Prod.mk.inj (Except.ok.inj hok')).1.symm
      · intro hnone
        exact ⟨-1, none, hok, fun _ => hnone, fun hne => absurd rfl hne⟩
    rw [hlists]
    cases hbound : m.bound key.path with
    | none =>
        rw [hbound] at hexist
        refine iff_of_true (Or.inl hexist) (Or.inl fun v hv => ?_)
        rw [hvalue, hbound] at hv
        cases hv
    | some x =>
        cases x with
        | none =>
            have hempty : ∀ c, ¬ Child db key c := by
              intro c hc
              exact hinner ⟨hbound, c, (hchild c).mp hc⟩
            exact iff_of_true (Or.inr hempty) (Or.inr hempty)
        | some v =>
            rw [hbound] at hexist
            apply or_congr _ Iff.rfl
            refine iff_of_false ?_ fun hall => hall v ((hvalue v).mpr hbound)
            intro habsent
            rw [hexist, Option.isSome_some, if_pos rfl] at habsent
            exact absurd (Prod.mk.inj (Except.ok.inj habsent)).1 Int.one_ne_zero

end Child

/-- **Listing.** In every database that sets, appends and removals with valid keys lead to,
the listing of a valid key is that of its children exactly if the key holds no value or has
no child; and every child with a name that is not empty is on the path of a valid key that
exists. -/
theorem listing_iff (now : Int) (clock : Nat → Int) (edits : List Edit) {db₀ db : Database}
    {replies : List Reply} (hinit : csdbInit now = .ok db₀)
    (hrun : run .linear clock 0 (edits.map Edit.call) db₀ = .ok (replies, db)) (key : ValidKey) :
    (Lists db key ↔
        (∀ v, valueFor .linear db key.val ≠ .ok (some v)) ∨ ∀ c, ¬ Child db key c) ∧
      ∀ c, c ≠ [] → Child db key c →
        ∃ other : ValidKey, other.path = key.path ++ [c] ∧
          csdbKeyExist .linear db other.val = .ok (1, db) := by
  obtain ⟨t, h, hfree, hm⟩ := edits_reach now clock edits hinit hrun
  exact ⟨lists_iff h hfree hm key, fun c hc hchild => child_valid h hfree hm hchild hc⟩

/-- With a value for `.g.h` the listing of `.g` has the name `h`. -/
theorem listing_iff_oneChild :
    ∃ db₀ replies db, csdbInit 0 = .ok db₀ ∧
      run .linear (fun _ => 0) 0 [.set (lit ['.', 'g', '.', 'h']) (some (lit ['1']))] db₀ =
        .ok (replies, db) ∧
      csdbGetChildNamesForKey .linear db (lit ['.', 'g']) = .ok (1, some ([lit ['h']], lit ['h', ' '])) ∧
      Lists db ⟨lit ['.', 'g'], by decide⟩ ∧
      ∃ other : ValidKey, other.path = [lit ['g'], lit ['h']] ∧
        csdbKeyExist .linear db other.val = .ok (1, db) := by
  obtain ⟨db₀, replies, db, hinit, hrun, hlisted, hvalue, hchild⟩ :
      ∃ db₀ replies db, csdbInit 0 = .ok db₀ ∧
        run .linear (fun _ => 0) 0 [.set (lit ['.', 'g', '.', 'h']) (some (lit ['1']))] db₀ =
          .ok (replies, db) ∧
        csdbGetChildNamesForKey .linear db (lit ['.', 'g']) = .ok (1, some ([lit ['h']], lit ['h', ' '])) ∧
        valueFor .linear db (lit ['.', 'g']) = .ok none ∧
        csdbKeyExist .linear db (lit ['.', 'g', '.', 'h']) = .ok (1, db) :=
    ⟨_, _, _, rfl, rfl, rfl, rfl, rfl⟩
  obtain ⟨hlists, hvalid⟩ := listing_iff 0 (fun _ => 0)
    [.set ⟨lit ['.', 'g', '.', 'h'], by decide⟩ (lit ['1'])] hinit hrun ⟨lit ['.', 'g'], by decide⟩
  have hnone : ∀ v, valueFor .linear db (lit ['.', 'g']) ≠ .ok (some v) := by
    intro v hv
    rw [hvalue] at hv
    cases hv
  refine ⟨db₀, replies, db, hinit, hrun, hlisted, hlists.mpr (Or.inl hnone), ?_⟩
  exact hvalid (lit ['h']) (List.cons_ne_nil _ _)
    ⟨lit ['.', 'g', '.', 'h'], [lit ['g'], lit ['h']], by decide, rfl, hchild, List.prefix_rfl⟩

/-- The last two keys of `csdb_test2`: a value for `.f`, and then one below it. -/
def leafWithChild : List Edit :=
  [.set ⟨lit ['.', 'f'], by decide⟩ (lit ['1']), .set ⟨lit ['.', 'f', '.', 'l'], by decide⟩ (lit ['1'])]

theorem leaf_hides_child :
    ∃ db₀ replies db, csdbInit 0 = .ok db₀ ∧
      run .linear (fun _ => 0) 0 (leafWithChild.map Edit.call) db₀ = .ok (replies, db) ∧
      ¬ Lists db ⟨lit ['.', 'f'], by decide⟩ := by
  obtain ⟨db₀, hinit, h₀, hfree₀⟩ := csdbInit_spec .linear 0
  obtain ⟨db, t, hrun, h, hfree, hm⟩ :=
    edits_refine (fun _ => 0) leafWithChild 0 h₀ hfree₀ (Models.init 0)
  refine ⟨db₀, _, db, hinit, hrun, ?_⟩
  rw [lists_iff h hfree hm]
  rintro (hvalue | hchild)
  · exact hvalue (lit ['1']) ((valueFor_iff h hfree hm _ _).mpr (by decide))
  · refine hchild (lit ['l']) ((child_iff h hfree hm _ _).mpr (PathMap.mem_children.mpr ?_))
    decide

end Dkmp.Csdb
