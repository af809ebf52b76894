import Dkmp.Csdb.Dump
import Dkmp.Csdb.Refine
import Dkmp.Machine.Bytes

/-! # Dumping the database to a file and reading it back

A file is the text written to it, and the mapping of a file is that text as a C
string. `csc_read_db_from_file` takes the text apart again with `strtok` and
`strchr` and sets every key it finds. The round trip restores every value
except that of the root, which a dump of `.` does not write.
-/

namespace Dkmp.Csc

open Machine Csdb

def pageSize : Nat := 4096

/-- The string that the mapping of a whole file is: the rest of its last page is filled with
zeros, and there is no page of an empty file. -/
def mapFile (file : Bytes) : Exec CStr :=
  readString (file ++ List.replicate ((pageSize - file.length % pageSize) % pageSize) 0) 0

def cscDumpDbToFile (b : Search) (db : Database) (key : CStr) : Exec (Int × CStr × Database) := do
  let (_, out, db) ← csdbDumpFromKey b db key
  .ok (0, out, db)

/-- One line of the file; the `k`-th key is set at the time `clock k`. -/
def readBody (b : Search) (clock : Nat → Int) :
    Nat × CStr × Database → Exec ((Nat × CStr × Database) ⊕ Database)
  | (k, text, db) =>
      match strtok [newline] text with
      | none => .ok (.inr db)
      | some (line, rest) =>
          match strchr line equals with
          | none => .ok (.inl (k, rest, db))
          | some value => do
              let (_, db) ← csdbSetValueForKey b db (line.takeWhile (· ≠ equals))
                (some value.tail) (clock k)
              .ok (.inl (k + 1, rest, db))

/-- Every iteration consumes a character of the text. -/
def cscReadDbFromFile (b : Search) (clock : Nat → Int) (text : CStr) (db : Database) :
    Exec (Int × Database) := do
  let db ← loop (readBody b clock) (text.length + 1) (0, text, db)
  .ok (0, db)

variable {db db' : Database} {t : Tree} {m : Paths}

theorem stringOf_append_zeros (file : Bytes) (n : Nat) :
    stringOf (file ++ List.replicate n 0) = stringOf file := by
  induction file with
  | nil =>
      cases n with
      | zero => rfl
      | succ n => rfl
  | cons x file ih => simp only [List.cons_append, stringOf, ih]

/-- A file whose last byte is that of its page has to have a terminator of its own. -/
theorem mapFile_eq_ok {file : Bytes} {text : CStr} :
    mapFile file = .ok text ↔
      (0 ∈ file ∨ file.length % pageSize ≠ 0) ∧ text = stringOf file := by
  have hzero : 0 ∈ (file ++ List.replicate ((pageSize - file.length % pageSize) % pageSize) 0).drop 0 ↔
      0 ∈ file ∨ file.length % pageSize ≠ 0 := by
    have hpad : (4096 - file.length % 4096) % 4096 ≠ 0 ↔ file.length % 4096 ≠ 0 := by omega
    rw [List.drop_zero, List.mem_append, List.mem_replicate, pageSize, hpad, and_iff_left rfl]
  rw [mapFile, readString]
  split
  · rename_i hend
    rw [List.drop_zero, stringOf_append_zeros]
    simp [hzero.mp hend, eq_comm]
  · rename_i hend
    rw [hzero] at hend
    simp [hend]

/-! ## Values -/

def HasValue (db : Database) (key value : CStr) : Prop :=
  ∃ db', csdbGetValueForKey .linear db key = .ok (0, some value, db')

structure Printable (db : Database) : Prop where
  name : ∀ key : ValidKey, csdbKeyExist .linear db key.val = .ok (1, db) →
    equals ∉ key.val ∧ newline ∉ key.val
  value : ∀ (key : ValidKey) (v : CStr), HasValue db key.val v → newline ∉ v

theorem valueOf_eq_zero {x : Option (Option CStr)} {v : CStr} :
    valueOf x = (0, some v) ↔ x = some (some v) := by
  cases x with
  | none => simp [valueOf]
  | some y => cases y <;> simp [valueOf]

theorem hasValue_iff (h : Holds .linear db t) (hfree : db.locked = false) (hm : Models t m)
    (key : ValidKey) (v : CStr) : HasValue db key.val v ↔ m.bound key.path = some (some v) := by
  rw [HasValue, getValue_refines h (bounded_linear t) hfree hm key, ← valueOf_eq_zero]
  constructor
  · rintro ⟨db', hok⟩
    rw [Except.ok.injEq, Prod.mk.injEq, Prod.mk.injEq] at hok
    exact Prod.ext hok.1 hok.2.1
  · intro hval
    rw [hval]
    exact ⟨_, rfl⟩

def Keyed (m : Paths) : Prop :=
  ∀ path v, m.bound path = some (some v) → ∃ key : ValidKey, key.path = path

theorem edit_keyed (hm : Keyed m) (e : Edit) : Keyed (e.spec m).2 := by
  intro path v hv
  cases e with
  | set key value =>
      simp only [Edit.spec, PathMap.set_bound] at hv
      split at hv
      · exact ⟨key, Eq.symm ‹_›⟩
      split at hv
      · cases hb : m.bound path with
        | none => simp [hb] at hv
        | some x =>
            rw [hb] at hv
            exact hm path v (by rw [hb]; simpa using hv)
      · exact hm path v hv
  | append key value btwn =>
      simp only [Edit.spec] at hv
      split at hv
      · simp only [PathMap.modify_bound] at hv
        split at hv
        · exact ⟨key, Eq.symm ‹_›⟩
        · exact hm path v hv
      · exact hm path v hv
  | remove key =>
      simp only [Edit.spec] at hv
      split at hv
      · exact hm path v hv
      split at hv
      · exact hm path v hv
      · simp only [PathMap.remove_bound] at hv
        split at hv
        · cases hv
        · exact hm path v hv

theorem specRun_keyed (edits : List Edit) (hm : Keyed m) : Keyed (Edit.specRun edits m).2 := by
  induction edits generalizing m with
  | nil => exact hm
  | cons e edits ih => exact ih (edit_keyed hm e)

theorem init_keyed : Keyed .init := by
  intro path v hv
  cases path <;> simp [PathMap.init] at hv

theorem ValidKey.val_eq_pathKey {key : ValidKey} (h : key.val ≠ [dot]) :
    key.val = pathKey key.path :=
  (keyPath_valid key.property h).2.symm

/-! ## Reading lines -/

abbrev Line := ValidKey × CStr

def Line.text (l : Line) : CStr := lineOf l.1.val l.2

/-- The line can be taken apart again. -/
structure Line.Clean (l : Line) : Prop where
  key_equals : equals ∉ l.1.val
  key_newline : newline ∉ l.1.val
  value_newline : newline ∉ l.2

def setLines (lines : List Line) (m : Paths) : Paths :=
  lines.foldl (fun m l => m.set l.1.path l.2) m

theorem readBody_line {l : Line} (hl : l.Clean) (rest : CStr) (clock : Nat → Int) (k : Nat)
    (hok : csdbSetValueForKey .linear db l.1.val (some l.2) (clock k) = .ok (0, db')) :
    readBody .linear clock (k, l.text ++ rest, db) = .ok (.inl (k + 1, rest, db')) := by
  have htext : l.text ++ rest = (l.1.val ++ equals :: l.2) ++ newline :: rest := by
    simp [Line.text, lineOf]
  have hnl : newline ∉ l.1.val ++ equals :: l.2 := by
    have hne : newline ≠ equals := by decide
    simp [hl.key_newline, hl.value_newline, hne]
  have htok := strtok_line (by simp) hnl rest
  obtain ⟨hchr, hkey⟩ := strchr_first hl.key_equals l.2
  simp only [readBody, htext, htok, hchr, hkey, List.tail_cons, hok, ok_bind]

theorem readLoop_spec (clock : Nat → Int) (lines : List Line) (hclean : ∀ l ∈ lines, l.Clean)
    (k fuel : Nat) (hfuel : lines.length < fuel) (h : Holds .linear db t)
    (hfree : db.locked = false) (hm : Models t m) :
    ∃ db' t', loop (readBody .linear clock) fuel (k, lines.flatMap Line.text, db) = .ok db' ∧
      Holds .linear db' t' ∧ db'.locked = false ∧ Models t' (setLines lines m) := by
  induction lines generalizing db t m k fuel with
  | nil =>
      obtain ⟨fuel, rfl⟩ : ∃ f, fuel = f + 1 := ⟨fuel - 1, by omega⟩
      exact ⟨db, t, loop_exit rfl, h, hfree, hm⟩
  | cons l lines ih =>
      obtain ⟨fuel, rfl⟩ : ∃ f, fuel = f + 1 := ⟨fuel - 1, by omega⟩
      obtain ⟨L, hrep⟩ := h
      obtain ⟨db₁, t₁, hok, h₁, hfree₁, hrec⟩ := csdbSetValueForKey_spec hrep (bounded_linear t)
        hfree l.1.property (some l.2) (clock k)
      have hm₁ := hm.set hrec
      rw [List.reverse_reverse] at hm₁
      obtain ⟨db', t', hloop, h', hfree', hm'⟩ := ih (fun x hx => hclean x (by simp [hx])) (k + 1)
        fuel (by simpa using hfuel) h₁ hfree₁ hm₁
      refine ⟨db', t', ?_, h', hfree', hm'⟩
      rw [List.flatMap_cons, loop_next (readBody_line (hclean l (by simp)) _ clock k hok), hloop]

theorem setLines_bound (lines : List Line) (hnodup : (lines.map fun l => l.1.path).Nodup)
    (path : List CStr) (v : CStr) :
    (setLines lines m).bound path = some (some v) ↔
      (∃ l ∈ lines, l.1.path = path ∧ l.2 = v) ∨
      (path ∉ lines.map (fun l => l.1.path) ∧ m.bound path = some (some v)) := by
  induction lines generalizing m with
  | nil => simp [setLines]
  | cons l lines ih =>
      rw [List.map_cons, List.nodup_cons] at hnodup
      have hstep : setLines (l :: lines) m = setLines lines (m.set l.1.path l.2) := rfl
      rw [hstep, ih hnodup.2, PathMap.set_bound]
      by_cases hp : path = l.1.path
      · subst hp
        have hno : ¬ ∃ l' ∈ lines, l'.1.path = l.1.path ∧ l'.2 = v := by
          rintro ⟨l', hl', hpath, -⟩
          exact hnodup.1 (hpath ▸ List.mem_map_of_mem hl')
        simp only [if_pos, Option.some.injEq, hnodup.1, not_false_eq_true, true_and, List.map_cons,
          List.mem_cons, not_true_eq_false, false_and, or_false, exists_eq_or_imp, hno, false_or]
      · have hset : (if path <+: l.1.path then some ((m.bound path).getD none) else m.bound path) =
            some (some v) ↔ m.bound path = some (some v) := by
          split
          · cases hb : m.bound path <;> simp
          · exact Iff.rfl
        rw [if_neg hp, hset]
        simp only [List.map_cons, List.mem_cons, hp, exists_eq_or_imp, Ne.symm hp, false_and,
          false_or]

/-! ## Writing lines -/

theorem exists_line (hm : Models t m) (hkeyed : Keyed m) {q : UpPath} (hq : q ≠ []) {r : Record}
    (hr : t.record q = some r) (hleaf : r.leaf = true) :
    ∃ l : Line, l.1.val ≠ [dot] ∧ l.1.path.reverse = q ∧ m.bound l.1.path = some (some l.2) ∧
      entryText t q = l.text := by
  obtain ⟨v, hv⟩ : ∃ v, r.value = some v := by
    apply Option.isSome_iff_exists.mp
    rw [← hm.plain q r hr, hleaf]
  have hbound : m.bound q.reverse = some (some v) := by
    rw [hm.bound, hr, Option.map_some, hv]
  obtain ⟨key, hkey⟩ := hkeyed _ _ hbound
  have hroot : key.val ≠ [dot] := by
    intro he
    rw [ValidKey.path_eq_nil.mpr he] at hkey
    exact hq (by simpa using hkey.symm)
  refine ⟨(key, v), hroot, by rw [hkey, List.reverse_reverse], by rw [hkey, hbound], ?_⟩
  rw [Line.text, ValidKey.val_eq_pathKey hroot, hkey]
  simp [entryText, hr, hleaf, shownValue, hv]

theorem exists_lines (hm : Models t m) (hkeyed : Keyed m) (paths : List UpPath)
    (hpaths : ∀ q ∈ paths, q ≠ [] ∧ ∃ r, t.record q = some r ∧ r.leaf = true) :
    ∃ lines : List Line, textOf t paths = lines.flatMap Line.text ∧
      lines.map (fun l => l.1.path.reverse) = paths ∧
      ∀ l ∈ lines, l.1.val ≠ [dot] ∧ m.bound l.1.path = some (some l.2) := by
  induction paths with
  | nil => exact ⟨[], rfl, rfl, by simp⟩
  | cons q paths ih =>
      obtain ⟨hq, r, hr, hleaf⟩ := hpaths q (by simp)
      obtain ⟨l, hroot, hpath, hbound, htext⟩ := exists_line hm hkeyed hq hr hleaf
      obtain ⟨lines, htexts, hmap, hall⟩ := ih (fun x hx => hpaths x (by simp [hx]))
      refine ⟨l :: lines, ?_, by rw [List.map_cons, hpath, hmap], ?_⟩
      · simp only [textOf, List.flatMap_cons, htext] at htexts ⊢
        rw [htexts]
      · intro x hx
        rcases List.mem_cons.mp hx with rfl | hx
        · exact ⟨hroot, hbound⟩
        · exact hall x hx

theorem ValidKey.path_inj {key key' : ValidKey} (h : key.val ≠ [dot]) (h' : key'.val ≠ [dot])
    (hp : key.path = key'.path) : key = key' := by
  apply Subtype.ext
  rw [ValidKey.val_eq_pathKey h, ValidKey.val_eq_pathKey h', hp]

/-- The dump of the whole database, as lines: one for each key with a value. -/
theorem dump_lines (h : Holds .linear db t) (hfree : db.locked = false) (hm : Models t m)
    (hkeyed : Keyed m) :
    ∃ lines : List Line, cscDumpDbToFile .linear db [dot] =
        .ok (0, lines.flatMap Line.text, db) ∧
      (lines.map Prod.fst).Nodup ∧
      ∀ (key : ValidKey) (v : CStr), (key, v) ∈ lines ↔
        key.val ≠ [dot] ∧ m.bound key.path = some (some v) := by
  obtain ⟨L, hrep⟩ := h
  obtain ⟨d, hd⟩ := Option.isSome_iff_exists.mp t.root
  have hroot : csdbIsValidKey [dot] = true := by decide
  have hdump := csdbDumpFromKey_spec hrep (bounded_linear t) hfree hroot
  have hdepth : ∀ q, (t.node q).isSome → q.length ≤ ([] : UpPath).length + (db.entries.next + 1) := by
    intro q hq
    have h₁ := hrep.length_le_addr hq
    have h₂ := hrep.addr_lt_next hq
    simp only [List.length_nil]
    omega
  have hmem := mem_leafPaths t (db.entries.next + 1) [] d hd hdepth
  have hnodup := leafPaths_nodup t (db.entries.next + 1) [] d hd
  obtain ⟨lines, htext, hmap, hall⟩ := exists_lines hm hkeyed _ (fun q hq =>
    ⟨((hmem q).mp hq).1.2, ((hmem q).mp hq).2⟩)
  have hpath : keyPath [dot] = [] := rfl
  rw [hpath, List.reverse_nil, hd] at hdump
  refine ⟨lines, ?_, ?_, ?_⟩
  · simp only [cscDumpDbToFile, hdump, ok_bind, htext]
  · rw [← hmap] at hnodup
    have : lines.map (fun l => l.1.path.reverse) = (lines.map Prod.fst).map (fun k => k.path.reverse) := by
      rw [List.map_map]
      rfl
    rw [this] at hnodup
    exact hnodup.of_map _
  · intro key v
    refine ⟨fun hl => hall _ hl, ?_⟩
    rintro ⟨hroot, hbound⟩
    have hrec := hm.bound_path key.path
    rw [hbound] at hrec
    obtain ⟨r, hr, hv⟩ := Option.map_eq_some_iff.mp hrec.symm
    have hleaf : r.leaf = true := by rw [hm.plain _ r hr, hv]; rfl
    have hne : key.path.reverse ≠ [] := by
      rw [ne_eq, List.reverse_eq_nil_iff, ValidKey.path_eq_nil]
      exact hroot
    have hin : key.path.reverse ∈ leafPaths t (db.entries.next + 1) [] d.kids :=
      (hmem _).mpr ⟨⟨List.nil_suffix, hne⟩, r, hr, hleaf⟩
    rw [← hmap, List.mem_map] at hin
    obtain ⟨l, hl, hlp⟩ := hin
    obtain ⟨hlroot, hlbound⟩ := hall l hl
    have hkey : l.1 = key := ValidKey.path_inj hlroot hroot (List.reverse_inj.mp hlp)
    rw [hkey, hbound] at hlbound
    have hval : l.2 = v := (Option.some.inj (Option.some.inj hlbound)).symm
    rw [← hkey, ← hval]
    exact hl

theorem lines_clean (h : Holds .linear db t) (hfree : db.locked = false) (hm : Models t m)
    (hprint : Printable db) {l : Line} (hbound : m.bound l.1.path = some (some l.2)) : l.Clean := by
  have hexist : csdbKeyExist .linear db l.1.val = .ok (1, db) := by
    rw [keyExist_refines h (bounded_linear t) hfree hm l.1, hbound]
    rfl
  obtain ⟨heq, hnl⟩ := hprint.name l.1 hexist
  exact ⟨heq, hnl, hprint.value l.1 l.2 ((hasValue_iff h hfree hm l.1 l.2).mpr hbound)⟩

theorem flatMap_text_length (lines : List Line) :
    lines.length ≤ (lines.flatMap Line.text).length := by
  induction lines with
  | nil => simp
  | cons l lines ih =>
      simp only [List.length_cons, List.flatMap_cons, List.length_append, Line.text, lineOf] at *
      omega

theorem read_lines (now : Int) (clock : Nat → Int) {lines : List Line} {fresh : Database}
    (hclean : ∀ l ∈ lines, l.Clean) (hnodup : (lines.map fun l => l.1.path).Nodup)
    (hfresh : csdbInit now = .ok fresh) :
    ∃ loaded, cscReadDbFromFile .linear clock (lines.flatMap Line.text) fresh = .ok (0, loaded) ∧
      ∀ (key : ValidKey) (v : CStr),
        HasValue loaded key.val v ↔ ∃ l ∈ lines, l.1.path = key.path ∧ l.2 = v := by
  obtain ⟨db₁, hinit₁, h₁, hfree₁⟩ := csdbInit_spec .linear now
  obtain rfl : db₁ = fresh := Except.ok.inj (hinit₁.symm.trans hfresh)
  have hlen := flatMap_text_length lines
  obtain ⟨loaded, t, hloop, h, hfree, hm⟩ := readLoop_spec clock lines hclean 0
    ((lines.flatMap Line.text).length + 1) (by omega) h₁ hfree₁ (Models.init now)
  refine ⟨loaded, by simp only [cscReadDbFromFile, hloop, ok_bind], ?_⟩
  intro key v
  have hinit : ∀ path, (PathMap.init : Paths).bound path ≠ some (some v) := by
    intro path
    cases path <;> simp [PathMap.init]
  rw [hasValue_iff h hfree hm, setLines_bound lines hnodup]
  simp [hinit]

/-- **Round trip.** Let a database come from `csdb_init` and any sequence of
sets, appends and removals with valid keys, and let no name in it contain an
equals sign or a newline and no value a newline. Dumping it from `.` and reading
the text into a fresh database gives every valid key other than `.` the value it
had and no other key a value, and the text has one line for each such key. -/
theorem dump_reload (now now' : Int) (clock clock' : Nat → Int) (edits : List Edit)
    {db₀ db fresh : Database} {replies : List Reply} (hinit : csdbInit now = .ok db₀)
    (hrun : run .linear clock 0 (edits.map Edit.call) db₀ = .ok (replies, db))
    (hprint : Printable db) (hfresh : csdbInit now' = .ok fresh) :
    ∃ (lines : List (CStr × CStr)) (loaded : Database),
      cscDumpDbToFile .linear db [dot] =
        .ok (0, lines.flatMap (fun l => lineOf l.1 l.2), db) ∧
      cscReadDbFromFile .linear clock' (lines.flatMap (fun l => lineOf l.1 l.2)) fresh =
        .ok (0, loaded) ∧
      (∀ (key : ValidKey) (v : CStr),
        HasValue loaded key.val v ↔ key.val ≠ [dot] ∧ HasValue db key.val v) ∧
      (lines.map Prod.fst).Nodup ∧
      ∀ key v, (key, v) ∈ lines ↔
        csdbIsValidKey key = true ∧ key ≠ [dot] ∧ HasValue db key v := by
  obtain ⟨t, h, hfree, hm⟩ := edits_reach now clock edits hinit hrun
  obtain ⟨lines, hdump, hnodup, hmem⟩ := dump_lines h hfree hm (specRun_keyed edits init_keyed)
  have hclean : ∀ l ∈ lines, l.Clean := fun l hl =>
    lines_clean h hfree hm hprint ((hmem l.1 l.2).mp hl).2
  have hpaths : (lines.map fun l => l.1.path).Nodup := by
    have : lines.map (fun l => l.1.path) = (lines.map Prod.fst).map ValidKey.path := by
      rw [List.map_map]
      rfl
    rw [this]
    apply hnodup.map_on
    intro k hk k' hk' hp
    obtain ⟨l, hl, rfl⟩ := List.mem_map.mp hk
    obtain ⟨l', hl', rfl⟩ := List.mem_map.mp hk'
    exact ValidKey.path_inj ((hmem l.1 l.2).mp hl).1 ((hmem l'.1 l'.2).mp hl').1 hp
  obtain ⟨loaded, hread, hvalue⟩ := read_lines now' clock' hclean hpaths hfresh
  have htext : (lines.map fun l => (l.1.val, l.2)).flatMap (fun l => lineOf l.1 l.2) =
      lines.flatMap Line.text := by
    rw [List.flatMap_map]
    rfl
  refine ⟨lines.map fun l => (l.1.val, l.2), loaded, by rw [htext, hdump], by rw [htext, hread],
    ?_, ?_, ?_⟩
  · intro key v
    rw [hvalue, hasValue_iff h hfree hm]
    constructor
    · rintro ⟨l, hl, hpath, rfl⟩
      obtain ⟨hroot, hbound⟩ := (hmem l.1 l.2).mp hl
      refine ⟨?_, hpath ▸ hbound⟩
      rw [ne_eq, ← ValidKey.path_eq_nil, ← hpath, ValidKey.path_eq_nil]
      exact hroot
    · rintro ⟨hroot, hbound⟩
      exact ⟨(key, v), (hmem key v).mpr ⟨hroot, hbound⟩, rfl, rfl⟩
  · have : (lines.map fun l => (l.1.val, l.2)).map Prod.fst =
        (lines.map Prod.fst).map Subtype.val := by
      rw [List.map_map, List.map_map]
      rfl
    rw [this]
    exact hnodup.map Subtype.val_injective
  · intro key v
    constructor
    · intro hmap
      obtain ⟨l, hl, heq⟩ := List.mem_map.mp hmap
      obtain ⟨rfl, rfl⟩ := Prod.mk.inj heq
      obtain ⟨hroot, hbound⟩ := (hmem l.1 l.2).mp hl
      exact ⟨l.1.property, hroot, (hasValue_iff h hfree hm l.1 l.2).mpr hbound⟩
    · rintro ⟨hvalid, hroot, hval⟩
      have hbound := (hasValue_iff h hfree hm ⟨key, hvalid⟩ v).mp hval
      exact List.mem_map.mpr ⟨(⟨key, hvalid⟩, v), (hmem _ v).mpr ⟨hroot, hbound⟩, rfl⟩

/-! ## Databases that can be printed -/

structure CleanPaths (m : Paths) : Prop where
  name : ∀ path, (m.bound path).isSome → ∀ n ∈ path, equals ∉ n ∧ newline ∉ n
  value : ∀ path v, m.bound path = some (some v) → newline ∉ v

def CleanEdit : Edit → Prop
  | .set key value => (∀ n ∈ key.path, equals ∉ n ∧ newline ∉ n) ∧ newline ∉ value
  | .append _ value btwn => newline ∉ btwn.getD [] ++ value.getD []
  | .remove _ => True

instance : DecidablePred CleanEdit
  | .set key value => inferInstanceAs (Decidable ((∀ n ∈ key.path, equals ∉ n ∧ newline ∉ n) ∧ newline ∉ value))
  | .append _ value btwn => inferInstanceAs (Decidable (newline ∉ btwn.getD [] ++ value.getD []))
  | .remove _ => inferInstanceAs (Decidable True)

theorem CleanPaths.edit (hm : CleanPaths m) {e : Edit} (he : CleanEdit e) : CleanPaths (e.spec m).2 := by
  cases e with
  | set key value =>
      refine ⟨fun path hpath => ?_, fun path v hv => ?_⟩
      · simp only [Edit.spec, PathMap.set_bound] at hpath
        split at hpath
        · next hkey => exact hkey ▸ he.1
        split at hpath
        · next hpre => exact fun n hn => he.1 n (hpre.subset hn)
        · exact hm.name path hpath
      · simp only [Edit.spec, PathMap.set_bound] at hv
        split at hv
        · cases hv
          exact he.2
        split at hv
        · cases hb : m.bound path with
          | none => simp [hb] at hv
          | some x => exact hm.value path v (by simpa [hb] using hv)
        · exact hm.value path v hv
  | append key value btwn =>
      simp only [Edit.spec]
      split
      · next value old hold =>
        refine ⟨fun path hpath => ?_, fun path v hv => ?_⟩
        · apply hm.name path
          rw [PathMap.modify_bound] at hpath
          split at hpath
          · simpa using hpath
          · exact hpath
        · rw [PathMap.modify_bound] at hv
          split at hv
          · next hpath =>
            rw [hpath, hold] at hv
            cases hv
            exact fun hmem => (List.mem_append.mp hmem).elim (hm.value _ _ hold) he
          · exact hm.value path v hv
      · exact hm
  | remove key =>
      simp only [Edit.spec]
      split
      · exact hm
      split
      · exact hm
      · refine ⟨fun path hpath => ?_, fun path v hv => ?_⟩
        · rw [PathMap.remove_bound] at hpath
          split at hpath
          · cases hpath
          · exact hm.name path hpath
        · rw [PathMap.remove_bound] at hv
          split at hv
          · cases hv
          · exact hm.value path v hv

theorem specRun_clean (edits : List Edit) (hedits : ∀ e ∈ edits, CleanEdit e) (hm : CleanPaths m) :
    CleanPaths (Edit.specRun edits m).2 := by
  induction edits generalizing m with
  | nil => exact hm
  | cons e edits ih =>
      exact ih (fun e he => hedits e (List.mem_cons_of_mem _ he)) (hm.edit (hedits e List.mem_cons_self))

theorem init_clean : CleanPaths .init where
  name := fun path => by cases path <;> simp [PathMap.init]
  value := fun path v => by cases path <;> simp [PathMap.init]

theorem pathKey_clean {c : CChar} (hc : c ≠ dot) {path : List CStr} (h : ∀ n ∈ path, c ∉ n) : c ∉ pathKey path := by
  intro hmem
  obtain ⟨n, hn, hcn⟩ := List.mem_flatMap.mp hmem
  exact (List.mem_cons.mp hcn).elim hc (h n hn)

theorem CleanPaths.printable (hm : CleanPaths m) (h : Holds .linear db t) (hfree : db.locked = false)
    (hmodels : Models t m) : Printable db where
  name := by
    intro key hexist
    rw [keyExist_refines h (bounded_linear t) hfree hmodels key] at hexist
    by_cases hroot : key.val = [dot]
    · rw [hroot]
      decide
    · have hbound : (m.bound key.path).isSome := by
        cases hb : m.bound key.path with
        | none => simp [hb] at hexist
        | some x => rfl
      rw [ValidKey.val_eq_pathKey hroot]
      exact ⟨pathKey_clean (by decide) fun n hn => (hm.name _ hbound n hn).1,
        pathKey_clean (by decide) fun n hn => (hm.name _ hbound n hn).2⟩
  value := fun key v hv => hm.value _ v ((hasValue_iff h hfree hmodels key v).mp hv)

/-- A value with an equals sign in it, a child below it, a value that grows, and one that is
removed. -/
def fourKeys : List Edit :=
  [.set ⟨lit ['.', 'a'], by decide⟩ (lit ['x', '=', '1']), .set ⟨lit ['.', 'a', '.', 'b'], by decide⟩ (lit ['2']),
    .set ⟨lit ['.', 'c'], by decide⟩ (lit ['3']), .append ⟨lit ['.', 'c'], by decide⟩ (some (lit ['4'])) (some [space]),
    .set ⟨lit ['.', 'd'], by decide⟩ (lit ['5']), .remove ⟨lit ['.', 'd'], by decide⟩]

theorem dump_reload_fourKeys :
    ∃ (db₀ db fresh loaded : Database) (replies : List Reply) (text : CStr), csdbInit 0 = .ok db₀ ∧
      run .linear (fun _ => 0) 0 (fourKeys.map Edit.call) db₀ = .ok (replies, db) ∧
      csdbInit 1 = .ok fresh ∧ cscDumpDbToFile .linear db [dot] = .ok (0, text, db) ∧
      cscReadDbFromFile .linear (fun _ => 1) text fresh = .ok (0, loaded) ∧
      HasValue loaded (lit ['.', 'a']) (lit ['x', '=', '1']) ∧ HasValue loaded (lit ['.', 'a', '.', 'b']) (lit ['2']) ∧
      HasValue loaded (lit ['.', 'c']) (lit ['3', ' ', '4']) ∧ ∀ v, ¬ HasValue loaded (lit ['.', 'd']) v := by
  obtain ⟨db₀, hinit, h₀, hfree₀⟩ := csdbInit_spec .linear 0
  obtain ⟨fresh, hfresh, -, -⟩ := csdbInit_spec .linear 1
  obtain ⟨db, t, hrun, h, hfree, hm⟩ := edits_refine (fun _ => 0) fourKeys 0 h₀ hfree₀ (Models.init 0)
  have hprint := (specRun_clean fourKeys (by decide) init_clean).printable h hfree hm
  obtain ⟨lines, loaded, hdump, hread, hvalues, -, -⟩ :=
    dump_reload 0 1 (fun _ => 0) (fun _ => 1) fourKeys hinit hrun hprint hfresh
  have hkept : ∀ (key : ValidKey) v, (Edit.specRun fourKeys .init).2.bound key.path = some (some v) →
      key.val ≠ [dot] → HasValue loaded key.val v :=
    fun key v hbound hroot => (hvalues key v).mpr ⟨hroot, (hasValue_iff h hfree hm key v).mpr hbound⟩
  refine ⟨db₀, db, fresh, loaded, _, _, hinit, hrun, hfresh, hdump, hread, hkept ⟨_, by decide⟩ _ (by decide) (by decide),
    hkept ⟨_, by decide⟩ _ (by decide) (by decide), hkept ⟨_, by decide⟩ _ (by decide) (by decide), fun v hv => ?_⟩
  have hbound := (hasValue_iff h hfree hm ⟨lit ['.', 'd'], by decide⟩ v).mp ((hvalues ⟨_, by decide⟩ v).mp hv).2
  rw [show (Edit.specRun fourKeys .init).2.bound _ = none from by decide] at hbound
  cases hbound

end Dkmp.Csc
