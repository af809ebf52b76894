import Dkmp.Csc.Alive

/-! # The libraries of a node

`csc_scan_libs` reads the listing of the dynamic linker and keeps one key for every
library name, with the dots of the name replaced; `csc_cap_to_exec` asks for the keys of
a list of names. Both have to spell a name alike.
-/

namespace Dkmp.Csc

open Machine Csdb

variable {db : Database} {t : Tree} {L : Layout}

def underscore : CChar := ⟨95, by decide⟩
def tab : CChar := ⟨9, by decide⟩

/-- `if(*c == '.') *c='_'`, along a whole name. -/
def replacePoints (s : CStr) : CStr := s.map fun c => if c = dot then underscore else c

def lib : CStr := lit ['l', 'i', 'b']

def libKey (name : CStr) : CStr := dot :: (lib ++ dot :: name)

/-! ## Scanning a listing -/

def isspace (c : CChar) : Bool := c.val = 32 ∨ (9 ≤ c.val ∧ c.val ≤ 13)

/-- The conversion `%s`: white space is skipped, then everything up to the next one is
taken. -/
def scanString (text : CStr) : Option (CStr × CStr) :=
  match text.dropWhile isspace with
  | [] => none
  | c :: s => some ((c :: s).takeWhile (!isspace ·), (c :: s).dropWhile (!isspace ·))

def lineSize : Nat := 256

/-- The arrays `name` and `type`; nothing has been written to them at first. -/
structure LibFields where
  name : Option CStr
  type : Option CStr

/-- `sscanf(start, "%s %s %*s %s", name, type, path)`: a conversion that fails leaves the
arrays from there on as they were. -/
def sscanfLib (text : CStr) (f : LibFields) : Exec LibFields :=
  match scanString text with
  | none => .ok f
  | some (name, text) => do
      let name ← sprintf lineSize name
      match scanString text with
      | none => .ok { f with name := some name }
      | some (type, text) => do
          let type ← sprintf lineSize type
          match (scanString text).bind (scanString ·.2) with
          | none => .ok ⟨some name, some type⟩
          | some (path, _) => do
              let _ ← sprintf lineSize path
              .ok ⟨some name, some type⟩

/-- `csdb_key_exist(key) && csdb_get_value_for_key(key, &type_value) >= 0`: the value. -/
def existingType (b : Search) (db : Database) (key : CStr) : Exec (Option CStr × Database) := do
  let (exist, db) ← csdbKeyExist b db key
  if exist ≠ 0 then do
    let (error, typeValue, db) ← csdbGetValueForKey b db key
    .ok (if 0 ≤ error then typeValue else none, db)
  else .ok (none, db)

/-- Store the type of a library: a type that is already in the value is not appended
again. -/
def storeLib (b : Search) (db : Database) (key type : CStr) (now : Int) : Exec Database := do
  let (existing, db) ← existingType b db key
  match existing with
  | some typeValue =>
      if type <:+: typeValue then .ok db
      else do
        let (_, db) ← csdbAppendValueForKey b db key (some type) (some [space]) now
        .ok db
  | none => do
      let (_, db) ← csdbSetValueForKey b db key (some type) now
      .ok db

structure ScanState where
  k : Nat
  start : CStr
  fields : LibFields
  db : Database

def scanLibsBody (b : Search) (clock : Nat → Int) (s : ScanState) :
    Exec (ScanState ⊕ Database) :=
  if s.start = [] then .ok (.inr s.db)
  else
    match strchr s.start newline with
    | none => .error .bounds
    | some fromEnd => do
        let _ ← sprintf lineSize (s.start.takeWhile (· ≠ newline))
        let fields ← sscanfLib s.start s.fields
        match fields.name, fields.type with
        | some name, some type => do
            let name := replacePoints name
            let key ← sprintf lineSize (libKey name)
            let db ← storeLib b s.db key type (clock s.k)
            .ok (.inl ⟨s.k + 1, fromEnd.tail, ⟨some name, some type⟩, db⟩)
        | _, _ => .error .uninit

/-- The mapped listing is a string: a search that finds no tab or no newline runs past
its end. -/
def cscScanLibs (b : Search) (clock : Nat → Int) (map : CStr) (db : Database) :
    Exec (Int × Database) :=
  match strchr map tab with
  | none => .error .bounds
  | some fromTab => do
      let db ← loop (scanLibsBody b clock) (map.length + 1) ⟨0, fromTab.tail, ⟨none, none⟩, db⟩
      .ok (0, db)

/-! ## Asking for libraries -/

def capDelims : CStr := [space, newline]

/-- `while(tok != NULL && ok)`, with `tok` the first token of the text. -/
def capBody (b : Search) (keySize : Nat) :
    CStr × Int × Database → Exec ((CStr × Int × Database) ⊕ (Int × Database))
  | (text, ok, db) =>
      match strtok capDelims text with
      | none => .ok (.inr (ok, db))
      | some (tok, rest) =>
          if ok = 0 then .ok (.inr (ok, db))
          else do
            let key ← sprintf keySize (libKey tok)
            let (ok, db) ← csdbKeyExist b db key
            .ok (.inl (rest, ok, db))

/-- `keySize` is the size of the array for the keys: the source allocates
`strlen(libs)+1` bytes. -/
def cscCapToExec (b : Search) (keySize : Nat) (db : Database) (libs : CStr) :
    Exec (Int × Database) :=
  loop (capBody b keySize) (libs.length + 1) (replacePoints libs, 1, db)

/-! ## Listings -/

structure LibLine where
  name : CStr
  type : CStr
  path : CStr
  name_ne : name ≠ []
  type_ne : type ≠ []
  path_ne : path ≠ []
  name_word : ∀ c ∈ name, isspace c = false
  type_word : ∀ c ∈ type, isspace c = false
  path_word : ∀ c ∈ path, isspace c = false
  name_fits : name.length ≤ 250
  fits : 1 + (name.length + 1 + type.length + 4 + path.length) < lineSize

def arrow : CStr := lit ['=', '>']

def LibLine.text (l : LibLine) : CStr :=
  l.name ++ (space :: (l.type ++ (space :: (arrow ++ (space :: l.path)))))

def linesText (lines : List LibLine) : CStr := lines.flatMap fun l => tab :: (l.text ++ [newline])

def listing (header : CStr) (lines : List LibLine) : CStr :=
  header ++ newline :: linesText lines

theorem scanString_word {blank word rest : CStr} (hblank : ∀ c ∈ blank, isspace c = true)
    (hne : word ≠ []) (hword : ∀ c ∈ word, isspace c = false)
    (hrest : ∀ c, rest.head? = some c → isspace c = true) :
    scanString (blank ++ (word ++ rest)) = some (word, rest) := by
  obtain ⟨c, s, rfl⟩ := List.exists_cons_of_ne_nil hne
  have hc : isspace c = false := hword c (by simp)
  have hskip : (blank ++ (c :: s ++ rest)).dropWhile isspace = c :: (s ++ rest) := by
    rw [List.dropWhile_append_of_pos hblank, List.cons_append,
      List.dropWhile_cons_of_neg (by simp [hc])]
  have hall : ∀ x ∈ c :: s, (!isspace x) = true := by
    intro x hx
    rw [hword x hx]
    rfl
  have hstop : rest.takeWhile (!isspace ·) = [] ∧ rest.dropWhile (!isspace ·) = rest := by
    cases rest with
    | nil => exact ⟨rfl, rfl⟩
    | cons d rest =>
        have hd := hrest d rfl
        simp [hd]
  rw [scanString, hskip]
  simp only
  rw [← List.cons_append, List.takeWhile_append_of_pos hall, List.dropWhile_append_of_pos hall,
    hstop.1, hstop.2, List.append_nil]

theorem isspace_space : isspace space = true := by decide
theorem isspace_newline : isspace newline = true := by decide
theorem isspace_tab : isspace tab = true := by decide

theorem LibLine.length_text (l : LibLine) :
    l.text.length = l.name.length + 1 + l.type.length + 4 + l.path.length := by
  have harrow : arrow.length = 2 := by decide
  simp only [LibLine.text, List.length_append, List.length_cons, harrow]
  omega

theorem word_of_all {s : CStr} (h : s.all (!isspace ·) = true) : ∀ c ∈ s, isspace c = false := by
  intro c hc
  simpa using List.all_eq_true.mp h c hc

/-- A line is scanned into its name and its type. -/
theorem sscanfLib_line (l : LibLine) {blank : CStr} (hblank : ∀ c ∈ blank, isspace c = true)
    (rest : CStr) (f : LibFields) :
    sscanfLib (blank ++ (l.text ++ newline :: rest)) f = .ok ⟨some l.name, some l.type⟩ := by
  have hfits := l.fits
  have hspace : ∀ (s : CStr) (c : CChar), (space :: s).head? = some c → isspace c = true := by
    intro s c hc
    rw [← Option.some.inj hc]
    exact isspace_space
  have hone : ∀ c ∈ [space], isspace c = true := by
    intro c hc
    rw [List.mem_singleton.mp hc]
    exact isspace_space
  have hscan₁ : scanString (blank ++ (l.text ++ newline :: rest)) = some (l.name,
      space :: (l.type ++ space :: (arrow ++ space :: (l.path ++ newline :: rest)))) := by
    rw [LibLine.text]
    simp only [List.append_assoc, List.cons_append]
    exact scanString_word hblank l.name_ne l.name_word (hspace _)
  have hscan₂ : scanString (space :: (l.type ++ space :: (arrow ++ space :: (l.path ++ newline :: rest)))) =
      some (l.type, space :: (arrow ++ space :: (l.path ++ newline :: rest))) :=
    scanString_word hone l.type_ne l.type_word (hspace _)
  have hscan₃ : scanString (space :: (arrow ++ space :: (l.path ++ newline :: rest))) =
      some (arrow, space :: (l.path ++ newline :: rest)) :=
    scanString_word hone (by decide : arrow ≠ []) (word_of_all rfl) (hspace _)
  have hscan₄ : scanString (space :: (l.path ++ newline :: rest)) =
      some (l.path, newline :: rest) := by
    apply scanString_word hone l.path_ne l.path_word
    intro c hc
    rw [← Option.some.inj hc]
    exact isspace_newline
  simp only [sscanfLib, hscan₁, hscan₂, hscan₃, hscan₄, Option.bind_some,
    sprintf_ok (by omega : l.name.length < lineSize), sprintf_ok (by omega : l.type.length < lineSize),
    sprintf_ok (by omega : l.path.length < lineSize), ok_bind]

/-! ## The entries under `.lib` -/

theorem lib_no_dot : dot ∉ lib := by decide

theorem length_libKey (name : CStr) : (libKey name).length = 5 + name.length := by
  have hlib : lib.length = 3 := by decide
  simp only [libKey, List.length_cons, List.length_append, hlib]
  omega

theorem replacePoints_ne_nil {s : CStr} (h : s ≠ []) : replacePoints s ≠ [] := by
  simpa [replacePoints] using h

theorem replacePoints_no_dot (s : CStr) : dot ∉ replacePoints s := by
  rw [replacePoints, List.mem_map]
  rintro ⟨c, -, hc⟩
  split at hc
  · exact absurd hc (by decide)
  · exact absurd hc ‹_›

theorem libKey_plain {name : CStr} (hne : name ≠ []) (hdot : dot ∉ name) :
    csdbIsValidKey (libKey name) = true ∧ libKey name ≠ [dot] ∧
      keyPath (libKey name) = [lib, name] :=
  pairKey_valid lib_no_dot hdot hne

/-- The libraries with an entry under `.lib` are those of `S`, and each has a value. -/
structure LibTree (t : Tree) (S : CStr → Prop) : Prop where
  mem : ∀ name, name ≠ [] → ((t.record [name, lib]).isSome ↔ S name)
  typed : ∀ name r, name ≠ [] → t.record [name, lib] = some r → r.leaf = true ∧ r.value.isSome

def LibDb (db : Database) (S : CStr → Prop) : Prop :=
  ∃ t, Holds .linear db t ∧ db.locked = false ∧ LibTree t S

variable {S S' : CStr → Prop}

theorem LibDb.congr (h : LibDb db S) (hiff : ∀ n, S n ↔ S' n) : LibDb db S' := by
  obtain ⟨t, hholds, hfree, hmem, htyped⟩ := h
  exact ⟨t, hholds, hfree, fun n hn => (hmem n hn).trans (hiff n), htyped⟩

section Store

variable {t : Tree} (hholds : Holds .linear db t) (hfree : db.locked = false) (htree : LibTree t S)
  {name : CStr} (hne : name ≠ []) (hdot : dot ∉ name)

include hholds hfree htree hne hdot

theorem storeLib_new (hr : t.record [name, lib] = none) (type : CStr) (now : Int) :
    ∃ db', storeLib .linear db (libKey name) type now = .ok db' ∧
      LibDb db' (fun n => n = name ∨ S n) := by
  obtain ⟨L, hrep⟩ := hholds
  obtain ⟨hv, -, hpath⟩ := libKey_plain hne hdot
  have hb := bounded_linear t
  have hrev : (keyPath (libKey name)).reverse = [name, lib] := by rw [hpath]; rfl
  have hexist := csdbKeyExist_spec hrep hb hfree hv
  rw [hrev, hr] at hexist
  obtain ⟨db', t', hset, hholds', hfree', hrec⟩ :=
    csdbSetValueForKey_spec hrep hb hfree hv (some type) now
  rw [hrev] at hrec
  refine ⟨db', ?_, t', hholds', hfree', ?_, ?_⟩
  · simp [storeLib, existingType, hexist, hset]
  · intro n hn
    rw [hrec, setRecord_isSome, suffix_pair_iff, htree.mem n hn]
  · intro n r hnil hn
    rw [hrec, setRecord] at hn
    split at hn
    · rw [← Option.some.inj hn]
      exact ⟨rfl, rfl⟩
    · have hns : ¬ [n, lib] <:+ [name, lib] := fun hs => ‹¬ _› (hs.eq_of_length rfl)
      rw [if_neg hns] at hn
      exact htree.typed n r hnil hn

theorem storeLib_known {v : CStr} {mtime : Int}
    (hr : t.record [name, lib] = some ⟨true, some v, mtime⟩) (type : CStr) (now : Int) :
    ∃ db', storeLib .linear db (libKey name) type now = .ok db' ∧ LibDb db' S := by
  obtain ⟨L, hrep⟩ := id hholds
  obtain ⟨hv, -, hpath⟩ := libKey_plain hne hdot
  have hb := bounded_linear t
  have hrev : (keyPath (libKey name)).reverse = [name, lib] := by rw [hpath]; rfl
  have hexist := csdbKeyExist_spec hrep hb hfree hv
  have hget := csdbGetValueForKey_spec hrep hb hfree hv
  rw [hrev, hr] at hexist hget
  have hexisting : existingType .linear db (libKey name) = .ok (some v, db) := by
    simp [existingType, hexist, hget, valueReply]
  by_cases hin : type <:+: v
  · exact ⟨db, by simp [storeLib, hexisting, hin], t, hholds, hfree, htree⟩
  · obtain ⟨db', t', happ, hholds', hfree', hrec⟩ :=
      csdbAppendValueForKey_spec hrep (hrep.finds hb hv) hfree type (some [space]) now
        (by rw [hrev]; exact hr) rfl
    rw [hrev] at hrec
    refine ⟨db', ?_, t', hholds', hfree', ?_, ?_⟩
    · simp [storeLib, hexisting, hin, happ]
    · intro n hnil
      rw [hrec, ← htree.mem n hnil]
      by_cases hn : n = name
      · simp [hn, hr]
      · simp [hn]
    · intro n r hnil hn
      rw [hrec] at hn
      split at hn
      · rw [← Option.some.inj hn]
        exact ⟨rfl, rfl⟩
      · exact htree.typed n r hnil hn

end Store

/-- Storing the type of a library gives it an entry and keeps the others. -/
theorem storeLib_spec (h : LibDb db S) {name : CStr} (hne : name ≠ []) (hdot : dot ∉ name)
    (type : CStr) (now : Int) :
    ∃ db', storeLib .linear db (libKey name) type now = .ok db' ∧
      LibDb db' (fun n => n = name ∨ S n) := by
  obtain ⟨t, hholds, hfree, htree⟩ := h
  cases hr : t.record [name, lib] with
  | none => exact storeLib_new hholds hfree htree hne hdot hr type now
  | some r =>
      obtain ⟨hleaf, hsome⟩ := htree.typed name r hne hr
      obtain ⟨leaf, value, mtime⟩ := r
      obtain ⟨v, hval⟩ := Option.isSome_iff_exists.mp hsome
      simp only at hleaf hval
      subst hleaf hval
      have hhas : S name := (htree.mem name hne).mp (by rw [hr]; rfl)
      obtain ⟨db', hstore, hdb'⟩ := storeLib_known hholds hfree htree hne hdot hr type now
      refine ⟨db', hstore, hdb'.congr ?_⟩
      intro n
      constructor
      · exact Or.inr
      · rintro (rfl | hn)
        · exact hhas
        · exact hn

/-! ## The whole listing -/

theorem LibLine.newline_not_mem (l : LibLine) : newline ∉ l.text := by
  intro h
  have hword : ∀ s : CStr, (∀ c ∈ s, isspace c = false) → newline ∉ s := by
    intro s hs hin
    have := hs newline hin
    rw [isspace_newline] at this
    cases this
  have harrow : newline ∉ arrow := by decide
  have hspace : newline ≠ space := by decide
  simp only [LibLine.text, List.mem_append, List.mem_cons] at h
  rcases h with h | h | h | h | h | h | h
  · exact hword _ l.name_word h
  · exact hspace h
  · exact hword _ l.type_word h
  · exact hspace h
  · exact harrow h
  · exact hspace h
  · exact hword _ l.path_word h

/-- One line, behind the tab that starts it or with it. -/
theorem scanLibsBody_line (clock : Nat → Int) (h : LibDb db S) (l : LibLine) {blank : CStr}
    (hblank : blank = [] ∨ blank = [tab]) (rest : CStr) (k : Nat) (f : LibFields) :
    ∃ f' db', scanLibsBody .linear clock ⟨k, blank ++ (l.text ++ newline :: rest), f, db⟩ =
        .ok (.inl ⟨k + 1, rest, f', db'⟩) ∧
      LibDb db' (fun n => n = replacePoints l.name ∨ S n) := by
  have hspaces : ∀ c ∈ blank, isspace c = true := by
    rcases hblank with rfl | rfl
    · simp
    · simp [isspace_tab]
  have hnewline : newline ∉ blank ++ l.text := by
    rw [List.mem_append]
    rintro (hin | hin)
    · rcases hblank with rfl | rfl
      · simp at hin
      · exact absurd hin (by decide)
    · exact l.newline_not_mem hin
  have hshort : (blank ++ l.text).length < lineSize := by
    have hfits := l.fits
    have hlen : blank.length ≤ 1 := by rcases hblank with rfl | rfl <;> simp
    rw [List.length_append, l.length_text]
    omega
  have hend := strchr_first hnewline rest
  rw [List.append_assoc] at hend
  have hkey : sprintf lineSize (libKey (replacePoints l.name)) =
      .ok (libKey (replacePoints l.name)) := by
    have hname := l.name_fits
    apply sprintf_ok
    rw [length_libKey, replacePoints, List.length_map, lineSize]
    omega
  obtain ⟨db', hstore, hdb'⟩ := storeLib_spec h (replacePoints_ne_nil l.name_ne)
    (replacePoints_no_dot l.name) l.type (clock k)
  refine ⟨⟨some (replacePoints l.name), some l.type⟩, db', ?_, hdb'⟩
  have hstart : blank ++ (l.text ++ newline :: rest) ≠ [] := by simp
  simp only [scanLibsBody, if_neg hstart, hend.1, hend.2, sprintf_ok hshort, ok_bind,
    sscanfLib_line l hspaces rest f, hkey, hstore, List.tail_cons]

theorem scanLibs_lines (clock : Nat → Int) (lines : List LibLine) (h : LibDb db S) (k : Nat)
    (f : LibFields) (fuel : Nat) (hfuel : lines.length < fuel) :
    ∃ db', loop (scanLibsBody .linear clock) fuel ⟨k, linesText lines, f, db⟩ = .ok db' ∧
      LibDb db' (fun n => (∃ l ∈ lines, replacePoints l.name = n) ∨ S n) := by
  induction lines generalizing db S k f fuel with
  | nil =>
      obtain ⟨fuel, rfl⟩ : ∃ f, fuel = f + 1 := ⟨fuel - 1, by omega⟩
      refine ⟨db, loop_exit rfl, ?_⟩
      simpa using h
  | cons l lines ih =>
      obtain ⟨fuel, rfl⟩ : ∃ f, fuel = f + 1 := ⟨fuel - 1, by omega⟩
      obtain ⟨f', db₁, hbody, h₁⟩ :=
        scanLibsBody_line clock h l (Or.inr rfl) (linesText lines) k f
      obtain ⟨db', hloop, h'⟩ := ih h₁ (k + 1) f' fuel (by simpa using hfuel)
      have htext : linesText (l :: lines) = [tab] ++ (l.text ++ newline :: linesText lines) := by
        simp [linesText]
      refine ⟨db', ?_, ?_⟩
      · rw [htext, loop_next hbody, hloop]
      · refine h'.congr ?_
        intro n
        constructor
        · rintro (⟨l', hl', hn⟩ | rfl | hs)
          · exact Or.inl ⟨l', by simp [hl'], hn⟩
          · exact Or.inl ⟨l, by simp, rfl⟩
          · exact Or.inr hs
        · rintro (⟨l', hl', hn⟩ | hs)
          · rcases List.mem_cons.mp hl' with rfl | hl'
            · exact Or.inr (Or.inl hn.symm)
            · exact Or.inl ⟨l', hl', hn⟩
          · exact Or.inr (Or.inr hs)

theorem length_linesText (lines : List LibLine) : lines.length ≤ (linesText lines).length := by
  induction lines with
  | nil => simp
  | cons l lines ih =>
      simp only [linesText, List.flatMap_cons, List.length_append, List.length_cons] at ih ⊢
      omega

/-- After a scan the libraries are those of the listing. -/
theorem cscScanLibs_spec (clock : Nat → Int) {header : CStr} (hheader : tab ∉ header)
    {lines : List LibLine} (hlines : lines ≠ []) (h : LibDb db (fun _ => False)) :
    ∃ db', cscScanLibs .linear clock (listing header lines) db = .ok (0, db') ∧
      LibDb db' (fun n => ∃ l ∈ lines, replacePoints l.name = n) := by
  obtain ⟨l, lines, rfl⟩ := List.exists_cons_of_ne_nil hlines
  have htext : listing header (l :: lines) =
      (header ++ [newline]) ++ tab :: (l.text ++ newline :: linesText lines) := by
    simp [listing, linesText]
  have htab : tab ∉ header ++ [newline] := by
    rw [List.mem_append]
    rintro (hin | hin)
    · exact hheader hin
    · exact absurd hin (by decide)
  have hlen : lines.length < (listing header (l :: lines)).length := by
    have := length_linesText (l :: lines)
    simp only [listing, List.length_append, List.length_cons] at this ⊢
    omega
  obtain ⟨f', db₁, hbody, h₁⟩ :=
    scanLibsBody_line clock h l (Or.inl rfl) (linesText lines) 0 ⟨none, none⟩
  obtain ⟨db', hloop, h'⟩ := scanLibs_lines clock lines h₁ 1 f' _ hlen
  refine ⟨db', ?_, h'.congr ?_⟩
  · rw [List.nil_append] at hbody
    simp only [cscScanLibs, htext, (strchr_first htab _).1, List.tail_cons, loop_next hbody]
    rw [← htext, hloop, ok_bind]
  · intro n
    constructor
    · rintro (⟨l', hl', hn⟩ | rfl | hf)
      · exact ⟨l', by simp [hl'], hn⟩
      · exact ⟨l, by simp, rfl⟩
      · exact hf.elim
    · rintro ⟨l', hl', hn⟩
      rcases List.mem_cons.mp hl' with rfl | hl'
      · exact Or.inr (Or.inl hn.symm)
      · exact Or.inl ⟨l', hl', hn⟩

/-! ## The answer of a node -/

theorem libKey_exist (h : LibDb db S) [DecidablePred S] {name : CStr} (hne : name ≠ [])
    (hdot : dot ∉ name) :
    csdbKeyExist .linear db (libKey name) = .ok (if S name then 1 else 0, db) := by
  obtain ⟨t, ⟨L, hrep⟩, hfree, hmem, -⟩ := h
  obtain ⟨hv, -, hpath⟩ := libKey_plain hne hdot
  rw [csdbKeyExist_spec hrep (bounded_linear t) hfree hv, hpath]
  simp only [List.reverse_cons, List.reverse_nil, List.nil_append, List.singleton_append,
    hmem name hne]

/-- The loop over the tokens stops early at the first one that is missing. -/
theorem capLoop_spec (h : LibDb db S) [DecidablePred S] {keySize : Nat} (toks : List CStr)
    (text : CStr) (htoks : tokens capDelims text = toks) (hdot : ∀ tok ∈ toks, dot ∉ tok)
    (hkey : ∀ tok ∈ toks, tok.length + 5 < keySize) (fuel : Nat) (hfuel : toks.length < fuel) :
    loop (capBody .linear keySize) fuel (text, 1, db) =
      .ok (if ∀ tok ∈ toks, S tok then 1 else 0, db) := by
  induction toks generalizing text fuel with
  | nil =>
      obtain ⟨fuel, rfl⟩ : ∃ f, fuel = f + 1 := ⟨fuel - 1, by omega⟩
      apply loop_exit
      simp [capBody, strtok_eq_none htoks]
  | cons tok toks ih =>
      obtain ⟨fuel, rfl⟩ : ∃ f, fuel = f + 1 := ⟨fuel - 1, by omega⟩
      have hne : tok ≠ [] := token_ne_nil (by rw [htoks]; simp)
      have hexist := libKey_exist h hne (hdot tok (by simp))
      obtain ⟨rest, hs, hrest⟩ := strtok_eq_some htoks
      have hfit : sprintf keySize (libKey tok) = .ok (libKey tok) :=
        sprintf_ok (by rw [length_libKey, Nat.add_comm]; exact hkey tok (by simp))
      have hbody : capBody .linear keySize (text, 1, db) =
          .ok (.inl (rest, if S tok then 1 else 0, db)) := by
        simp [capBody, hs, hfit, hexist]
      rw [loop_next hbody]
      by_cases hin : S tok
      · rw [if_pos hin, ih rest hrest (fun x hx => hdot x (by simp [hx]))
          (fun x hx => hkey x (by simp [hx])) fuel (by simpa using hfuel)]
        simp [hin]
      · have hall : ¬ ∀ x ∈ tok :: toks, S x := fun hx => hin (hx tok (by simp))
        obtain ⟨fuel, rfl⟩ : ∃ f, fuel = f + 1 := ⟨fuel - 1, by simp only [List.length_cons] at hfuel; omega⟩
        rw [if_neg hin, if_neg hall]
        apply loop_exit
        cases hs' : strtok capDelims rest with
        | none => simp [capBody, hs']
        | some x => simp [capBody, hs']

theorem replacePoints_delims (c : CChar) :
    (if c = dot then underscore else c) ∈ capDelims ↔ c ∈ capDelims := by
  by_cases hc : c = dot
  · subst hc
    decide
  · rw [if_neg hc]

/-- A node can execute what needs only libraries it has, up to the dots in the names. -/
theorem cscCapToExec_spec (h : LibDb db S) [DecidablePred S] {libs : CStr} {keySize : Nat}
    (hkey : libs.length + 6 ≤ keySize) :
    cscCapToExec .linear keySize db libs =
      .ok (if ∀ tok ∈ tokens capDelims libs, S (replacePoints tok) then 1 else 0, db) := by
  have htoks : tokens capDelims (replacePoints libs) = (tokens capDelims libs).map replacePoints :=
    tokens_map replacePoints_delims libs
  have hdot : ∀ tok ∈ (tokens capDelims libs).map replacePoints, dot ∉ tok := by
    intro tok htok
    obtain ⟨x, -, rfl⟩ := List.mem_map.mp htok
    exact replacePoints_no_dot x
  have hsize : ∀ tok ∈ (tokens capDelims libs).map replacePoints, tok.length + 5 < keySize := by
    intro tok htok
    obtain ⟨x, hx, rfl⟩ := List.mem_map.mp htok
    have hle := length_token_le hx
    rw [replacePoints, List.length_map]
    omega
  have hlen := length_tokens_le capDelims libs
  rw [cscCapToExec, capLoop_spec h _ _ htoks hdot hsize _ (by rw [List.length_map]; omega)]
  simp only [List.forall_mem_map]

end Dkmp.Csc
