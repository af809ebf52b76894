import Dkmp.Csc.DbFile
import Dkmp.Csdb.Mutex
import Dkmp.Machine.Trace

/-! # Malformed keys

`csdb_parse_key` calls `csdb_check_key` for the number of delimiters and does not look at
its verdict. Its machine moves on only from a delimiter or inside a token, so that a key
with something in front of its first dot is never left.
-/

namespace Dkmp.Csc

open Machine Csdb

variable {db : Database} {t : Tree}

/-! ## Parsing any key -/

/-- A key that the check refuses is not parsed, and nothing is stored for it. -/
structure KeyHandled (key : CStr) : Prop where
  ends : ∃ fuel keys, csdbParseKeyFuel fuel key = .ok keys
  refused : (csdbCheckKey key).1 = -1 → csdbParseKey key = .ok none ∧
    ∀ (b : Search) (db : Database) (value : Option CStr) (now : Int),
      csdbSetValueForKey b db key value now = .ok (-1, db)

theorem csdbSetValueForKey_no_dot {key : CStr} (hdot : dot ∉ key) (b : Search) (db : Database)
    (value : Option CStr) (now : Int) : csdbSetValueForKey b db key value now = .ok (-1, db) := by
  simp only [csdbSetValueForKey, csdbParseKey, csdbParseKey_no_dot hdot, ok_bind]

theorem csdbSetValueForKey_stuck {c : CChar} {rest : CStr} (hc : c ≠ dot) (hdot : dot ∈ rest)
    (b : Search) (db : Database) (value : Option CStr) (now : Int) :
    csdbSetValueForKey b db (c :: rest) value now = .error .diverge := by
  simp only [csdbSetValueForKey, csdbParseKey, csdbParseKey_stuck hc hdot, error_bind]

/-- A key with a delimiter that the check refuses: it ends in a dot, or something stands in
front of its first one. -/
theorem malformed_cases {key : CStr} (hcheck : (csdbCheckKey key).1 = -1) (hdot : dot ∈ key) :
    (∃ rest, rest ≠ [] ∧ key = dot :: rest) ∨ ∃ c rest, c ≠ dot ∧ dot ∈ rest ∧ key = c :: rest := by
  cases key with
  | nil => cases hdot
  | cons c rest =>
      by_cases hc : c = dot
      · subst hc
        refine Or.inl ⟨rest, ?_, rfl⟩
        rintro rfl
        exact absurd hcheck (by decide)
      · rcases List.mem_cons.mp hdot with he | hrest
        · exact absurd he.symm hc
        · exact Or.inr ⟨c, rest, hc, hrest, rfl⟩

theorem csdbParseKey_valid_ends {key : CStr} (hv : csdbIsValidKey key = true) :
    ∃ keys, csdbParseKey key = .ok keys := by
  by_cases hk : key = [dot]
  · rw [hk]
    exact ⟨_, csdbParseKey_root⟩
  · exact ⟨_, csdbParseKey_valid hv hk⟩

theorem keyHandled_iff (key : CStr) :
    KeyHandled key ↔ (csdbCheckKey key).1 = 0 ∨ dot ∉ key := by
  constructor
  · intro hkey
    by_cases hdot : dot ∈ key
    · rcases csdbCheckKey_fst key with hcheck | ⟨hcheck, -⟩
      · exfalso
        rcases malformed_cases hcheck hdot with ⟨rest, hne, rfl⟩ | ⟨c, rest, hc, hrest, rfl⟩
        · have hnull := (hkey.refused hcheck).1
          rw [csdbParseKey_dot hne] at hnull
          cases hnull
        · obtain ⟨fuel, keys, hok⟩ := hkey.ends
          rw [csdbParseKey_stuck hc hrest] at hok
          cases hok
      · exact Or.inl hcheck
    · exact Or.inr hdot
  · rintro (hcheck | hdot)
    · rcases csdbCheckKey_fst key with hbad | ⟨-, hv⟩
      · rw [hcheck] at hbad
        cases hbad
      · obtain ⟨keys, hok⟩ := csdbParseKey_valid_ends hv
        refine ⟨⟨_, keys, hok⟩, fun hbad => ?_⟩
        rw [hcheck] at hbad
        cases hbad
    · exact ⟨⟨0, none, csdbParseKey_no_dot hdot 0⟩, fun _ =>
        ⟨csdbParseKey_no_dot hdot _, csdbSetValueForKey_no_dot hdot⟩⟩

/-! ## Reading a file line by line -/

def lineKey (line : CStr) : CStr := line.takeWhile (· ≠ equals)

def readLine (b : Search) (clock : Nat → Int) : Nat × Database → CStr → Exec (Nat × Database)
  | (k, db), line =>
      match strchr line equals with
      | none => .ok (k, db)
      | some value => do
          let (_, db) ← csdbSetValueForKey b db (lineKey line) (some value.tail) (clock k)
          .ok (k + 1, db)

theorem readLoop_eq_steps (b : Search) (clock : Nat → Int) (fuel : Nat) (text : CStr)
    (hfuel : text.length < fuel) (k : Nat) (db : Database) :
    loop (readBody b clock) fuel (k, text, db) =
      (steps (readLine b clock) (tokens [newline] text) (k, db)).map Prod.snd := by
  induction fuel generalizing text k db with
  | zero => omega
  | succ fuel ih =>
      rw [tokens_eq_strtok]
      cases htok : strtok [newline] text with
      | none => exact loop_exit (by simp only [readBody, htok])
      | some first =>
          obtain ⟨line, rest⟩ := first
          have hlt := strtok_length htok
          simp only [steps, readLine]
          cases hchr : strchr line equals with
          | none =>
              have hbody : readBody b clock (k, text, db) = .ok (.inl (k, rest, db)) := by
                simp only [readBody, htok, hchr]
              rw [loop_next hbody]
              exact ih rest (by omega) k db
          | some value =>
              rw [loop_succ]
              simp only [readBody, htok, hchr]
              change (csdbSetValueForKey b db (lineKey line) (some value.tail) (clock k) >>= _) >>= _ = _
              cases csdbSetValueForKey b db (lineKey line) (some value.tail) (clock k) with
              | error e => rfl
              | ok r => exact ih rest (by omega) (k + 1) r.2

theorem cscReadDbFromFile_eq_steps (b : Search) (clock : Nat → Int) (text : CStr) (db : Database) :
    cscReadDbFromFile b clock text db =
      (steps (readLine b clock) (tokens [newline] text) (0, db)).map fun s => (0, s.2) := by
  rw [cscReadDbFromFile, readLoop_eq_steps b clock _ text (Nat.lt_succ_self _)]
  cases steps (readLine b clock) (tokens [newline] text) (0, db) <;> rfl

def LineRefused (clock : Nat → Int) (s : Nat × Database) (line : CStr) : Prop :=
  ∀ value, strchr line equals = some value → (csdbCheckKey (lineKey line)).1 = -1 →
    csdbSetValueForKey .linear s.2 (lineKey line) (some value.tail) (clock s.1) = .ok (-1, s.2)

structure FileHandled (clock : Nat → Int) (file : Bytes) (db : Database) : Prop where
  returns : ∃ text r, mapFile file = .ok text ∧ cscReadDbFromFile .linear clock text db = .ok r
  refused : ∀ text, mapFile file = .ok text →
    Along (readLine .linear clock) (LineRefused clock) (tokens [newline] text) (0, db)

def LineClean (line : CStr) : Prop :=
  equals ∈ line → (csdbCheckKey (lineKey line)).1 = 0 ∨ dot ∉ lineKey line

theorem readLine_clean (h : Holds .linear db t) (hfree : db.locked = false) {line : CStr}
    (hline : LineClean line) (clock : Nat → Int) (k : Nat) :
    LineRefused clock (k, db) line ∧
      ∃ k' db' t', readLine .linear clock (k, db) line = .ok (k', db') ∧ Holds .linear db' t' ∧
        db'.locked = false := by
  obtain ⟨L, hrep⟩ := id h
  cases hchr : strchr line equals with
  | none =>
      refine ⟨?_, k, db, t, by simp only [readLine, hchr], h, hfree⟩
      intro value hvalue
      rw [hchr] at hvalue
      cases hvalue
  | some value =>
      have hmem : equals ∈ line := by
        by_contra hnot
        rw [strchr_eq_none.mpr hnot] at hchr
        cases hchr
      rcases hline hmem with hcheck | hdot
      · have hv : csdbIsValidKey (lineKey line) = true := by
          rcases csdbCheckKey_fst (lineKey line) with hbad | ⟨-, hv⟩
          · rw [hcheck] at hbad
            cases hbad
          · exact hv
        obtain ⟨db', t', hok, h', hfree', -⟩ :=
          csdbSetValueForKey_spec hrep (bounded_linear t) hfree hv (some value.tail) (clock k)
        refine ⟨?_, k + 1, db', t', ?_, h', hfree'⟩
        · intro _ _ hbad
          rw [hcheck] at hbad
          cases hbad
        · simp only [readLine, hchr, hok, ok_bind]
      · have hok := csdbSetValueForKey_no_dot hdot .linear db (some value.tail) (clock k)
        refine ⟨?_, k + 1, db, t, ?_, h, hfree⟩
        · intro value' _ _
          exact csdbSetValueForKey_no_dot hdot .linear db (some value'.tail) (clock k)
        · simp only [readLine, hchr, hok, ok_bind]

/-- A line with a malformed key that has a delimiter is stored, or never left. -/
theorem readLine_unclean (h : Holds .linear db t) (hfree : db.locked = false) {line : CStr}
    (hline : ¬ LineClean line) (clock : Nat → Int) (k : Nat) :
    ¬ LineRefused clock (k, db) line ∨ readLine .linear clock (k, db) line = .error .diverge := by
  obtain ⟨L, hrep⟩ := id h
  simp only [LineClean, not_forall, not_or, not_not] at hline
  obtain ⟨hmem, hcheck, hdot⟩ := hline
  have hbad := (csdbCheckKey_fst (lineKey line)).resolve_right fun hok => hcheck hok.1
  cases hchr : strchr line equals with
  | none => exact absurd hmem (strchr_eq_none.mp hchr)
  | some value =>
      rcases malformed_cases hbad hdot with ⟨rest, hne, hkey⟩ | ⟨c, rest, hc, hrest, hkey⟩
      · left
        intro hrefused
        have hset := hrefused value hchr hbad
        obtain ⟨⟨ret, db'⟩, hok, hret, -⟩ := (csdbSetValueForKey_dot hrep
          (fun p d hd => (bounded_linear t p d hd).room False) hfree hne (some value.tail)
          (clock k)).total id
        rw [hkey, hok] at hset
        have hminus : ret = -1 := (Prod.mk.inj (Except.ok.inj hset)).1
        have hzero : ret = 0 := hret
        omega
      · right
        simp only [readLine, hchr, hkey, csdbSetValueForKey_stuck hc hrest, error_bind]

theorem readLines_iff (clock : Nat → Int) (lines : List CStr) (h : Holds .linear db t)
    (hfree : db.locked = false) (k : Nat) :
    ((∃ s, steps (readLine .linear clock) lines (k, db) = .ok s) ∧
        Along (readLine .linear clock) (LineRefused clock) lines (k, db)) ↔
      ∀ line ∈ lines, LineClean line := by
  induction lines generalizing db t k with
  | nil => simp [steps, Along]
  | cons line lines ih =>
      rw [List.forall_mem_cons]
      by_cases hline : LineClean line
      · obtain ⟨hrefused, k', db', t', hok, h', hfree'⟩ := readLine_clean h hfree hline clock k
        rw [← ih h' hfree' k', steps, hok, ok_bind]
        constructor
        · rintro ⟨hruns, -, hrest⟩
          exact ⟨hline, hruns, hrest _ hok⟩
        · rintro ⟨-, hruns, hrest⟩
          exact ⟨hruns, .cons hrefused hok hrest⟩
      · refine iff_of_false ?_ fun hall => hline hall.1
        rintro ⟨⟨s, hruns⟩, halong⟩
        rcases readLine_unclean h hfree hline clock k with hstored | hstuck
        · exact hstored halong.1
        · rw [steps, hstuck] at hruns
          cases hruns

theorem fileHandled_iff (h : Holds .linear db t) (hfree : db.locked = false) (clock : Nat → Int)
    (file : Bytes) :
    FileHandled clock file db ↔ (0 ∈ file ∨ file.length % pageSize ≠ 0) ∧
      ∀ line ∈ tokens [newline] (stringOf file), LineClean line := by
  by_cases hmap : 0 ∈ file ∨ file.length % pageSize ≠ 0
  · have htext : mapFile file = .ok (stringOf file) := mapFile_eq_ok.mpr ⟨hmap, rfl⟩
    rw [← readLines_iff clock _ h hfree 0]
    constructor
    · rintro ⟨⟨text, r, hok, hread⟩, hrefused⟩
      obtain rfl : stringOf file = text := Except.ok.inj (htext.symm.trans hok)
      rw [cscReadDbFromFile_eq_steps] at hread
      refine ⟨hmap, ?_, hrefused _ htext⟩
      cases hsteps : steps (readLine .linear clock) (tokens [newline] (stringOf file)) (0, db) with
      | error e =>
          rw [hsteps] at hread
          cases hread
      | ok s => exact ⟨s, rfl⟩
    · rintro ⟨-, ⟨s, hsteps⟩, halong⟩
      refine ⟨⟨_, (0, s.2), htext, ?_⟩, ?_⟩
      · rw [cscReadDbFromFile_eq_steps, hsteps]
        rfl
      · intro text hok
        obtain rfl : stringOf file = text := Except.ok.inj (htext.symm.trans hok)
        exact halong
  · refine iff_of_false ?_ fun hall => hmap hall.1
    rintro ⟨⟨text, r, hok, -⟩, -⟩
    exact hmap (mapFile_eq_ok.mp hok).1

/-- **Malformed keys.** Parsing a key ends, and a key that the check refuses is refused,
exactly if it is accepted or has no delimiter at all; and a file is read to its end with
nothing stored for its malformed lines exactly if it can be mapped with a terminator and
every line of it has such a key. -/
theorem malformed_refused_iff (key : CStr) (file : Bytes) :
    (KeyHandled key ↔ (csdbCheckKey key).1 = 0 ∨ dot ∉ key) ∧
      ∀ db, Reachable db → db.locked = false → ∀ clock : Nat → Int,
        (FileHandled clock file db ↔ (0 ∈ file ∨ file.length % pageSize ≠ 0) ∧
          ∀ line ∈ tokens [newline] (stringOf file), LineClean line) := by
  refine ⟨keyHandled_iff key, ?_⟩
  intro db hreach hfree clock
  obtain ⟨t, h⟩ := hreach.holds
  exact fileHandled_iff h hfree clock file

/-- Reading a file with one line, `a=1`, whose key has no delimiter. -/
theorem malformed_refused_iff_plain :
    ∃ db, Reachable db ∧ FileHandled (fun _ => 0) [97, 61, 49, 10] db := by
  obtain ⟨db, hinit, -, hfree⟩ := csdbInit_spec .linear 0
  have hreach : Reachable db := Reachable.init 0 db hinit
  refine ⟨db, hreach, ((malformed_refused_iff [] [97, 61, 49, 10]).2 db hreach hfree
    fun _ => 0).mpr ?_⟩
  have htext : tokens [newline] (stringOf [97, 61, 49, 10]) = [lit ['a', '=', '1']] := by decide
  refine ⟨by decide, ?_⟩
  rw [htext]
  intro line hline
  rw [List.mem_singleton.mp hline]
  exact fun _ => Or.inr (by decide)

/-- `a.b` is never left by the parser, and `.a.`, which the check refuses, is parsed. -/
theorem malformed_key_parsed :
    (∀ fuel, csdbParseKeyFuel fuel (lit ['a', '.', 'b']) = .error .diverge) ∧
      (csdbCheckKey (lit ['.', 'a', '.'])).1 = -1 ∧
      csdbParseKey (lit ['.', 'a', '.']) = .ok (some [lit ['a']]) ∧
      ¬ KeyHandled (lit ['a', '.', 'b']) ∧ ¬ KeyHandled (lit ['.', 'a', '.']) := by
  refine ⟨csdbParseKey_stuck (by decide) (by decide), by decide, by decide, ?_, ?_⟩
  · rw [keyHandled_iff]
    decide
  · rw [keyHandled_iff]
    decide

end Dkmp.Csc
