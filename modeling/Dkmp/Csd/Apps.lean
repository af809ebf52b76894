import Dkmp.Csc.DbFile
import Dkmp.Csd.CapNodes
import Dkmp.Machine.Tokens

/-! # The registered applications

`csc_read_registered_apps_from_file` stores the libraries of every application in a file
under `.app.<path>.lib`, and `csc_update_cap_nodes_for_apps` takes the children of `.app` for
the paths again. The two agree on paths without a dot.
-/

namespace Dkmp.Csd

open Machine Csdb Csp Csc

def app : CStr := lit ['a', 'p', 'p']

def appRoot : CStr := dot :: app

def appPathKey (path : CStr) : CStr := dot :: (app ++ dot :: path)

def vsize : Nat := 256

def slash : CChar := ⟨47, by decide⟩

/-! ## Scanning for libraries -/

def listCommand (appname : CStr) : CStr :=
  lit ['/', 'l', 'i', 'b', '/', 'l', 'd', '-', 'l', 'i', 'n', 'u', 'x', '.', 's', 'o', '.', '2', ' ',
    '-', '-', 'l', 'i', 's', 't', ' '] ++ appname

/-- `fscanf(file, "%s %*s %s", &name, &path)`: the name and the text behind the path if both
conversions succeed. -/
def scanEntry (text : CStr) : Exec (Option (CStr × CStr)) :=
  match scanString text with
  | none => .ok none
  | some (name, text) => do
      let name ← sprintf vsize name
      match (scanString text).bind (scanString ·.2) with
      | none => .ok none
      | some (path, text) => do
          let _ ← sprintf vsize path
          .ok (some (name, text))

def baseName (name : CStr) : CStr := (name.reverse.takeWhile (· ≠ slash)).reverse

/-- `fscanf(file, "%*[^\n\t]")`. -/
def skipEntry (text : CStr) : CStr := text.dropWhile fun c => c ≠ newline ∧ c ≠ tab

def scanAppBody (b : Search) (clock : Nat → Int) (key : CStr) :
    Nat × CStr × Database → Exec ((Nat × CStr × Database) ⊕ Database)
  | (k, text, db) => do
      match ← scanEntry text with
      | none => .ok (.inr db)
      | some (name, text) => do
          let db ← addName b db key (baseName name) (clock k)
          .ok (.inl (k + 1, skipEntry text, db))

/-- `if(csdb_key_exist(key)) csdb_remove_from_key(key)`. -/
def clearKey (b : Search) (db : Database) (key : CStr) : Exec Database := do
  let (exist, db) ← csdbKeyExist b db key
  if exist ≠ 0 then do
    let (_, db) ← csdbRemoveFromKey b db key
    .ok db
  else .ok db

/-- `popen` gives the output of a command, or no stream at all. -/
def cscScanLibsForApp (b : Search) (clock : Nat → Int) (popen : CStr → Option CStr)
    (db : Database) (appname : CStr) : Exec (Int × Database) := do
  let key ← sprintf ksize (appKey appname lib)
  let cmd ← sprintf vsize (listCommand appname)
  let file := popen cmd
  let db ← clearKey b db key
  match file with
  | none => .error .null
  | some text => do
      let db ← loop (scanAppBody b clock key) (text.length + 1) (0, text, db)
      .ok (0, db)

/-- The names that the loop of `csc_scan_libs_for_app` takes out of a listing. -/
def listedBody : List CStr × CStr → Exec ((List CStr × CStr) ⊕ List CStr)
  | (names, text) => do
      match ← scanEntry text with
      | none => .ok (.inr names)
      | some (name, text) => .ok (.inl (names ++ [baseName name], skipEntry text))

def listedLibs (text : CStr) : Exec (List CStr) :=
  loop listedBody (text.length + 1) ([], text)

/-! ## All applications -/

/-- One path of the file; `clock i` are the times at the `i`-th one. -/
def registerApp (b : Search) (clock : Nat → Nat → Int) (popen : CStr → Option CStr) :
    Nat × Database → CStr → Exec (Nat × Database)
  | (i, db), appPath => do
      let key ← sprintf ksize (appPathKey appPath)
      let (exist, db) ← csdbKeyExist b db key
      if exist = 0 then do
        let (_, db) ← cscScanLibsForApp b (clock i) popen db appPath
        .ok (i + 1, db)
      else .ok (i + 1, db)

/-- `file` holds the bytes of a file that can be opened. -/
def cscReadRegisteredAppsFromFile (b : Search) (clock : Nat → Nat → Int)
    (popen : CStr → Option CStr) (file : Bytes) (db : Database) : Exec (Int × Database) := do
  let map ← mapFile file
  let (_, db) ← tokenLoop [newline]
    (fun s appPath => (registerApp b clock popen s appPath).map Sum.inl) map (0, db)
  .ok (0, db)

/-- `clock i` are the times and `request i` the requests at the `i`-th application. -/
def updateApp (b : Search) (clock : Nat → Nat → Int) (request : Nat → CapRequest) :
    Nat × Database → CStr → Exec (Nat × Database)
  | (i, db), appname => do
      let (_, db) ← cscUpdateCapNodesForApp b (clock i) (request i) db appname
      .ok (i + 1, db)

def cscUpdateCapNodesForApps (b : Search) (clock : Nat → Nat → Int) (request : Nat → CapRequest)
    (db : Database) : Exec (Int × Database) := do
  let (nrApps, apps) ← csdbGetChildNamesForKey b db appRoot
  if nrApps ≤ 0 then .ok (-1, db)
  else
    match apps with
    | none => .error .uninit
    | some (apps, _) => do
        let (_, db) ← steps (updateApp b clock request) apps (0, db)
        .ok (0, db)

variable {db : Database} {t : Tree}

/-! ## Keys that are added -/

/-- The tree after `q` has been created or changed: nothing else appears, and every other
value is as it was. -/
structure Grows (t t' : Tree) (q : UpPath) : Prop where
  exists_iff : ∀ q', (t'.record q').isSome ↔ q' <:+ q ∨ (t.record q').isSome
  value : ∀ q', q' ≠ q → recordValue (t'.record q') = recordValue (t.record q')

theorem Stored.grows {t' : Tree} {q : UpPath} {value : CStr} (h : Stored t t' q value) :
    Grows t t' q := by
  obtain ⟨mtime, now, hrec⟩ := h
  constructor
  · intro q'
    rw [hrec]
    split
    · simp [*]
    · split
      · simp [*]
      · simp [*]
  · intro q' hq
    rw [hrec, if_neg hq]
    split
    · cases t.record q' <;> rfl
    · rfl

theorem Grows.trans {t₁ t₂ t₃ : Tree} {q : UpPath} (h : Grows t₁ t₂ q) (h' : Grows t₂ t₃ q) :
    Grows t₁ t₃ q := by
  constructor
  · intro q'
    rw [h'.exists_iff, h.exists_iff, ← or_assoc, or_self]
  · intro q' hq
    rw [h'.value q' hq, h.value q' hq]

/-! ## One application -/

section Scan

variable (clock : Nat → Int)

theorem scanLoop_spec {key : CStr} (hv : csdbIsValidKey key = true) (fuel : Nat) {text : CStr}
    {found names : List CStr} (hlisted : loop listedBody fuel (found, text) = .ok names) (k : Nat)
    (h : Holds .linear db t) (hfree : db.locked = false) {held : List CStr}
    (hlist : ListAt t (keyPath key).reverse held) :
    ∃ more db' t', names = found ++ more ∧
      loop (scanAppBody .linear clock key) fuel (k, text, db) = .ok db' ∧ Holds .linear db' t' ∧
      db'.locked = false ∧ ListAt t' (keyPath key).reverse (held ++ more) ∧
      (more = [] ∧ t' = t ∨ Grows t t' (keyPath key).reverse) := by
  induction fuel generalizing text found held k db t with
  | zero => cases hlisted
  | succ fuel ih =>
      rw [loop_succ] at hlisted
      obtain ⟨next, hbody, hlisted⟩ := bind_eq_ok hlisted
      obtain ⟨entry, hentry, hbody⟩ := bind_eq_ok hbody
      cases entry with
      | none =>
          rw [← Except.ok.inj hbody] at hlisted
          obtain rfl : found = names := Except.ok.inj hlisted
          refine ⟨[], db, t, (List.append_nil _).symm, loop_exit ?_, h, hfree, ?_, Or.inl ⟨rfl, rfl⟩⟩
          · rw [scanAppBody, hentry]
            rfl
          · rwa [List.append_nil]
      | some entry =>
          obtain ⟨name, rest⟩ := entry
          rw [← Except.ok.inj hbody] at hlisted
          obtain ⟨db₁, t₁, hadd, h₁, hfree₁, hstored⟩ :=
            addName_spec h hfree hv hlist (baseName name) (clock k)
          obtain ⟨more, db', t', hnames, hloop, h', hfree', hlist', hgrows⟩ :=
            ih hlisted (k + 1) h₁ hfree₁ hstored.listAt
          refine ⟨baseName name :: more, db', t', ?_, ?_, h', hfree', ?_, Or.inr ?_⟩
          · rw [hnames, List.append_assoc, List.singleton_append]
          · have hnext : scanAppBody .linear clock key (k, text, db) =
                .ok (.inl (k + 1, skipEntry rest, db₁)) := by
              simp only [scanAppBody, hentry, ok_bind, hadd]
            rw [loop_next hnext, hloop]
          · rwa [List.append_assoc, List.singleton_append] at hlist'
          · rcases hgrows with ⟨-, rfl⟩ | hgrows
            · exact hstored.grows
            · exact hstored.grows.trans hgrows

theorem length_listCommand (appname : CStr) : (listCommand appname).length = 26 + appname.length := by
  rw [listCommand, List.length_append]
  rfl

theorem clearKey_spec (h : Holds .linear db t) (hfree : db.locked = false) {key : CStr}
    (hv : csdbIsValidKey key = true) (hroot : key ≠ [dot]) :
    ∃ db' t', clearKey .linear db key = .ok db' ∧ Holds .linear db' t' ∧ db'.locked = false ∧
      t'.record (keyPath key).reverse = none ∧
      (t.record (keyPath key).reverse = none → t' = t) := by
  obtain ⟨L, hrep⟩ := id h
  have hexist := csdbKeyExist_spec hrep (bounded_linear t) hfree hv
  cases hr : t.record (keyPath key).reverse with
  | none =>
      rw [hr] at hexist
      exact ⟨db, t, by simp [clearKey, hexist], h, hfree, hr, fun _ => rfl⟩
  | some r =>
      rw [hr] at hexist
      obtain ⟨ret, db', t', hremove, h', hfree', hrec⟩ :=
        csdbRemoveFromKey_valid hrep (bounded_linear t) hfree hv hroot
      refine ⟨db', t', by simp [clearKey, hexist, hremove], h', hfree', ?_, fun hnone => by cases hnone⟩
      rw [hrec, if_pos List.suffix_rfl]

/-- A path with room in the array for the command, and a listing with a library. -/
theorem cscScanLibsForApp_spec (h : Holds .linear db t) (hfree : db.locked = false)
    {popen : CStr → Option CStr} {appname text : CStr} {names : List CStr}
    (hlen : appname.length ≤ 229) (hpopen : popen (listCommand appname) = some text)
    (hlisted : listedLibs text = .ok names) (hne : names ≠ []) :
    ∃ t₀ db' t', cscScanLibsForApp .linear clock popen db appname = .ok (0, db') ∧
      Holds .linear db' t' ∧ db'.locked = false ∧
      (t.record (keyPath (appKey appname lib)).reverse = none → t₀ = t) ∧
      ListAt t' (keyPath (appKey appname lib)).reverse names ∧
      Grows t₀ t' (keyPath (appKey appname lib)).reverse := by
  have hkey := libsKey_fits (show appname.length ≤ 246 by omega)
  have hcmd : sprintf vsize (listCommand appname) = .ok (listCommand appname) := by
    apply sprintf_ok
    rw [length_listCommand, vsize]
    omega
  have hv := (appKey_valid appname lib_no_dot (by decide)).1
  obtain ⟨db₀, t₀, hclear, h₀, hfree₀, hnone, hsame⟩ := clearKey_spec h hfree hv (by simp [appKey])
  have hlist₀ : ListAt t₀ (keyPath (appKey appname lib)).reverse [] := by
    rw [ListAt, if_pos rfl, hnone]
  obtain ⟨more, db', t', hmore, hloop, h', hfree', hlist', hgrows⟩ :=
    scanLoop_spec clock hv _ hlisted 0 h₀ hfree₀ hlist₀
  rw [List.nil_append] at hmore hlist'
  subst more
  refine ⟨t₀, db', t', ?_, h', hfree', hsame, hlist', hgrows.resolve_left fun hnil => hne hnil.1⟩
  simp only [cscScanLibsForApp, hkey, ok_bind, hcmd, hclear, hpopen, hloop]

theorem cscScanLibsForApp_long {popen : CStr → Option CStr} {appname : CStr}
    (hlen : 229 < appname.length) :
    cscScanLibsForApp .linear clock popen db appname = .error .bounds := by
  have hcmd : sprintf vsize (listCommand appname) = .error .bounds := by
    apply sprintf_long
    rw [length_listCommand, vsize]
    omega
  rw [cscScanLibsForApp]
  cases hkey : sprintf ksize (appKey appname lib) with
  | error f =>
      rw [sprintf] at hkey
      split at hkey
      · cases hkey
      · rw [← Except.error.inj hkey]
        rfl
  | ok key => simp only [ok_bind, hcmd, error_bind]

end Scan

/-! ## Reading the file -/

/-- The tree after these applications have been registered: the value of `.app` itself is as
it was. -/
structure AppsHeld (t : Tree) (done : List CStr) (value : Exec (Option CStr)) : Prop where
  child : ∀ p, (t.record [p, app]).isSome ↔ p ∈ done
  libs : ∀ p ∈ done, ∃ v, recordValue (t.record [lib, p, app]) = .ok (some v)
  root : recordValue (t.record [app]) = value

theorem app_no_dot : dot ∉ app := by decide

theorem libPath {p : CStr} (hdot : dot ∉ p) : (keyPath (appKey p lib)).reverse = [lib, p, app] := by
  rw [(appKey_valid p lib_no_dot (by decide)).2, List.splitOn_eq_singleton hdot]
  rfl

theorem child_suffix_iff {p p' : CStr} : [p', app] <:+ [lib, p, app] ↔ p' = p := by
  rw [List.suffix_cons_iff]
  constructor
  · rintro (h | h)
    · exact absurd (congrArg List.length h) (by simp)
    · exact suffix_pair_iff.mp h
  · rintro rfl
    exact Or.inr List.suffix_rfl

theorem AppsHeld.insert {t₁ : Tree} {done names : List CStr} {value : Exec (Option CStr)} {p : CStr}
    (hheld : AppsHeld t done value) (hgrows : Grows t t₁ [lib, p, app])
    (hlist : ListAt t₁ [lib, p, app] names) (hne : names ≠ []) :
    AppsHeld t₁ (p :: done) value where
  child := by
    intro p'
    rw [hgrows.exists_iff, child_suffix_iff, hheld.child, List.mem_cons]
  libs := by
    intro p' hp'
    by_cases heq : p' = p
    · rw [ListAt, if_neg hne] at hlist
      obtain ⟨mtime, hrec⟩ := hlist
      exact ⟨_, by rw [heq, hrec, recordValue]⟩
    · rw [hgrows.value _ (by simpa using heq)]
      exact hheld.libs p' ((List.mem_cons.mp hp').resolve_left heq)
  root := by rw [hgrows.value _ (by simp), hheld.root]

def FindsLibs (popen : CStr → Option CStr) (appname : CStr) : Prop :=
  ∃ text names, popen (listCommand appname) = some text ∧ listedLibs text = .ok names ∧ names ≠ []

section Register

variable (clock : Nat → Nat → Int) {popen : CStr → Option CStr} {done : List CStr}
  {value : Exec (Option CStr)}

theorem registerApp_eq (h : Holds .linear db t) (hfree : db.locked = false) (i : Nat) {p : CStr}
    (hlen : p.length ≤ 241) :
    registerApp .linear clock popen (i, db) p =
      if (t.record (readParts (app :: p.splitOn dot)).reverse).isSome then .ok (i + 1, db)
      else (cscScanLibsForApp .linear (clock i) popen db p).map fun r => (i + 1, r.2) := by
  obtain ⟨L, hrep⟩ := h
  have hfits : sprintf ksize (appPathKey p) = .ok (appPathKey p) := by
    apply sprintf_ok
    have happ : app.length = 3 := by decide
    simp only [appPathKey, List.length_cons, List.length_append, happ, ksize]
    omega
  have hexist := csdbKeyExist_dot hrep (bounded_linear t) hfree
    (by simp : app ++ dot :: p ≠ [])
  rw [List.splitOn_append_cons_self_of_not_mem app_no_dot] at hexist
  rw [registerApp, hfits, ok_bind, appPathKey, hexist, ok_bind]
  by_cases hsome : (t.record (readParts (app :: p.splitOn dot)).reverse).isSome
  · simp [hsome]
  · simp only [hsome, Bool.false_eq_true, if_false, if_true]
    cases cscScanLibsForApp .linear (clock i) popen db p <;> rfl

theorem registerApp_holds (h : Holds .linear db t) (hfree : db.locked = false) {i : Nat} {p : CStr}
    (hlen : p.length ≤ 241) (hfinds : FindsLibs popen p) {s' : Nat × Database}
    (hok : registerApp .linear clock popen (i, db) p = .ok s') :
    ∃ t', Holds .linear s'.2 t' ∧ s'.2.locked = false := by
  rw [registerApp_eq clock h hfree i hlen] at hok
  split at hok
  · rw [← Except.ok.inj hok]
    exact ⟨t, h, hfree⟩
  · obtain ⟨text, names, hpopen, hlisted, hne⟩ := hfinds
    by_cases hshort : p.length ≤ 229
    · obtain ⟨t₀, db', t', hscan, h', hfree', -⟩ :=
        cscScanLibsForApp_spec (clock i) h hfree hshort hpopen hlisted hne
      rw [hscan] at hok
      rw [← Except.ok.inj hok]
      exact ⟨t', h', hfree'⟩
    · rw [cscScanLibsForApp_long (clock i) (by omega)] at hok
      cases hok

theorem registerApps_holds (paths : List CStr) (hlen : ∀ p ∈ paths, p.length ≤ 241)
    (hfinds : ∀ p ∈ paths, FindsLibs popen p) (h : Holds .linear db t) (hfree : db.locked = false)
    (i : Nat) {s' : Nat × Database}
    (hok : steps (registerApp .linear clock popen) paths (i, db) = .ok s') :
    ∃ t', Holds .linear s'.2 t' ∧ s'.2.locked = false := by
  induction paths generalizing db t i with
  | nil =>
      rw [← Except.ok.inj hok]
      exact ⟨t, h, hfree⟩
  | cons p paths ih =>
      obtain ⟨⟨j, db₁⟩, hstep, hrest⟩ := steps_cons hok
      obtain ⟨t₁, h₁, hfree₁⟩ :=
        registerApp_holds clock h hfree (hlen p (by simp)) (hfinds p (by simp)) hstep
      exact ih (fun q hq => hlen q (by simp [hq])) (fun q hq => hfinds q (by simp [hq])) h₁ hfree₁ j
        hrest

theorem registerApp_plain (h : Holds .linear db t) (hfree : db.locked = false)
    (hheld : AppsHeld t done value) (i : Nat) {p : CStr} (hdot : dot ∉ p) (hne : p ≠ [])
    (hlen : p.length ≤ 229) (hfinds : FindsLibs popen p) :
    ∃ db' t' done', registerApp .linear clock popen (i, db) p = .ok (i + 1, db') ∧
      Holds .linear db' t' ∧ db'.locked = false ∧ AppsHeld t' done' value ∧
      ∀ q, q ∈ done' ↔ q = p ∨ q ∈ done := by
  have hpath : (readParts (app :: p.splitOn dot)).reverse = [p, app] := by
    rw [List.splitOn_eq_singleton hdot, readParts_eq (by simpa using hne)]
    rfl
  rw [registerApp_eq clock h hfree i (by omega), hpath]
  by_cases hdone : p ∈ done
  · refine ⟨db, t, done, by rw [if_pos ((hheld.child p).mpr hdone)], h, hfree, hheld, fun q => ?_⟩
    rw [or_iff_right_of_imp]
    rintro rfl
    exact hdone
  · obtain ⟨text, names, hpopen, hlisted, hnames⟩ := hfinds
    obtain ⟨t₀, db', t', hscan, h', hfree', hsame, hlist, hgrows⟩ :=
      cscScanLibsForApp_spec (clock i) h hfree hlen hpopen hlisted hnames
    rw [libPath hdot] at hsame hlist hgrows
    have hnew : t.record [p, app] = none := by
      rw [← Option.not_isSome_iff_eq_none, hheld.child]
      exact hdone
    have hnone : t.record [lib, p, app] = none := by
      rw [← Option.not_isSome_iff_eq_none, Tree.record_isSome]
      intro hsome
      have hparent := t.parent_isSome hsome
      rw [← Tree.record_isSome, hnew] at hparent
      cases hparent
    rw [hsame hnone] at hgrows
    refine ⟨db', t', p :: done, ?_, h', hfree', hheld.insert hgrows hlist hnames, fun q => List.mem_cons⟩
    rw [if_neg (by rw [hheld.child]; exact hdone), hscan]
    rfl

theorem registerApp_long (h : Holds .linear db t) (hfree : db.locked = false)
    (hheld : AppsHeld t done value) (i : Nat) {p : CStr} (hdot : dot ∉ p) (hne : p ≠ [])
    (hlen : p.length ≤ 241) (hlong : 229 < p.length) (hnew : p ∉ done) :
    registerApp .linear clock popen (i, db) p = .error .bounds := by
  have hpath : (readParts (app :: p.splitOn dot)).reverse = [p, app] := by
    rw [List.splitOn_eq_singleton hdot, readParts_eq (by simpa using hne)]
    rfl
  rw [registerApp_eq clock h hfree i hlen, hpath, if_neg (by rw [hheld.child]; exact hnew),
    cscScanLibsForApp_long (clock i) hlong]
  rfl

theorem registerApps_iff (paths : List CStr)
    (hplain : ∀ p ∈ paths, dot ∉ p ∧ p ≠ [] ∧ p.length ≤ 241 ∧ FindsLibs popen p)
    (h : Holds .linear db t) (hfree : db.locked = false) (hheld : AppsHeld t done value)
    (hdone : ∀ p ∈ done, p.length ≤ 229) (i : Nat) :
    if ∀ p ∈ paths, p.length ≤ 229 then
      ∃ j db' t' done', steps (registerApp .linear clock popen) paths (i, db) = .ok (j, db') ∧
        Holds .linear db' t' ∧ db'.locked = false ∧ AppsHeld t' done' value ∧
        ∀ q, q ∈ done' ↔ q ∈ paths ∨ q ∈ done
    else steps (registerApp .linear clock popen) paths (i, db) = .error .bounds := by
  induction paths generalizing db t done i with
  | nil =>
      rw [if_pos (by simp)]
      exact ⟨i, db, t, done, rfl, h, hfree, hheld, by simp⟩
  | cons p paths ih =>
      obtain ⟨hdot, hne, hlen, hfinds⟩ := hplain p (by simp)
      by_cases hshort : p.length ≤ 229
      · obtain ⟨db₁, t₁, done₁, hstep, h₁, hfree₁, hheld₁, hmem₁⟩ :=
          registerApp_plain clock h hfree hheld i hdot hne hshort hfinds
        have hdone₁ : ∀ q ∈ done₁, q.length ≤ 229 := by
          intro q hq
          rcases (hmem₁ q).mp hq with rfl | hq
          · exact hshort
          · exact hdone q hq
        have hrest := ih (fun q hq => hplain q (by simp [hq])) h₁ hfree₁ hheld₁ hdone₁ (i + 1)
        have hall : (∀ q ∈ p :: paths, q.length ≤ 229) ↔ ∀ q ∈ paths, q.length ≤ 229 := by
          simp [hshort]
        rw [steps, hstep, ok_bind]
        simp only [hall]
        split
        · rename_i hcond
          rw [if_pos hcond] at hrest
          obtain ⟨j, db', t', done', hsteps, h', hfree', hheld', hmem'⟩ := hrest
          refine ⟨j, db', t', done', hsteps, h', hfree', hheld', fun q => ?_⟩
          rw [hmem', hmem₁, List.mem_cons]
          tauto
        · rename_i hcond
          rwa [if_neg hcond] at hrest
      · rw [if_neg (fun hall => hshort (hall p (by simp))), steps,
          registerApp_long clock h hfree hheld i hdot hne hlen (by omega)
            (fun hp => hshort (hdone p hp)), error_bind]

end Register

/-! ## Updating -/

def appNames (db : Database) : Exec (List CStr) := do
  let (_, out) ← csdbGetChildNamesForKey .linear db appRoot
  match out with
  | none => .ok []
  | some (names, _) => .ok names

/-- Every request returns. -/
def Answering (request : Nat → CapRequest) : Prop :=
  ∀ i libs nodes, ∃ outcome, Assigned (request i) libs nodes outcome

def SomeAlive (s : Nat × Database) (_appname : CStr) : Prop :=
  ∃ nodes, aliveNames s.2 = .ok nodes ∧ nodes ≠ []

def LibsFound (s : Nat × Database) (appname : CStr) : Prop :=
  ∃ libs db', cscGetLibsForApp .linear s.2 appname = .ok (0, some libs, db')

/-- Applications whose names the two passes agree on, with their libraries. -/
def Updatable (t : Tree) (apps : List CStr) : Prop :=
  ∀ p ∈ apps, dot ∉ p ∧ p.length ≤ 229 ∧
    ∃ libs, recordValue (t.record [lib, p, app]) = .ok (some libs)

theorem appRoot_valid : csdbIsValidKey appRoot = true := by decide

theorem keyPath_appRoot : (keyPath appRoot).reverse = [app] := by decide

section Update

variable (clock : Nat → Nat → Int) {request : Nat → CapRequest} {apps : List CStr} {p : CStr}

theorem cscGetLibsForApp_spec (h : Holds .linear db t) (hfree : db.locked = false)
    (hup : Updatable t apps) (hp : p ∈ apps) :
    ∃ libs, valueFor .linear db (appKey p lib) = .ok (some libs) ∧
      cscGetLibsForApp .linear db p = .ok (0, some libs, db) := by
  obtain ⟨hdot, hlen, libs, hlibs⟩ := hup p hp
  have hv := (appKey_valid p lib_no_dot (by decide)).1
  have hkey := libsKey_fits (show p.length ≤ 246 by omega)
  have hvalue : valueFor .linear db (appKey p lib) = .ok (some libs) := by
    rw [valueFor_eq h (bounded_linear t) hfree hv, libPath hdot, hlibs]
  exact ⟨libs, hvalue, by
    rw [cscGetLibsForApp, hkey, ok_bind, csdbGetValueForKey_value h (bounded_linear t) hfree hv hvalue]⟩

/-- What is stored for one application is not the libraries of another. -/
theorem Updatable.congr {t' : Tree} (hup : Updatable t apps) {p : CStr} (hdot : dot ∉ p)
    (hrec : ∀ q, q.getLast? ≠ some alive → ¬ q <:+ (keyPath (appKey p capnodes)).reverse →
      ¬ (keyPath (appKey p capnodes)).reverse <:+ q → t'.record q = t.record q) :
    Updatable t' apps := by
  have hpath : (keyPath (appKey p capnodes)).reverse = [capnodes, p, app] := by
    rw [(appKey_valid p (by decide : dot ∉ capnodes) (by decide)).2, List.splitOn_eq_singleton hdot]
    rfl
  have hne : lib ≠ capnodes := by decide
  intro p' hp'
  obtain ⟨hdot', hlen', libs, hlibs⟩ := hup p' hp'
  refine ⟨hdot', hlen', libs, ?_⟩
  rw [hrec, hlibs]
  · simp only [List.getLast?_cons_cons, List.getLast?_singleton]
    decide
  · rw [hpath]
    intro hs
    exact hne (List.cons.inj (hs.eq_of_length rfl)).1
  · rw [hpath]
    intro hs
    exact hne (List.cons.inj (hs.eq_of_length rfl)).1.symm

theorem updateApp_alive (h : Holds .linear db t) (hfree : db.locked = false)
    (hup : Updatable t apps) (hp : p ∈ apps) (hans : Answering request) {i : Nat}
    (halive : SomeAlive (i, db) p) :
    ∃ db' t', updateApp .linear clock request (i, db) p = .ok (i + 1, db') ∧ Holds .linear db' t' ∧
      db'.locked = false ∧ Updatable t' apps := by
  obtain ⟨hdot, hlen, -⟩ := hup p hp
  obtain ⟨libs, hvalue, -⟩ := cscGetLibsForApp_spec h hfree hup hp
  obtain ⟨nodes, hnodes, hne⟩ := halive
  obtain ⟨outcome, hassign⟩ := hans i libs (tokens [space] (nodes.flatMap (· ++ [space])))
  obtain ⟨db', t', hupdate, h', hfree', -, hrec⟩ :=
    cscUpdateCapNodesForApp_spec h hfree (clock i) hvalue hnodes (by omega) hne hassign
  refine ⟨db', t', ?_, h', hfree', hup.congr hdot hrec⟩
  rw [updateApp, hupdate, ok_bind]

/-- Without an alive node the list of them is freed and was never written. -/
theorem updateApp_none (h : Holds .linear db t) (hfree : db.locked = false)
    (hup : Updatable t apps) (hp : p ∈ apps) {i : Nat} (hnone : ¬ SomeAlive (i, db) p) :
    updateApp .linear clock request (i, db) p = .error .uninit := by
  obtain ⟨hdot, hlen, -⟩ := hup p hp
  obtain ⟨libs, hvalue, -⟩ := cscGetLibsForApp_spec h hfree hup hp
  obtain ⟨nodes, hnodes, -⟩ := aliveNames_no_dot h
  have hnil : nodes = [] := by
    by_contra hne
    exact hnone ⟨nodes, hnodes, hne⟩
  rw [updateApp, cscUpdateCapNodesForApp_none h hfree (clock i) hvalue hnodes (by omega) hnil,
    error_bind]

theorem updateApps_iff (as : List CStr) (hsub : as ⊆ apps) (h : Holds .linear db t)
    (hfree : db.locked = false) (hup : Updatable t apps) (hans : Answering request) (i : Nat) :
    ((∃ s', steps (updateApp .linear clock request) as (i, db) = .ok s') ↔
        Along (updateApp .linear clock request) SomeAlive as (i, db)) ∧
      Along (updateApp .linear clock request) LibsFound as (i, db) := by
  induction as generalizing db t i with
  | nil => exact ⟨⟨fun _ => trivial, fun _ => ⟨_, rfl⟩⟩, trivial⟩
  | cons p as ih =>
      have hp : p ∈ apps := hsub (by simp)
      obtain ⟨libs, -, hlibs⟩ := cscGetLibsForApp_spec h hfree hup hp
      by_cases halive : SomeAlive (i, db) p
      · obtain ⟨db₁, t₁, hupdate, h₁, hfree₁, hup₁⟩ := updateApp_alive clock h hfree hup hp hans halive
        obtain ⟨hiff, hfound⟩ := ih (fun q hq => hsub (by simp [hq])) h₁ hfree₁ hup₁ (i + 1)
        refine ⟨?_, Along.cons ⟨libs, db, hlibs⟩ hupdate hfound⟩
        rw [steps, hupdate, ok_bind, hiff]
        constructor
        · exact Along.cons halive hupdate
        · exact fun hall => hall.2 _ hupdate
      · have hstep : updateApp .linear clock request (i, db) p = .error .uninit :=
          updateApp_none clock h hfree hup hp halive
        refine ⟨⟨?_, fun hall => absurd hall.1 halive⟩, ⟨libs, db, hlibs⟩, fun s' hs' => ?_⟩
        · rintro ⟨s', hs'⟩
          rw [steps, hstep] at hs'
          cases hs'
        · rw [hstep] at hs'
          cases hs'

end Update

/-! ## From the file to the updates -/

def NothingUnderApp (db : Database) : Prop :=
  ∀ rest, rest ≠ [] → csdbKeyExist .linear db (appPathKey rest) = .ok (0, db)

def filePaths (file : Bytes) : List CStr := tokens [newline] (stringOf file)

/-- The file is read, and then each of its paths is updated once and has its libraries
found. -/
def AppsUpToDate (clock clock' : Nat → Nat → Int) (popen : CStr → Option CStr)
    (request : Nat → CapRequest) (file : Bytes) (db : Database) : Prop :=
  ∃ db₁ apps ret db₂,
    cscReadRegisteredAppsFromFile .linear clock popen file db = .ok (0, db₁) ∧
    appNames db₁ = .ok apps ∧ apps.Nodup ∧ (∀ p, p ∈ apps ↔ p ∈ filePaths file) ∧
    cscUpdateCapNodesForApps .linear clock' request db₁ = .ok (ret, db₂) ∧
    Along (updateApp .linear clock' request) LibsFound apps (0, db₁)

def AliveThroughout (clock clock' : Nat → Nat → Int) (popen : CStr → Option CStr)
    (request : Nat → CapRequest) (file : Bytes) (db : Database) : Prop :=
  ∀ db₁ apps, cscReadRegisteredAppsFromFile .linear clock popen file db = .ok (0, db₁) →
    appNames db₁ = .ok apps → Along (updateApp .linear clock' request) SomeAlive apps (0, db₁)

theorem NothingUnderApp.held (hnone : NothingUnderApp db) (h : Holds .linear db t)
    (hfree : db.locked = false) : AppsHeld t [] (recordValue (t.record [app])) where
  child := by
    obtain ⟨L, hrep⟩ := h
    have habsent : ∀ rest, rest ≠ [] → (t.record (readParts (app :: rest.splitOn dot)).reverse) = none := by
      intro rest hrest
      have hexist := csdbKeyExist_dot hrep (bounded_linear t) hfree (by simp : app ++ dot :: rest ≠ [])
      have hno := hnone rest hrest
      rw [appPathKey, hexist, List.splitOn_append_cons_self_of_not_mem app_no_dot] at hno
      by_contra hsome
      simp [Option.isSome_iff_ne_none.mpr hsome] at hno
    intro p
    rw [iff_false_intro (List.not_mem_nil (a := p)), iff_false, Option.not_isSome_iff_eq_none]
    by_cases hp : p = []
    · -- an entry without a name is reached by the key `.app..`
      rw [hp]
      exact habsent [dot] (by simp)
    · by_cases hdot : dot ∈ p
      · rw [← Option.not_isSome_iff_eq_none, Tree.record_isSome]
        exact fun hsome => t.no_dot p _ hsome hdot
      · have hpath := habsent p hp
        rwa [List.splitOn_eq_singleton hdot, readParts_eq (by simpa using hp)] at hpath
  libs := by simp
  root := rfl

theorem cscReadRegisteredAppsFromFile_eq (clock : Nat → Nat → Int) (popen : CStr → Option CStr)
    (file : Bytes) (db : Database) :
    cscReadRegisteredAppsFromFile .linear clock popen file db = (do
      let map ← mapFile file
      (steps (registerApp .linear clock popen) (tokens [newline] map) (0, db)).map fun s =>
        (0, s.2)) := by
  simp only [cscReadRegisteredAppsFromFile, tokenLoop_eq, stepsUntil_inl]
  cases mapFile file with
  | error f => rfl
  | ok map =>
      simp only [ok_bind]
      cases steps (registerApp .linear clock popen) (tokens [newline] map) (0, db) <;> rfl

theorem cscUpdateCapNodesForApps_eq (clock : Nat → Nat → Int) (request : Nat → CapRequest)
    {names : List CStr}
    (hreply : csdbGetChildNamesForKey .linear db appRoot =
      .ok (if names = [] then (-1, none)
        else (names.length, some (names, names.flatMap (· ++ [space]))))) :
    appNames db = .ok names ∧
      cscUpdateCapNodesForApps .linear clock request db =
        if names = [] then .ok (-1, db)
        else (steps (updateApp .linear clock request) names (0, db)).map fun s => (0, s.2) := by
  rw [appNames, cscUpdateCapNodesForApps, hreply]
  by_cases hnil : names = []
  · simp [hnil]
  · have hpos : ¬ (names.length : Int) ≤ 0 := by
      have := List.length_pos_of_ne_nil hnil
      omega
    simp only [if_neg hnil, ok_bind, if_neg hpos, true_and]
    cases steps (updateApp .linear clock request) names (0, db) <;> rfl

section Main

variable {clock clock' : Nat → Nat → Int} {popen : CStr → Option CStr} {request : Nat → CapRequest}
  {file : Bytes}

/-- The names in the listing of a database have no dot. -/
theorem AppsUpToDate.no_dot (h : Holds .linear db t) (hfree : db.locked = false)
    (hlen : ∀ p ∈ filePaths file, p.length ≤ 241)
    (hfinds : ∀ p ∈ filePaths file, FindsLibs popen p)
    (hup : AppsUpToDate clock clock' popen request file db) : ∀ p ∈ filePaths file, dot ∉ p := by
  obtain ⟨db₁, apps, ret, db₂, hread, happs, -, hmem, -⟩ := hup
  rw [cscReadRegisteredAppsFromFile_eq] at hread
  obtain ⟨text, hmap, hread⟩ := bind_eq_ok hread
  obtain ⟨hend, rfl⟩ := mapFile_eq_ok.mp hmap
  cases hsteps : steps (registerApp .linear clock popen) (filePaths file) (0, db) with
  | error f =>
      rw [filePaths] at hsteps
      rw [hsteps] at hread
      cases hread
  | ok s' =>
      obtain ⟨t₁, h₁, hfree₁⟩ := registerApps_holds clock _ hlen hfinds h hfree 0 hsteps
      rw [filePaths] at hsteps
      rw [hsteps] at hread
      obtain rfl : s'.2 = db₁ := (Prod.mk.inj (Except.ok.inj hread)).2
      obtain ⟨names, hreply, -, hkids, -⟩ := childNames_reply h₁ appRoot_valid
      obtain ⟨hnames, -⟩ := cscUpdateCapNodesForApps_eq clock' request hreply
      obtain rfl : names = apps := Except.ok.inj (hnames.symm.trans happs)
      intro p hp
      have hkid := hkids p ((hmem p).mpr hp)
      rw [Tree.record_isSome] at hkid
      exact t₁.no_dot p _ hkid

/-- Reading a file of plain paths, and the listing after it. -/
theorem readApps_spec (h : Holds .linear db t) (hfree : db.locked = false)
    (hnone : NothingUnderApp db) (hend : 0 ∈ file ∨ file.length % pageSize ≠ 0)
    (hplain : ∀ p ∈ filePaths file, dot ∉ p ∧ p.length ≤ 241)
    (hfinds : ∀ p ∈ filePaths file, FindsLibs popen p) :
    if ∀ p ∈ filePaths file, p.length ≤ 229 then
      ∃ db₁ t₁ names,
        cscReadRegisteredAppsFromFile .linear clock popen file db = .ok (0, db₁) ∧
        Holds .linear db₁ t₁ ∧ db₁.locked = false ∧ Updatable t₁ names ∧ appNames db₁ = .ok names ∧
        names.Nodup ∧
        (if valueFor .linear db appRoot = .ok none then ∀ p, p ∈ names ↔ p ∈ filePaths file
          else names = []) ∧
        cscUpdateCapNodesForApps .linear clock' request db₁ =
          if names = [] then .ok (-1, db₁)
          else (steps (updateApp .linear clock' request) names (0, db₁)).map fun s => (0, s.2)
    else cscReadRegisteredAppsFromFile .linear clock popen file db = .error .bounds := by
  have hvalue := valueFor_eq h (bounded_linear t) hfree appRoot_valid
  rw [keyPath_appRoot] at hvalue
  have hmap := mapFile_eq_ok.mpr ⟨hend, rfl⟩
  have hreg := registerApps_iff clock (filePaths file)
    (fun p hp => ⟨(hplain p hp).1, token_ne_nil hp, (hplain p hp).2, hfinds p hp⟩) h hfree
    (hnone.held h hfree) (by simp) 0
  rw [cscReadRegisteredAppsFromFile_eq, hmap, ok_bind, ← filePaths]
  by_cases hshort : ∀ p ∈ filePaths file, p.length ≤ 229
  · rw [if_pos hshort] at hreg ⊢
    obtain ⟨j, db₁, t₁, done, hsteps, h₁, hfree₁, hheld, hdone⟩ := hreg
    obtain ⟨names, hreply, hnodup, hkids, hall⟩ := childNames_reply h₁ appRoot_valid
    rw [keyPath_appRoot] at hkids hall
    obtain ⟨hnames, hupdate⟩ := cscUpdateCapNodesForApps_eq clock' request hreply
    have hpaths : ∀ p, (t₁.record [p, app]).isSome ↔ p ∈ filePaths file := by
      intro p
      rw [hheld.child, hdone]
      simp
    refine ⟨db₁, t₁, names, by rw [hsteps]; rfl, h₁, hfree₁, ?_, hnames, hnodup, ?_, hupdate⟩
    · intro p hp
      have hfile := (hpaths p).mp (hkids p hp)
      exact ⟨(hplain p hfile).1, hshort p hfile, hheld.libs p ((hheld.child p).mp (hkids p hp))⟩
    · rw [hvalue, ← hheld.root]
      by_cases hroot : recordValue (t₁.record [app]) = .ok none
      · rw [if_pos hroot] at hall ⊢
        exact fun p => ⟨fun hp => (hpaths p).mp (hkids p hp), fun hp => hall p ((hpaths p).mpr hp)⟩
      · rw [if_neg hroot] at hall ⊢
        exact hall
  · rw [if_neg hshort] at hreg ⊢
    rw [hreg]
    rfl

/-- Every registered application is kept up to date exactly if the file can be mapped and, as
far as it has any paths, none of them has a dot or is too long for the command, `.app` holds
no value of its own, and some node is alive at each update. -/
theorem appsUpToDate_iff (hreach : Reachable db) (hfree : db.locked = false)
    (hnone : NothingUnderApp db) (hlen : ∀ p ∈ filePaths file, p.length ≤ 241)
    (hfinds : ∀ p ∈ filePaths file, FindsLibs popen p) (hans : Answering request) :
    AppsUpToDate clock clock' popen request file db ↔
      (0 ∈ file ∨ file.length % pageSize ≠ 0) ∧
        (filePaths file = [] ∨
          (∀ p ∈ filePaths file, dot ∉ p ∧ p.length ≤ 229) ∧
            valueFor .linear db appRoot = .ok none ∧
            AliveThroughout clock clock' popen request file db) := by
  obtain ⟨t, h⟩ := hreach.holds
  constructor
  · intro hup
    have hdot := hup.no_dot h hfree hlen hfinds
    obtain ⟨db₁, apps, ret, db₂, hread, happs, -, hmem, hupdate, -⟩ := hup
    have hend : 0 ∈ file ∨ file.length % pageSize ≠ 0 := by
      rw [cscReadRegisteredAppsFromFile_eq] at hread
      obtain ⟨text, hmap, -⟩ := bind_eq_ok hread
      exact (mapFile_eq_ok.mp hmap).1
    refine ⟨hend, ?_⟩
    have hspec := @readApps_spec _ _ clock clock' _ request _ h hfree hnone hend
      (fun p hp => ⟨hdot p hp, hlen p hp⟩) hfinds
    by_cases hshort : ∀ p ∈ filePaths file, p.length ≤ 229
    · rw [if_pos hshort] at hspec
      obtain ⟨db', t₁, names, hread', h₁, hfree₁, hupd, hnames, -, hlisted, hrun⟩ := hspec
      obtain rfl : db' = db₁ := (Prod.mk.inj (Except.ok.inj (hread'.symm.trans hread))).2
      obtain rfl : names = apps := Except.ok.inj (hnames.symm.trans happs)
      by_cases hnil : names = []
      · refine Or.inl (List.eq_nil_iff_forall_not_mem.mpr fun p hp => ?_)
        have := (hmem p).mpr hp
        rw [hnil] at this
        cases this
      · have hroot : valueFor .linear db appRoot = .ok none := by
          by_contra hvalue
          rw [if_neg hvalue] at hlisted
          exact hnil hlisted
        refine Or.inr ⟨fun p hp => ⟨hdot p hp, hshort p hp⟩, hroot, ?_⟩
        intro db'' apps' hread'' happs'
        obtain rfl : db' = db'' := (Prod.mk.inj (Except.ok.inj (hread'.symm.trans hread''))).2
        obtain rfl : names = apps' := Except.ok.inj (hnames.symm.trans happs')
        rw [hrun, if_neg hnil] at hupdate
        apply ((updateApps_iff clock' names (List.Subset.refl _) h₁ hfree₁ hupd hans 0).1).mp
        cases hsteps : steps (updateApp .linear clock' request) names (0, db') with
        | error f =>
            rw [hsteps] at hupdate
            cases hupdate
        | ok s' => exact ⟨s', rfl⟩
    · rw [if_neg hshort] at hspec
      rw [hspec] at hread
      cases hread
  · rintro ⟨hend, hcond⟩
    have hplain : ∀ p ∈ filePaths file, dot ∉ p ∧ p.length ≤ 229 := by
      rcases hcond with hnil | ⟨hplain, -⟩
      · rw [hnil]
        simp
      · exact hplain
    have hspec := @readApps_spec _ _ clock clock' _ request _ h hfree hnone hend
      (fun p hp => ⟨(hplain p hp).1, hlen p hp⟩) hfinds
    rw [if_pos fun p hp => (hplain p hp).2] at hspec
    obtain ⟨db₁, t₁, names, hread, h₁, hfree₁, hupd, hnames, hnodup, hlisted, hrun⟩ := hspec
    obtain ⟨hiff, hfound⟩ := updateApps_iff clock' names (List.Subset.refl _) h₁ hfree₁ hupd hans 0
    by_cases hnil : names = []
    · refine ⟨db₁, names, -1, db₁, hread, hnames, hnodup, ?_, by rw [hrun, if_pos hnil], hfound⟩
      rcases hcond with hempty | ⟨-, hroot, -⟩
      · rw [hnil, hempty]
        simp
      · rwa [if_pos hroot] at hlisted
    · rcases hcond with hempty | ⟨-, hroot, halive⟩
      · refine absurd (List.eq_nil_iff_forall_not_mem.mpr fun p hp => ?_) hnil
        split at hlisted
        · have := (hlisted p).mp hp
          rw [hempty] at this
          cases this
        · rw [hlisted] at hp
          cases hp
      · obtain ⟨s', hs'⟩ := hiff.mpr (halive db₁ names hread hnames)
        rw [if_pos hroot] at hlisted
        refine ⟨db₁, names, 0, s'.2, hread, hnames, hnodup, hlisted, ?_, hfound⟩
        rw [hrun, if_neg hnil, hs']
        rfl

end Main

def unresolved : Nat → CapRequest := fun _ => capRequestTo (fun _ => false) fun _ _ => .ok .unsent

/-- `libc.so.6 => /lib/libc.so.6 (0x40)` for every application. -/
def libcOutput : CStr → Option CStr := fun _ =>
  some (lit ['l', 'i', 'b', 'c', '.', 's', 'o', '.', '6', ' ', '=', '>', ' ', '/', 'l', 'i', 'b', '/',
    'l', 'i', 'b', 'c', '.', 's', 'o', '.', '6', ' ', '(', '0', 'x', '4', '0', ')', '\n'])

theorem libcOutput_finds (p : CStr) : FindsLibs libcOutput p := by
  have hlisted : listedLibs (lit ['l', 'i', 'b', 'c', '.', 's', 'o', '.', '6', ' ', '=', '>', ' ', '/',
      'l', 'i', 'b', '/', 'l', 'i', 'b', 'c', '.', 's', 'o', '.', '6', ' ', '(', '0', 'x', '4', '0',
      ')', '\n']) = .ok [lit ['l', 'i', 'b', 'c', '.', 's', 'o', '.', '6']] := by decide
  exact ⟨_, _, rfl, hlisted, by simp⟩

def oneAlive : List Call := [.set (lit ['.', 'a', 'l', 'i', 'v', 'e', '.', 'a']) (some (lit ['1']))]

/-- Nothing that has been stored then lies on a way through `.app`. -/
theorem oneAlive_holds {db₀ db : Database} {replies : List Reply} (hinit : csdbInit 0 = .ok db₀)
    (hrun : run .linear (fun _ => 0) 0 oneAlive db₀ = .ok (replies, db)) :
    db.locked = false ∧
      ∃ t, Holds .linear db t ∧ ∀ q, q.getLast? = some app → t.record q = none := by
  obtain ⟨db₁, hinit₁, h₀, hfree₀⟩ := csdbInit_spec .linear 0
  obtain rfl : db₁ = db₀ := Except.ok.inj (hinit₁.symm.trans hinit)
  obtain ⟨L, hrep⟩ := id h₀
  obtain ⟨db₂, t, hset, h, hfree, hrec⟩ :=
    csdbSetValueForKey_spec hrep (bounded_linear _) hfree₀
      (by decide : csdbIsValidKey (lit ['.', 'a', 'l', 'i', 'v', 'e', '.', 'a']) = true)
      (some (lit ['1'])) 0
  obtain rfl : db₂ = db := by
    simp only [oneAlive, run, Call.exec, hset, Except.map, ok_bind, Except.ok.injEq,
      Prod.mk.injEq] at hrun
    exact hrun.2
  refine ⟨hfree, t, h, ?_⟩
  intro q hq
  rw [← Option.not_isSome_iff_eq_none, hrec, setRecord_isSome]
  have hpath : (keyPath (lit ['.', 'a', 'l', 'i', 'v', 'e', '.', 'a'])).reverse =
      [lit ['a'], alive] := by decide
  have hother : app ≠ alive := by decide
  rw [hpath]
  rintro (⟨front, hfront⟩ | hs)
  · have hlast : (front ++ q).getLast? = some alive := by rw [hfront]; rfl
    rw [List.getLast?_append, hq] at hlast
    exact hother (Option.some.inj hlast)
  · cases q with
    | nil => cases hq
    | cons n q => simp [Tree.record, Tree.init] at hs

def answersOne : Nat → CapRequest := fun _ db _ _ => .ok (1, db)

theorem answersOne_answering : Answering answersOne :=
  fun _ _ _ => ⟨fun _ => 1, fun _ _ => ⟨Or.inl rfl, fun _ _ _ _ => Or.inl rfl⟩⟩

/-- One node is alive and no application is registered; `x` and `y` are registered then, and
the node stays alive when `y` is updated. -/
theorem oneAlive_apps :
    ∃ db, Reachable db ∧ db.locked = false ∧ NothingUnderApp db ∧
      aliveNames db = .ok [lit ['a']] ∧ valueFor .linear db appRoot = .ok none ∧
      ∃ s' s'', steps (registerApp .linear (fun _ _ => 0) libcOutput) [lit ['x'], lit ['y']] (0, db) = .ok s' ∧
        appNames s'.2 = .ok [lit ['y'], lit ['x']] ∧ aliveNames s'.2 = .ok [lit ['a']] ∧
        updateApp .linear (fun _ _ => 0) answersOne (0, s'.2) (lit ['y']) = .ok s'' ∧
        aliveNames s''.2 = .ok [lit ['a']] := by
  have hall : (do
      let db ← csdbInit 0
      let out ← run .linear (fun _ => 0) 0 oneAlive db
      let nodes ← aliveNames out.2
      let s' ← steps (registerApp .linear (fun _ _ => 0) libcOutput) [lit ['x'], lit ['y']] (0, out.2)
      let apps ← appNames s'.2
      let nodes' ← aliveNames s'.2
      let s'' ← updateApp .linear (fun _ _ => 0) answersOne (0, s'.2) (lit ['y'])
      let nodes'' ← aliveNames s''.2
      Except.ok (nodes, apps, nodes', nodes'') : Exec (List CStr × List CStr × List CStr × List CStr)) =
      .ok ([lit ['a']], [lit ['y'], lit ['x']], [lit ['a']], [lit ['a']]) := rfl
  obtain ⟨db₀, hinit, hall⟩ := bind_eq_ok hall
  obtain ⟨⟨replies, db⟩, hrun, hall⟩ := bind_eq_ok hall
  obtain ⟨nodes, hnodes, hall⟩ := bind_eq_ok hall
  obtain ⟨s', hsteps, hall⟩ := bind_eq_ok hall
  obtain ⟨apps, happs, hall⟩ := bind_eq_ok hall
  obtain ⟨nodes', hnodes', hall⟩ := bind_eq_ok hall
  obtain ⟨s'', hupdate, hall⟩ := bind_eq_ok hall
  obtain ⟨nodes'', hnodes'', hall⟩ := bind_eq_ok hall
  simp only [Except.ok.injEq, Prod.mk.injEq] at hall
  obtain ⟨rfl, rfl, rfl, rfl⟩ := hall
  obtain ⟨hfree, t, h, habsent⟩ := oneAlive_holds hinit hrun
  have hreach : Reachable db := (Reachable.init 0 db₀ hinit).run (by decide) hrun
  refine ⟨db, hreach, hfree, ?_, hnodes, ?_, s', s'', hsteps, happs, hnodes', hupdate, hnodes''⟩
  · intro rest hne
    obtain ⟨L, hrep⟩ := h
    have happ : readParts (app :: rest.splitOn dot) = app :: readParts (rest.splitOn dot) :=
      readParts_cons _ _ _
    rw [appPathKey, csdbKeyExist_dot hrep (bounded_linear t) hfree (by simp),
      List.splitOn_append_cons_self_of_not_mem app_no_dot, happ, List.reverse_cons,
      habsent _ List.getLast?_concat]
    rfl
  · rw [valueFor_eq h (bounded_linear t) hfree appRoot_valid, keyPath_appRoot, habsent _ rfl,
      recordValue]

/-- The file `x`, `y`. -/
theorem appsUpToDate_iff_two :
    ∃ db, filePaths [120, 10, 121, 10] = [lit ['x'], lit ['y']] ∧
      AppsUpToDate (fun _ _ => 0) (fun _ _ => 0) libcOutput answersOne [120, 10, 121, 10] db := by
  obtain ⟨db, hreach, hfree, hnone, -, hroot, s', s'', hsteps, happs, hnodes, hupdate, hnodes'⟩ := oneAlive_apps
  have hpaths : filePaths [120, 10, 121, 10] = [lit ['x'], lit ['y']] := by decide
  refine ⟨db, hpaths, (appsUpToDate_iff hreach hfree hnone (by rw [hpaths]; decide)
    (fun p _ => libcOutput_finds p) answersOne_answering).mpr
    ⟨Or.inr (by decide), Or.inr ⟨by rw [hpaths]; decide, hroot, ?_⟩⟩⟩
  intro db₁ apps hread happs'
  have hmap : mapFile [120, 10, 121, 10] = .ok (stringOf [120, 10, 121, 10]) := mapFile_eq_ok.mpr ⟨by decide, rfl⟩
  rw [cscReadRegisteredAppsFromFile_eq, hmap, ok_bind, ← filePaths, hpaths, hsteps] at hread
  obtain rfl : s'.2 = db₁ := (Prod.mk.inj (Except.ok.inj hread)).2
  obtain rfl : [lit ['y'], lit ['x']] = apps := Except.ok.inj (happs.symm.trans happs')
  refine ⟨⟨_, hnodes, by simp⟩, fun s hs => ?_⟩
  obtain rfl : s'' = s := Except.ok.inj (hupdate.symm.trans hs)
  exact ⟨⟨_, hnodes', by simp⟩, fun _ _ => trivial⟩

/-- `a.o` is registered below a child `a` of `.app`. -/
theorem dotted_app_not_updated :
    ∃ db, Reachable db ∧ db.locked = false ∧ NothingUnderApp db ∧ aliveNames db = .ok [lit ['a']] ∧
      filePaths [97, 46, 111, 10] = [lit ['a', '.', 'o']] ∧ FindsLibs libcOutput (lit ['a', '.', 'o']) ∧
      ¬ AppsUpToDate (fun _ _ => 0) (fun _ _ => 0) libcOutput unresolved [97, 46, 111, 10] db := by
  obtain ⟨db, hreach, hfree, hnone, hnodes, -⟩ := oneAlive_apps
  obtain ⟨t, h⟩ := hreach.holds
  have hpaths : filePaths [97, 46, 111, 10] = [lit ['a', '.', 'o']] := by decide
  refine ⟨db, hreach, hfree, hnone, hnodes, hpaths, libcOutput_finds _, fun hup => ?_⟩
  have hdot := hup.no_dot h hfree (by rw [hpaths]; decide) (fun p _ => libcOutput_finds p)
    (lit ['a', '.', 'o']) (by rw [hpaths]; simp)
  exact hdot (by decide)

end Dkmp.Csd
