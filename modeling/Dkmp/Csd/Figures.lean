import Dkmp.Csd.Collect

/-! # What the kernel prints is what the database has

The files of the kernel are given by the figures printed into them. For any figures that
fit the arrays, and any number of processors that can be written down, the database has
afterwards each figure under its key.
-/

namespace Dkmp.Csd

open Machine Csdb Csp Csc Csda

variable {hostname : CStr} {db : Database} {m : Paths}

/-! ## Storing figures -/

/-- The suffix ends in a name, and the key of it fits in `key`. -/
def FitsKey (hostname suffix : CStr) : Prop :=
  (∃ front last, suffix = front ++ last ∧ last ≠ [] ∧ dot ∉ last) ∧ (nodeReqKey hostname suffix).length < ksize

theorem FitsKey.valid {suffix : CStr} (h : FitsKey hostname suffix) :
    csdbIsValidKey (nodeReqKey hostname suffix) = true := by
  obtain ⟨⟨front, last, rfl, hne, hdot⟩, -⟩ := h
  have hkey : nodeReqKey hostname (front ++ last) = dot :: ((nodes ++ dot :: (hostname ++ front)) ++ last) := by
    simp [nodeReqKey]
  rw [hkey]
  exact csdbIsValidKey_append _ hne hdot

def withFigures (hostname : CStr) (m : Paths) (figures : List (CStr × CStr)) : Paths :=
  figures.foldl (fun m f => m.set (keyPath (nodeReqKey hostname f.1)) f.2) m

theorem withFigures_append (m : Paths) (fs gs : List (CStr × CStr)) :
    withFigures hostname m (fs ++ gs) = withFigures hostname (withFigures hostname m fs) gs :=
  List.foldl_append ..

/-- A value stays until the same key is set again. -/
theorem withFigures_bound (figures : List (CStr × CStr)) {path : List CStr} {value : CStr}
    (hvalue : m.bound path = some (some value))
    (hother : ∀ f ∈ figures, keyPath (nodeReqKey hostname f.1) ≠ path) :
    (withFigures hostname m figures).bound path = some (some value) := by
  induction figures generalizing m with
  | nil => exact hvalue
  | cons f figures ih =>
      refine ih ?_ fun g hg => hother g (List.mem_cons_of_mem f hg)
      rw [PathMap.set_bound, if_neg (hother f (List.mem_cons_self ..)).symm, hvalue]
      exact ite_self _

theorem setFigure_stores (h : InState db ⟨m, false⟩) {suffix : CStr} (hkey : FitsKey hostname suffix)
    (value : CStr) (now : Int) :
    ∃ db', setFigure .linear now hostname suffix (some value) db = .ok db' ∧
      InState db' ⟨m.set (keyPath (nodeReqKey hostname suffix)) value, false⟩ := by
  obtain ⟨hfree, t, hholds, hm⟩ := h
  obtain ⟨db', t', hexec, hholds', hfree', hm'⟩ :=
    set_refines hholds (bounded_linear t) hfree hm ⟨nodeReqKey hostname suffix, hkey.valid⟩ value now
  obtain ⟨⟨n, db₁⟩, hset, hreply⟩ := of_map_ok hexec
  cases hreply
  refine ⟨db', ?_, hfree', t', hholds', hm'⟩
  simp only [setFigure, sprintf_ok hkey.2, ok_bind, hset]

theorem setFigures_stores (clock : Nat → Int) (figures : List (CStr × CStr))
    (hkeys : ∀ f ∈ figures, FitsKey hostname f.1) (k : Nat) (h : InState db ⟨m, false⟩) :
    ∃ db', setFigures .linear clock hostname k (figures.map fun f => (f.1, some f.2)) db = .ok db' ∧
      InState db' ⟨withFigures hostname m figures, false⟩ := by
  induction figures generalizing k db m with
  | nil => exact ⟨db, rfl, h⟩
  | cons f figures ih =>
      obtain ⟨db₁, hset, h₁⟩ := setFigure_stores h (hkeys f (List.mem_cons_self ..)) f.2 (clock k)
      obtain ⟨db', hrun, h'⟩ := ih (fun g hg => hkeys g (List.mem_cons_of_mem f hg)) (k + 1) h₁
      refine ⟨db', ?_, h'⟩
      simp only [List.map_cons, setFigures, hset, ok_bind, hrun]

/-! ## Printed figures -/

/-- A figure as it is printed: it fits the arrays. -/
structure Figured where
  text : CStr
  ne_nil : text ≠ []
  plain : ∀ c ∈ text, isspace c = false
  fits : text.length < figureSize

def Figured.column (f : Figured) (pad : Nat) : Column CChar isspace where
  gap := List.replicate (pad + 1) space
  word := f.text
  gap_ne := by simp
  gap_space := fun c hc => by rw [List.eq_of_mem_replicate hc]; exact isspace_space
  word_ne := f.ne_nil
  word_plain := f.plain

theorem sscanfStrings_figured (fs : List Figured) :
    sscanfStrings (fs.map Figured.text) = .ok (fs.map Figured.text) := by
  induction fs with
  | nil => rfl
  | cons f fs ih =>
      rw [sscanfStrings] at ih ⊢
      rw [List.map_cons, List.mapM_cons, sprintf_ok f.fits, ih]
      rfl

theorem Figured.first (f : Figured) {ds : List (Directive CChar)} {ws : List CStr} {text : CStr}
    (h : Prints isspace ds ws text) (htext : ∀ c, text.head? = some c → isspace c = true) :
    Prints isspace (.word :: ds) (f.text :: ws) (f.text ++ text) :=
  .word _ _ [] _ _ (fun c hc => by cases hc) f.ne_nil f.plain htext h

theorem other_char {a b : CChar} (h : a ≠ b) : ∀ c ∈ [a], c ∉ [b] := by
  intro c hc hb
  exact h ((List.mem_singleton.mp hc).symm.trans (List.mem_singleton.mp hb))

/-! ### The load -/

structure LoadAvg where
  avg1 : Figured
  avg5 : Figured
  avg15 : Figured
  active : Figured
  nop : Figured
  lastpid : Figured
  active_plain : ∀ c ∈ active.text, c ∉ lit ['/']

def LoadAvg.body (l : LoadAvg) : CStr :=
  l.avg1.text ++ ([l.avg5.column 0, l.avg15.column 0].flatMap Column.text ++
    ([space] ++ (l.active.text ++ (lit ['/'] ++ (l.nop.text ++ [l.lastpid.column 0].flatMap Column.text)))))

def LoadAvg.text (l : LoadAvg) : CStr := l.body ++ [newline]

def LoadAvg.figures (l : LoadAvg) : List (CStr × CStr) :=
  [(loadSuffix ['a', 'v', 'g', '1'], l.avg1.text),
    (loadSuffix ['a', 'v', 'g', '5'], l.avg5.text),
    (loadSuffix ['a', 'v', 'g', '1', '5'], l.avg15.text),
    (loadSuffix ['n', 'o', 'p'], l.nop.text),
    (loadSuffix ['a', 'c', 't', 'i', 'v', 'e'], l.active.text),
    (loadSuffix ['l', 'a', 's', 't', 'p', 'i', 'd'], l.lastpid.text)]

theorem LoadAvg.read (l : LoadAvg) :
    sscanf isspace loadFormat l.body =
      [l.avg1, l.avg5, l.avg15, l.active, l.nop, l.lastpid].map Figured.text := by
  apply sscanf_prints
  obtain ⟨hpid, hpidHead⟩ := Prints.lastColumns isspace [l.lastpid.column 0]
  have hslash := Prints.width [space] false _ _ (lit ['/']) _ (List.cons_ne_nil _ _)
    (other_char (by decide))
    (l.nop.first hpid hpidHead)
  have hactive := Prints.run (lit ['/']) true _ _ l.active.text _ l.active.ne_nil l.active_plain
    (fun c hc => by cases hc; exact List.mem_cons_self ..) hslash
  have hblank := Prints.blank _ _ [space] _ (fun c hc => by rw [List.mem_singleton.mp hc]; rfl)
    ((l.active.column 0).head_word _) hactive
  obtain ⟨havg, havgHead⟩ := Prints.columns isspace [l.avg5.column 0, l.avg15.column 0] hblank
    (fun c hc => by cases hc; rfl)
  exact l.avg1.first havg havgHead

/-! ### The uptime -/

structure Uptime where
  sreboot : Figured
  idle : Figured

def Uptime.body (u : Uptime) : CStr := u.sreboot.text ++ [u.idle.column 0].flatMap Column.text

def Uptime.text (u : Uptime) : CStr := u.body ++ [newline]

def Uptime.figures (u : Uptime) : List (CStr × CStr) :=
  [(uptimeSuffix ['s', 'r', 'e', 'b', 'o', 'o', 't'], u.sreboot.text),
    (uptimeSuffix ['i', 'd', 'l', 'e'], u.idle.text)]

theorem Uptime.read (u : Uptime) :
    sscanf isspace uptimeFormat u.body = [u.sreboot, u.idle].map Figured.text := by
  apply sscanf_prints
  obtain ⟨hidle, hhead⟩ := Prints.lastColumns isspace [u.idle.column 0]
  exact u.sreboot.first hidle hhead

/-! ### The memory -/

structure MemInfo where
  header : CStr
  total : Figured
  used : Figured
  free : Figured
  shared : Figured
  buffers : Figured
  cached : Figured
  swaptotal : Figured
  swapused : Figured
  swapfree : Figured
  pad : Nat → Nat
  rest : CStr
  header_ne : header ≠ []
  header_line : newline ∉ header

def MemInfo.memory (m : MemInfo) : List (Column CChar isspace) :=
  [m.total.column (m.pad 0), m.used.column (m.pad 1), m.free.column (m.pad 2), m.shared.column (m.pad 3),
    m.buffers.column (m.pad 4), m.cached.column (m.pad 5)]

def MemInfo.swap (m : MemInfo) : List (Column CChar isspace) :=
  [m.swaptotal.column (m.pad 6), m.swapused.column (m.pad 7), m.swapfree.column (m.pad 8)]

def MemInfo.body (m : MemInfo) : CStr :=
  m.header ++ ([newline] ++ (lit ['M', 'e', 'm', ':'] ++ (m.memory.flatMap Column.text ++
    ([newline] ++ (lit ['S', 'w', 'a', 'p', ':'] ++ m.swap.flatMap Column.text)))))

def MemInfo.text (m : MemInfo) : CStr := m.body ++ newline :: m.rest

def MemInfo.figures (m : MemInfo) : List (CStr × CStr) :=
  [(memSuffix ['t', 'o', 't', 'a', 'l'], m.total.text),
    (memSuffix ['u', 's', 'e', 'd'], m.used.text),
    (memSuffix ['f', 'r', 'e', 'e'], m.free.text),
    (memSuffix ['s', 'h', 'a', 'r', 'e', 'd'], m.shared.text),
    (memSuffix ['b', 'u', 'f', 'f', 'e', 'r', 's'], m.buffers.text),
    (memSuffix ['c', 'a', 'c', 'h', 'e', 'd'], m.cached.text),
    (memSuffix ['s', 'w', 'a', 'p', 't', 'o', 't', 'a', 'l'], m.swaptotal.text),
    (memSuffix ['s', 'w', 'a', 'p', 'u', 's', 'e', 'd'], m.swapused.text),
    (memSuffix ['s', 'w', 'a', 'p', 'f', 'r', 'e', 'e'], m.swapfree.text)]

/-- The figures are read whatever stands behind them on lines of their own. -/
theorem MemInfo.read (m : MemInfo) {tail : CStr} (htail : ∀ c, tail.head? = some c → isspace c = true) :
    sscanf isspace memFormat (m.body ++ tail) =
      [m.total, m.used, m.free, m.shared, m.buffers, m.cached, m.swaptotal, m.swapused, m.swapfree].map
        Figured.text := by
  apply sscanf_prints
  have hend : Prints isspace [.blank, .run none [newline] false] [] tail :=
    .done _ _ (by decide)
  obtain ⟨hswap, -⟩ := Prints.columns isspace m.swap hend htail
  have hname := Prints.blank _ _ [] _ (fun c hc => by cases hc) (fun c hc => by cases hc; rfl)
    (hswap.literals isspace (lit ['S', 'w', 'a', 'p', ':']))
  have hskip := Prints.run (lit ['S']) false _ _ [newline] _ (List.cons_ne_nil _ _)
    (other_char (by decide))
    (fun c hc => by cases hc; exact List.mem_cons_self ..) hname
  obtain ⟨hmem, -⟩ := Prints.columns isspace m.memory hskip (fun c hc => by cases hc; rfl)
  have hline := Prints.blank _ _ [newline] _ (fun c hc => by rw [List.mem_singleton.mp hc]; rfl)
    (fun c hc => by cases hc; rfl) (hmem.literals isspace (lit ['M', 'e', 'm', ':']))
  have hheader := Prints.run [newline] false _ _ m.header _ m.header_ne
    (fun c hc hnl => m.header_line (by rwa [List.mem_singleton.mp hnl] at hc))
    (fun c hc => by cases hc; exact List.mem_cons_self ..) hline
  have hbody : m.body ++ tail = m.header ++ ([newline] ++ (lit ['M', 'e', 'm', ':'] ++ (m.memory.flatMap Column.text ++
      ([newline] ++ ([] ++ (lit ['S', 'w', 'a', 'p', ':'] ++ (m.swap.flatMap Column.text ++ tail))))))) := by
    simp only [MemInfo.body, List.append_assoc, List.nil_append]
  rw [hbody]
  exact hheader

/-! ### The processors -/

structure CpuLine where
  name : Figured
  user : Figured
  nice : Figured
  sys : Figured
  idle : Figured
  pad : Nat
  rest : CStr
  cpu_name : cpu <+: name.text
  rest_space : ∀ c, rest.head? = some c → isspace c = true
  rest_line : newline ∉ rest

def CpuLine.columns (l : CpuLine) : List (Column CChar isspace) :=
  [l.user.column l.pad, l.nice.column 0, l.sys.column 0, l.idle.column 0]

def CpuLine.text (l : CpuLine) : CStr := l.name.text ++ (l.columns.flatMap Column.text ++ l.rest)

def CpuLine.numbered (l : CpuLine) : Bool := 3 < l.name.text.length

/-- The name in the keys, if `n` processors were numbered before. -/
def CpuLine.label (l : CpuLine) (n : Nat) : CStr := if l.numbered then decimal n else lit ['a', 'l', 'l']

def CpuLine.figures (l : CpuLine) (n : Nat) : List (CStr × CStr) :=
  [(cpuSuffix (l.label n) ['u', 's', 'e', 'r'], l.user.text),
    (cpuSuffix (l.label n) ['n', 'i', 'c', 'e'], l.nice.text),
    (cpuSuffix (l.label n) ['s', 'y', 's'], l.sys.text),
    (cpuSuffix (l.label n) ['i', 'd', 'l', 'e'], l.idle.text)]

def cpuFigures : Nat → List CpuLine → List (CStr × CStr)
  | _, [] => []
  | n, l :: lines => l.figures n ++ cpuFigures (if l.numbered then n + 1 else n) lines

structure Stat where
  lines : List CpuLine
  rest : CStr
  rest_ne : rest ≠ []
  no_cpu : strstr rest.dropLast cpu = none

def cpuText (lines : List CpuLine) : CStr := lines.flatMap fun l => l.text ++ [newline]

def Stat.text (s : Stat) : CStr := cpuText s.lines ++ s.rest

def Stat.processors (s : Stat) : Nat := s.lines.countP CpuLine.numbered

def Stat.figures (s : Stat) : List (CStr × CStr) :=
  cpuFigures 0 s.lines ++ [(nrcpuSuffix, decimal (if s.processors = 0 then 1 else s.processors))]

theorem CpuLine.read (l : CpuLine) :
    sscanf isspace cpuFormat l.text = [l.name, l.user, l.nice, l.sys, l.idle].map Figured.text := by
  apply sscanf_prints
  have hend : Prints isspace ([] : List (Directive CChar)) [] l.rest := .done _ _ (fun d hd => by cases hd)
  obtain ⟨hcols, hhead⟩ := Prints.columns isspace l.columns hend l.rest_space
  exact l.name.first hcols hhead

theorem newline_not_mem_text (f : Figured) : newline ∉ f.text := fun hmem =>
  Bool.false_ne_true ((f.plain _ hmem).symm.trans isspace_newline)

theorem newline_not_mem_column (f : Figured) (pad : Nat) : newline ∉ (f.column pad).text := by
  intro hmem
  rcases List.mem_append.mp hmem with hgap | hword
  · exact absurd (List.eq_of_mem_replicate hgap) (by decide)
  · exact newline_not_mem_text f hword

theorem CpuLine.newline_not_mem (l : CpuLine) : newline ∉ l.text := by
  simp only [CpuLine.text, CpuLine.columns, List.flatMap_cons, List.flatMap_nil, List.mem_append,
    newline_not_mem_text, newline_not_mem_column, l.rest_line, List.not_mem_nil, or_self, not_false_eq_true]

theorem strstr_front {s pattern : CStr} (h : pattern <+: s) : strstr s pattern = some s := by
  cases s with
  | nil => rw [strstr, if_pos (List.prefix_nil.mp h)]
  | cons c s => rw [strstr, if_pos (List.isPrefixOf_iff_prefix.mpr h)]

theorem CpuLine.found (l : CpuLine) (more : CStr) : strstr (l.text ++ more) cpu = some (l.text ++ more) :=
  strstr_front ((l.cpu_name.trans (List.prefix_append ..)).trans (List.prefix_append ..))

/-! ### The keys fit -/

/-- The longest suffix has fifteen characters. -/
def longestHostname : Nat := 234

theorem fitsKey_of_length (hhost : hostname.length ≤ longestHostname) {front last : CStr}
    (hlength : (front ++ last).length ≤ 15) (hne : last ≠ []) (hdot : dot ∉ last) :
    FitsKey hostname (front ++ last) := by
  refine ⟨⟨front, last, rfl, hne, hdot⟩, ?_⟩
  have hnodes : nodes.length = 4 := rfl
  simp only [longestHostname] at hhost
  simp only [nodeReqKey, List.length_cons, List.length_append, hnodes, ksize] at hlength ⊢
  omega

theorem fitsKey_lit (hhost : hostname.length ≤ longestHostname) {front name : List Char}
    (hlength : (lit (front ++ name)).length ≤ 15) (hne : lit name ≠ []) (hdot : dot ∉ lit name) :
    FitsKey hostname (lit (front ++ name)) := by
  have hlit : lit (front ++ name) = lit front ++ lit name := List.filterMap_append
  rw [hlit] at hlength ⊢
  exact fitsKey_of_length hhost hlength hne hdot

theorem LoadAvg.fits (l : LoadAvg) (hhost : hostname.length ≤ longestHostname) :
    ∀ f ∈ l.figures, FitsKey hostname f.1 := by
  simp only [LoadAvg.figures, List.forall_mem_cons]
  refine ⟨?_, ?_, ?_, ?_, ?_, ?_, fun f hf => by cases hf⟩ <;>
    exact fitsKey_lit hhost (by decide) (by decide) (by decide)

theorem Uptime.fits (u : Uptime) (hhost : hostname.length ≤ longestHostname) :
    ∀ f ∈ u.figures, FitsKey hostname f.1 := by
  simp only [Uptime.figures, List.forall_mem_cons]
  refine ⟨?_, ?_, fun f hf => by cases hf⟩ <;>
    exact fitsKey_lit hhost (by decide) (by decide) (by decide)

theorem MemInfo.fits (m : MemInfo) (hhost : hostname.length ≤ longestHostname) :
    ∀ f ∈ m.figures, FitsKey hostname f.1 := by
  simp only [MemInfo.figures, List.forall_mem_cons]
  refine ⟨?_, ?_, ?_, ?_, ?_, ?_, ?_, ?_, ?_, fun f hf => by cases hf⟩ <;>
    exact fitsKey_lit hhost (by decide) (by decide) (by decide)

theorem CpuLine.length_label (l : CpuLine) {n : Nat} (hn : n < 1000) : (l.label n).length ≤ 3 := by
  rw [CpuLine.label]
  split
  · exact length_decimalFrom 2 (n + 1) n hn
  · exact Nat.le_refl _

theorem CpuLine.fits (l : CpuLine) {n : Nat} (hn : n < 1000) (hhost : hostname.length ≤ longestHostname) :
    ∀ f ∈ l.figures n, FitsKey hostname f.1 := by
  have hlabel := l.length_label hn
  have hkey : ∀ name : List Char, (lit name).length ≤ 4 → lit name ≠ [] → dot ∉ lit name →
      FitsKey hostname (cpuSuffix (l.label n) name) := by
    intro name hlength hne hdot
    have hsuffix : cpuSuffix (l.label n) name = (lit ['.', 'c', 'p', 'u', '.'] ++ (l.label n ++ [dot])) ++ lit name := by
      simp [cpuSuffix]
    have hfront : (lit ['.', 'c', 'p', 'u', '.']).length = 5 := rfl
    rw [hsuffix]
    refine fitsKey_of_length hhost ?_ hne hdot
    simp only [List.length_append, List.length_singleton, hfront]
    omega
  simp only [CpuLine.figures, List.forall_mem_cons]
  refine ⟨?_, ?_, ?_, ?_, fun f hf => by cases hf⟩ <;>
    exact hkey _ (by decide) (by decide) (by decide)

theorem cpuString_label (l : CpuLine) {n : Nat} (hn : n < 1000) :
    cpuString l.name.text n = .ok (l.label n, if l.numbered then n + 1 else n) := by
  have hlabel := l.length_label hn
  by_cases hnumbered : 3 < l.name.text.length
  · have hlabelEq : l.label n = decimal n := if_pos (decide_eq_true hnumbered)
    rw [hlabelEq] at hlabel ⊢
    simp only [cpuString, if_neg (Nat.not_le.mpr hnumbered), sprintf_ok (Nat.lt_of_le_of_lt hlabel (by decide : 3 < cpuStringSize)),
      ok_bind, CpuLine.numbered, decide_eq_true hnumbered, if_true]
  · have hlabelEq : l.label n = lit ['a', 'l', 'l'] := if_neg (by simpa [CpuLine.numbered] using hnumbered)
    rw [hlabelEq, cpuString, if_pos (Nat.not_lt.mp hnumbered), CpuLine.numbered, decide_eq_false hnumbered]
    rfl

/-! ### The loop over the lines -/

theorem cpuBody_line (clock : Nat → Int) (l : CpuLine) (more : CStr) (k : Nat) {words : List (Option CStr)}
    (hwords : words.length = 5) {n : Nat} (hn : n < 1000) (hhost : hostname.length ≤ longestHostname)
    (h : InState db ⟨m, false⟩) :
    ∃ words' db', cpuBody .linear clock hostname ⟨k, l.text ++ newline :: more, words, n, db⟩ =
        .ok (.inl ⟨k + 4, more, words', if l.numbered then n + 1 else n, db'⟩) ∧
      words'.length = 5 ∧ InState db' ⟨withFigures hostname m (l.figures n), false⟩ := by
  obtain ⟨hchr, htake⟩ := strchr_first l.newline_not_mem more
  have hdrop : words.drop 5 = [] := List.drop_eq_nil_of_le hwords.le
  obtain ⟨db', hset, h'⟩ := setFigures_stores clock (l.figures n) (l.fits hn hhost) k h
  refine ⟨[some l.name.text, some l.user.text, some l.nice.text, some l.sys.text, some l.idle.text], db', ?_, rfl, h'⟩
  have hread := sscanfStrings_figured [l.name, l.user, l.nice, l.sys, l.idle]
  have hstring := cpuString_label l hn
  simp only [cpuBody, l.found, hchr, htake, l.read, hread, ok_bind, List.length_map, List.length_cons,
    List.length_nil, hdrop, List.append_nil]
  simp only [List.map_cons, List.map_nil, List.getElem?_cons_zero, List.getElem?_cons_succ, Option.join_some,
    hstring, ok_bind]
  simp only [CpuLine.figures, List.map_cons, List.map_nil] at hset
  simp only [hset, ok_bind, List.tail_cons]

theorem cpuLoop_lines (clock : Nat → Int) (lines : List CpuLine) {tail : CStr} (htail : strstr tail cpu = none)
    (hhost : hostname.length ≤ longestHostname) (k : Nat) {words : List (Option CStr)} (hwords : words.length = 5)
    {n : Nat} (hn : n + lines.countP CpuLine.numbered < 1000) (h : InState db ⟨m, false⟩) (fuel : Nat)
    (hfuel : lines.length < fuel) :
    ∃ s, loop (cpuBody .linear clock hostname) fuel ⟨k, cpuText lines ++ tail, words, n, db⟩ = .ok s ∧
      s.nrCpu = n + lines.countP CpuLine.numbered ∧
      InState s.db ⟨withFigures hostname m (cpuFigures n lines), false⟩ := by
  induction lines generalizing k words n db m fuel with
  | nil =>
      obtain ⟨fuel, rfl⟩ := Nat.exists_eq_succ_of_ne_zero (Nat.ne_of_gt hfuel)
      refine ⟨⟨k, tail, words, n, db⟩, loop_exit ?_, rfl, h⟩
      simp only [cpuBody, cpuText, List.flatMap_nil, List.nil_append, htail]
  | cons l lines ih =>
      obtain ⟨fuel, rfl⟩ := Nat.exists_eq_succ_of_ne_zero (Nat.ne_of_gt (Nat.zero_lt_of_lt hfuel))
      have hcount : (if l.numbered then n + 1 else n) + lines.countP CpuLine.numbered =
          n + (l :: lines).countP CpuLine.numbered := by
        rw [List.countP_cons]
        split <;> omega
      obtain ⟨words', db₁, hbody, hwords', h₁⟩ := cpuBody_line clock l (cpuText lines ++ tail) k hwords
        (Nat.lt_of_le_of_lt (Nat.le_add_right ..) hn) hhost h
      obtain ⟨s, hloop, hnr, h'⟩ := ih (k + 4) hwords' (by rwa [hcount]) h₁ fuel (Nat.lt_of_succ_lt_succ hfuel)
      have htext : cpuText (l :: lines) ++ tail = l.text ++ newline :: (cpuText lines ++ tail) := by
        simp [cpuText]
      refine ⟨s, ?_, hnr.trans hcount, ?_⟩
      · rw [htext, loop_next hbody, hloop]
      · rw [cpuFigures, withFigures_append]
        exact h'

/-- The text bounds the number of lines. -/
theorem countP_le_text (lines : List CpuLine) :
    lines.length ≤ (cpuText lines).length ∧ 5 * lines.countP CpuLine.numbered ≤ (cpuText lines).length := by
  induction lines with
  | nil => exact ⟨Nat.le_refl _, Nat.le_refl _⟩
  | cons l lines ih =>
      have htext : (cpuText (l :: lines)).length = l.text.length + 1 + (cpuText lines).length := by
        rw [cpuText, List.flatMap_cons, List.length_append, List.length_append]
        rfl
      have hname : l.name.text.length ≤ l.text.length := by
        rw [CpuLine.text, List.length_append]
        exact Nat.le_add_right ..
      rw [List.length_cons, List.countP_cons, htext]
      refine ⟨by omega, ?_⟩
      by_cases hnumbered : l.numbered
      · have hlong : 3 < l.name.text.length := of_decide_eq_true hnumbered
        rw [if_pos hnumbered]
        omega
      · rw [if_neg hnumbered]
        omega

/-! ## The four files -/

theorem withProcval_stores {ρ : Type} (file : Option ρ) {text : ρ → CStr} {figures : ρ → List (CStr × CStr)}
    {f : CStr → Exec Database} (h : InState db ⟨m, false⟩)
    (hfile : ∀ r, file = some r → text r ≠ [] ∧ (text r).length < procSize ∧
      ∃ db', f (text r).dropLast = .ok db' ∧ InState db' ⟨withFigures hostname m (figures r), false⟩) :
    ∃ ret db', withProcval (file.map text) db f = .ok (ret, db') ∧
      InState db' ⟨withFigures hostname m (file.elim [] figures), false⟩ := by
  cases file with
  | none => exact ⟨-1, db, rfl, h⟩
  | some r =>
      obtain ⟨hne, hlength, db', hf, h'⟩ := hfile r rfl
      refine ⟨0, db', ?_, h'⟩
      have hvalue : cscGetProcval (some (text r)) = .ok (0, some (text r).dropLast) :=
        if_neg (not_or.mpr ⟨hne, Nat.not_le.mpr hlength⟩)
      simp only [withProcval, Option.map_some, hvalue, ok_bind, hf]

/-- What the kernel has printed; a file can be missing. -/
structure Report where
  loadavg : Option LoadAvg
  uptime : Option Uptime
  meminfo : Option MemInfo
  stat : Option Stat

def Report.files (r : Report) : ProcFiles :=
  ⟨r.loadavg.map LoadAvg.text, r.uptime.map Uptime.text, r.meminfo.map MemInfo.text, r.stat.map Stat.text⟩

def Report.figures (r : Report) : List (CStr × CStr) :=
  r.loadavg.elim [] LoadAvg.figures ++ (r.uptime.elim [] Uptime.figures ++
    (r.meminfo.elim [] MemInfo.figures ++ r.stat.elim [] Stat.figures))

structure Report.Small (r : Report) : Prop where
  loadavg : ∀ l, r.loadavg = some l → l.text.length < procSize
  uptime : ∀ u, r.uptime = some u → u.text.length < procSize
  meminfo : ∀ i, r.meminfo = some i → i.text.length < procSize
  stat : ∀ s, r.stat = some s → s.text.length < procSize

theorem cpuFigures_fits (hhost : hostname.length ≤ longestHostname) (lines : List CpuLine) {n : Nat}
    (hn : n + lines.countP CpuLine.numbered < 1000) : ∀ f ∈ cpuFigures n lines, FitsKey hostname f.1 := by
  induction lines generalizing n with
  | nil => exact fun f hf => by cases hf
  | cons l lines ih =>
      intro f hf
      rw [List.countP_cons] at hn
      rcases List.mem_append.mp hf with hl | hlines
      · exact l.fits (by omega) hhost f hl
      · refine ih ?_ f hlines
        split at hn <;> rename_i hnumbered <;> simp only [hnumbered, if_true, Bool.false_eq_true, if_false] <;> omega

theorem Stat.processors_lt {s : Stat} (hsmall : s.text.length < procSize) : s.processors < 1000 := by
  have hcount := (countP_le_text s.lines).2
  rw [Stat.text, List.length_append, procSize] at hsmall
  rw [Stat.processors]
  omega

theorem nrcpu_fits (hhost : hostname.length ≤ longestHostname) : FitsKey hostname nrcpuSuffix :=
  fitsKey_lit hhost (by decide) (by decide) (by decide)

theorem Report.fits {r : Report} (hsmall : r.Small) (hhost : hostname.length ≤ longestHostname) :
    ∀ f ∈ r.figures, FitsKey hostname f.1 := by
  have hstat : ∀ s, r.stat = some s → ∀ f ∈ s.figures, FitsKey hostname f.1 := by
    intro s hs f hf
    rcases List.mem_append.mp hf with hlines | hnr
    · exact cpuFigures_fits hhost s.lines (by
        rw [Nat.zero_add]
        exact Stat.processors_lt (hsmall.stat s hs)) f hlines
    · rw [List.mem_singleton.mp hnr]
      exact nrcpu_fits hhost
  have hfile : ∀ {ρ : Type} (file : Option ρ) (figures : ρ → List (CStr × CStr)),
      (∀ x, file = some x → ∀ f ∈ figures x, FitsKey hostname f.1) →
      ∀ f ∈ file.elim [] figures, FitsKey hostname f.1 := by
    intro ρ file figures hfits f hf
    cases file with
    | none => cases hf
    | some x => exact hfits x rfl f hf
  intro f hf
  rcases List.mem_append.mp hf with hf | hf
  · exact hfile _ _ (fun l _ => l.fits hhost) f hf
  rcases List.mem_append.mp hf with hf | hf
  · exact hfile _ _ (fun u _ => u.fits hhost) f hf
  rcases List.mem_append.mp hf with hf | hf
  · exact hfile _ _ (fun i _ => i.fits hhost) f hf
  · exact hfile _ _ hstat f hf

section Report

variable (clock : Nat → Int) (hhost : hostname.length ≤ longestHostname) (h : InState db ⟨m, false⟩)

include hhost h

theorem cscSetLoad_stores (file : Option LoadAvg) (hfile : ∀ l, file = some l → l.text.length < procSize) :
    ∃ ret db', cscSetLoad .linear clock hostname (file.map LoadAvg.text) db = .ok (ret, db') ∧
      InState db' ⟨withFigures hostname m (file.elim [] LoadAvg.figures), false⟩ := by
  refine withProcval_stores file h fun l hl => ⟨by simp [LoadAvg.text], hfile l hl, ?_⟩
  obtain ⟨db', hset, h'⟩ := setFigures_stores clock l.figures (l.fits hhost) 0 h
  refine ⟨db', ?_, h'⟩
  simp only [LoadAvg.text, List.dropLast_concat, l.read, sscanfStrings_figured, ok_bind]
  exact hset

theorem cscSetUptime_stores (file : Option Uptime) (hfile : ∀ u, file = some u → u.text.length < procSize) :
    ∃ ret db', cscSetUptime .linear clock hostname (file.map Uptime.text) db = .ok (ret, db') ∧
      InState db' ⟨withFigures hostname m (file.elim [] Uptime.figures), false⟩ := by
  refine withProcval_stores file h fun u hu => ⟨by simp [Uptime.text], hfile u hu, ?_⟩
  obtain ⟨db', hset, h'⟩ := setFigures_stores clock u.figures (u.fits hhost) 0 h
  refine ⟨db', ?_, h'⟩
  simp only [Uptime.text, List.dropLast_concat, u.read, sscanfStrings_figured, ok_bind]
  exact hset

theorem cscSetMem_stores (file : Option MemInfo) (hfile : ∀ i, file = some i → i.text.length < procSize) :
    ∃ ret db', cscSetMem .linear clock hostname (file.map MemInfo.text) db = .ok (ret, db') ∧
      InState db' ⟨withFigures hostname m (file.elim [] MemInfo.figures), false⟩ := by
  refine withProcval_stores file h fun i hi => ⟨by simp [MemInfo.text], hfile i hi, ?_⟩
  obtain ⟨db', hset, h'⟩ := setFigures_stores clock i.figures (i.fits hhost) 0 h
  refine ⟨db', ?_, h'⟩
  have hlast : i.text.dropLast = i.body ++ (newline :: i.rest).dropLast :=
    List.dropLast_append_of_ne_nil (List.cons_ne_nil _ _)
  have hhead : ∀ c, (newline :: i.rest).dropLast.head? = some c → isspace c = true := by
    intro c hc
    rcases hrest : i.rest with _ | ⟨x, rest⟩ <;> rw [hrest] at hc <;> cases hc
    rfl
  simp only [hlast, i.read hhead, sscanfStrings_figured, ok_bind]
  exact hset

theorem cscSetCpu_stores (file : Option Stat) (hfile : ∀ s, file = some s → s.text.length < procSize) :
    ∃ ret db', cscSetCpu .linear clock hostname (file.map Stat.text) db = .ok (ret, db') ∧
      InState db' ⟨withFigures hostname m (file.elim [] Stat.figures), false⟩ := by
  refine withProcval_stores file h fun s hs => ?_
  have hsmall := hfile s hs
  have hlast : s.text.dropLast = cpuText s.lines ++ s.rest.dropLast := List.dropLast_append_of_ne_nil s.rest_ne
  have hlines := (countP_le_text s.lines).1
  have hprocessors := Stat.processors_lt hsmall
  refine ⟨List.append_ne_nil_of_right_ne_nil _ s.rest_ne, hsmall, ?_⟩
  obtain ⟨last, hloop, hnr, hstate⟩ := cpuLoop_lines clock s.lines s.no_cpu hhost 0
    (rfl : (List.replicate 5 (none : Option CStr)).length = 5) (by rwa [Nat.zero_add]) h (s.text.dropLast.length + 1) (by
      rw [hlast, List.length_append]
      omega)
  rw [Nat.zero_add] at hnr
  have hkey := nrcpu_fits hhost
  have hdigits : (decimal (if s.processors = 0 then 1 else s.processors)).length < nrCpuSize :=
    Nat.lt_succ_of_le (length_decimalFrom 2 _ _ (by split <;> omega))
  obtain ⟨db', hset, h'⟩ :=
    setFigure_stores hstate hkey (decimal (if s.processors = 0 then 1 else s.processors)) (clock last.k)
  refine ⟨db', ?_, ?_⟩
  · rw [← hlast] at hloop
    rw [← Stat.processors] at hnr
    simp only [hloop, ok_bind, hnr, sprintf_ok hkey.2, sprintf_ok hdigits]
    exact hset
  · rw [Stat.figures, withFigures_append]
    exact h'

/-- After the figures have been collected, each printed figure is found under its key. If
two lines have the same name, it is the figure of the last. -/
theorem dynamic_values_collected (clock : Nat → Nat → Int) (r : Report) (hsmall : r.Small) :
    ∃ db', cscSetDynamicValues .linear clock hostname r.files db = .ok db' ∧
      InState db' ⟨withFigures hostname m r.figures, false⟩ ∧
      ∀ before suffix value after, r.figures = before ++ (suffix, value) :: after → (∀ f ∈ after, f.1 ≠ suffix) →
        ∃ db'', csdbGetValueForKey .linear db' (nodeReqKey hostname suffix) = .ok (0, some value, db'') := by
  obtain ⟨ret₁, db₁, hload, h₁⟩ := cscSetLoad_stores (clock 0) hhost h r.loadavg hsmall.loadavg
  obtain ⟨ret₂, db₂, huptime, h₂⟩ := cscSetUptime_stores (clock 1) hhost h₁ r.uptime hsmall.uptime
  obtain ⟨ret₃, db₃, hmem, h₃⟩ := cscSetMem_stores (clock 2) hhost h₂ r.meminfo hsmall.meminfo
  obtain ⟨ret₄, db', hcpu, h'⟩ := cscSetCpu_stores (clock 3) hhost h₃ r.stat hsmall.stat
  have hfigures : InState db' ⟨withFigures hostname m r.figures, false⟩ := by
    simpa only [Report.figures, withFigures_append] using h'
  refine ⟨db', ?_, hfigures, fun before suffix value after hsplit hlast => ?_⟩
  · simp only [cscSetDynamicValues, Report.files, hload, huptime, hmem, hcpu, ok_bind]
  · have hkeys := Report.fits hsmall hhost
    rw [hsplit] at hkeys hfigures
    have hkey := hkeys (suffix, value) (by simp)
    have hvalue : (withFigures hostname m (before ++ (suffix, value) :: after)).bound
        (keyPath (nodeReqKey hostname suffix)) = some (some value) := by
      rw [withFigures_append]
      refine withFigures_bound after ?_ fun f hf hpath => ?_
      · rw [PathMap.set_bound, if_pos rfl]
      · have hf' := hkeys f (by simp [hf])
        exact hlast f hf (nodeReqKey_inj (keyPath_inj hf'.valid hkey.valid hpath))
    obtain ⟨hfree, t, hholds, hmodels⟩ := hfigures
    have hget := getValue_refines hholds (bounded_linear t) hfree hmodels ⟨_, hkey.valid⟩
    rw [ValidKey.path, hvalue] at hget
    exact ⟨_, hget⟩

end Report

def printed (cs : List Char) (hne : lit cs ≠ []) (hplain : (lit cs).all (!isspace ·) = true)
    (hfits : (lit cs).length < figureSize) : Figured :=
  ⟨lit cs, hne, word_of_all hplain, hfits⟩

def cpuLine (name user : List Char) (hcpu : cpu <+: lit name) (hname : (lit name).all (!isspace ·) = true)
    (hfits : (lit name).length < figureSize) (huser : lit user ≠ []) (hplain : (lit user).all (!isspace ·) = true)
    (huserFits : (lit user).length < figureSize) : CpuLine where
  name := printed name (fun h => by rw [h] at hcpu; cases List.prefix_nil.mp hcpu) hname hfits
  user := printed user huser hplain huserFits
  nice := printed ['0'] (List.cons_ne_nil _ _) rfl (by decide)
  sys := printed ['4', '2'] (List.cons_ne_nil _ _) rfl (by decide)
  idle := printed ['1', '0', '4'] (List.cons_ne_nil _ _) rfl (by decide)
  pad := 0
  rest := []
  cpu_name := hcpu
  rest_space := fun c hc => by cases hc
  rest_line := fun hmem => by cases hmem

def twoProcessors : Report where
  loadavg := none
  uptime := some
    ⟨printed ['1', '2', '.', '9', '7'] (List.cons_ne_nil _ _) rfl (by decide),
      printed ['7', '.', '3'] (List.cons_ne_nil _ _) rfl (by decide)⟩
  meminfo := none
  stat := some
    { lines :=
        [cpuLine ['c', 'p', 'u'] ['5'] ⟨[], rfl⟩ rfl (by decide) (List.cons_ne_nil _ _) rfl (by decide),
          cpuLine ['c', 'p', 'u', '0'] ['3'] ⟨_, rfl⟩ rfl (by decide) (List.cons_ne_nil _ _) rfl (by decide),
          cpuLine ['c', 'p', 'u', '1'] ['2'] ⟨_, rfl⟩ rfl (by decide) (List.cons_ne_nil _ _) rfl (by decide)]
      rest := lit ['p', 'a', 'g', 'e']
      rest_ne := List.cons_ne_nil _ _
      no_cpu := rfl }

theorem dynamic_values_collected_two : ∃ db db' db'', csdbInit 0 = .ok db ∧
    cscSetDynamicValues .linear (fun _ _ => 0) (lit ['a']) twoProcessors.files db = .ok db' ∧
      csdbGetValueForKey .linear db' (nodeReqKey (lit ['a']) nrcpuSuffix) = .ok (0, some (lit ['2']), db'') := by
  obtain ⟨db, hinit, hholds, hfree⟩ := csdbInit_spec .linear 0
  have hsmall : twoProcessors.Small :=
    { loadavg := fun l hl => by cases hl
      uptime := fun u hu => by cases hu; decide
      meminfo := fun i hi => by cases hi
      stat := fun s hs => by cases hs; decide }
  have hhost : (lit ['a']).length ≤ longestHostname := by decide
  have h : InState db ⟨.init, false⟩ := ⟨hfree, _, hholds, .init 0⟩
  obtain ⟨db', hrun, -, hvalue⟩ := dynamic_values_collected hhost h (fun _ _ => 0) twoProcessors hsmall
  obtain ⟨db'', hget⟩ := hvalue twoProcessors.figures.dropLast nrcpuSuffix (lit ['2']) [] rfl (fun f hf => by cases hf)
  exact ⟨db, db', db'', hinit, hrun, hget⟩

end Dkmp.Csd
