import Dkmp.Csd.DefReq
import Dkmp.Csd.Serve
import Dkmp.Csda.Decimal
import Dkmp.Machine.Scanf

/-! # Collecting the figures of the node

`csc_set_dynamic_values` reads four files of the kernel, takes the figures out of them
with `sscanf`, and stores each under its key. What the kernel prints into the files is
what the database has afterwards, for any number of processors, and nothing else changes.
-/

namespace Dkmp.Csd

open Machine Csdb Csp Csc Csda

/-! ## Reading a file of the kernel -/

def procSize : Nat := 4096

/-- The file without its last character. `none` stands for a file that cannot be opened;
of a file that fills the buffer, one byte behind it is read too. -/
def cscGetProcval (file : Option CStr) : Exec (Int × Option CStr) :=
  match file with
  | none => .ok (-1, none)
  | some text =>
      if text = [] ∨ procSize ≤ text.length then .error .bounds
      else .ok (0, some text.dropLast)

/-- The size of the arrays that `sscanf` fills. -/
def figureSize : Nat := 20

def sscanfStrings (words : List CStr) : Exec (List CStr) := words.mapM (sprintf figureSize)

/-! ## Storing figures -/

/-- `sprintf(key, ".node.%s..", hostname); csdb_set_value_for_key(key, value);`. An array
in which nothing has been stored has no value. -/
def setFigure (b : Search) (now : Int) (hostname suffix : CStr) (value : Option CStr) (db : Database) :
    Exec Database := do
  let key ← sprintf ksize (nodeReqKey hostname suffix)
  match value with
  | none => .error .uninit
  | some value => do
      let (_, db) ← csdbSetValueForKey b db key (some value) now
      .ok db

def setFigures (b : Search) (clock : Nat → Int) (hostname : CStr) :
    Nat → List (CStr × Option CStr) → Database → Exec Database
  | _, [], db => .ok db
  | k, (suffix, value) :: figures, db => do
      let db ← setFigure b (clock k) hostname suffix value db
      setFigures b clock hostname (k + 1) figures db

def withProcval (file : Option CStr) (db : Database) (f : CStr → Exec Database) : Exec (Int × Database) := do
  let (error, text) ← cscGetProcval file
  match text with
  | none => .ok (error, db)
  | some text => do
      let db ← f text
      .ok (0, db)

/-! ### The load -/

def loadFormat : List (Directive CChar) :=
  [.word, .blank, .word, .blank, .word, .blank, .run none (lit ['/']) true, .run (some 1) [space] false, .word,
    .blank, .word]

def loadSuffix (name : List Char) : CStr := lit (['.', 'l', 'o', 'a', 'd', '.'] ++ name)

def cscSetLoad (b : Search) (clock : Nat → Int) (hostname : CStr) (file : Option CStr) (db : Database) :
    Exec (Int × Database) :=
  withProcval file db fun loadavg => do
    let words ← sscanfStrings (sscanf isspace loadFormat loadavg)
    setFigures b clock hostname 0
      [(loadSuffix ['a', 'v', 'g', '1'], words[0]?),
        (loadSuffix ['a', 'v', 'g', '5'], words[1]?),
        (loadSuffix ['a', 'v', 'g', '1', '5'], words[2]?),
        (loadSuffix ['n', 'o', 'p'], words[4]?),
        (loadSuffix ['a', 'c', 't', 'i', 'v', 'e'], words[3]?),
        (loadSuffix ['l', 'a', 's', 't', 'p', 'i', 'd'], words[5]?)] db

/-! ### The uptime -/

def uptimeFormat : List (Directive CChar) := [.word, .blank, .word]

def uptimeSuffix (name : List Char) : CStr := lit (['.', 'u', 'p', 't', 'i', 'm', 'e', '.'] ++ name)

def cscSetUptime (b : Search) (clock : Nat → Int) (hostname : CStr) (file : Option CStr) (db : Database) :
    Exec (Int × Database) :=
  withProcval file db fun uptime => do
    let words ← sscanfStrings (sscanf isspace uptimeFormat uptime)
    setFigures b clock hostname 0
      [(uptimeSuffix ['s', 'r', 'e', 'b', 'o', 'o', 't'], words[0]?),
        (uptimeSuffix ['i', 'd', 'l', 'e'], words[1]?)] db

/-! ### The memory -/

/-- `"%*[^\n] Mem: %s %s %s %s %s %s%*[^S] Swap: %s  %s %s %*[^\n]"`. -/
def memFormat : List (Directive CChar) :=
  .run none [newline] false :: .blank :: (literals (lit ['M', 'e', 'm', ':']) ++
    ([.blank, .word, .blank, .word, .blank, .word, .blank, .word, .blank, .word, .blank, .word,
      .run none (lit ['S']) false, .blank] ++
    (literals (lit ['S', 'w', 'a', 'p', ':']) ++
      [.blank, .word, .blank, .word, .blank, .word, .blank, .run none [newline] false])))

def memSuffix (name : List Char) : CStr := lit (['.', 'm', 'e', 'm', '.'] ++ name)

def cscSetMem (b : Search) (clock : Nat → Int) (hostname : CStr) (file : Option CStr) (db : Database) :
    Exec (Int × Database) :=
  withProcval file db fun mem => do
    let words ← sscanfStrings (sscanf isspace memFormat mem)
    setFigures b clock hostname 0
      [(memSuffix ['t', 'o', 't', 'a', 'l'], words[0]?),
        (memSuffix ['u', 's', 'e', 'd'], words[1]?),
        (memSuffix ['f', 'r', 'e', 'e'], words[2]?),
        (memSuffix ['s', 'h', 'a', 'r', 'e', 'd'], words[3]?),
        (memSuffix ['b', 'u', 'f', 'f', 'e', 'r', 's'], words[4]?),
        (memSuffix ['c', 'a', 'c', 'h', 'e', 'd'], words[5]?),
        (memSuffix ['s', 'w', 'a', 'p', 't', 'o', 't', 'a', 'l'], words[6]?),
        (memSuffix ['s', 'w', 'a', 'p', 'u', 's', 'e', 'd'], words[7]?),
        (memSuffix ['s', 'w', 'a', 'p', 'f', 'r', 'e', 'e'], words[8]?)] db

/-! ### The processors -/

def strstr (s pattern : CStr) : Option CStr :=
  match s with
  | [] => if pattern = [] then some [] else none
  | c :: s => if pattern.isPrefixOf (c :: s) then some (c :: s) else strstr s pattern

def cpu : CStr := lit ['c', 'p', 'u']

def cpuFormat : List (Directive CChar) :=
  [.word, .blank, .word, .blank, .word, .blank, .word, .blank, .word]

def cpuSuffix (cpuString : CStr) (name : List Char) : CStr :=
  lit ['.', 'c', 'p', 'u', '.'] ++ (cpuString ++ dot :: lit name)

def nrcpuSuffix : CStr := lit (['.', 'c', 'p', 'u', '.'] ++ ['n', 'r', 'c', 'p', 'u'])

/-- `words` are the arrays `cpuname`, `user`, `nice`, `sys` and `idle`. -/
structure CpuState where
  k : Nat
  cpuPtr : CStr
  words : List (Option CStr)
  nrCpu : Nat
  db : Database

def cpuStringSize : Nat := 5
def nrCpuSize : Nat := 4

/-- The line of all processors has the shortest name; the others are numbered as they
come. -/
def cpuString (cpuname : CStr) (nrCpu : Nat) : Exec (CStr × Nat) :=
  if cpuname.length ≤ 3 then .ok (lit ['a', 'l', 'l'], nrCpu)
  else do
    let cpuString ← sprintf cpuStringSize (decimal nrCpu)
    .ok (cpuString, nrCpu + 1)

def cpuBody (b : Search) (clock : Nat → Int) (hostname : CStr) (s : CpuState) : Exec (CpuState ⊕ CpuState) :=
  match strstr s.cpuPtr cpu with
  | none => .ok (.inr s)
  | some cpuPtr =>
      match strchr cpuPtr newline with
      | none => .error .null
      | some cpuPtrEnd => do
          let scanned ← sscanfStrings (sscanf isspace cpuFormat (cpuPtr.takeWhile (· ≠ newline)))
          let words := scanned.map some ++ s.words.drop scanned.length
          match words[0]?.join with
          | none => .error .uninit
          | some cpuname => do
              let (cpuString, nrCpu) ← cpuString cpuname s.nrCpu
              let db ← setFigures b clock hostname s.k
                [(cpuSuffix cpuString ['u', 's', 'e', 'r'], words[1]?.join),
                  (cpuSuffix cpuString ['n', 'i', 'c', 'e'], words[2]?.join),
                  (cpuSuffix cpuString ['s', 'y', 's'], words[3]?.join),
                  (cpuSuffix cpuString ['i', 'd', 'l', 'e'], words[4]?.join)] s.db
              .ok (.inl ⟨s.k + 4, cpuPtrEnd.tail, words, nrCpu, db⟩)

/-- Without a numbered line there is one processor. -/
def cscSetCpu (b : Search) (clock : Nat → Int) (hostname : CStr) (file : Option CStr) (db : Database) :
    Exec (Int × Database) :=
  withProcval file db fun text => do
    let s ← loop (cpuBody b clock hostname) (text.length + 1) ⟨0, text, List.replicate 5 none, 0, db⟩
    let nrCpu := if s.nrCpu = 0 then 1 else s.nrCpu
    let _ ← sprintf ksize (nodeReqKey hostname nrcpuSuffix)
    let nrCpuS ← sprintf nrCpuSize (decimal nrCpu)
    setFigure b (clock s.k) hostname nrcpuSuffix (some nrCpuS) s.db

/-! ### All four -/

structure ProcFiles where
  loadavg : Option CStr
  uptime : Option CStr
  meminfo : Option CStr
  stat : Option CStr

/-- What the four functions return is not looked at. -/
def cscSetDynamicValues (b : Search) (clock : Nat → Nat → Int) (hostname : CStr) (files : ProcFiles)
    (db : Database) : Exec Database := do
  let (_, db) ← cscSetLoad b (clock 0) hostname files.loadavg db
  let (_, db) ← cscSetUptime b (clock 1) hostname files.uptime db
  let (_, db) ← cscSetMem b (clock 2) hostname files.meminfo db
  let (_, db) ← cscSetCpu b (clock 3) hostname files.stat db
  .ok db

end Dkmp.Csd
