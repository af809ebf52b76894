import Dkmp.Machine.CString

/-! # Database keys

A key is a dot followed by names separated by dots; the key `.` alone is the
root. `csdbParseKey` is the state machine of the source, with its two positions
in the key and its token state. On every valid key it returns what splitting
the key at the dots gives.
-/

namespace Dkmp.Csdb

open Machine

def csdbIsValidKey (key : CStr) : Bool :=
  (key[0]? = some dot ∧ key[key.length - 1]? ≠ some dot) ∨ (key[0]? = some dot ∧ key.length = 1)

def csdbCheckKey (key : CStr) : Int × Nat :=
  let nofDelims := key.count dot
  if nofDelims = 0 ∨ ¬ csdbIsValidKey key then (-1, nofDelims) else (0, nofDelims)

inductive TokenState where
  | notInToken
  | inToken
deriving DecidableEq, Repr

structure ParseState where
  c : Nat
  start : Nat
  state : TokenState
  keys : List CStr
deriving DecidableEq, Repr

/-- One iteration of the `while(*c != '\0')` loop; a position at the end of the
key reads the terminator. -/
def parseBody (key : CStr) (s : ParseState) : Exec (ParseState ⊕ List CStr) :=
  match key[s.c]? with
  | none => .ok (.inr s.keys)
  | some ch =>
      match s.state with
      | .notInToken =>
          if ch = dot then
            .ok (.inl { s with c := s.c + 1, start := s.start + 1, state := .inToken })
          else .ok (.inl s)
      | .inToken =>
          let c := if ch ≠ dot then s.c + 1 else s.c
          if key[c]? = some dot ∨ key[c]? = none then
            let name := (key.drop s.start).take (c - s.start)
            .ok (.inl ⟨c, c, .notInToken, s.keys ++ [name]⟩)
          else .ok (.inl { s with c := c })

def csdbParseKeyFuel (fuel : Nat) (key : CStr) : Exec (Option (List CStr)) :=
  let nofDelims := (csdbCheckKey key).2
  if nofDelims = 0 then .ok none
  else if nofDelims = 1 ∧ key.length = 1 then .ok (some [key])
  else (loop (parseBody key) fuel ⟨0, 0, .notInToken, []⟩).map some

/-- The key parts, or `NULL` for a key without delimiter. The loop has two token
states for each position, so it ends within this many iterations or never. -/
def csdbParseKey (key : CStr) : Exec (Option (List CStr)) :=
  csdbParseKeyFuel (2 * key.length + 2) key

/-! ## Component paths -/

/-- The path a key denotes: its parts between the dots. -/
def keyPath (key : CStr) : List CStr :=
  if key = [dot] then [] else (key.splitOn dot).tail

def pathKey (path : List CStr) : CStr := path.flatMap (dot :: ·)

@[simp] theorem pathKey_nil : pathKey [] = [] := rfl

@[simp] theorem pathKey_cons (name : CStr) (path : List CStr) :
    pathKey (name :: path) = dot :: (name ++ pathKey path) := rfl

theorem pathKey_append (p q : List CStr) : pathKey (p ++ q) = pathKey p ++ pathKey q := by
  simp [pathKey]

structure IsPath (path : List CStr) : Prop where
  ne_nil : path ≠ []
  no_dot : ∀ name ∈ path, dot ∉ name
  last_ne_nil : path.getLast? ≠ some []

theorem csdbIsValidKey_iff {key : CStr} :
    csdbIsValidKey key = true ↔
      key = [dot] ∨ ∃ rest, key = dot :: rest ∧ rest ≠ [] ∧ rest.getLast? ≠ some dot := by
  cases key with
  | nil => simp [csdbIsValidKey]
  | cons a rest =>
      cases rest with
      | nil => simp [csdbIsValidKey]
      | cons b rest =>
          have hlast : (a :: b :: rest)[(a :: b :: rest).length - 1]? = (b :: rest).getLast? := by
            rw [List.getLast?_eq_getElem?]
            rfl
          simp only [csdbIsValidKey, hlast]
          simp

theorem splitOn_dot_cons (rest : CStr) : (dot :: rest).splitOn dot = [] :: rest.splitOn dot := by
  have h : ([] ++ dot :: rest : CStr).splitOn dot = [] :: rest.splitOn dot :=
    List.splitOn_append_cons_self_of_not_mem (by simp) rest
  simpa using h

theorem pathKey_splitOn (rest : CStr) : pathKey (rest.splitOn dot) = dot :: rest := by
  induction rest with
  | nil => simp
  | cons x rest ih =>
      by_cases hx : x = dot
      · subst hx
        rw [splitOn_dot_cons, pathKey_cons, ih]
        rfl
      · rw [List.splitOn_cons_eq_if_modifyHead, if_neg (by rwa [beq_iff_eq])]
        cases hs : rest.splitOn dot with
        | nil => exact absurd hs (List.splitOn_ne_nil dot rest)
        | cons n ns =>
            rw [hs, pathKey_cons] at ih
            simpa using (List.cons.inj ih).2

theorem splitOn_no_dot (rest : CStr) : ∀ name ∈ rest.splitOn dot, dot ∉ name := by
  induction rest with
  | nil => simp
  | cons x rest ih =>
      by_cases hx : x = dot
      · subst hx
        rw [splitOn_dot_cons]
        simpa using ih
      · rw [List.splitOn_cons_eq_if_modifyHead, if_neg (by rwa [beq_iff_eq])]
        cases hs : rest.splitOn dot with
        | nil => simp
        | cons n ns =>
            rw [hs] at ih
            simp only [List.mem_cons, forall_eq_or_imp] at ih
            simpa [Ne.symm hx] using ih

theorem splitOn_pathKey (name : CStr) (path : List CStr) (hname : dot ∉ name)
    (hpath : ∀ n ∈ path, dot ∉ n) : (name ++ pathKey path).splitOn dot = name :: path := by
  induction path generalizing name with
  | nil => simpa using List.splitOn_eq_singleton hname
  | cons n path ih =>
      rw [pathKey_cons, List.splitOn_append_cons_self_of_not_mem hname,
        ih n (hpath n (by simp)) (fun m hm => hpath m (by simp [hm]))]

theorem pathKey_getLast? {path : List CStr} (h : IsPath path) :
    (pathKey path).getLast? ≠ some dot := by
  obtain ⟨init, name, rfl⟩ := (List.eq_nil_or_concat path).resolve_left h.ne_nil
  have hname : name ≠ [] := by simpa using h.last_ne_nil
  have hdot := h.no_dot name (by simp)
  rw [List.concat_eq_append, pathKey_append]
  simp only [pathKey_cons, pathKey_nil, List.append_nil]
  rw [List.getLast?_append, List.getLast?_cons_of_ne_nil hname]
  intro hl
  cases hn : name.getLast? with
  | none => exact hname (List.getLast?_eq_none_iff.mp hn)
  | some c =>
      rw [hn, Option.some_or, Option.some.injEq] at hl
      exact hdot (hl ▸ List.mem_of_getLast? hn)

/-- A valid key other than the root spells its path. -/
theorem keyPath_valid {key : CStr} (hv : csdbIsValidKey key = true) (hk : key ≠ [dot]) :
    IsPath (keyPath key) ∧ pathKey (keyPath key) = key := by
  obtain rfl | ⟨rest, rfl, hne, hlast⟩ := csdbIsValidKey_iff.mp hv
  · exact absurd rfl hk
  have hpath : keyPath (dot :: rest) = rest.splitOn dot := by
    rw [keyPath, if_neg hk, splitOn_dot_cons, List.tail_cons]
  rw [hpath]
  refine ⟨⟨List.splitOn_ne_nil dot rest, splitOn_no_dot rest, ?_⟩, pathKey_splitOn rest⟩
  intro hl
  obtain ⟨init, hinit⟩ := List.getLast?_eq_some_iff.mp hl
  have hkey := pathKey_splitOn rest
  rw [hinit, pathKey_append] at hkey
  apply hlast
  have : (dot :: rest).getLast? = some dot := by rw [← hkey]; simp
  rwa [List.getLast?_cons_of_ne_nil hne] at this

theorem keyPath_reverse_cons {key : CStr} (hv : csdbIsValidKey key = true) (hk : key ≠ [dot]) :
    ∃ n p, (keyPath key).reverse = n :: p := by
  have hne := (keyPath_valid hv hk).1.ne_nil
  exact List.exists_cons_of_ne_nil fun hnil => hne (List.reverse_eq_nil_iff.mp hnil)

theorem keyPath_pathKey {path : List CStr} (h : IsPath path) : keyPath (pathKey path) = path := by
  have hroot : pathKey path ≠ [dot] := by
    intro he
    exact pathKey_getLast? h (by rw [he]; rfl)
  rw [keyPath, if_neg hroot]
  cases path with
  | nil => exact absurd rfl h.ne_nil
  | cons name path =>
      rw [pathKey_cons, splitOn_dot_cons, List.tail_cons]
      exact splitOn_pathKey name path (h.no_dot name (by simp))
        (fun n hn => h.no_dot n (by simp [hn]))

theorem pathKey_valid {path : List CStr} (h : IsPath path) :
    csdbIsValidKey (pathKey path) = true ∧ pathKey path ≠ [dot] := by
  have hlast := pathKey_getLast? h
  have hroot : pathKey path ≠ [dot] := by
    intro he
    exact hlast (by rw [he]; rfl)
  refine ⟨csdbIsValidKey_iff.mpr (Or.inr ?_), hroot⟩
  cases path with
  | nil => exact absurd rfl h.ne_nil
  | cons name path =>
      have hne : name ++ pathKey path ≠ [] := by
        intro he
        exact hroot (by rw [pathKey_cons, he])
      exact ⟨_, rfl, hne, by rwa [pathKey_cons, List.getLast?_cons_of_ne_nil hne] at hlast⟩

theorem csdbIsValidKey_append (first : CStr) {last : CStr} (hne : last ≠ []) (hdot : dot ∉ last) :
    csdbIsValidKey (dot :: (first ++ last)) = true := by
  refine csdbIsValidKey_iff.mpr (Or.inr ⟨first ++ last, rfl, by simp [hne], ?_⟩)
  intro hl
  rw [List.getLast?_append_of_ne_nil first hne] at hl
  exact hdot (List.mem_of_getLast? hl)

theorem pairKey_valid {first second : CStr} (hfirst : dot ∉ first) (hsecond : dot ∉ second)
    (hne : second ≠ []) :
    csdbIsValidKey (dot :: (first ++ dot :: second)) = true ∧
      dot :: (first ++ dot :: second) ≠ [dot] ∧
      keyPath (dot :: (first ++ dot :: second)) = [first, second] := by
  have hpath : IsPath [first, second] := by
    refine ⟨by simp, ?_, by simpa using hne⟩
    intro name hname
    rcases List.mem_cons.mp hname with rfl | hname
    · exact hfirst
    · rwa [List.mem_singleton.mp hname]
  have hkey : pathKey [first, second] = dot :: (first ++ dot :: second) := by simp
  rw [← hkey]
  exact ⟨(pathKey_valid hpath).1, (pathKey_valid hpath).2, keyPath_pathKey hpath⟩

theorem nestedKey_valid {first last : CStr} (name : CStr) (hfirst : dot ∉ first) (hlast : dot ∉ last)
    (hne : last ≠ []) :
    csdbIsValidKey (dot :: (first ++ dot :: (name ++ dot :: last))) = true ∧
      keyPath (dot :: (first ++ dot :: (name ++ dot :: last))) =
        first :: (name.splitOn dot ++ [last]) := by
  have hpath : IsPath (first :: (name.splitOn dot ++ [last])) := by
    refine ⟨by simp, ?_, ?_⟩
    · intro part hpart
      simp only [List.mem_cons, List.mem_append, List.not_mem_nil, or_false] at hpart
      rcases hpart with rfl | hpart | rfl
      · exact hfirst
      · exact splitOn_no_dot name part hpart
      · exact hlast
    · rw [← List.cons_append, List.getLast?_concat]
      simpa using hne
  have hkey : pathKey (first :: (name.splitOn dot ++ [last])) =
      dot :: (first ++ dot :: (name ++ dot :: last)) := by
    rw [pathKey_cons, pathKey_append, pathKey_splitOn]
    simp
  rw [← hkey]
  exact ⟨(pathKey_valid hpath).1, keyPath_pathKey hpath⟩

/-- A valid key is determined by its path. -/
theorem keyPath_inj {key key' : CStr} (hv : csdbIsValidKey key = true)
    (hv' : csdbIsValidKey key' = true) (h : keyPath key = keyPath key') : key = key' := by
  by_cases hk : key = [dot]
  · by_cases hk' : key' = [dot]
    · rw [hk, hk']
    · rw [hk] at h
      exact absurd h.symm (keyPath_valid hv' hk').1.ne_nil
  · by_cases hk' : key' = [dot]
    · rw [hk'] at h
      exact absurd h (keyPath_valid hv hk).1.ne_nil
    · rw [← (keyPath_valid hv hk).2, ← (keyPath_valid hv' hk').2, h]

/-! ## The parser reads the path -/

theorem parseBody_end {key : CStr} {s : ParseState} (h : key.length ≤ s.c) :
    parseBody key s = .ok (.inr s.keys) := by
  simp [parseBody, List.getElem?_eq_none h]

/-- At a delimiter outside a token the machine enters the token behind it. -/
theorem parseBody_delim (pre rest : CStr) (keys : List CStr) :
    parseBody (pre ++ dot :: rest) ⟨pre.length, pre.length, .notInToken, keys⟩ =
      .ok (.inl ⟨pre.length + 1, pre.length + 1, .inToken, keys⟩) := by
  simp [parseBody]

theorem parse_token_empty (pre rest : CStr) (keys : List CStr) (fuel : Nat) :
    loop (parseBody (pre ++ dot :: rest)) (fuel + 1) ⟨pre.length, pre.length, .inToken, keys⟩ =
      loop (parseBody (pre ++ dot :: rest)) fuel
        ⟨pre.length, pre.length, .notInToken, keys ++ [[]]⟩ := by
  apply loop_next
  simp [parseBody]

/-- Inside a token of which `tok` has been read, the machine reads the rest `w`
of it and stores the whole token at its end. -/
theorem parse_token (pre tok w rest : CStr) (keys : List CStr) (fuel : Nat) (hw : w ≠ [])
    (hdot : dot ∉ w) (hrest : rest = [] ∨ rest.head? = some dot) :
    loop (parseBody (pre ++ (tok ++ (w ++ rest)))) (fuel + w.length)
        ⟨pre.length + tok.length, pre.length, .inToken, keys⟩ =
      loop (parseBody (pre ++ (tok ++ (w ++ rest)))) fuel
        ⟨pre.length + tok.length + w.length, pre.length + tok.length + w.length,
          .notInToken, keys ++ [tok ++ w]⟩ := by
  induction w generalizing tok with
  | nil => exact absurd rfl hw
  | cons x w ih =>
      have hx : x ≠ dot := by rintro rfl; simp at hdot
      have hch : (pre ++ (tok ++ (x :: w ++ rest)))[pre.length + tok.length]? = some x := by
        simp
      have hnext : (pre ++ (tok ++ (x :: w ++ rest)))[pre.length + tok.length + 1]? =
          (w ++ rest).head? := by
        rw [List.getElem?_append_right (by omega), List.getElem?_append_right (by omega)]
        cases w <;> cases rest <;> simp [show pre.length + tok.length + 1 - pre.length - tok.length = 1 by omega]
      cases w with
      | nil =>
          apply loop_next
          have hname : ((pre ++ (tok ++ ([x] ++ rest))).drop pre.length).take
              (pre.length + tok.length + 1 - pre.length) = tok ++ [x] := by
            have hlen : tok.length + 1 = (tok ++ [x]).length := by simp
            rw [List.drop_left, Nat.add_assoc, Nat.add_sub_cancel_left, ← List.append_assoc, hlen,
              List.take_left]
          have hend : (([] : CStr) ++ rest).head? = some dot ∨ (([] : CStr) ++ rest).head? = none := by
            rcases hrest with rfl | h
            · exact Or.inr rfl
            · exact Or.inl h
          simp only [parseBody, hch, hx, ne_eq, not_false_eq_true, if_true, hnext, hname,
            if_pos hend, List.length_singleton]
      | cons y w =>
          have hy : y ≠ dot := by rintro rfl; simp at hdot
          have hstep : parseBody (pre ++ (tok ++ (x :: y :: w ++ rest)))
              ⟨pre.length + tok.length, pre.length, .inToken, keys⟩ =
              .ok (.inl ⟨pre.length + tok.length + 1, pre.length, .inToken, keys⟩) := by
            simp only [parseBody, hch, hx, ne_eq, not_false_eq_true, if_true, hnext]
            simp [hy]
          rw [show fuel + (x :: y :: w).length = fuel + (y :: w).length + 1 by simp; omega,
            loop_next hstep]
          have := ih (tok ++ [x]) (by simp) (fun h => hdot (by simp [h]))
          simpa [Nat.add_assoc, Nat.add_comm 1, Nat.add_left_comm 1] using this

/-- What the parser keeps of the parts between the dots: an empty part at the end
is not a token. -/
def readParts : List CStr → List CStr
  | [] => []
  | [] :: [] => []
  | name :: path => name :: readParts path

theorem readParts_cons_cons (name n : CStr) (path : List CStr) :
    readParts (name :: n :: path) = name :: readParts (n :: path) := by
  cases name <;> rfl

theorem readParts_cons (x : CChar) (name : CStr) (path : List CStr) :
    readParts ((x :: name) :: path) = (x :: name) :: readParts path := rfl

theorem readParts_eq {path : List CStr} (h : path.getLast? ≠ some []) : readParts path = path := by
  induction path with
  | nil => rfl
  | cons name path ih =>
      cases path with
      | nil =>
          cases name with
          | nil => simp at h
          | cons x name => rfl
      | cons n path =>
          rw [List.getLast?_cons_cons] at h
          rw [readParts_cons_cons, ih h]

theorem readParts_front (path : List CStr) : readParts path <+: path := by
  fun_induction readParts path with
  | case1 => exact List.prefix_rfl
  | case2 => exact List.nil_prefix
  | case3 name path _ ih => exact (List.prefix_cons_inj name).mpr ih

theorem readParts_subset (path : List CStr) : readParts path ⊆ path :=
  (readParts_front path).subset

theorem parse_path (pre : CStr) (path : List CStr) (keys : List CStr) (fuel : Nat)
    (hdot : ∀ name ∈ path, dot ∉ name) (hfuel : 2 * (pathKey path).length < fuel) :
    loop (parseBody (pre ++ pathKey path)) fuel ⟨pre.length, pre.length, .notInToken, keys⟩ =
      .ok (keys ++ readParts path) := by
  induction path generalizing pre keys fuel with
  | nil =>
      obtain ⟨fuel, rfl⟩ : ∃ f, fuel = f + 1 := ⟨fuel - 1, by omega⟩
      rw [loop_exit (parseBody_end (by simp)), readParts, List.append_nil]
  | cons name path ih =>
      simp only [pathKey_cons, List.length_cons, List.length_append] at hfuel
      have hdot' : ∀ n ∈ path, dot ∉ n := fun n hn => hdot n (by simp [hn])
      obtain ⟨fuel, rfl⟩ : ∃ f, fuel = f + 1 := ⟨fuel - 1, by omega⟩
      rw [pathKey_cons, loop_next (parseBody_delim pre _ keys)]
      have hpre : (pre ++ [dot]).length = pre.length + 1 := by simp
      cases name with
      | nil =>
          -- an empty name: the next character is the delimiter of the next one, or the end
          cases path with
          | nil =>
              obtain ⟨fuel, rfl⟩ : ∃ f, fuel = f + 1 := ⟨fuel - 1, by omega⟩
              rw [loop_exit (parseBody_end (by simp)), readParts, List.append_nil]
          | cons n path =>
              obtain ⟨fuel, rfl⟩ : ∃ f, fuel = f + 1 := ⟨fuel - 1, by omega⟩
              have hstep := parse_token_empty (pre ++ [dot]) (n ++ pathKey path) keys fuel
              have hrec := ih (pre ++ [dot]) (keys ++ [[]]) fuel hdot' (by omega)
              simp only [pathKey_cons, hpre, List.append_assoc, List.cons_append,
                List.nil_append] at hstep hrec ⊢
              rw [hstep, hrec, readParts_cons_cons]
      | cons x name =>
          obtain ⟨fuel, rfl⟩ : ∃ f, fuel = f + (x :: name).length :=
            ⟨fuel - (x :: name).length, by simp only [List.length_cons] at hfuel ⊢; omega⟩
          have hrest : pathKey path = [] ∨ (pathKey path).head? = some dot := by
            cases path <;> simp
          have hstep := parse_token (pre ++ [dot]) [] (x :: name) (pathKey path) keys fuel
            (by simp) (hdot _ (by simp)) hrest
          have hrec := ih (pre ++ dot :: x :: name) (keys ++ [x :: name]) fuel hdot'
            (by simp only [List.length_cons] at hfuel; omega)
          have hlen : (pre ++ dot :: x :: name).length = pre.length + 1 + (x :: name).length := by
            simp; omega
          simp only [hpre, hlen, List.nil_append, List.length_nil, Nat.add_zero,
            List.append_assoc, List.cons_append] at hstep hrec ⊢
          rw [hstep, hrec, readParts_cons]

theorem csdbCheckKey_snd (key : CStr) : (csdbCheckKey key).2 = key.count dot := by
  simp only [csdbCheckKey]
  split <;> rfl

theorem csdbParseKey_root : csdbParseKey [dot] = .ok (some [[dot]]) := by decide

theorem csdbParseKey_dot {rest : CStr} (hne : rest ≠ []) :
    csdbParseKey (dot :: rest) = .ok (some (readParts (rest.splitOn dot))) := by
  have hcount : (csdbCheckKey (dot :: rest)).2 ≠ 0 := by
    rw [csdbCheckKey_snd]
    simp
  have hlen : ¬ ((csdbCheckKey (dot :: rest)).2 = 1 ∧ (dot :: rest).length = 1) := by
    rintro ⟨-, h⟩
    exact hne (by simpa using h)
  have hparse := parse_path [] (rest.splitOn dot) [] (2 * (dot :: rest).length + 2)
    (splitOn_no_dot rest) (by rw [pathKey_splitOn]; omega)
  simp only [List.nil_append, List.length_nil, pathKey_splitOn] at hparse
  simp only [csdbParseKey, csdbParseKeyFuel, if_neg hcount, if_neg hlen, hparse]
  rfl

theorem readParts_splitOn_ne_nil {rest : CStr} (hne : rest ≠ []) :
    readParts (rest.splitOn dot) ≠ [] := by
  have hkey := pathKey_splitOn rest
  match hs : rest.splitOn dot with
  | [] => exact absurd hs (List.splitOn_ne_nil dot rest)
  | [[]] =>
      rw [hs] at hkey
      exact absurd (List.cons.inj hkey).2.symm hne
  | (x :: name) :: path => simp [readParts_cons]
  | [] :: n :: path => simp [readParts_cons_cons]

/-- Of a valid key the parser keeps every part. -/
theorem readParts_valid {rest : CStr} (hv : csdbIsValidKey (dot :: rest) = true) (hne : rest ≠ []) :
    readParts (rest.splitOn dot) = keyPath (dot :: rest) := by
  have hk : dot :: rest ≠ [dot] := by simpa using hne
  have hpath := (keyPath_valid hv hk).1
  have hsplit : keyPath (dot :: rest) = rest.splitOn dot := by
    rw [keyPath, if_neg hk, splitOn_dot_cons, List.tail_cons]
  rw [hsplit] at hpath ⊢
  exact readParts_eq hpath.last_ne_nil

/-- On a valid key other than the root the parser returns its path. -/
theorem csdbParseKey_valid {key : CStr} (hv : csdbIsValidKey key = true) (hk : key ≠ [dot]) :
    csdbParseKey key = .ok (some (keyPath key)) := by
  obtain rfl | ⟨rest, rfl, hne, -⟩ := csdbIsValidKey_iff.mp hv
  · exact absurd rfl hk
  rw [csdbParseKey_dot hne, readParts_valid hv hne]

/-! ## Malformed keys -/

theorem csdbCheckKey_fst (key : CStr) :
    (csdbCheckKey key).1 = -1 ∨ (csdbCheckKey key).1 = 0 ∧ csdbIsValidKey key = true := by
  unfold csdbCheckKey
  dsimp only
  split
  · exact Or.inl rfl
  · rename_i hcheck
    rw [not_or, not_not] at hcheck
    exact Or.inr ⟨rfl, hcheck.2⟩

theorem csdbParseKey_no_dot {key : CStr} (hdot : dot ∉ key) (fuel : Nat) :
    csdbParseKeyFuel fuel key = .ok none := by
  have hcount : (csdbCheckKey key).2 = 0 := by
    rw [csdbCheckKey_snd]
    exact List.count_eq_zero.mpr hdot
  simp only [csdbParseKeyFuel, if_pos hcount]

/-- Outside a token the machine waits for a delimiter in front of it. -/
theorem csdbParseKey_stuck {c : CChar} {rest : CStr} (hc : c ≠ dot) (hdot : dot ∈ rest)
    (fuel : Nat) : csdbParseKeyFuel fuel (c :: rest) = .error .diverge := by
  have hcount : (csdbCheckKey (c :: rest)).2 ≠ 0 := by
    rw [csdbCheckKey_snd]
    exact Nat.ne_of_gt (List.count_pos_iff.mpr (List.mem_cons_of_mem c hdot))
  have hlen : ¬ ((csdbCheckKey (c :: rest)).2 = 1 ∧ (c :: rest).length = 1) := by
    rintro ⟨-, hone⟩
    cases rest with
    | nil => cases hdot
    | cons x rest => simp at hone
  have hstuck : parseBody (c :: rest) ⟨0, 0, .notInToken, []⟩ =
      .ok (.inl ⟨0, 0, .notInToken, []⟩) := by
    simp [parseBody, hc]
  simp only [csdbParseKeyFuel, if_neg hcount, if_neg hlen, loop_stuck hstuck]
  rfl

theorem csdbParseKey_some {key : CStr} {names : List CStr}
    (h : csdbParseKey key = .ok (some names)) (hk : key ≠ [dot]) :
    ∃ rest, rest ≠ [] ∧ key = dot :: rest ∧ names = readParts (rest.splitOn dot) := by
  by_cases hdot : dot ∈ key
  · cases key with
    | nil => cases hdot
    | cons c rest =>
        by_cases hc : c = dot
        · subst hc
          have hne : rest ≠ [] := by simpa using hk
          rw [csdbParseKey_dot hne, Except.ok.injEq, Option.some.injEq] at h
          exact ⟨rest, hne, rfl, h.symm⟩
        · have hrest : dot ∈ rest := (List.mem_cons.mp hdot).resolve_left (Ne.symm hc)
          rw [csdbParseKey, csdbParseKey_stuck hc hrest] at h
          cases h
  · rw [csdbParseKey, csdbParseKey_no_dot hdot] at h
    cases h

theorem readParts_concat_nil {path : List CStr} (hne : path ≠ []) :
    readParts (path ++ [[]]) = path := by
  induction path with
  | nil => exact absurd rfl hne
  | cons name path ih =>
      cases path with
      | nil => cases name <;> rfl
      | cons n path =>
          rw [List.cons_append, List.cons_append, readParts_cons_cons, ← List.cons_append,
            ih (by simp)]

/-- Every list of names without dots is read from some key: a dot at the end of the key
keeps an empty last name. -/
theorem exists_key_of_names {path : List CStr} (hne : path ≠ []) (hdot : ∀ n ∈ path, dot ∉ n) :
    ∃ rest, rest ≠ [] ∧ readParts (rest.splitOn dot) = path := by
  obtain ⟨name, path, rfl⟩ := List.exists_cons_of_ne_nil hne
  have hsplit : (name ++ pathKey (path ++ [[]])).splitOn dot = name :: (path ++ [[]]) := by
    apply splitOn_pathKey name (path ++ [[]]) (hdot name (by simp))
    intro n hn
    rcases List.mem_append.mp hn with hn | hn
    · exact hdot n (by simp [hn])
    · simp [List.mem_singleton.mp hn]
  refine ⟨name ++ pathKey (path ++ [[]]), ?_, ?_⟩
  · simp [pathKey_append]
  · rw [hsplit]
    exact readParts_concat_nil hne

/-! ## Keys and paths -/

theorem count_pathKey {path : List CStr} (hdot : ∀ name ∈ path, dot ∉ name) :
    (csdbCheckKey (pathKey path)).2 = path.length := by
  rw [csdbCheckKey_snd]
  induction path with
  | nil => rfl
  | cons name path ih =>
      have hname : name.count dot = 0 := List.count_eq_zero.mpr (hdot name (by simp))
      rw [pathKey_cons, List.count_cons_self, List.count_append, hname,
        ih (fun n hn => hdot n (by simp [hn])), List.length_cons, Nat.zero_add]

/-- The parser tells valid keys apart. -/
theorem csdbParseKey_inj {key key' : CStr} (hv : csdbIsValidKey key = true)
    (hv' : csdbIsValidKey key' = true) (h : csdbParseKey key = csdbParseKey key') : key = key' := by
  have hroot : ∀ {k : CStr}, csdbIsValidKey k = true → k ≠ [dot] →
      csdbParseKey k ≠ csdbParseKey [dot] := by
    intro k hk hne he
    rw [csdbParseKey_valid hk hne, csdbParseKey_root, Except.ok.injEq, Option.some.injEq] at he
    have hdot := (keyPath_valid hk hne).1.no_dot [dot] (by simp [he])
    simp at hdot
  by_cases hk : key = [dot]
  · by_cases hk' : key' = [dot]
    · rw [hk, hk']
    · rw [hk] at h
      exact absurd h.symm (hroot hv' hk')
  · by_cases hk' : key' = [dot]
    · rw [hk'] at h
      exact absurd h (hroot hv hk)
    · rw [csdbParseKey_valid hv hk, csdbParseKey_valid hv' hk', Except.ok.injEq,
        Option.some.injEq] at h
      exact keyPath_inj hv hv' h

/-- **Keys and paths.** The parser takes a valid key other than `.` apart into names
without dots, at most one for each delimiter, that spell the key again; from the key that
names spell it returns these names; and it tells two valid keys apart. -/
theorem csdbParseKey_exact :
    (∀ key, csdbIsValidKey key = true → key ≠ [dot] →
      ∃ names, csdbParseKey key = .ok (some names) ∧ names ≠ [] ∧ (∀ name ∈ names, dot ∉ name) ∧
        names.length ≤ (csdbCheckKey key).2 ∧ names.flatMap (dot :: ·) = key) ∧
    (∀ names : List CStr, names ≠ [] → (∀ name ∈ names, dot ∉ name) → names.getLast? ≠ some [] →
      csdbParseKey (names.flatMap (dot :: ·)) = .ok (some names)) ∧
    (∀ key key', csdbIsValidKey key = true → csdbIsValidKey key' = true →
      csdbParseKey key = csdbParseKey key' → key = key') := by
  refine ⟨?_, ?_, fun key key' => csdbParseKey_inj⟩
  · intro key hv hk
    obtain ⟨hpath, hkey⟩ := keyPath_valid hv hk
    have hcount := count_pathKey hpath.no_dot
    rw [hkey] at hcount
    exact ⟨_, csdbParseKey_valid hv hk, hpath.ne_nil, hpath.no_dot, Nat.le_of_eq hcount.symm, hkey⟩
  · intro names hne hdot hlast
    have hpath : IsPath names := ⟨hne, hdot, hlast⟩
    obtain ⟨hv, hk⟩ := pathKey_valid hpath
    have hparse := csdbParseKey_valid hv hk
    rw [keyPath_pathKey hpath] at hparse
    exact hparse

/-- An empty name in the middle: `.a..b`. -/
theorem csdbParseKey_exact_empty_name :
    csdbParseKey (lit ['.', 'a', '.', '.', 'b']) = .ok (some [lit ['a'], [], lit ['b']]) :=
  csdbParseKey_exact.2.1 [lit ['a'], [], lit ['b']] (by decide) (by decide) (by decide)

end Dkmp.Csdb
