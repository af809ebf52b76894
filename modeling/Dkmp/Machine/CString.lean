import Dkmp.Machine.Exec
import Mathlib.Data.List.TakeWhile
import Mathlib.Tactic.Common

/-! # C strings

A string is the list of the bytes before its terminator, so no character of it
is `NUL`: the subtype `CChar` rules such a value out. `strcmp` compares bytes as
unsigned, and `strtok` is one call of the tokeniser on the text that its saved
position points at.
-/

namespace Dkmp.Machine

abbrev CChar := {b : UInt8 // b ≠ 0}

abbrev CStr := List CChar

def lit (cs : List Char) : CStr :=
  cs.filterMap fun c => if h : c.toUInt8 ≠ 0 then some ⟨c.toUInt8, h⟩ else none

def dot : CChar := ⟨46, by decide⟩
def equals : CChar := ⟨61, by decide⟩
def newline : CChar := ⟨10, by decide⟩

/-! ## `strcmp` -/

def strcmp : CStr → CStr → Ordering
  | [], [] => .eq
  | [], _ :: _ => .lt
  | _ :: _, [] => .gt
  | a :: s, b :: t =>
      if a.val < b.val then .lt else if b.val < a.val then .gt else strcmp s t

@[simp] theorem strcmp_self (s : CStr) : strcmp s s = .eq := by
  induction s with
  | nil => rfl
  | cons a s ih => rw [strcmp, if_neg (UInt8.lt_irrefl _), if_neg (UInt8.lt_irrefl _), ih]

theorem strcmp_eq_iff {s t : CStr} : strcmp s t = .eq ↔ s = t := by
  refine ⟨?_, fun h => by rw [h, strcmp_self]⟩
  intro h
  induction s generalizing t with
  | nil =>
      cases t with
      | nil => rfl
      | cons b t => simp [strcmp] at h
  | cons a s ih =>
      cases t with
      | nil => simp [strcmp] at h
      | cons b t =>
          by_cases hab : a.val < b.val
          · simp [strcmp, hab] at h
          by_cases hba : b.val < a.val
          · simp [strcmp, hab, hba] at h
          have hval : a.val = b.val :=
            UInt8.le_antisymm (UInt8.not_lt.mp hba) (UInt8.not_lt.mp hab)
          simp only [strcmp, hab, hba, if_false] at h
          rw [Subtype.ext hval, ih h]

theorem strcmp_swap (s t : CStr) : (strcmp s t).swap = strcmp t s := by
  induction s generalizing t with
  | nil => cases t <;> rfl
  | cons a s ih =>
      cases t with
      | nil => rfl
      | cons b t =>
          by_cases hab : a.val < b.val
          · simp [strcmp, hab, UInt8.lt_asymm hab]
          by_cases hba : b.val < a.val
          · simp [strcmp, hab, hba]
          simp only [strcmp, hab, hba, if_false]
          exact ih t

theorem strcmp_gt_iff {s t : CStr} : strcmp s t = .gt ↔ strcmp t s = .lt := by
  rw [← strcmp_swap s t]
  cases strcmp s t <;> simp

private theorem byte_trichotomy (x y : UInt8) : x < y ∨ x = y ∨ y < x := by
  simp only [UInt8.lt_iff_toNat_lt, ← UInt8.toNat_inj]
  omega

theorem strcmp_lt_trans {s t u : CStr} (hst : strcmp s t = .lt) (htu : strcmp t u = .lt) :
    strcmp s u = .lt := by
  induction s generalizing t u with
  | nil =>
      cases t with
      | nil => simp [strcmp] at hst
      | cons b t =>
          cases u with
          | nil => simp [strcmp] at htu
          | cons c u => rfl
  | cons a s ih =>
      cases t with
      | nil => simp [strcmp] at hst
      | cons b t =>
          cases u with
          | nil => simp [strcmp] at htu
          | cons c u =>
              simp only [strcmp] at hst htu ⊢
              rcases byte_trichotomy a.val b.val with hab | hab | hab
              · rcases byte_trichotomy b.val c.val with hbc | hbc | hbc
                · rw [if_pos (UInt8.lt_trans hab hbc)]
                · rw [if_pos (hbc ▸ hab)]
                · rw [if_neg (UInt8.lt_asymm hbc), if_pos hbc] at htu
                  cases htu
              · rw [hab, if_neg (UInt8.lt_irrefl _), if_neg (UInt8.lt_irrefl _)] at hst
                rw [hab]
                split at htu
                · rw [if_pos ‹_›]
                · rw [if_neg ‹_›]
                  split at htu
                  · cases htu
                  · rw [if_neg ‹_›]
                    exact ih hst htu
              · rw [if_neg (UInt8.lt_asymm hab), if_pos hab] at hst
                cases hst

theorem strcmp_ne_of_lt {s t : CStr} (h : strcmp s t = .lt) : s ≠ t := by
  rintro rfl
  simp at h

/-! ## `strtok` and `strchr` -/

/-- One call of `strtok` on the text its saved position points at: the token and
the text behind the delimiter that ended it. -/
def strtok (delims text : CStr) : Option (CStr × CStr) :=
  match text.dropWhile (· ∈ delims) with
  | [] => none
  | c :: s =>
      some ((c :: s).takeWhile (· ∉ delims), ((c :: s).dropWhile (· ∉ delims)).tail)

def strchr (s : CStr) (c : CChar) : Option CStr :=
  match s.dropWhile (· ≠ c) with
  | [] => none
  | t => some t

theorem takeWhile_stop {α : Type} {p : α → Bool} {l r : List α} {a : α} (hl : ∀ x ∈ l, p x = true)
    (ha : p a = false) :
    (l ++ a :: r).takeWhile p = l ∧ (l ++ a :: r).dropWhile p = a :: r := by
  rw [List.takeWhile_append_of_pos hl, List.dropWhile_append_of_pos hl]
  simp [ha]

theorem strtok_line {delim : CChar} {line : CStr} (hne : line ≠ []) (hline : delim ∉ line)
    (rest : CStr) : strtok [delim] (line ++ delim :: rest) = some (line, rest) := by
  cases line with
  | nil => exact absurd rfl hne
  | cons c s =>
      have hc : c ≠ delim := fun he => hline (by simp [he])
      have hstop := takeWhile_stop (p := fun x => decide (x ∉ [delim])) (l := c :: s) (r := rest)
        (a := delim) (by
          intro x hx
          simpa using fun he : x = delim => hline (he ▸ hx)) (by simp)
      have hskip : (c :: s ++ delim :: rest).dropWhile (fun x => decide (x ∈ [delim])) =
          c :: s ++ delim :: rest := by simp [hc]
      simp only [strtok, hskip]
      simp only [List.cons_append] at hstop ⊢
      rw [hstop.1, hstop.2, List.tail_cons]

theorem strchr_first {c : CChar} {s : CStr} (hs : c ∉ s) (t : CStr) :
    strchr (s ++ c :: t) c = some (c :: t) ∧ (s ++ c :: t).takeWhile (· ≠ c) = s := by
  have hstop := takeWhile_stop (p := fun x => decide (x ≠ c)) (l := s) (r := t) (a := c) (by
    intro x hx
    simpa using fun he : x = c => hs (he ▸ hx)) (by simp)
  exact ⟨by simp only [strchr, hstop.2], hstop.1⟩

theorem strchr_eq_none {s : CStr} {c : CChar} : strchr s c = none ↔ c ∉ s := by
  have hskip : s.dropWhile (· ≠ c) = [] ↔ c ∉ s := by
    rw [List.dropWhile_eq_nil_iff]
    constructor
    · intro hall hmem
      simpa using hall c hmem
    · intro hmem x hx
      simpa using fun he : x = c => hmem (he ▸ hx)
  rw [← hskip, strchr]
  split
  · rename_i hnil
    exact iff_of_true rfl hnil
  · rename_i hne
    exact iff_of_false (by simp) hne

/-! ## Tokens -/

def tokens (delims text : CStr) : List CStr := (text.splitOnP (· ∈ delims)).filter (· ≠ [])

@[simp] theorem tokens_nil (delims : CStr) : tokens delims [] = [] := by
  simp [tokens]

theorem tokens_delim {delims : CStr} {c : CChar} (hc : c ∈ delims) (text : CStr) :
    tokens delims (c :: text) = tokens delims text := by
  rw [tokens, List.splitOnP_cons_eq_if_modifyHead, if_pos (by simpa using hc)]
  simp [tokens]

theorem tokens_dropWhile (delims text : CStr) :
    tokens delims (text.dropWhile (· ∈ delims)) = tokens delims text := by
  induction text with
  | nil => rfl
  | cons c text ih =>
      by_cases hc : c ∈ delims
      · rw [List.dropWhile_cons_of_pos (by simpa using hc), ih, tokens_delim hc]
      · rw [List.dropWhile_cons_of_neg (by simpa using hc)]

/-- A word that is followed by a delimiter or by the end of the text. -/
theorem tokens_word {delims word : CStr} (hne : word ≠ []) (hword : ∀ c ∈ word, c ∉ delims)
    {rest : CStr} (hrest : ∀ c, rest.head? = some c → c ∈ delims) :
    tokens delims (word ++ rest) = word :: tokens delims rest.tail := by
  have hfree : ∀ c ∈ word, decide (c ∈ delims) = false := by simpa using hword
  cases rest with
  | nil =>
      rw [tokens, List.append_nil, List.splitOnP_eq_singleton hfree, List.tail_nil, tokens_nil]
      simp [hne]
  | cons d rest =>
      have hd : decide (d ∈ delims) = true := by simpa using hrest d rfl
      rw [tokens, List.splitOnP_append_cons_of_forall_mem hfree d hd]
      simp [tokens, hne]

theorem not_of_head?_dropWhile {α : Type} {p : α → Bool} {l : List α} {a : α}
    (h : (l.dropWhile p).head? = some a) : p a = false := by
  have hstop := List.head?_dropWhile_not p l
  rw [h] at hstop
  exact hstop

/-- `strtok` takes the first token and leaves the others. -/
theorem tokens_eq_strtok (delims text : CStr) :
    tokens delims text =
      match strtok delims text with
      | none => []
      | some (token, rest) => token :: tokens delims rest := by
  rw [← tokens_dropWhile]
  unfold strtok
  cases hskip : text.dropWhile (· ∈ delims) with
  | nil => simp
  | cons c s =>
      have hhead : (text.dropWhile (· ∈ delims)).head? = some c := by rw [hskip]; rfl
      have hc : c ∉ delims := by simpa using not_of_head?_dropWhile hhead
      have hword := @tokens_word delims ((c :: s).takeWhile (· ∉ delims)) (by simp [hc])
        (fun x hx => by simpa using List.all_eq_true.mp List.all_takeWhile x hx)
        ((c :: s).dropWhile (· ∉ delims))
        (fun x hx => by simpa using not_of_head?_dropWhile hx)
      rw [List.takeWhile_append_dropWhile] at hword
      exact hword

theorem strtok_eq_none {delims text : CStr} (h : tokens delims text = []) :
    strtok delims text = none := by
  rw [tokens_eq_strtok] at h
  cases hs : strtok delims text with
  | none => rfl
  | some x => simp [hs] at h

theorem strtok_eq_some {delims text token : CStr} {more : List CStr}
    (h : tokens delims text = token :: more) :
    ∃ rest, strtok delims text = some (token, rest) ∧ tokens delims rest = more := by
  rw [tokens_eq_strtok] at h
  cases hs : strtok delims text with
  | none => simp [hs] at h
  | some x =>
      obtain ⟨tok, rest⟩ := x
      simp only [hs, List.cons.injEq] at h
      exact ⟨rest, by rw [h.1], h.2⟩

theorem strtok_length {delims text token rest : CStr} (h : strtok delims text = some (token, rest)) :
    rest.length < text.length := by
  have hskip := (List.dropWhile_sublist (p := (· ∈ delims)) (l := text)).length_le
  unfold strtok at h
  split at h
  · cases h
  next c s hcs =>
    have hdrop := (List.dropWhile_sublist (p := (· ∉ delims)) (l := c :: s)).length_le
    obtain ⟨-, rfl⟩ := Prod.mk.inj (Option.some.inj h)
    rw [hcs] at hskip
    rw [List.length_tail]
    simp only [List.length_cons] at hskip hdrop
    omega

theorem length_tokens_le (delims text : CStr) : (tokens delims text).length ≤ text.length := by
  generalize htoks : tokens delims text = toks
  induction toks generalizing text with
  | nil => simp
  | cons token more ih =>
      obtain ⟨rest, hs, hmore⟩ := strtok_eq_some htoks
      have hlt := strtok_length hs
      have hle := ih rest hmore
      simp only [List.length_cons]
      omega

theorem token_ne_nil {delims text token : CStr} (h : token ∈ tokens delims text) : token ≠ [] := by
  rw [tokens, List.mem_filter] at h
  simpa using h.2

theorem strtok_token_length {delims text token rest : CStr}
    (h : strtok delims text = some (token, rest)) : token.length ≤ text.length := by
  have hskip := (List.dropWhile_sublist (p := (· ∈ delims)) (l := text)).length_le
  unfold strtok at h
  split at h
  · cases h
  next c s hcs =>
    have htake := (List.takeWhile_sublist (p := (· ∉ delims)) (l := c :: s)).length_le
    obtain ⟨rfl, -⟩ := Prod.mk.inj (Option.some.inj h)
    rw [hcs] at hskip
    omega

theorem length_token_le {delims text token : CStr} (h : token ∈ tokens delims text) :
    token.length ≤ text.length := by
  generalize htoks : tokens delims text = toks at h
  induction toks generalizing text with
  | nil => simp at h
  | cons first more ih =>
      obtain ⟨rest, hs, hmore⟩ := strtok_eq_some htoks
      rcases List.mem_cons.mp h with rfl | h
      · exact strtok_token_length hs
      · exact Nat.le_trans (ih hmore h) (Nat.le_of_lt (strtok_length hs))

theorem strtok_token_no_delim {delims text token rest : CStr}
    (h : strtok delims text = some (token, rest)) : ∀ c ∈ token, c ∉ delims := by
  unfold strtok at h
  split at h
  · cases h
  next c s hcs =>
    obtain ⟨rfl, -⟩ := Prod.mk.inj (Option.some.inj h)
    intro x hx
    simpa using List.all_eq_true.mp List.all_takeWhile x hx

theorem token_no_delim {delims text token : CStr} (h : token ∈ tokens delims text) :
    ∀ c ∈ token, c ∉ delims := by
  generalize htoks : tokens delims text = toks at h
  induction toks generalizing text with
  | nil => simp at h
  | cons first more ih =>
      obtain ⟨rest, hs, hmore⟩ := strtok_eq_some htoks
      rcases List.mem_cons.mp h with rfl | h
      · exact strtok_token_no_delim hs
      · exact ih hmore h

theorem tokens_single {delims word : CStr} (hne : word ≠ []) (hword : ∀ c ∈ word, c ∉ delims) :
    tokens delims word = [word] := by
  simpa using @tokens_word delims word hne hword [] (by simp)

/-- A change of the characters that keeps the delimiters apart changes the tokens alike. -/
theorem tokens_map {delims : CStr} {f : CChar → CChar} (hf : ∀ c, f c ∈ delims ↔ c ∈ delims)
    (text : CStr) : tokens delims (text.map f) = (tokens delims text).map (·.map f) := by
  have hsplit : (text.map f).splitOnP (· ∈ delims) =
      (text.splitOnP (· ∈ delims)).map (·.map f) := by
    induction text with
    | nil => rfl
    | cons c text ih =>
        rw [List.map_cons, List.splitOnP_cons_eq_if_modifyHead, List.splitOnP_cons_eq_if_modifyHead,
          ih]
        by_cases hc : c ∈ delims
        · rw [if_pos (by simpa using (hf c).mpr hc), if_pos (by simpa using hc)]
          rfl
        · rw [if_neg (by simpa using fun h => hc ((hf c).mp h)), if_neg (by simpa using hc)]
          cases text.splitOnP (· ∈ delims) <;> rfl
  rw [tokens, tokens, hsplit, List.filter_map]
  congr 1
  apply List.filter_congr
  intro x _
  simp

end Dkmp.Machine
