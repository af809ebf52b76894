import Mathlib.Data.List.TakeWhile
import Mathlib.Tactic.Common

/-! # Formatted input

A format is a list of directives. `sscanf` works through the format and the text together
and stops at the first directive that does not match; it gives the strings that were
assigned until then. What was printed in a format is read back by it.
-/

namespace Dkmp.Machine

variable {α : Type}

/-- White space, a character, `%s`, and `%[^..]` with an optional width, assigned or not. -/
inductive Directive (α : Type) where
  | blank
  | literal (c : α)
  | word
  | run (width : Option Nat) (stop : List α) (assign : Bool)

def literals (text : List α) : List (Directive α) := text.map .literal

/-- The part of the text that a conversion with this width may take. -/
def within (width : Option Nat) (text : List α) : List α :=
  match width with
  | none => text
  | some n => text.take n

variable [DecidableEq α] (space : α → Bool)

def sscanf : List (Directive α) → List α → List (List α)
  | [], _ => []
  | .blank :: ds, text => sscanf ds (text.dropWhile space)
  | .literal _ :: _, [] => []
  | .literal c :: ds, x :: text => if x = c then sscanf ds text else []
  | .word :: ds, text =>
      let word := (text.dropWhile space).takeWhile (!space ·)
      if word = [] then [] else word :: sscanf ds ((text.dropWhile space).dropWhile (!space ·))
  | .run width stop assign :: ds, text =>
      let taken := (within width text).takeWhile (· ∉ stop)
      if taken = [] then []
      else
        let rest := sscanf ds (text.drop taken.length)
        if assign then taken :: rest else rest

def Directive.silent : Directive α → Bool
  | .word => false
  | .run _ _ assign => !assign
  | _ => true

/-- The text begins as the strings are printed in the format. What stands behind the last
string makes no difference. -/
inductive Prints : List (Directive α) → List (List α) → List α → Prop where
  | done (ds : List (Directive α)) (text : List α) : (∀ d ∈ ds, d.silent = true) → Prints ds [] text
  | blank (ds : List (Directive α)) (ws : List (List α)) (gap text : List α) : (∀ c ∈ gap, space c = true) →
      (∀ c, text.head? = some c → space c = false) → Prints ds ws text → Prints (.blank :: ds) ws (gap ++ text)
  | literal (c : α) (ds : List (Directive α)) (ws : List (List α)) (text : List α) : Prints ds ws text →
      Prints (.literal c :: ds) ws (c :: text)
  | word (ds : List (Directive α)) (ws : List (List α)) (gap word text : List α) : (∀ c ∈ gap, space c = true) →
      word ≠ [] → (∀ c ∈ word, space c = false) → (∀ c, text.head? = some c → space c = true) →
      Prints ds ws text → Prints (.word :: ds) (word :: ws) (gap ++ (word ++ text))
  | run (stop : List α) (assign : Bool) (ds : List (Directive α)) (ws : List (List α)) (taken text : List α) :
      taken ≠ [] → (∀ c ∈ taken, c ∉ stop) → (∀ c, text.head? = some c → c ∈ stop) → Prints ds ws text →
      Prints (.run none stop assign :: ds) (if assign then taken :: ws else ws) (taken ++ text)
  | width (stop : List α) (assign : Bool) (ds : List (Directive α)) (ws : List (List α)) (taken text : List α) :
      taken ≠ [] → (∀ c ∈ taken, c ∉ stop) → Prints ds ws text →
      Prints (.run (some taken.length) stop assign :: ds) (if assign then taken :: ws else ws) (taken ++ text)

theorem takeWhile_split {β : Type} {p : β → Bool} {l r : List β} (hl : ∀ x ∈ l, p x = true)
    (hr : ∀ x, r.head? = some x → p x = false) : (l ++ r).takeWhile p = l ∧ (l ++ r).dropWhile p = r := by
  rw [List.takeWhile_append_of_pos hl, List.dropWhile_append_of_pos hl]
  cases r with
  | nil => simp
  | cons x r =>
      have hx := hr x rfl
      simp [hx]

theorem sscanf_silent {ds : List (Directive α)} (h : ∀ d ∈ ds, d.silent = true) (text : List α) :
    sscanf space ds text = [] := by
  induction ds generalizing text with
  | nil => rfl
  | cons d ds ih =>
      have hrest := ih fun e he => h e (List.mem_cons_of_mem d he)
      have hd := h d (List.mem_cons_self ..)
      cases d with
      | blank => rw [sscanf, hrest]
      | literal c =>
          cases text with
          | nil => rfl
          | cons x text =>
              rw [sscanf, hrest]
              exact ite_self _
      | word => cases hd
      | run width stop assign =>
          cases assign with
          | true => cases hd
          | false => simp [sscanf, hrest]

theorem sscanf_prints {ds : List (Directive α)} {ws : List (List α)} {text : List α} (h : Prints space ds ws text) :
    sscanf space ds text = ws := by
  induction h with
  | done ds text hsilent => exact sscanf_silent space hsilent text
  | blank ds ws gap text hgap htext _ ih => rw [sscanf, (takeWhile_split hgap htext).2, ih]
  | literal c ds ws text _ ih => rw [sscanf, if_pos rfl, ih]
  | word ds ws gap word text hgap hne hword htext _ ih =>
      have hhead : ∀ c, (word ++ text).head? = some c → space c = false := by
        intro c hc
        cases word with
        | nil => exact absurd rfl hne
        | cons x word =>
            cases hc
            exact hword _ (List.mem_cons_self ..)
      have hsplit := @takeWhile_split _ (!space ·) word text (fun c hc => by simp [hword c hc])
        fun c hc => by simp [htext c hc]
      simp only [sscanf, (takeWhile_split hgap hhead).2, hsplit.1, hsplit.2, if_neg hne, ih]
  | run stop assign ds ws taken text hne htaken htext _ ih =>
      have hsplit := @takeWhile_split _ (· ∉ stop) taken text (fun c hc => by simpa using htaken c hc)
        fun c hc => by simpa using htext c hc
      simp only [sscanf, within, hsplit.1, if_neg hne, List.drop_left, ih]
  | width stop assign ds ws taken text hne htaken _ ih =>
      have hall : taken.takeWhile (· ∉ stop) = taken :=
        List.takeWhile_eq_self_iff.mpr fun c hc => by simpa using htaken c hc
      simp only [sscanf, within, List.take_left, hall, if_neg hne, List.drop_left, ih]

omit [DecidableEq α] in
/-- A literal text in a format. -/
theorem Prints.literals {ds : List (Directive α)} {ws : List (List α)} {text : List α} (front : List α)
    (h : Prints space ds ws text) : Prints space (literals front ++ ds) ws (front ++ text) := by
  induction front with
  | nil => exact h
  | cons c front ih => exact .literal c _ ws _ ih

/-! ## Words in columns -/

/-- A word with white space before it. -/
structure Column (α : Type) (space : α → Bool) where
  gap : List α
  word : List α
  gap_ne : gap ≠ []
  gap_space : ∀ c ∈ gap, space c = true
  word_ne : word ≠ []
  word_plain : ∀ c ∈ word, space c = false

omit [DecidableEq α] in
variable {space} in
def Column.text (c : Column α space) : List α := c.gap ++ c.word

omit [DecidableEq α] in
variable {space} in
theorem Column.head_text (c : Column α space) (text : List α) :
    ∀ x, (c.text ++ text).head? = some x → space x = true := by
  intro x hx
  obtain ⟨y, gap, hgap⟩ := List.exists_cons_of_ne_nil c.gap_ne
  rw [Column.text, hgap, List.append_assoc, List.cons_append, List.head?_cons] at hx
  cases hx
  exact c.gap_space _ (by rw [hgap]; exact List.mem_cons_self ..)

omit [DecidableEq α] in
variable {space} in
theorem Column.head_word (c : Column α space) (text : List α) :
    ∀ x, (c.word ++ text).head? = some x → space x = false := by
  intro x hx
  obtain ⟨y, word, hword⟩ := List.exists_cons_of_ne_nil c.word_ne
  rw [hword, List.cons_append, List.head?_cons] at hx
  cases hx
  exact c.word_plain _ (by rw [hword]; exact List.mem_cons_self ..)

omit [DecidableEq α] in
theorem Prints.columns {ds : List (Directive α)} {ws : List (List α)} {text : List α}
    (cols : List (Column α space)) (h : Prints space ds ws text)
    (htext : ∀ c, text.head? = some c → space c = true) :
    Prints space (cols.flatMap (fun _ => [.blank, .word]) ++ ds) (cols.map Column.word ++ ws)
        (cols.flatMap Column.text ++ text) ∧
      ∀ c, (cols.flatMap Column.text ++ text).head? = some c → space c = true := by
  induction cols with
  | nil => exact ⟨h, htext⟩
  | cons col cols ih =>
      have hword : Prints space (.word :: (cols.flatMap (fun _ => [.blank, .word]) ++ ds))
          (col.word :: (cols.map Column.word ++ ws)) ([] ++ (col.word ++ (cols.flatMap Column.text ++ text))) :=
        .word _ _ [] _ _ (fun c hc => by cases hc) col.word_ne col.word_plain ih.2 ih.1
      have hblank := Prints.blank _ _ col.gap _ col.gap_space (col.head_word _) hword
      have hcons : (col :: cols).flatMap Column.text ++ text = col.text ++ (cols.flatMap Column.text ++ text) :=
        List.append_assoc ..
      rw [hcons]
      exact ⟨by simpa [Column.text] using hblank, col.head_text _⟩

omit [DecidableEq α] in
theorem Prints.lastColumns (cols : List (Column α space)) :
    Prints space (cols.flatMap fun _ => [.blank, .word]) (cols.map Column.word) (cols.flatMap Column.text) ∧
      ∀ c, (cols.flatMap Column.text).head? = some c → space c = true := by
  have hend : Prints space ([] : List (Directive α)) [] [] := .done [] [] (fun d hd => by cases hd)
  simpa only [List.append_nil] using Prints.columns space cols hend (fun c hc => by cases hc)

end Dkmp.Machine
