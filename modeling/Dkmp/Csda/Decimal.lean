import Dkmp.Csda.BestNode

/-! # Printing a number

What `%d` prints of a number that is not negative, how long it is, and that `%d` reads the
number back from it.
-/

namespace Dkmp.Csda

open Machine Csdb Csc

def digit (n : Nat) : CChar :=
  ⟨.ofNat (48 + n % 10), by
    intro h
    have hval := congrArg UInt8.toNat h
    rw [UInt8.toNat_ofNat', Nat.mod_eq_of_lt (by omega)] at hval
    exact absurd hval (by simp)⟩

def decimalFrom : Nat → Nat → CStr
  | 0, _ => []
  | fuel + 1, n => if n < 10 then [digit n] else decimalFrom fuel (n / 10) ++ [digit n]

def decimal (n : Nat) : CStr := decimalFrom (n + 1) n

theorem toNat_digit (n : Nat) : (digit n).val.toNat = 48 + n % 10 := by
  rw [digit, UInt8.toNat_ofNat', Nat.mod_eq_of_lt (by omega)]

theorem isdigit_digit (n : Nat) : isdigit (digit n) = true := by
  have hval := toNat_digit n
  simp only [isdigit, UInt8.le_iff_toNat_le, hval, decide_eq_true_eq]
  exact ⟨Nat.le_add_right _ _, by change _ ≤ 57; omega⟩

theorem isdigit_of_mem_decimalFrom {c : CChar} (fuel n : Nat) (h : c ∈ decimalFrom fuel n) :
    isdigit c = true := by
  induction fuel generalizing n with
  | zero => cases h
  | succ fuel ih =>
      rw [decimalFrom] at h
      split at h
      · rw [List.mem_singleton.mp h]
        exact isdigit_digit n
      · rcases List.mem_append.mp h with h | h
        · exact ih (n / 10) h
        · rw [List.mem_singleton.mp h]
          exact isdigit_digit n

theorem digitsValue_decimalFrom (fuel n : Nat) (h : n < fuel) :
    digitsValue (decimalFrom fuel n) = n := by
  induction fuel generalizing n with
  | zero => exact absurd h (Nat.not_lt_zero n)
  | succ fuel ih =>
      have hdigit := toNat_digit n
      rw [decimalFrom]
      split
      · simp only [digitsValue, List.foldl_cons, List.foldl_nil, hdigit]
        omega
      · have hrest := ih (n / 10) (by omega)
        simp only [digitsValue, List.foldl_append, List.foldl_cons, List.foldl_nil, hdigit]
          at hrest ⊢
        rw [hrest]
        omega

theorem decimal_ne_nil (n : Nat) : decimal n ≠ [] := by
  rw [decimal, decimalFrom]
  split <;> simp

theorem length_decimalFrom (digits fuel n : Nat) (h : n < 10 ^ (digits + 1)) :
    (decimalFrom fuel n).length ≤ digits + 1 := by
  induction digits generalizing fuel n with
  | zero =>
      cases fuel with
      | zero => exact Nat.zero_le _
      | succ fuel =>
          rw [decimalFrom, if_pos (by omega)]
          exact Nat.le_refl _
  | succ digits ih =>
      cases fuel with
      | zero => exact Nat.zero_le _
      | succ fuel =>
          have hdiv : n / 10 < 10 ^ (digits + 1) := by
            rw [Nat.div_lt_iff_lt_mul (by decide)]
            rwa [Nat.pow_succ] at h
          have hlength := ih fuel (n / 10) hdiv
          rw [decimalFrom]
          split
          · exact Nat.succ_le_succ (Nat.zero_le _)
          · rw [List.length_append]
            exact Nat.succ_le_succ hlength

theorem plain_of_isdigit {c : CChar} (h : isdigit c = true) :
    isspace c = false ∧ c ≠ minus ∧ c ≠ plus := by
  simp only [isdigit, UInt8.le_iff_toNat_le, decide_eq_true_eq] at h
  have hle : 48 ≤ c.val.toNat := h.1
  refine ⟨?_, ?_, ?_⟩
  · simp only [isspace, decide_eq_false_iff_not, UInt8.le_iff_toNat_le, not_or, not_and, not_le]
    refine ⟨?_, fun _ => Nat.lt_of_lt_of_le (by decide : 13 < 48) hle⟩
    intro heq
    rw [heq] at hle
    exact absurd hle (by decide)
  · rintro rfl
    exact absurd hle (by decide)
  · rintro rfl
    exact absurd hle (by decide)

/-- A number is read back, up to a character that is no digit. -/
theorem scanInt_decimal (n : Nat) {c : CChar} (hc : isdigit c = false) (rest : CStr) :
    scanInt (decimal n ++ c :: rest) = some ((n : Int), c :: rest) := by
  have hall : ∀ x ∈ decimal n, isdigit x = true :=
    fun x hx => isdigit_of_mem_decimalFrom (n + 1) n hx
  obtain ⟨x, s, hs⟩ := List.exists_cons_of_ne_nil (decimal_ne_nil n)
  have hplain := plain_of_isdigit (hall x (by rw [hs]; simp))
  have hskip : (decimal n ++ c :: rest).dropWhile isspace = decimal n ++ c :: rest := by
    rw [hs, List.cons_append, List.dropWhile_cons_of_neg (by simp [hplain.1])]
  have hsign : scanSign (decimal n ++ c :: rest) = (false, decimal n ++ c :: rest) := by
    rw [hs, List.cons_append, scanSign, if_neg hplain.2.1, if_neg hplain.2.2]
  have hstop : (c :: rest).takeWhile isdigit = [] ∧ (c :: rest).dropWhile isdigit = c :: rest := by
    simp [hc]
  have htake : (decimal n ++ c :: rest).takeWhile isdigit = decimal n := by
    rw [List.takeWhile_append_of_pos hall, hstop.1, List.append_nil]
  have hdrop : (decimal n ++ c :: rest).dropWhile isdigit = c :: rest := by
    rw [List.dropWhile_append_of_pos hall, hstop.2]
  have hvalue : digitsValue (decimal n) = n := digitsValue_decimalFrom (n + 1) n (Nat.lt_succ_self n)
  rw [scanInt, hskip, hsign]
  dsimp only
  rw [htake, hdrop, hs]
  dsimp only
  rw [← hs, hvalue, if_neg Bool.false_ne_true]

end Dkmp.Csda
