import Etpan.Data.Bytes

namespace Etpan.Data

/-! Numbers as ASCII text in base ten. -/

def isDigit (byte : UInt8) : Bool := ascii '0' ≤ byte && byte ≤ ascii '9'

def decimalValue (digits : List UInt8) : Nat :=
  digits.foldl (fun value digit => value * 10 + (digit.toNat - 48)) 0

def decimalDigit (value : Nat) : UInt8 := UInt8.ofNat (48 + value)

def decimal (number : Nat) : List UInt8 :=
  if number < 10 then [decimalDigit number]
  else decimal (number / 10) ++ [decimalDigit (number % 10)]

/-- The length of that text, as the C sources count it: by dividing while two digits are left. -/
def digitCount (number : Nat) : Nat :=
  if number < 10 then 1 else digitCount (number / 10) + 1

theorem decimalDigit_spec : ∀ value < 10, isDigit (decimalDigit value) = true ∧ (decimalDigit value).toNat - 48 = value := by
  decide

theorem decimal_length (number : Nat) : (decimal number).length = digitCount number := by
  fun_induction decimal number with
  | case1 number small => rw [digitCount, if_pos small, List.length_singleton]
  | case2 number large ih => rw [digitCount, if_neg large, List.length_append, ih, List.length_singleton]

theorem digitCount_le {number digits : Nat} (positive : 0 < digits) (bounded : number < 10 ^ digits) :
    digitCount number ≤ digits := by
  induction digits generalizing number with
  | zero => omega
  | succ digits ih =>
      rw [digitCount]
      split_ifs with small
      · omega
      · have some_left : 0 < digits := by
          rcases Nat.eq_zero_or_pos digits with rfl | some_left
          · omega
          · exact some_left
        have shorter := @ih (number / 10) some_left (by rw [Nat.pow_succ] at bounded; omega)
        omega

theorem lt_digitCount {number digits : Nat} (large : 10 ^ digits ≤ number) : digits < digitCount number := by
  induction digits generalizing number with
  | zero =>
      rw [digitCount]
      split_ifs <;> omega
  | succ digits ih =>
      rw [Nat.pow_succ] at large
      have positive : 0 < 10 ^ digits := Nat.pow_pos (by decide)
      have more := @ih (number / 10) ((Nat.le_div_iff_mul_le (by decide)).mpr large)
      rw [digitCount, if_neg (by omega)]
      omega

theorem digitCount_eq {number digits : Nat} (large : 10 ^ digits ≤ number) (bounded : number < 10 ^ (digits + 1)) :
    digitCount number = digits + 1 :=
  le_antisymm (digitCount_le (Nat.succ_pos _) bounded) (lt_digitCount large)

theorem digitCount_pos (number : Nat) : 0 < digitCount number := by
  rw [digitCount]
  split_ifs <;> omega

theorem decimal_digits {number : Nat} : ∀ byte ∈ decimal number, isDigit byte = true := by
  fun_induction decimal number with
  | case1 number small =>
      intro byte member
      rw [List.mem_singleton.mp member]
      exact (decimalDigit_spec number small).1
  | case2 number large ih =>
      intro byte member
      rcases List.mem_append.mp member with early | last
      · exact ih byte early
      · rw [List.mem_singleton.mp last]
        exact (decimalDigit_spec _ (Nat.mod_lt _ (by decide))).1

theorem decimalValue_decimal (number : Nat) : decimalValue (decimal number) = number := by
  fun_induction decimal number with
  | case1 number small =>
      have value := (decimalDigit_spec number small).2
      change 0 * 10 + ((decimalDigit number).toNat - 48) = number
      omega
  | case2 number large ih =>
      rw [decimalValue] at ih
      rw [decimalValue, List.foldl_append, ih, List.foldl_cons, List.foldl_nil,
        (decimalDigit_spec _ (Nat.mod_lt _ (by decide))).2]
      omega

theorem decimal_ne_nil (number : Nat) : decimal number ≠ [] := by
  intro empty
  have length := decimal_length number
  have positive := digitCount_pos number
  rw [empty, List.length_nil] at length
  omega

end Etpan.Data
