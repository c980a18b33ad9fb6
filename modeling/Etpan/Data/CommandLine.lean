import Etpan.Data.Decimal
import Etpan.Data.Lines

namespace Etpan.Data

/-! Commands of the line-oriented protocols: text formatted into a buffer of a fixed
size, and what it takes for the buffer to hold one whole line. -/

/-- A C string, without its zero octet. -/
abbrev CString := { bytes : List UInt8 // NulFree bytes }

def snprintf (size : Nat) (text : List UInt8) : List UInt8 := text.take (size - 1)

/-- The octets are one line that ends in CRLF and holds each of the arguments whole. -/
def OneLine (bytes : List UInt8) (arguments : List (List UInt8)) : Prop :=
  ∃ line, bytes = line ++ [CR, LF] ∧ BreakFree line ∧ ∀ argument ∈ arguments, argument <:+: line

theorem BreakFree.append {left right : List UInt8} (leftFree : BreakFree left) (rightFree : BreakFree right) :
    BreakFree (left ++ right) := by
  intro byte member
  rcases List.mem_append.mp member with early | later
  · exact leftFree byte early
  · exact rightFree byte later

theorem BreakFree.infix {part line : List UInt8} (free : BreakFree line) (within : part <:+: line) : BreakFree part :=
  fun byte member => free byte (within.subset member)

theorem decimal_plain (number : Nat) : NulFree (decimal number) ∧ BreakFree (decimal number) := by
  have digit : ∀ byte : UInt8, isDigit byte = true → byte ≠ 0 ∧ byte ≠ CR ∧ byte ≠ LF := by
    intro byte isDigit
    refine ⟨?_, ?_, ?_⟩ <;> rintro rfl <;> revert isDigit <;> decide
  exact ⟨fun byte member => (digit byte (decimal_digits byte member)).1,
    fun byte member => (digit byte (decimal_digits byte member)).2⟩

/-- A parameter that was cut before it was put into the line changes nothing that the line keeps. -/
theorem snprintf_nested (size : Nat) (front middle rest : List UInt8) :
    snprintf size (front ++ (snprintf size middle ++ rest)) = snprintf size (front ++ (middle ++ rest)) := by
  unfold snprintf
  by_cases fits : middle.length ≤ size - 1
  · rw [List.take_of_length_le fits]
  · have within : size - 1 - front.length ≤ (List.take (size - 1) middle).length := by
      rw [List.length_take]
      omega
    rw [List.take_append, List.take_append_of_le_length within, List.take_take, List.take_append,
      List.take_append_of_le_length (by omega), Nat.min_eq_left (by omega)]

/-- The buffer holds one whole line exactly when no argument breaks it and all of it fits. -/
theorem oneLine_snprintf {size : Nat} {line : List UInt8} {arguments : List (List UInt8)}
    (holds : ∀ argument ∈ arguments, argument <:+: line)
    (free : (∀ argument ∈ arguments, BreakFree argument) → BreakFree line) :
    OneLine (snprintf size (line ++ [CR, LF])) arguments ↔
      (∀ argument ∈ arguments, BreakFree argument) ∧ line.length + 2 ≤ size - 1 := by
  constructor
  · rintro ⟨kept, cut, keptFree, within⟩
    have argumentsFree : ∀ argument ∈ arguments, BreakFree argument :=
      fun argument member => keptFree.infix (within argument member)
    refine ⟨argumentsFree, ?_⟩
    by_contra long
    -- the last octet kept would be an LF of the line itself
    have short : snprintf size (line ++ [CR, LF]) = (line ++ [CR]).take (size - 1) := by
      have split : line ++ [CR, LF] = (line ++ [CR]) ++ [LF] := by simp
      rw [snprintf, split, List.take_append_of_le_length (by simp; omega)]
    have member : LF ∈ line ++ [CR] := by
      apply List.mem_of_mem_take
      rw [← short, cut]
      simp
    rcases List.mem_append.mp member with inside | last
    · exact (free argumentsFree LF inside).2 rfl
    · simp at last
  · rintro ⟨argumentsFree, fits⟩
    refine ⟨line, ?_, free argumentsFree, holds⟩
    rw [snprintf, List.take_of_length_le]
    simpa using fits

end Etpan.Data
