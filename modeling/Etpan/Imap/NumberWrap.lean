import Etpan.Imap.StatusName

namespace Etpan.Imap

open Etpan.Data

/-! Numbers of any length on the wire: `mailimap_number_parse` saturates, `mailimap_uint64_parse` wraps. -/

structure DigitsAt (buffer : List UInt8) (indx : Nat) (digits : List UInt8) : Prop where
  nonempty : digits ≠ []
  areDigits : ∀ digit ∈ digits, isDigit digit = true
  found : ∃ rest, buffer.drop indx = digits ++ rest ∧ rest.takeWhile isDigit = []

namespace DigitsAt

variable {buffer digits : List UInt8} {indx : Nat} (digitsAt : DigitsAt buffer indx digits)

include digitsAt

theorem start : skipSpace buffer indx = indx ∧ mailimapCharParse buffer indx (ascii '-') = none ∧ (buffer.drop indx).takeWhile isDigit = digits := by
  obtain ⟨rest, at_, ends⟩ := digitsAt.found
  obtain ⟨first, others, split⟩ := List.exists_cons_of_ne_nil digitsAt.nonempty
  have plain := isDigit_plain (digitsAt.areDigits first (split ▸ List.mem_cons_self))
  have begins : buffer.drop indx = first :: (others ++ rest) := by rw [at_, split, List.cons_append]
  refine ⟨skipSpace_at begins plain.1, mailimapCharParse_other begins plain.2, ?_⟩
  rw [at_, List.takeWhile_append_of_pos digitsAt.areDigits, ends, List.append_nil]

theorem number : mailimapNumberParse buffer indx =
    some (UInt32.ofNat (min (decimalValue digits) 4294967295), indx + digits.length) := by
  obtain ⟨skipped, notMinus, taken⟩ := digitsAt.start
  have value : digits.foldl (fun number digit => mailimapNumberAddDigit number (digit.toNat - 48)) 0 =
      UInt32.ofNat (min (decimalValue digits) 4294967295) := by
    have total : digits.foldl addDecimal 0 = decimalValue digits := rfl
    apply UInt32.toNat_inj.mp
    rw [numberDigits_toNat 0 digitsAt.areDigits, UInt32.toNat_ofNat', UInt32.toNat_zero, total, Nat.mod_eq_of_lt (by omega)]
  simp only [mailimapNumberParse, skipped, notMinus, Option.getD_none, taken, value, if_neg digitsAt.nonempty, Option.isSome_none,
    Bool.false_eq_true, if_false]

theorem uint64 : mailimapUint64Parse buffer indx = some (UInt64.ofNat (decimalValue digits), indx + digits.length) := by
  obtain ⟨skipped, -, taken⟩ := digitsAt.start
  have value := uint64Digits digits 0
  have total : digits.foldl addDecimal 0 = decimalValue digits := rfl
  have zero : UInt64.ofNat 0 = 0 := rfl
  rw [total, zero] at value
  simp only [mailimapUint64Parse, skipped, taken, value, if_neg digitsAt.nonempty]

end DigitsAt

/-- A reader of numbers gives no smaller number for digits of a greater value. -/
def KeepsOrder {α : Type} (value : α → Nat) (parse : List UInt8 → Nat → Option (α × Nat)) (buffer : List UInt8) (indx : Nat)
    (digits : List UInt8) : Prop :=
  ∀ buffer' indx' digits', DigitsAt buffer' indx' digits' → decimalValue digits' ≤ decimalValue digits →
    ∀ smaller larger, parse buffer' indx' = some smaller → parse buffer indx = some larger → value smaller.1 ≤ value larger.1

/-- The number of the digits is exact or the largest one, or there is none. -/
structure NeverWraps (buffer : List UInt8) (indx : Nat) (digits : List UInt8) : Prop where
  number : (mailimapNumberParse buffer indx).map (fun read => read.1.toNat) = some (min (decimalValue digits) (2 ^ 32 - 1))
  exact : decimalValue digits < 2 ^ 64 →
    (mailimapUint64Parse buffer indx).map (fun read => read.1.toNat) = some (decimalValue digits)
  large : 2 ^ 64 ≤ decimalValue digits → mailimapUint64Parse buffer indx = none ∨
    (mailimapUint64Parse buffer indx).map (fun read => read.1.toNat) = some (2 ^ 64 - 1)
  numberOrder : KeepsOrder UInt32.toNat mailimapNumberParse buffer indx digits
  uint64Order : KeepsOrder UInt64.toNat mailimapUint64Parse buffer indx digits

theorem mailimapNumberParse_keepsOrder {buffer digits : List UInt8} {indx : Nat} (digitsAt : DigitsAt buffer indx digits) :
    KeepsOrder UInt32.toNat mailimapNumberParse buffer indx digits := by
  intro buffer' indx' digits' digitsAt' below smaller larger parsed' parsed
  rw [digitsAt'.number] at parsed'
  rw [digitsAt.number] at parsed
  cases parsed'
  cases parsed
  simp only [UInt32.toNat_ofNat']
  omega

theorem mailimapUint64Parse_keepsOrder {buffer digits : List UInt8} {indx : Nat} (digitsAt : DigitsAt buffer indx digits)
    (fits : decimalValue digits < 2 ^ 64 ∨ decimalValue digits % 2 ^ 64 = 2 ^ 64 - 1) :
    KeepsOrder UInt64.toNat mailimapUint64Parse buffer indx digits := by
  intro buffer' indx' digits' digitsAt' below smaller larger parsed' parsed
  rw [digitsAt'.uint64] at parsed'
  rw [digitsAt.uint64] at parsed
  cases parsed'
  cases parsed
  simp only [UInt64.toNat_ofNat']
  have bound : decimalValue digits' % 2 ^ 64 < 2 ^ 64 := Nat.mod_lt _ (by decide)
  omega

/-- Mod-sequences and other 64-bit numbers wrap from 2^64 on. -/
theorem mailimapUint64Parse_wraps {buffer digits : List UInt8} {indx : Nat} (digitsAt : DigitsAt buffer indx digits) :
    NeverWraps buffer indx digits ↔ decimalValue digits < 2 ^ 64 ∨ decimalValue digits % 2 ^ 64 = 2 ^ 64 - 1 := by
  constructor
  · intro kept
    rcases Nat.lt_or_ge (decimalValue digits) (2 ^ 64) with small | large
    · exact .inl small
    · have saturated := kept.large large
      rw [digitsAt.uint64, Option.map_some, Option.some.injEq, UInt64.toNat_ofNat'] at saturated
      exact .inr (saturated.resolve_left (Option.some_ne_none _))
  · intro fits
    have number : (mailimapNumberParse buffer indx).map (fun read => read.1.toNat) = some (min (decimalValue digits) (2 ^ 32 - 1)) := by
      rw [digitsAt.number, Option.map_some, UInt32.toNat_ofNat', Option.some.injEq]
      omega
    have uint64 : (mailimapUint64Parse buffer indx).map (fun read => read.1.toNat) = some (decimalValue digits % 2 ^ 64) := by
      rw [digitsAt.uint64, Option.map_some, UInt64.toNat_ofNat']
    exact {
      number := number
      exact := fun small => by rw [uint64, Nat.mod_eq_of_lt small]
      large := fun large => .inr (by rw [uint64, fits.resolve_left (Nat.not_lt.mpr large)])
      numberOrder := mailimapNumberParse_keepsOrder digitsAt
      uint64Order := mailimapUint64Parse_keepsOrder digitsAt fits }

def twoTo64 : List UInt8 := asciiText "18446744073709551616"

theorem digitsAt_twoTo64 : DigitsAt twoTo64 0 twoTo64 := ⟨by decide, by decide +kernel, [], rfl, rfl⟩

theorem mailimapUint64Parse_wraps_small : NeverWraps (asciiText "42)") 0 (asciiText "42") ↔ decimalValue (asciiText "42") < 2 ^ 64 ∨
    decimalValue (asciiText "42") % 2 ^ 64 = 2 ^ 64 - 1 :=
  mailimapUint64Parse_wraps ⟨by decide, by decide +kernel, asciiText ")", rfl, rfl⟩

/-- 2^64 is read as 0. -/
theorem mailimapUint64Parse_zero : ¬ NeverWraps twoTo64 0 twoTo64 := by
  intro kept
  have value : decimalValue twoTo64 = 2 ^ 64 := by decide +kernel
  have saturated := kept.large (Nat.le_of_eq value.symm)
  rw [digitsAt_twoTo64.uint64, value] at saturated
  rcases saturated with failed | wrapped
  · cases failed
  · rw [Option.map_some, UInt64.toNat_ofNat'] at wrapped
    cases wrapped

end Etpan.Imap
