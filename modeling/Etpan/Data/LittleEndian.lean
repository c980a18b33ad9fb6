import Mathlib

namespace Etpan.Data

/-! Numbers of 32 bits as octets, the lowest first. -/

def littleEndian : Nat → UInt32 → List UInt8
  | 0, _ => []
  | octets + 1, value => (value % 256).toUInt8 :: littleEndian octets (value / 256)

/-- The octets are put above those that were read before, `position` of them. -/
def readLittleEndian (value : UInt32) (position : UInt32) : List UInt8 → UInt32
  | [] => value
  | ch :: rest => readLittleEndian (value ||| ch.toUInt32 <<< (position <<< 3)) (position + 1) rest

@[simp] theorem littleEndian_length (octets : Nat) (value : UInt32) : (littleEndian octets value).length = octets := by
  induction octets generalizing value with
  | zero => rfl
  | succ octets ih => rw [littleEndian, List.length_cons, ih]

theorem or_octet {value shift : UInt32} {ch : UInt8} (small : value.toNat < 2 ^ shift.toNat) (fits : shift.toNat ≤ 24) :
    (value ||| ch.toUInt32 <<< shift).toNat = value.toNat + ch.toNat * 2 ^ shift.toNat := by
  have octet := ch.toNat_lt
  have power : 2 ^ shift.toNat ≤ 2 ^ 24 := Nat.pow_le_pow_right (by omega) fits
  have bounded : ch.toNat * 2 ^ shift.toNat < 2 ^ 32 :=
    calc ch.toNat * 2 ^ shift.toNat ≤ 255 * 2 ^ 24 := Nat.mul_le_mul (by omega) power
      _ < 2 ^ 32 := by omega
  rw [UInt32.toNat_or, UInt32.toNat_shiftLeft, Nat.mod_eq_of_lt (show shift.toNat < 32 by omega), UInt8.toNat_toUInt32,
    Nat.shiftLeft_eq, Nat.mod_eq_of_lt bounded, ← Nat.shiftLeft_eq, Nat.or_comm, ← Nat.shiftLeft_add_eq_or_of_lt small,
    Nat.add_comm]

theorem readLittleEndian_littleEndian (value : UInt32) : readLittleEndian 0 0 (littleEndian 4 value) = value := by
  have octet (value : UInt32) : (value % 256).toUInt8.toNat = value.toNat % 256 := by simp
  have quotient (value : UInt32) : (value / 256).toNat = value.toNat / 256 := by simp
  have shifts : (0 : UInt32) <<< 3 = 0 ∧ (0 + 1 : UInt32) <<< 3 = 8 ∧ (0 + 1 + 1 : UInt32) <<< 3 = 16 ∧
    (0 + 1 + 1 + 1 : UInt32) <<< 3 = 24 := ⟨rfl, rfl, rfl, rfl⟩
  have zero : (0 : UInt32).toNat = 0 := rfl
  have eight : (8 : UInt32).toNat = 8 := rfl
  have sixteen : (16 : UInt32).toNat = 16 := rfl
  have more : (24 : UInt32).toNat = 24 := rfl
  simp only [littleEndian, readLittleEndian, shifts]
  have one := @or_octet 0 0 (value % 256).toUInt8 (by rw [zero]; omega) (by omega)
  have two := @or_octet _ 8 (value / 256 % 256).toUInt8 (show (0 ||| _ : UInt32).toNat < 2 ^ (8 : UInt32).toNat by
    rw [one, octet, zero, eight]; omega) (by omega)
  have three := @or_octet _ 16 (value / 256 / 256 % 256).toUInt8 (show ((0 ||| _ : UInt32) ||| _).toNat < 2 ^ (16 : UInt32).toNat by
    rw [two, one, octet, octet, zero, eight, sixteen]; omega) (by omega)
  have four := @or_octet _ 24 (value / 256 / 256 / 256 % 256).toUInt8
    (show (((0 ||| _ : UInt32) ||| _) ||| _).toNat < 2 ^ (24 : UInt32).toNat by
      rw [three, two, one, octet, octet, octet, zero, eight, sixteen, more, quotient, quotient]; omega) (by omega)
  apply UInt32.toNat_inj.mp
  rw [four, three, two, one]
  simp only [octet, quotient, zero, eight, sixteen, more]
  have bounded := value.toNat_lt
  omega

end Etpan.Data
