import Mathlib

namespace Etpan.Data

/-! Octets as the C sources spell them: character constants, the two line-break
octets and the zero octet that ends a C string. -/

def ascii (character : Char) : UInt8 := character.val.toUInt8

def CR : UInt8 := 13

def LF : UInt8 := 10

@[simp] theorem CR_ne_LF : CR ≠ LF := by decide

@[simp] theorem LF_ne_CR : LF ≠ CR := by decide

/-- The octets a C function sees of a buffer that it takes as a string:
everything before the first zero octet. -/
def cString (bytes : List UInt8) : List UInt8 :=
  bytes.takeWhile (fun byte => byte != 0)

def NulFree (bytes : List UInt8) : Prop :=
  ∀ byte ∈ bytes, byte ≠ 0

instance (bytes : List UInt8) : Decidable (NulFree bytes) :=
  List.decidableBAll (fun byte => byte ≠ 0) bytes

theorem cString_eq_self {bytes : List UInt8} (nulFree : NulFree bytes) : cString bytes = bytes := by
  rw [cString, List.takeWhile_eq_self_iff]
  intro byte member
  simpa using nulFree byte member

theorem NulFree.append {left right : List UInt8} (leftFree : NulFree left)
    (rightFree : NulFree right) : NulFree (left ++ right) := by
  intro byte member
  rcases List.mem_append.mp member with early | later
  · exact leftFree byte early
  · exact rightFree byte later

theorem NulFree.of_append_left {left right : List UInt8} (free : NulFree (left ++ right)) :
    NulFree left :=
  fun byte member => free byte (List.mem_append_left _ member)

theorem NulFree.of_append_right {left right : List UInt8} (free : NulFree (left ++ right)) :
    NulFree right :=
  fun byte member => free byte (List.mem_append_right _ member)

/-- A fact about the octets of a list is checked along the list, not by asking of each of the 256
octets whether it is in the list. -/
instance decidableOctets {property : UInt8 → Prop} [DecidablePred property] (octets : List UInt8) :
    Decidable (∀ octet ∈ octets, property octet) :=
  octets.decidableBAll property

theorem forall_octet {property : UInt8 → Prop}
    (checked : ∀ number : Nat, number < 256 → property (UInt8.ofNat number)) (byte : UInt8) :
    property byte := by
  have instantiated := checked byte.toNat byte.toNat_lt
  rwa [UInt8.ofNat_toNat] at instantiated

theorem shiftLeft_or {low width : Nat} (high : Nat) (bounded : low < 2 ^ width) :
    (high <<< width) ||| low = high * 2 ^ width + low := by
  rw [← Nat.shiftLeft_add_eq_or_of_lt bounded, Nat.shiftLeft_eq]

end Etpan.Data
