import Etpan.Charconv.Mutf7

namespace Etpan.Charconv

open Etpan.Data

/-- Well-formed UTF-8: the octets of a list of Unicode scalar values, each in its
shortest form.  A `Char` is never a surrogate nor above U+10FFFF. -/
def WellFormedUtf8 (str : List UInt8) : Prop :=
  ∃ text : List Char, str = text.flatMap String.utf8EncodeChar

private theorem octet_tail (octet : UInt8) :
    octet.toNat &&& 0xc0 = 0x80 ↔ 0x80 ≤ octet.toNat ∧ octet.toNat < 0xc0 := by
  revert octet
  refine forall_octet ?_
  decide +kernel

private theorem toNat_ofNat_lt {number : Nat} (bounded : number < 256) :
    (UInt8.ofNat number).toNat = number := by
  rw [UInt8.toNat_ofNat', Nat.mod_eq_of_lt bounded]

private theorem twoOctets (lead first : Nat) :
    ((lead &&& 0x1f) <<< 6) ||| (first &&& 0x3f) = lead % 32 * 64 + first % 64 := by
  rw [Nat.and_two_pow_sub_one_eq_mod lead 5, Nat.and_two_pow_sub_one_eq_mod first 6,
    shiftLeft_or _ (Nat.mod_lt _ (by decide))]
  omega

private theorem threeOctets (lead first second : Nat) :
    ((lead &&& 0x0f) <<< 12) ||| ((first &&& 0x3f) <<< 6) ||| (second &&& 0x3f) =
      lead % 16 * 4096 + first % 64 * 64 + second % 64 := by
  rw [Nat.and_two_pow_sub_one_eq_mod lead 4, Nat.and_two_pow_sub_one_eq_mod first 6,
    Nat.and_two_pow_sub_one_eq_mod second 6, Nat.or_assoc,
    shiftLeft_or (first % 64) (Nat.mod_lt second (by decide)), shiftLeft_or (lead % 16) (by omega)]
  omega

private theorem fourOctets (lead first second third : Nat) :
    ((lead &&& 0x07) <<< 18) ||| ((first &&& 0x3f) <<< 12) ||| ((second &&& 0x3f) <<< 6) |||
        (third &&& 0x3f) =
      lead % 8 * 262144 + first % 64 * 4096 + second % 64 * 64 + third % 64 := by
  rw [Nat.and_two_pow_sub_one_eq_mod lead 3, Nat.and_two_pow_sub_one_eq_mod first 6,
    Nat.and_two_pow_sub_one_eq_mod second 6, Nat.and_two_pow_sub_one_eq_mod third 6,
    Nat.or_assoc, Nat.or_assoc, shiftLeft_or (second % 64) (Nat.mod_lt third (by decide)),
    shiftLeft_or (first % 64) (by omega), shiftLeft_or (lead % 8) (by omega)]
  omega

theorem scalar_bounds (c : Char) :
    c.toNat < 0x110000 ∧ ¬ (0xd800 ≤ c.toNat ∧ c.toNat ≤ 0xdfff) := by
  have valid := c.valid
  simp only [UInt32.isValidChar, Nat.isValidChar] at valid
  change (c.toNat < 0xd800 ∨ 0xdfff < c.toNat ∧ c.toNat < 0x110000) at valid
  omega

theorem utf8EncodeChar_cases (c : Char) :
    (c.toNat ≤ 0x7f ∧ String.utf8EncodeChar c = [UInt8.ofNat c.toNat]) ∨
    (0x7f < c.toNat ∧ c.toNat ≤ 0x7ff ∧ String.utf8EncodeChar c =
      [UInt8.ofNat (c.toNat / 64 % 32 + 192), UInt8.ofNat (c.toNat % 64 + 128)]) ∨
    (0x7ff < c.toNat ∧ c.toNat ≤ 0xffff ∧ String.utf8EncodeChar c =
      [UInt8.ofNat (c.toNat / 4096 % 16 + 224), UInt8.ofNat (c.toNat / 64 % 64 + 128),
        UInt8.ofNat (c.toNat % 64 + 128)]) ∨
    (0xffff < c.toNat ∧ String.utf8EncodeChar c =
      [UInt8.ofNat (c.toNat / 262144 % 8 + 240), UInt8.ofNat (c.toNat / 4096 % 64 + 128),
        UInt8.ofNat (c.toNat / 64 % 64 + 128), UInt8.ofNat (c.toNat % 64 + 128)]) := by
  unfold String.utf8EncodeChar
  by_cases one : c.toNat ≤ 0x7f
  · exact .inl ⟨one, if_pos one⟩
  by_cases two : c.toNat ≤ 0x7ff
  · exact .inr (.inl ⟨by omega, two, (if_neg one).trans (if_pos two)⟩)
  by_cases three : c.toNat ≤ 0xffff
  · exact .inr (.inr (.inl ⟨by omega, three,
      (if_neg one).trans ((if_neg two).trans (if_pos three))⟩))
  · exact .inr (.inr (.inr ⟨by omega, (if_neg one).trans ((if_neg two).trans (if_neg three))⟩))

private theorem tail_eq (octet : UInt8) :
    (octet.toNat &&& 0xc0 == 0x80) = decide (0x80 ≤ octet.toNat ∧ octet.toNat < 0xc0) := by
  rw [Bool.eq_iff_iff, beq_iff_eq, decide_eq_true_iff]
  exact octet_tail octet

/-- What the decoder accepts, by length, and the value it returns. -/
theorem mutf7DecodeUtf8Char_eq_some {str rest : List UInt8} {cp : Nat} :
    mutf7DecodeUtf8Char str = some (cp, rest) ↔
    (∃ a, str = a :: rest ∧ a.toNat ≤ 0x7f ∧ cp = a.toNat) ∨
    (∃ a b, str = a :: b :: rest ∧ 0xc2 ≤ a.toNat ∧ a.toNat ≤ 0xdf ∧
      0x80 ≤ b.toNat ∧ b.toNat < 0xc0 ∧ cp = a.toNat % 32 * 64 + b.toNat % 64) ∨
    (∃ a b c, str = a :: b :: c :: rest ∧ 0xe0 ≤ a.toNat ∧ a.toNat ≤ 0xef ∧
      0x80 ≤ b.toNat ∧ b.toNat < 0xc0 ∧ 0x80 ≤ c.toNat ∧ c.toNat < 0xc0 ∧
      ¬ (a.toNat = 0xe0 ∧ b.toNat < 0xa0) ∧ ¬ (a.toNat = 0xed ∧ 0xa0 ≤ b.toNat) ∧
      cp = a.toNat % 16 * 4096 + b.toNat % 64 * 64 + c.toNat % 64) ∨
    (∃ a b c d, str = a :: b :: c :: d :: rest ∧ 0xf0 ≤ a.toNat ∧ a.toNat ≤ 0xf4 ∧
      0x80 ≤ b.toNat ∧ b.toNat < 0xc0 ∧ 0x80 ≤ c.toNat ∧ c.toNat < 0xc0 ∧
      0x80 ≤ d.toNat ∧ d.toNat < 0xc0 ∧
      ¬ (a.toNat = 0xf0 ∧ b.toNat < 0x90) ∧ ¬ (a.toNat = 0xf4 ∧ 0x90 ≤ b.toNat) ∧
      cp = a.toNat % 8 * 262144 + b.toNat % 64 * 4096 + c.toNat % 64 * 64 + d.toNat % 64) := by
  constructor
  · intro decoded
    unfold mutf7DecodeUtf8Char at decoded
    simp only [tail_eq, twoOctets, threeOctets, fourOctets] at decoded
    split at decoded
    · contradiction
    · next a more =>
        split at decoded
        · cases decoded
          exact .inl ⟨a, rfl, by assumption, rfl⟩
        split at decoded
        · next lead =>
            split at decoded
            · next b tail =>
                split at decoded
                · contradiction
                · next accepted =>
                    cases decoded
                    simp only [Bool.not_eq_true, Bool.not_eq_false', decide_eq_true_eq] at accepted
                    exact .inr (.inl ⟨a, b, rfl, lead.1, lead.2, accepted.1, accepted.2, rfl⟩)
            · contradiction
        split at decoded
        · next lead =>
            split at decoded
            · next b c tail =>
                repeat' split at decoded
                all_goals first | contradiction | cases decoded
                simp only [Bool.or_eq_true, Bool.not_eq_true', decide_eq_false_iff_not,
                  not_or, Decidable.not_not] at *
                exact .inr (.inr (.inl ⟨a, b, c, rfl, by tauto⟩))
            · contradiction
        split at decoded
        · next lead =>
            split at decoded
            · next b c d tail =>
                repeat' split at decoded
                all_goals first | contradiction | cases decoded
                simp only [Bool.or_eq_true, Bool.not_eq_true', decide_eq_false_iff_not,
                  not_or, Decidable.not_not] at *
                exact .inr (.inr (.inr ⟨a, b, c, d, rfl, by tauto⟩))
            · contradiction
        · contradiction
  · rintro (⟨a, rfl, one, rfl⟩ | ⟨a, b, rfl, low, high, b0, b1, rfl⟩ |
      ⟨a, b, c, rfl, low, high, b0, b1, c0, c1, e0, ed, rfl⟩ |
      ⟨a, b, c, d, rfl, low, high, b0, b1, c0, c1, d0, d1, f0, f4, rfl⟩)
    · simp [mutf7DecodeUtf8Char, one]
    · have lead : ¬ a.toNat ≤ 0x7f := by omega
      simp [mutf7DecodeUtf8Char, tail_eq, twoOctets, lead, low, high, b0, b1]
    · have lead : ¬ a.toNat ≤ 0x7f := by omega
      have lead' : ¬ (0xc2 ≤ a.toNat ∧ a.toNat ≤ 0xdf) := by omega
      simp [mutf7DecodeUtf8Char, tail_eq, threeOctets, lead, lead', low, high, b0, b1, c0, c1, e0, ed]
    · have lead : ¬ a.toNat ≤ 0x7f := by omega
      have lead' : ¬ (0xc2 ≤ a.toNat ∧ a.toNat ≤ 0xdf) := by omega
      have lead'' : ¬ (0xe0 ≤ a.toNat ∧ a.toNat ≤ 0xef) := by omega
      simp [mutf7DecodeUtf8Char, tail_eq, fourOctets, lead, lead', lead'', low, high, b0, b1, c0, c1,
        d0, d1, f0, f4]

theorem mutf7DecodeUtf8Char_encode (c : Char) (rest : List UInt8) :
    mutf7DecodeUtf8Char (String.utf8EncodeChar c ++ rest) = some (c.toNat, rest) := by
  have bounds := scalar_bounds c
  rw [mutf7DecodeUtf8Char_eq_some]
  rcases utf8EncodeChar_cases c with ⟨one, octets⟩ | ⟨low, high, octets⟩ | ⟨low, high, octets⟩ |
    ⟨low, octets⟩ <;> rw [octets] <;> generalize c.toNat = v at *
  · have first := toNat_ofNat_lt (show v < 256 by omega)
    exact .inl ⟨_, rfl, by omega, by omega⟩
  · have first := toNat_ofNat_lt (show v / 64 % 32 + 192 < 256 by omega)
    have second := toNat_ofNat_lt (show v % 64 + 128 < 256 by omega)
    exact .inr (.inl ⟨_, _, rfl, by omega, by omega, by omega, by omega, by omega⟩)
  · have first := toNat_ofNat_lt (show v / 4096 % 16 + 224 < 256 by omega)
    have second := toNat_ofNat_lt (show v / 64 % 64 + 128 < 256 by omega)
    have third := toNat_ofNat_lt (show v % 64 + 128 < 256 by omega)
    exact .inr (.inr (.inl ⟨_, _, _, rfl, by omega, by omega, by omega, by omega, by omega, by omega,
      by omega, by omega, by omega⟩))
  · have first := toNat_ofNat_lt (show v / 262144 % 8 + 240 < 256 by omega)
    have second := toNat_ofNat_lt (show v / 4096 % 64 + 128 < 256 by omega)
    have third := toNat_ofNat_lt (show v / 64 % 64 + 128 < 256 by omega)
    have fourth := toNat_ofNat_lt (show v % 64 + 128 < 256 by omega)
    exact .inr (.inr (.inr ⟨_, _, _, _, rfl, by omega, by omega, by omega, by omega, by omega,
      by omega, by omega, by omega, by omega, by omega, by omega⟩))

private theorem octet_eq_ofNat {octet : UInt8} {number : Nat} (same : octet.toNat = number) :
    octet = UInt8.ofNat number := by
  rw [← same, UInt8.ofNat_toNat]

/-- Every accepted sequence is the encoding of a scalar value. -/
theorem mutf7DecodeUtf8Char_sound {str rest : List UInt8} {cp : Nat}
    (decoded : mutf7DecodeUtf8Char str = some (cp, rest)) :
    ∃ c : Char, c.toNat = cp ∧ str = String.utf8EncodeChar c ++ rest := by
  have scalar : ∀ number : Nat, number < 0xd800 ∨ 0xdfff < number ∧ number < 0x110000 →
      ∃ c : Char, c.toNat = number :=
    fun number valid => ⟨Char.ofNatAux number valid, by simp [Char.ofNatAux, Char.toNat]⟩
  rw [mutf7DecodeUtf8Char_eq_some] at decoded
  rcases decoded with ⟨a, rfl, one, equation⟩ | ⟨a, b, rfl, low, high, b0, b1, equation⟩ |
    ⟨a, b, c, rfl, low, high, b0, b1, c0, c1, e0, ed, equation⟩ |
    ⟨a, b, c, d, rfl, low, high, b0, b1, c0, c1, d0, d1, f0, f4, equation⟩ <;>
    obtain ⟨character, isNumber⟩ := scalar cp (by omega) <;>
    refine ⟨character, isNumber, ?_⟩ <;>
    rcases utf8EncodeChar_cases character with ⟨range, octets⟩ | ⟨range, range', octets⟩ |
      ⟨range, range', octets⟩ | ⟨range, octets⟩ <;>
    first
    | omega
    | rw [octets]
  · rw [← octet_eq_ofNat (show a.toNat = _ by omega)]
    rfl
  · rw [← octet_eq_ofNat (show a.toNat = _ by omega), ← octet_eq_ofNat (show b.toNat = _ by omega)]
    rfl
  · rw [← octet_eq_ofNat (show a.toNat = _ by omega), ← octet_eq_ofNat (show b.toNat = _ by omega),
      ← octet_eq_ofNat (show c.toNat = _ by omega)]
    rfl
  · rw [← octet_eq_ofNat (show a.toNat = _ by omega), ← octet_eq_ofNat (show b.toNat = _ by omega),
      ← octet_eq_ofNat (show c.toNat = _ by omega), ← octet_eq_ofNat (show d.toNat = _ by omega)]
    rfl

theorem mutf7AppendUtf8_scalar (c : Char) :
    mutf7AppendUtf8 c.toNat = some (String.utf8EncodeChar c) := by
  have bounds := scalar_bounds c
  have shift (number width : Nat) := Nat.shiftRight_eq_div_pow number width
  have mask (number : Nat) : 0x80 ||| (number &&& 0x3f) = number % 64 + 128 := by
    rw [Nat.and_two_pow_sub_one_eq_mod number 6, Nat.add_comm]
    exact shiftLeft_or 2 (show number % 2 ^ 6 < 2 ^ 6 by omega)
  rcases utf8EncodeChar_cases c with ⟨one, octets⟩ | ⟨low, high, octets⟩ | ⟨low, high, octets⟩ |
    ⟨low, octets⟩ <;> rw [octets] <;> generalize c.toNat = v at *
  · simp [mutf7AppendUtf8, one]
  · have lead : 0xc0 ||| (v >>> 6) = v / 64 % 32 + 192 := by
      rw [shift]
      exact (shiftLeft_or 6 (show v / 2 ^ 6 < 2 ^ 5 by omega)).trans (by omega)
    rw [mutf7AppendUtf8, if_neg (by omega), if_pos high, lead, mask]
  · have lead : 0xe0 ||| (v >>> 12) = v / 4096 % 16 + 224 := by
      rw [shift]
      exact (shiftLeft_or 14 (show v / 2 ^ 12 < 2 ^ 4 by omega)).trans (by omega)
    rw [mutf7AppendUtf8, if_neg (by omega), if_neg (by omega), if_pos high, if_neg bounds.2, lead,
      mask, mask, shift]
  · have lead : 0xf0 ||| (v >>> 18) = v / 262144 % 8 + 240 := by
      rw [shift]
      exact (shiftLeft_or 30 (show v / 2 ^ 18 < 2 ^ 3 by omega)).trans (by omega)
    rw [mutf7AppendUtf8, if_neg (by omega), if_neg (by omega), if_neg (by omega), if_pos (by omega),
      lead, mask, mask, mask, shift, shift]

end Etpan.Charconv
