import Etpan.Data.Bytes

namespace Etpan.Data

/-! Regrouping a stream of digits of one bit width into digits of another.

A codec that moves between octets and sextets keeps the bits that do not yet
fill an output digit in an accumulator.  The operations here are that
accumulator; the number a digit list denotes is the semantic model, so two
regroupings in opposite directions are compared as numbers and never bit by
bit. -/

/-- The bits waiting for an output digit: the low `count` bits of `bits`. -/
structure BitBuffer where
  bits : Nat
  count : Nat
deriving Repr, DecidableEq

namespace BitBuffer

def empty : BitBuffer := ⟨0, 0⟩

@[reducible] def Masked (buffer : BitBuffer) : Prop :=
  buffer.bits < 2 ^ buffer.count

/-- Emits every whole digit of `width` bits, most significant first, and returns
the number of bits left over.  The fuel bounds the number of digits. -/
def drain (width : Nat) : Nat → Nat → Nat → List Nat × Nat
  | 0, _, count => ([], count)
  | fuel + 1, bits, count =>
      if width ≤ count then
        let rest := drain width fuel bits (count - width)
        (((bits >>> (count - width)) &&& (2 ^ width - 1)) :: rest.1, rest.2)
      else ([], count)

/-- Shifts one digit of `input` bits in and takes the whole digits of `output`
bits out. -/
def push (input output : Nat) (buffer : BitBuffer) (digit : Nat) : List Nat × BitBuffer :=
  let bits := (buffer.bits <<< input) ||| digit
  let drained := drain output (buffer.count + input) bits (buffer.count + input)
  (drained.1, ⟨bits &&& (2 ^ drained.2 - 1), drained.2⟩)

def pushAll (input output : Nat) : BitBuffer → List Nat → List Nat × BitBuffer
  | buffer, [] => ([], buffer)
  | buffer, digit :: digits =>
      let first := push input output buffer digit
      let rest := pushAll input output first.2 digits
      (first.1 ++ rest.1, rest.2)

/-- The number a digit list denotes, most significant digit first. -/
def value (width : Nat) (digits : List Nat) : Nat :=
  Nat.ofDigits (2 ^ width) digits.reverse

@[simp] theorem value_nil (width : Nat) : value width [] = 0 := rfl

theorem value_append (width : Nat) (left right : List Nat) :
    value width (left ++ right) =
      value width left * 2 ^ (width * right.length) + value width right := by
  simp only [value, List.reverse_append, Nat.ofDigits_append, List.length_reverse]
  rw [← Nat.pow_mul, Nat.mul_comm (2 ^ _), Nat.add_comm]

theorem value_cons (width digit : Nat) (digits : List Nat) :
    value width (digit :: digits) = digit * 2 ^ (width * digits.length) + value width digits := by
  have split := value_append width [digit] digits
  simpa [value] using split

theorem value_injective {width : Nat} (positive : 0 < width) {left right : List Nat}
    (lengths : left.length = right.length)
    (leftBounded : ∀ digit ∈ left, digit < 2 ^ width)
    (rightBounded : ∀ digit ∈ right, digit < 2 ^ width)
    (same : value width left = value width right) : left = right := by
  apply List.reverse_injective
  exact Nat.ofDigits_inj_of_len_eq (Nat.one_lt_two_pow positive.ne') (by simpa using lengths)
    (by simpa using leftBounded) (by simpa using rightBounded) same

theorem drain_spec {width : Nat} (positive : 0 < width) (fuel bits count : Nat)
    (enough : count ≤ fuel) :
    (drain width fuel bits count).2 < width ∧
      width * (drain width fuel bits count).1.length + (drain width fuel bits count).2 = count ∧
      (∀ digit ∈ (drain width fuel bits count).1, digit < 2 ^ width) ∧
      value width (drain width fuel bits count).1 * 2 ^ (drain width fuel bits count).2 +
        bits % 2 ^ (drain width fuel bits count).2 = bits % 2 ^ count := by
  induction fuel generalizing count with
  | zero =>
      have none : count = 0 := by omega
      subst none
      simp [drain, positive]
  | succ fuel ih =>
      by_cases whole : width ≤ count
      · obtain ⟨short, lengths, bounded, denotes⟩ := ih (count - width) (by omega)
        simp only [drain, if_pos whole]
        refine ⟨short, ?_, ?_, ?_⟩
        · simp only [List.length_cons, Nat.mul_succ]
          omega
        · intro digit member
          rcases List.mem_cons.mp member with rfl | later
          · exact Nat.lt_of_le_of_lt Nat.and_le_right (by simp)
          · exact bounded digit later
        · rw [value_cons, Nat.and_two_pow_sub_one_eq_mod, Nat.shiftRight_eq_div_pow,
            Nat.add_mul, Nat.add_assoc, denotes, Nat.mul_assoc, ← Nat.pow_add, lengths]
          have powers : 2 ^ count = 2 ^ (count - width) * 2 ^ width := by
            rw [← Nat.pow_add]
            congr 1
            omega
          rw [powers, Nat.mod_mul, Nat.mul_comm, Nat.add_comm]
      · simp only [drain, if_neg whole]
        refine ⟨by omega, by simp, by simp, by simp⟩

/-- One push keeps the number: the old bits followed by the new digit are the
emitted digits followed by the new pending bits. -/
theorem push_spec {input output : Nat} (positive : 0 < output) {buffer : BitBuffer} {digit : Nat}
    (masked : buffer.Masked) (bounded : digit < 2 ^ input) :
    (push input output buffer digit).2.count < output ∧ (push input output buffer digit).2.Masked ∧
      output * (push input output buffer digit).1.length + (push input output buffer digit).2.count =
        buffer.count + input ∧
      (∀ emitted ∈ (push input output buffer digit).1, emitted < 2 ^ output) ∧
      value output (push input output buffer digit).1 * 2 ^ (push input output buffer digit).2.count +
        (push input output buffer digit).2.bits = buffer.bits * 2 ^ input + digit := by
  have joined := shiftLeft_or buffer.bits bounded
  have fits : buffer.bits * 2 ^ input + digit < 2 ^ (buffer.count + input) := by
    rw [Nat.pow_add]
    calc buffer.bits * 2 ^ input + digit
        < (buffer.bits + 1) * 2 ^ input := by rw [Nat.add_mul]; omega
      _ ≤ 2 ^ buffer.count * 2 ^ input := Nat.mul_le_mul_right _ masked
  obtain ⟨short, lengths, emittedBounded, denotes⟩ := drain_spec positive (buffer.count + input)
    ((buffer.bits <<< input) ||| digit) (buffer.count + input) (Nat.le_refl _)
  simp only [push, Masked, Nat.and_two_pow_sub_one_eq_mod]
  refine ⟨short, Nat.mod_lt _ (Nat.two_pow_pos _), lengths, emittedBounded, ?_⟩
  rw [denotes, joined, Nat.mod_eq_of_lt fits]

theorem pushAll_append (input output : Nat) (buffer : BitBuffer) (left right : List Nat) :
    pushAll input output buffer (left ++ right) =
      ((pushAll input output buffer left).1 ++
          (pushAll input output (pushAll input output buffer left).2 right).1,
        (pushAll input output (pushAll input output buffer left).2 right).2) := by
  induction left generalizing buffer with
  | nil => rfl
  | cons digit digits ih => simp only [List.cons_append, pushAll, ih, List.append_assoc]

theorem pushAll_spec {input output : Nat} (positive : 0 < output) (buffer : BitBuffer)
    (digits : List Nat) (short : buffer.count < output) (masked : buffer.Masked)
    (bounded : ∀ digit ∈ digits, digit < 2 ^ input) :
    (pushAll input output buffer digits).2.count < output ∧
      (pushAll input output buffer digits).2.Masked ∧
      output * (pushAll input output buffer digits).1.length +
        (pushAll input output buffer digits).2.count = buffer.count + input * digits.length ∧
      (∀ emitted ∈ (pushAll input output buffer digits).1, emitted < 2 ^ output) ∧
      value output (pushAll input output buffer digits).1 *
          2 ^ (pushAll input output buffer digits).2.count +
        (pushAll input output buffer digits).2.bits =
          buffer.bits * 2 ^ (input * digits.length) + value input digits := by
  induction digits generalizing buffer with
  | nil => simp [pushAll, short, masked]
  | cons digit digits ih =>
      obtain ⟨firstShort, firstMasked, firstLength, firstBounded, firstValue⟩ :=
        push_spec positive masked (bounded digit (by simp))
      obtain ⟨restShort, restMasked, restLength, restBounded, restValue⟩ :=
        ih _ firstShort firstMasked (fun other member => bounded other (by simp [member]))
      simp only [pushAll]
      refine ⟨restShort, restMasked, ?_, ?_, ?_⟩
      · simp only [List.length_append, List.length_cons, Nat.mul_add, Nat.mul_one]
        omega
      · intro emitted member
        rcases List.mem_append.mp member with early | later
        · exact firstBounded emitted early
        · exact restBounded emitted later
      · -- the two emitted runs are one number, and each step kept it
        rw [value_append, Nat.add_mul, Nat.add_assoc, restValue, Nat.mul_assoc, ← Nat.pow_add,
          restLength, Nat.pow_add, ← Nat.mul_assoc, ← Nat.add_assoc, ← Nat.add_mul, firstValue,
          value_cons, List.length_cons, Nat.mul_succ, Nat.pow_add, Nat.add_mul, Nat.add_assoc,
          Nat.mul_assoc, Nat.mul_comm (2 ^ input)]

theorem empty_masked : empty.Masked := by decide

private theorem mulAdd_injective {base left right low low' : Nat} (positive : 0 < base)
    (bounded : low < base) (bounded' : low' < base)
    (same : left * base + low = right * base + low') : left = right ∧ low = low' := by
  have quotients := congrArg (· / base) same
  have remainders := congrArg (· % base) same
  simp only [Nat.mul_comm _ base, Nat.mul_add_div positive, Nat.div_eq_of_lt bounded,
    Nat.div_eq_of_lt bounded', Nat.add_zero] at quotients
  simp only [Nat.mul_comm _ base, Nat.mul_add_mod, Nat.mod_eq_of_lt bounded,
    Nat.mod_eq_of_lt bounded'] at remainders
  exact ⟨quotients, remainders⟩

/-- The last digits of a regrouping, padded with zero bits to a whole digit. -/
def flush (output : Nat) (buffer : BitBuffer) : List Nat :=
  if buffer.count ≠ 0 then [buffer.bits <<< (output - buffer.count)] else []

theorem flush_lt {output : Nat} {buffer : BitBuffer} (short : buffer.count < output)
    (masked : buffer.Masked) : ∀ digit ∈ flush output buffer, digit < 2 ^ output := by
  intro digit member
  unfold flush at member
  split at member
  · have powers : 2 ^ buffer.count * 2 ^ (output - buffer.count) = 2 ^ output := by
      rw [← Nat.pow_add, Nat.add_sub_cancel' short.le]
    rw [List.mem_singleton.mp member, Nat.shiftLeft_eq, ← powers]
    exact Nat.mul_lt_mul_of_pos_right masked (Nat.two_pow_pos _)
  · simp at member

/-- Regrouping into narrower digits, padding the last one and regrouping back
gives the digits back and leaves only the zero padding. -/
theorem pushAll_roundTrip {input output : Nat} (positive : 0 < output) (narrower : output ≤ input)
    {digits : List Nat} (bounded : ∀ digit ∈ digits, digit < 2 ^ input) :
    let narrow := pushAll input output .empty digits
    let wide := pushAll output input .empty (narrow.1 ++ flush output narrow.2)
    wide.1 = digits ∧ wide.2.bits = 0 := by
  obtain ⟨short, masked, lengths, narrowBounded, denotes⟩ :=
    pushAll_spec positive .empty digits positive empty_masked bounded
  intro narrow wide
  -- the padded text denotes the input number followed by `padding` zero bits
  obtain ⟨padding, paddingShort, paddedLength, paddedValue⟩ :
      ∃ padding, padding < output ∧
        output * (narrow.1 ++ flush output narrow.2).length = input * digits.length + padding ∧
        value output (narrow.1 ++ flush output narrow.2) = value input digits * 2 ^ padding := by
    change narrow.2.count < output at short
    change narrow.2.bits < 2 ^ narrow.2.count at masked
    change output * narrow.1.length + narrow.2.count = 0 + input * digits.length at lengths
    change value output narrow.1 * 2 ^ narrow.2.count + narrow.2.bits =
      0 * 2 ^ (input * digits.length) + value input digits at denotes
    by_cases whole : narrow.2.count = 0
    · have nothing : narrow.2.bits = 0 := by
        rw [whole] at masked
        simpa using masked
      refine ⟨0, positive, by simp [flush, whole]; omega, ?_⟩
      simp only [flush, whole, nothing, ne_eq, not_true_eq_false, if_false, List.append_nil] at denotes ⊢
      simpa using denotes
    · have powers : 2 ^ narrow.2.count * 2 ^ (output - narrow.2.count) = 2 ^ output := by
        rw [← Nat.pow_add]
        congr 1
        omega
      refine ⟨output - narrow.2.count, by omega, ?_, ?_⟩
      · simp only [flush, whole, ne_eq, not_false_eq_true, if_true, List.length_append,
          List.length_singleton, Nat.mul_add, Nat.mul_one]
        omega
      · simp only [flush, whole, ne_eq, not_false_eq_true, if_true]
        rw [value_append, List.length_singleton, Nat.mul_one, ← powers, ← Nat.mul_assoc]
        simp only [value, List.reverse_singleton, Nat.ofDigits_singleton, Nat.shiftLeft_eq]
        rw [← Nat.add_mul]
        congr 1
        simpa [value] using denotes
  have allBounded : ∀ digit ∈ narrow.1 ++ flush output narrow.2, digit < 2 ^ output := by
    intro digit member
    rcases List.mem_append.mp member with early | later
    · exact narrowBounded digit early
    · exact flush_lt short masked digit later
  have wider : 0 < input := Nat.lt_of_lt_of_le positive narrower
  obtain ⟨wideShort, wideMasked, wideLength, wideBounded, wideValue⟩ :=
    pushAll_spec wider .empty (narrow.1 ++ flush output narrow.2) wider empty_masked allBounded
  change wide.2.count < input at wideShort
  change wide.2.bits < 2 ^ wide.2.count at wideMasked
  change input * wide.1.length + wide.2.count =
    0 + output * (narrow.1 ++ flush output narrow.2).length at wideLength
  change value input wide.1 * 2 ^ wide.2.count + wide.2.bits =
    0 * 2 ^ (output * (narrow.1 ++ flush output narrow.2).length) +
      value output (narrow.1 ++ flush output narrow.2) at wideValue
  rw [Nat.zero_add, paddedLength] at wideLength
  rw [Nat.zero_mul, Nat.zero_add, paddedValue] at wideValue
  obtain ⟨sameLength, samePadding⟩ :=
    mulAdd_injective wider wideShort (Nat.lt_of_lt_of_le paddingShort narrower)
      (by simpa [Nat.mul_comm] using wideLength)
  rw [samePadding] at wideMasked wideValue
  obtain ⟨sameValue, nothing⟩ := mulAdd_injective (Nat.two_pow_pos padding) wideMasked
    (Nat.two_pow_pos padding) (by simpa using wideValue)
  exact ⟨value_injective wider sameLength wideBounded bounded sameValue, nothing⟩

end BitBuffer

end Etpan.Data
