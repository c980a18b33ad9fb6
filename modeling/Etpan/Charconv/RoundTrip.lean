import Etpan.Charconv.Utf8

namespace Etpan.Charconv

open Etpan.Data

def utf16Octets (cp : Nat) : List Nat :=
  if cp ≤ 0xffff then [cp / 256, cp % 256]
  else
    [(0xd800 + (cp - 0x10000) / 1024) / 256, (0xd800 + (cp - 0x10000) / 1024) % 256,
      (0xdc00 + (cp - 0x10000) % 1024) / 256, (0xdc00 + (cp - 0x10000) % 1024) % 256]

theorem utf16Octets_lt {cp octet : Nat} (scalar : cp < 0x110000) (member : octet ∈ utf16Octets cp) :
    octet < 2 ^ 8 := by
  unfold utf16Octets at member
  split at member <;> simp only [List.mem_cons, List.not_mem_nil, or_false] at member <;> omega

theorem utf16Octets_ne_nil (cp : Nat) : utf16Octets cp ≠ [] := by
  unfold utf16Octets
  split <;> simp

private theorem encodeShiftUnit_eq {unit : Nat} (buffer : BitBuffer) (bounded : unit < 0x10000) :
    mutf7EncodeShiftUnit buffer unit =
      ((buffer.pushAll 8 6 [unit / 256, unit % 256]).1.map mutf7Char,
        (buffer.pushAll 8 6 [unit / 256, unit % 256]).2) := by
  have high : (UInt8.ofNat (unit >>> 8)).toNat = unit / 256 := by
    rw [UInt8.toNat_ofNat', Nat.shiftRight_eq_div_pow]
    omega
  have low : (UInt8.ofNat (unit &&& 0xff)).toNat = unit % 256 := by
    rw [UInt8.toNat_ofNat', Nat.and_two_pow_sub_one_eq_mod unit 8]
    omega
  simp only [mutf7EncodeShiftUnit, mutf7EncodeShiftByte, BitBuffer.pushAll, high, low,
    List.append_nil, List.map_append]

theorem mutf7EncodeShiftCodepoint_eq {cp : Nat} (buffer : BitBuffer) (scalar : cp < 0x110000) :
    mutf7EncodeShiftCodepoint buffer cp =
      ((buffer.pushAll 8 6 (utf16Octets cp)).1.map mutf7Char,
        (buffer.pushAll 8 6 (utf16Octets cp)).2) := by
  unfold mutf7EncodeShiftCodepoint utf16Octets
  split
  · exact encodeShiftUnit_eq buffer (by omega)
  · have high : 0xd800 ||| ((cp - 0x10000) >>> 10) = 0xd800 + (cp - 0x10000) / 1024 := by
      rw [Nat.shiftRight_eq_div_pow]
      exact shiftLeft_or 54 (show (cp - 0x10000) / 2 ^ 10 < 2 ^ 10 by omega)
    have low : 0xdc00 ||| ((cp - 0x10000) &&& 0x3ff) = 0xdc00 + (cp - 0x10000) % 1024 := by
      rw [Nat.and_two_pow_sub_one_eq_mod (cp - 0x10000) 10]
      exact shiftLeft_or 55 (show (cp - 0x10000) % 2 ^ 10 < 2 ^ 10 by omega)
    dsimp only
    rw [high, low, encodeShiftUnit_eq buffer (by omega), encodeShiftUnit_eq _ (by omega),
      ← List.map_append]
    simp only [BitBuffer.pushAll, List.append_assoc, List.append_nil]

private theorem unit_of_octets {unit : Nat} (bounded : unit < 0x10000) :
    ((UInt8.ofNat (unit / 256)).toNat <<< 8) ||| (UInt8.ofNat (unit % 256)).toNat = unit := by
  have low : (UInt8.ofNat (unit % 256)).toNat < 2 ^ 8 := by
    rw [UInt8.toNat_ofNat']
    omega
  rw [shiftLeft_or _ low, UInt8.toNat_ofNat', UInt8.toNat_ofNat']
  omega

theorem mutf7DecodeUtf16be_scalar (c : Char) (rest : List UInt8) :
    mutf7DecodeUtf16be ((utf16Octets c.toNat).map UInt8.ofNat ++ rest) =
      (mutf7DecodeUtf16be rest).map (String.utf8EncodeChar c ++ ·) := by
  have bounds := scalar_bounds c
  have appended := mutf7AppendUtf8_scalar c
  generalize c.toNat = cp at *
  unfold utf16Octets
  split
  · next small =>
      have unit := unit_of_octets (show cp < 0x10000 by omega)
      have notHigh : ¬ (0xd800 ≤ cp ∧ cp ≤ 0xdbff) := by omega
      have notLow : ¬ (0xdc00 ≤ cp ∧ cp ≤ 0xdfff) := by omega
      simp only [List.map_cons, List.map_nil, List.cons_append, List.nil_append]
      rw [mutf7DecodeUtf16be.eq_def]
      simp only [unit, notHigh, notLow, if_false, appended]
      cases mutf7DecodeUtf16be rest <;> rfl
  · next large =>
      have highUnit := unit_of_octets (show 0xd800 + (cp - 0x10000) / 1024 < 0x10000 by omega)
      have lowUnit := unit_of_octets (show 0xdc00 + (cp - 0x10000) % 1024 < 0x10000 by omega)
      have isHigh : 0xd800 ≤ 0xd800 + (cp - 0x10000) / 1024 ∧
          0xd800 + (cp - 0x10000) / 1024 ≤ 0xdbff := by omega
      have isLow : ¬ (0xdc00 + (cp - 0x10000) % 1024 < 0xdc00 ∨
          0xdfff < 0xdc00 + (cp - 0x10000) % 1024) := by omega
      have joined : 0x10000 + (((0xd800 + (cp - 0x10000) / 1024 - 0xd800) <<< 10) |||
          (0xdc00 + (cp - 0x10000) % 1024 - 0xdc00)) = cp := by
        rw [shiftLeft_or _ (show 0xdc00 + (cp - 0x10000) % 1024 - 0xdc00 < 2 ^ 10 by omega)]
        omega
      simp only [List.map_cons, List.map_nil, List.cons_append, List.nil_append]
      rw [mutf7DecodeUtf16be.eq_def]
      simp only [highUnit, lowUnit, isHigh, isLow, and_self, if_true, if_false, joined, appended]
      cases mutf7DecodeUtf16be rest <;> rfl

theorem mutf7DecodeUtf16be_text (text : List Char) :
    mutf7DecodeUtf16be ((text.flatMap (fun c => utf16Octets c.toNat)).map UInt8.ofNat) =
      some (text.flatMap String.utf8EncodeChar) := by
  induction text with
  | nil => rfl
  | cons c text ih =>
      rw [List.flatMap_cons, List.map_append, mutf7DecodeUtf16be_scalar, ih]
      rfl

theorem mutf7Base64Value_char {sextet : Nat} (bounded : sextet < 64) :
    mutf7Base64Value (mutf7Char sextet) = some sextet := by
  revert sextet
  decide

theorem mutf7Base64Value_dash : mutf7Base64Value (ascii '-') = none := by decide

theorem mutf7Char_printable {sextet : Nat} (bounded : sextet < 64) :
    0x20 ≤ mutf7Char sextet ∧ mutf7Char sextet ≤ 0x7e := by
  revert sextet
  decide

theorem mutf7DecodeRun_sextets (buffer : BitBuffer) {sextets : List Nat} (rest : List UInt8)
    (bounded : ∀ sextet ∈ sextets, sextet < 2 ^ 6) :
    mutf7DecodeRun buffer (sextets.map mutf7Char ++ ascii '-' :: rest) =
      ((buffer.pushAll 6 8 sextets).1, (buffer.pushAll 6 8 sextets).2, ascii '-' :: rest) := by
  induction sextets generalizing buffer with
  | nil =>
      simp only [List.map_nil, List.nil_append, mutf7DecodeRun, mutf7Base64Value_dash,
        BitBuffer.pushAll]
  | cons sextet sextets ih =>
      have value := mutf7Base64Value_char (bounded sextet (by simp))
      have tail := fun other member => bounded other (List.mem_cons_of_mem sextet member)
      simp only [List.map_cons, List.cons_append, mutf7DecodeRun, value, ih _ tail,
        BitBuffer.pushAll]

/-- The state of an open shifted run after the characters `text`. -/
def shiftOf (text : List Char) : List Nat × BitBuffer :=
  BitBuffer.pushAll 8 6 .empty (text.flatMap (fun c => utf16Octets c.toNat))

theorem utf16Octets_text_lt (text : List Char) :
    ∀ octet ∈ text.flatMap (fun c => utf16Octets c.toNat), octet < 2 ^ 8 := by
  intro octet member
  obtain ⟨c, -, member⟩ := List.mem_flatMap.mp member
  exact utf16Octets_lt (scalar_bounds c).1 member

theorem shiftOf_append (text : List Char) (c : Char) :
    shiftOf (text ++ [c]) =
      ((shiftOf text).1 ++ ((shiftOf text).2.pushAll 8 6 (utf16Octets c.toNat)).1,
        ((shiftOf text).2.pushAll 8 6 (utf16Octets c.toNat)).2) := by
  simp only [shiftOf, List.flatMap_append, List.flatMap_singleton, BitBuffer.pushAll_append]

theorem shiftOf_spec (text : List Char) :
    (shiftOf text).2.count < 6 ∧ (shiftOf text).2.Masked ∧
      (∀ sextet ∈ (shiftOf text).1, sextet < 2 ^ 6) ∧ (text ≠ [] → (shiftOf text).1 ≠ []) := by
  obtain ⟨short, masked, lengths, bounded, -⟩ := BitBuffer.pushAll_spec (by decide : 0 < 6) .empty
    (text.flatMap (fun c => utf16Octets c.toNat)) (by decide) BitBuffer.empty_masked
    (utf16Octets_text_lt text)
  refine ⟨short, masked, bounded, ?_⟩
  intro nonempty noSextets
  obtain ⟨c, text, rfl⟩ := List.exists_cons_of_ne_nil nonempty
  have octets := List.length_pos_iff.mpr (utf16Octets_ne_nil c.toNat)
  change (BitBuffer.pushAll 8 6 .empty _).1 = [] at noSextets
  rw [noSextets] at lengths
  simp only [List.flatMap_cons, List.length_append, List.length_nil, BitBuffer.empty] at lengths
  change (BitBuffer.pushAll 8 6 _ _).2.count < 6 at short
  simp only [List.flatMap_cons, BitBuffer.empty] at short
  omega

theorem mutf7FlushShift_eq {buffer : BitBuffer} (short : buffer.count < 6) (masked : buffer.Masked) :
    mutf7FlushShift buffer = (buffer.flush 6).map mutf7Char ++ [ascii '-'] := by
  unfold mutf7FlushShift BitBuffer.flush
  split
  · next pending =>
      have small : buffer.bits <<< (6 - buffer.count) < 2 ^ 6 :=
        BitBuffer.flush_lt short masked _ (by simp [BitBuffer.flush, pending])
      rw [Nat.and_two_pow_sub_one_eq_mod _ 6, Nat.mod_eq_of_lt small]
      rfl
  · rfl

theorem mutf7DecodeShift_run {text : List Char} (nonempty : text ≠ []) (rest : List UInt8) :
    mutf7DecodeShift ((shiftOf text).1.map mutf7Char ++ mutf7FlushShift (shiftOf text).2 ++ rest) =
      some (text.flatMap String.utf8EncodeChar, rest) := by
  obtain ⟨short, masked, bounded, some⟩ := shiftOf_spec text
  have digits : ∀ sextet ∈ (shiftOf text).1 ++ (shiftOf text).2.flush 6, sextet < 2 ^ 6 := by
    intro sextet member
    rcases List.mem_append.mp member with early | later
    · exact bounded sextet early
    · exact BitBuffer.flush_lt short masked sextet later
  obtain ⟨octets, zero⟩ := BitBuffer.pushAll_roundTrip (by decide : 0 < 6) (by decide : 6 ≤ 8)
    (utf16Octets_text_lt text)
  change (BitBuffer.pushAll 6 8 .empty ((shiftOf text).1 ++ (shiftOf text).2.flush 6)).1 = _ at octets
  change (BitBuffer.pushAll 6 8 .empty ((shiftOf text).1 ++ (shiftOf text).2.flush 6)).2.bits = 0 at zero
  have spelled : (shiftOf text).1.map mutf7Char ++ mutf7FlushShift (shiftOf text).2 ++ rest =
      ((shiftOf text).1 ++ (shiftOf text).2.flush 6).map mutf7Char ++ ascii '-' :: rest := by
    rw [mutf7FlushShift_eq short masked, List.map_append]
    simp
  have progress : ¬ (ascii '-' :: rest).length =
      (((shiftOf text).1 ++ (shiftOf text).2.flush 6).map mutf7Char ++ ascii '-' :: rest).length := by
    have positive := List.length_pos_iff.mpr (some nonempty)
    simp only [List.length_append, List.length_map]
    omega
  rw [spelled, mutf7DecodeShift, mutf7DecodeRun_sextets .empty rest digits]
  simp only [progress, if_false, zero, Nat.zero_and, ne_eq, not_true_eq_false, and_false, octets,
    mutf7DecodeUtf16be_text]
  rfl

section Equations

variable {rest : List UInt8}

theorem mutf7EncodeLoop_scalar (inShift : Option BitBuffer) (c : Char) :
    mutf7EncodeLoop inShift (String.utf8EncodeChar c ++ rest) =
      if mutf7IsDirect c.toNat then
        (mutf7EncodeLoop none rest).map (fun out =>
          (inShift.map mutf7FlushShift).getD [] ++ UInt8.ofNat c.toNat :: out)
      else if c.toNat = (ascii '&').toNat then
        (mutf7EncodeLoop none rest).map (fun out =>
          (inShift.map mutf7FlushShift).getD [] ++ ascii '&' :: ascii '-' :: out)
      else
        (mutf7EncodeLoop (some (mutf7EncodeShiftCodepoint (inShift.getD .empty) c.toNat).2) rest).map
          (fun out => (if inShift = none then [ascii '&'] else []) ++
            (mutf7EncodeShiftCodepoint (inShift.getD .empty) c.toNat).1 ++ out) := by
  have decodes := mutf7DecodeUtf8Char_encode c rest
  obtain ⟨ch, more, spelled⟩ := List.exists_cons_of_ne_nil
    (show String.utf8EncodeChar c ++ rest ≠ [] by simp [String.utf8EncodeChar_ne_nil])
  rw [spelled] at decodes ⊢
  rw [mutf7EncodeLoop.eq_def]
  simp only
  split
  · next refused => rw [decodes] at refused; contradiction
  · next cp tail accepted =>
      rw [decodes] at accepted
      cases accepted
      split
      · cases mutf7EncodeLoop none rest <;> rfl
      split
      · cases mutf7EncodeLoop none rest <;> rfl
      · cases mutf7EncodeLoop (some (mutf7EncodeShiftCodepoint (inShift.getD .empty) c.toNat).2) rest <;> rfl

theorem mutf7Decode_literal {ch : UInt8} (literal : ch ≠ ascii '&') :
    mutf7Decode (ch :: rest) = (mutf7Decode rest).map (ch :: ·) := by
  rw [mutf7Decode.eq_def]
  simp only [ne_eq, literal, not_false_eq_true, if_true]
  cases mutf7Decode rest <;> rfl

theorem mutf7Decode_ampersand :
    mutf7Decode (ascii '&' :: ascii '-' :: rest) = (mutf7Decode rest).map (ascii '&' :: ·) := by
  rw [mutf7Decode.eq_def]
  simp only [ne_eq, not_true_eq_false, if_false, if_true]
  cases mutf7Decode rest <;> rfl

theorem mutf7Decode_shift {next : UInt8} {more text : List UInt8} (open' : next ≠ ascii '-')
    (shifted : mutf7DecodeShift (next :: more) = some (text, rest)) :
    mutf7Decode (ascii '&' :: next :: more) = (mutf7Decode rest).map (text ++ ·) := by
  rw [mutf7Decode.eq_def]
  simp only [ne_eq, not_true_eq_false, if_false, open']
  split
  · next refused => rw [shifted] at refused; contradiction
  · next accepted =>
      rw [shifted] at accepted
      cases accepted
      cases mutf7Decode rest <;> rfl

end Equations

theorem mutf7Decode_run {text : List Char} (nonempty : text ≠ []) (rest : List UInt8) :
    mutf7Decode (ascii '&' :: ((shiftOf text).1.map mutf7Char ++
        (mutf7FlushShift (shiftOf text).2 ++ rest))) =
      (mutf7Decode rest).map (text.flatMap String.utf8EncodeChar ++ ·) := by
  have shifted := mutf7DecodeShift_run nonempty rest
  obtain ⟨-, -, bounded, some⟩ := shiftOf_spec text
  obtain ⟨sextet, sextets, spelled⟩ := List.exists_cons_of_ne_nil (some nonempty)
  have digit := mutf7Base64Value_char (bounded sextet (by simp [spelled]))
  have notDash : mutf7Char sextet ≠ ascii '-' := by
    intro dash
    rw [dash, mutf7Base64Value_dash] at digit
    contradiction
  rw [spelled] at shifted ⊢
  simp only [List.map_cons, List.cons_append, List.append_assoc] at shifted ⊢
  exact mutf7Decode_shift notDash shifted

theorem shiftOf_printable (text : List Char) :
    ∀ octet ∈ (shiftOf text).1.map mutf7Char, 0x20 ≤ octet ∧ octet ≤ 0x7e := by
  intro octet member
  obtain ⟨sextet, isSextet, rfl⟩ := List.mem_map.mp member
  exact mutf7Char_printable ((shiftOf_spec text).2.2.1 sextet isSextet)

theorem mutf7FlushShift_printable (text : List Char) :
    ∀ octet ∈ mutf7FlushShift (shiftOf text).2, 0x20 ≤ octet ∧ octet ≤ 0x7e := by
  obtain ⟨short, masked, -, -⟩ := shiftOf_spec text
  intro octet member
  rw [mutf7FlushShift_eq short masked, List.mem_append, List.mem_map] at member
  rcases member with ⟨sextet, member, rfl⟩ | closing
  · exact mutf7Char_printable (BitBuffer.flush_lt short masked sextet member)
  · rw [List.mem_singleton.mp closing]
    decide

theorem unshifted_step {c : Char}
    (unshifted : mutf7IsDirect c.toNat = true ∨ c.toNat = (ascii '&').toNat) :
    ∃ piece : List UInt8, (∀ octet ∈ piece, 0x20 ≤ octet ∧ octet ≤ 0x7e) ∧
      (∀ inShift rest, mutf7EncodeLoop inShift (String.utf8EncodeChar c ++ rest) =
        (mutf7EncodeLoop none rest).map (fun out =>
          (inShift.map mutf7FlushShift).getD [] ++ (piece ++ out))) ∧
      ∀ rest, mutf7Decode (piece ++ rest) =
        (mutf7Decode rest).map (String.utf8EncodeChar c ++ ·) := by
  have single : c.toNat ≤ 0x7e := by
    rcases unshifted with direct | ampersand
    · simp only [mutf7IsDirect, Bool.and_eq_true, decide_eq_true_eq] at direct
      exact direct.1.2
    · rw [ampersand]
      decide
  have octets : String.utf8EncodeChar c = [UInt8.ofNat c.toNat] := by
    rcases utf8EncodeChar_cases c with ⟨-, octets⟩ | ⟨low, -⟩ | ⟨low, -⟩ | ⟨low, -⟩
    · exact octets
    all_goals omega
  by_cases direct : mutf7IsDirect c.toNat = true
  · have range : 0x20 ≤ c.toNat ∧ c.toNat ≠ (ascii '&').toNat := by
      simp only [mutf7IsDirect, Bool.and_eq_true, decide_eq_true_eq, bne_iff_ne] at direct
      exact ⟨direct.1.1, direct.2⟩
    have number : (UInt8.ofNat c.toNat).toNat = c.toNat := by
      rw [UInt8.toNat_ofNat']
      omega
    have literal : UInt8.ofNat c.toNat ≠ ascii '&' := by
      intro same
      exact range.2 (number.symm.trans (congrArg UInt8.toNat same))
    refine ⟨[UInt8.ofNat c.toNat], ?_, ?_, ?_⟩
    · simp only [List.mem_singleton, forall_eq, UInt8.le_iff_toNat_le, number]
      exact ⟨range.1, single⟩
    · intro inShift rest
      rw [mutf7EncodeLoop_scalar, if_pos direct]
      rfl
    · intro rest
      rw [octets]
      exact mutf7Decode_literal literal
  · have ampersand := unshifted.resolve_left direct
    refine ⟨[ascii '&', ascii '-'], by simp; decide, ?_, ?_⟩
    · intro inShift rest
      rw [mutf7EncodeLoop_scalar, if_neg direct, if_pos ampersand]
      rfl
    · intro rest
      rw [octets, ampersand, UInt8.ofNat_toNat]
      exact mutf7Decode_ampersand

/-- Any other character opens a run or continues the open one. -/
theorem shifted_step {c : Char} (rest : List UInt8) (direct : ¬ mutf7IsDirect c.toNat = true)
    (ampersand : ¬ c.toNat = (ascii '&').toNat) :
    mutf7EncodeLoop none (String.utf8EncodeChar c ++ rest) =
      (mutf7EncodeLoop (some (shiftOf [c]).2) rest).map (fun out =>
        ascii '&' :: ((shiftOf [c]).1.map mutf7Char ++ out)) ∧
    ∀ shifted : List Char, ∃ piece : List UInt8,
      (shiftOf (shifted ++ [c])).1.map mutf7Char = (shiftOf shifted).1.map mutf7Char ++ piece ∧
      mutf7EncodeLoop (some (shiftOf shifted).2) (String.utf8EncodeChar c ++ rest) =
        (mutf7EncodeLoop (some (shiftOf (shifted ++ [c])).2) rest).map (piece ++ ·) := by
  have scalar := (scalar_bounds c).1
  constructor
  · rw [mutf7EncodeLoop_scalar, if_neg direct, if_neg ampersand, Option.getD_none,
      mutf7EncodeShiftCodepoint_eq .empty scalar]
    simp [shiftOf]
  · intro shifted
    refine ⟨((shiftOf shifted).2.pushAll 8 6 (utf16Octets c.toNat)).1.map mutf7Char, ?_, ?_⟩
    · rw [shiftOf_append, List.map_append]
    · rw [mutf7EncodeLoop_scalar, if_neg direct, if_neg ampersand, Option.getD_some,
        mutf7EncodeShiftCodepoint_eq _ scalar, shiftOf_append]
      simp

/-- The main loop on well-formed text, both between runs and inside a run opened
for `shifted`: it succeeds, writes printable octets, and what was written since
the run was opened decodes to the text since then. -/
theorem mutf7EncodeLoop_text (text : List Char) :
    (∃ out, mutf7EncodeLoop none (text.flatMap String.utf8EncodeChar) = .ok out ∧
      (∀ octet ∈ out, 0x20 ≤ octet ∧ octet ≤ 0x7e) ∧
      mutf7Decode out = .ok (text.flatMap String.utf8EncodeChar)) ∧
    ∀ shifted : List Char, shifted ≠ [] →
      ∃ out, mutf7EncodeLoop (some (shiftOf shifted).2) (text.flatMap String.utf8EncodeChar) = .ok out ∧
        (∀ octet ∈ out, 0x20 ≤ octet ∧ octet ≤ 0x7e) ∧
        mutf7Decode (ascii '&' :: ((shiftOf shifted).1.map mutf7Char ++ out)) =
          .ok (shifted.flatMap String.utf8EncodeChar ++ text.flatMap String.utf8EncodeChar) := by
  induction text with
  | nil =>
      refine ⟨⟨[], by simp [mutf7EncodeLoop], by simp, by simp [mutf7Decode]⟩, ?_⟩
      intro shifted nonempty
      refine ⟨mutf7FlushShift (shiftOf shifted).2, by simp [mutf7EncodeLoop],
        mutf7FlushShift_printable shifted, ?_⟩
      have closed := mutf7Decode_run nonempty []
      rw [List.append_nil] at closed
      rw [closed]
      simp [mutf7Decode, Except.map]
  | cons c text ih =>
      obtain ⟨⟨between, encodedBetween, printableBetween, decodedBetween⟩, inside⟩ := ih
      rw [List.flatMap_cons]
      by_cases unshifted : mutf7IsDirect c.toNat = true ∨ c.toNat = (ascii '&').toNat
      · obtain ⟨piece, printable, encodes, decodes⟩ := unshifted_step unshifted
        have pieceBetween : ∀ octet ∈ piece ++ between, 0x20 ≤ octet ∧ octet ≤ 0x7e := by
          intro octet member
          rcases List.mem_append.mp member with early | later
          · exact printable octet early
          · exact printableBetween octet later
        refine ⟨⟨piece ++ between, ?_, pieceBetween, ?_⟩, ?_⟩
        · rw [encodes, encodedBetween]
          rfl
        · rw [decodes, decodedBetween]
          rfl
        · intro shifted nonempty
          refine ⟨mutf7FlushShift (shiftOf shifted).2 ++ (piece ++ between), ?_, ?_, ?_⟩
          · rw [encodes, encodedBetween]
            rfl
          · intro octet member
            rcases List.mem_append.mp member with early | later
            · exact mutf7FlushShift_printable shifted octet early
            · exact pieceBetween octet later
          · rw [mutf7Decode_run nonempty, decodes, decodedBetween]
            rfl
      · rw [not_or] at unshifted
        obtain ⟨opens, continues⟩ := shifted_step (text.flatMap String.utf8EncodeChar)
          unshifted.1 unshifted.2
        constructor
        · obtain ⟨out, encoded, printable, decoded⟩ := inside [c] (by simp)
          refine ⟨ascii '&' :: ((shiftOf [c]).1.map mutf7Char ++ out), ?_, ?_, ?_⟩
          · rw [opens, encoded]
            rfl
          · intro octet member
            rcases List.mem_cons.mp member with rfl | member
            · decide
            rcases List.mem_append.mp member with early | later
            · exact shiftOf_printable [c] octet early
            · exact printable octet later
          · rw [decoded, List.flatMap_singleton]
        · intro shifted nonempty
          obtain ⟨piece, spelled, encodes⟩ := continues shifted
          obtain ⟨out, encoded, printable, decoded⟩ := inside (shifted ++ [c]) (by simp)
          refine ⟨piece ++ out, ?_, ?_, ?_⟩
          · rw [encodes, encoded]
            rfl
          · intro octet member
            rcases List.mem_append.mp member with early | later
            · apply shiftOf_printable (shifted ++ [c]) octet
              rw [spelled]
              exact List.mem_append_right _ early
            · exact printable octet later
          · rw [← List.append_assoc, ← spelled, decoded]
            simp

/-- A success of the main loop is a parse of the whole input into scalar values. -/
theorem mutf7EncodeLoop_wellFormed {inShift : Option BitBuffer} {str out : List UInt8}
    (encoded : mutf7EncodeLoop inShift str = .ok out) : WellFormedUtf8 str := by
  generalize size : str.length = count
  induction count using Nat.strongRecOn generalizing inShift str out with
  | ind count ih =>
      cases str with
      | nil => exact ⟨[], rfl⟩
      | cons ch more =>
          rw [mutf7EncodeLoop.eq_def] at encoded
          simp only at encoded
          split at encoded
          · contradiction
          · next cp rest decoded =>
              have shorter := mutf7DecodeUtf8Char_length decoded
              have continues : ∃ state tail, mutf7EncodeLoop state rest = .ok tail := by
                split at encoded
                · cases continued : mutf7EncodeLoop none rest with
                  | error reason => rw [continued] at encoded; contradiction
                  | ok tail => exact ⟨none, tail, continued⟩
                split at encoded
                · cases continued : mutf7EncodeLoop none rest with
                  | error reason => rw [continued] at encoded; contradiction
                  | ok tail => exact ⟨none, tail, continued⟩
                · cases continued : mutf7EncodeLoop
                      (some (mutf7EncodeShiftCodepoint (inShift.getD .empty) cp).2) rest with
                  | error reason => rw [continued] at encoded; contradiction
                  | ok tail => exact ⟨_, tail, continued⟩
              obtain ⟨state, tail, continued⟩ := continues
              obtain ⟨text, rfl⟩ := ih rest.length (by omega) continued rfl
              obtain ⟨c, -, spelled⟩ := mutf7DecodeUtf8Char_sound decoded
              exact ⟨c :: text, by rw [spelled, List.flatMap_cons]⟩

/-- Mailbox names survive the encoding: for a string without zero octets, encoding
succeeds exactly on well-formed UTF-8, writes printable ASCII only, and decoding
returns the string. -/
theorem mutf7_encode_decode {str : List UInt8} (nulFree : NulFree str) :
    ((∃ out, charconvEncodeMutf7 str = .ok out) ↔ WellFormedUtf8 str) ∧
      ∀ out, charconvEncodeMutf7 str = .ok out →
        (∀ octet ∈ out, 0x20 ≤ octet ∧ octet ≤ 0x7e) ∧ charconvDecodeMutf7 out = .ok str := by
  have whole : charconvEncodeMutf7 str = mutf7EncodeLoop none str := by
    rw [charconvEncodeMutf7, cString_eq_self nulFree, mutf7Encode]
  rw [whole]
  refine ⟨⟨fun ⟨out, encoded⟩ => mutf7EncodeLoop_wellFormed encoded, ?_⟩, ?_⟩
  · rintro ⟨text, rfl⟩
    obtain ⟨⟨out, encoded, -⟩, -⟩ := mutf7EncodeLoop_text text
    exact ⟨out, encoded⟩
  · intro out encoded
    obtain ⟨text, rfl⟩ := mutf7EncodeLoop_wellFormed encoded
    obtain ⟨⟨out', encoded', printable, decoded⟩, -⟩ := mutf7EncodeLoop_text text
    have same : out' = out := by
      rw [encoded'] at encoded
      exact Except.ok.inj encoded
    subst same
    have outFree : NulFree out' := by
      intro octet member zero
      have range := (printable octet member).1
      rw [zero] at range
      exact absurd range (by decide)
    refine ⟨printable, ?_⟩
    rw [charconvDecodeMutf7, cString_eq_self outFree, decoded]

theorem mutf7_encode_decode_ampersand :
    NulFree (String.utf8EncodeChar 'é' ++ [ascii '&']) ∧
      ∃ out, charconvEncodeMutf7 (String.utf8EncodeChar 'é' ++ [ascii '&']) = .ok out ∧
        charconvDecodeMutf7 out = .ok (String.utf8EncodeChar 'é' ++ [ascii '&']) := by
  have free : NulFree (String.utf8EncodeChar 'é' ++ [ascii '&']) := by decide
  obtain ⟨succeeds, roundTrip⟩ := mutf7_encode_decode free
  obtain ⟨out, encoded⟩ := succeeds.mpr ⟨['é', '&'], by decide⟩
  exact ⟨free, out, encoded, (roundTrip out encoded).2⟩

end Etpan.Charconv
