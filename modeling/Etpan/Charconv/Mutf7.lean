import Etpan.Data.BitBuffer
import Etpan.Data.Bytes

namespace Etpan.Charconv

open Etpan.Data

/-! Modified UTF-7 mailbox names, `data-types/charconv.c`.

A C string is the octet list before its terminating zero.  Allocation is taken
to succeed, so the size tests that guard the `malloc` calls are not modelled and
`memory` stays for the callers that report it. -/

inductive CharconvError where
  | unknownCharset
  | memory
  | conv
deriving Repr, DecidableEq

def mutf7Base64Value (ch : UInt8) : Option Nat :=
  if ascii 'A' ≤ ch ∧ ch ≤ ascii 'Z' then some (ch.toNat - (ascii 'A').toNat)
  else if ascii 'a' ≤ ch ∧ ch ≤ ascii 'z' then some (ch.toNat - (ascii 'a').toNat + 26)
  else if ascii '0' ≤ ch ∧ ch ≤ ascii '9' then some (ch.toNat - (ascii '0').toNat + 52)
  else if ch = ascii '+' then some 62
  else if ch = ascii ',' then some 63
  else none

def mutf7IsDirect (cp : Nat) : Bool :=
  0x20 ≤ cp && cp ≤ 0x7e && cp != (ascii '&').toNat

/-- The octets appended for one code point, `none` for a surrogate or a value
above the Unicode range. -/
def mutf7AppendUtf8 (cp : Nat) : Option (List UInt8) :=
  if cp ≤ 0x7f then some [UInt8.ofNat cp]
  else if cp ≤ 0x7ff then
    some [UInt8.ofNat (0xc0 ||| (cp >>> 6)), UInt8.ofNat (0x80 ||| (cp &&& 0x3f))]
  else if cp ≤ 0xffff then
    if 0xd800 ≤ cp ∧ cp ≤ 0xdfff then none
    else
      some [UInt8.ofNat (0xe0 ||| (cp >>> 12)), UInt8.ofNat (0x80 ||| ((cp >>> 6) &&& 0x3f)),
        UInt8.ofNat (0x80 ||| (cp &&& 0x3f))]
  else if cp ≤ 0x10ffff then
    some [UInt8.ofNat (0xf0 ||| (cp >>> 18)), UInt8.ofNat (0x80 ||| ((cp >>> 12) &&& 0x3f)),
      UInt8.ofNat (0x80 ||| ((cp >>> 6) &&& 0x3f)), UInt8.ofNat (0x80 ||| (cp &&& 0x3f))]
  else none

def mutf7DecodeUtf16be : List UInt8 → Option (List UInt8)
  | [] => some []
  | [_] => none
  | b0 :: b1 :: rest =>
      let cp := (b0.toNat <<< 8) ||| b1.toNat
      if 0xd800 ≤ cp ∧ cp ≤ 0xdbff then
        match rest with
        | b2 :: b3 :: rest =>
            let low := (b2.toNat <<< 8) ||| b3.toNat
            if low < 0xdc00 ∨ 0xdfff < low then none
            else do
              let out ← mutf7AppendUtf8 (0x10000 + (((cp - 0xd800) <<< 10) ||| (low - 0xdc00)))
              let more ← mutf7DecodeUtf16be rest
              pure (out ++ more)
        | _ => none
      else if 0xdc00 ≤ cp ∧ cp ≤ 0xdfff then none
      else do
        let out ← mutf7AppendUtf8 cp
        let more ← mutf7DecodeUtf16be rest
        pure (out ++ more)

/-- The inner loop of `mutf7_decode`: the octets of the base64 run at the head of
`str`, the bits left over and what follows the run. -/
def mutf7DecodeRun : BitBuffer → List UInt8 → List Nat × BitBuffer × List UInt8
  | buffer, [] => ([], buffer, [])
  | buffer, ch :: rest =>
      match mutf7Base64Value ch with
      | none => ([], buffer, ch :: rest)
      | some value =>
          let pushed := buffer.push 6 8 value
          let run := mutf7DecodeRun pushed.2 rest
          (pushed.1 ++ run.1, run.2)

theorem mutf7DecodeRun_length (buffer : BitBuffer) (str : List UInt8) :
    (mutf7DecodeRun buffer str).2.2.length ≤ str.length := by
  induction str generalizing buffer with
  | nil => simp [mutf7DecodeRun]
  | cons ch rest ih =>
      simp only [mutf7DecodeRun]
      split
      · simp
      · exact Nat.le_succ_of_le (ih _)

def mutf7SkipDash : List UInt8 → List UInt8
  | [] => []
  | ch :: rest => if ch = ascii '-' then rest else ch :: rest

theorem mutf7SkipDash_length (str : List UInt8) : (mutf7SkipDash str).length ≤ str.length := by
  cases str with
  | nil => simp [mutf7SkipDash]
  | cons ch rest =>
      simp only [mutf7SkipDash]
      split <;> simp

/-- A shifted run after its `&`: the decoded text and what follows the run. -/
def mutf7DecodeShift (str : List UInt8) : Option (List UInt8 × List UInt8) :=
  let run := mutf7DecodeRun .empty str
  let bytes := run.1
  let buffer := run.2.1
  let rest := run.2.2
  -- `has_base64`: at least one digit was read
  if rest.length = str.length then none
  else if buffer.count ≠ 0 ∧ buffer.bits &&& (2 ^ buffer.count - 1) ≠ 0 then none
  else do
    let text ← mutf7DecodeUtf16be (bytes.map UInt8.ofNat)
    pure (text, mutf7SkipDash rest)

theorem mutf7DecodeShift_length {str text rest : List UInt8}
    (shifted : mutf7DecodeShift str = some (text, rest)) : rest.length ≤ str.length := by
  simp only [mutf7DecodeShift] at shifted
  split at shifted
  · contradiction
  split at shifted
  · contradiction
  obtain ⟨decoded, -, shifted⟩ := Option.bind_eq_some_iff.mp shifted
  cases shifted
  exact (mutf7SkipDash_length _).trans (mutf7DecodeRun_length .empty str)

def mutf7Decode : List UInt8 → Except CharconvError (List UInt8)
  | [] => .ok []
  | ch :: rest =>
      if ch ≠ ascii '&' then do
        let out ← mutf7Decode rest
        pure (ch :: out)
      else
        match rest with
        | next :: more =>
            if next = ascii '-' then do
              let out ← mutf7Decode more
              pure (ascii '&' :: out)
            else
              match _shifted : mutf7DecodeShift (next :: more) with
              | none => .error .conv
              | some (text, after) => do
                  let out ← mutf7Decode after
                  pure (text ++ out)
        | [] => .error .conv
termination_by str => str.length
decreasing_by
  · simp
  · simp
  · have bound := mutf7DecodeShift_length _shifted
    simp only [List.length_cons] at bound ⊢
    omega

def charconvDecodeMutf7 (str : List UInt8) : Except CharconvError (List UInt8) :=
  mutf7Decode (cString str)

def mutf7DecodeUtf8Char : List UInt8 → Option (Nat × List UInt8)
  | [] => none
  | ch :: rest =>
      let tail (octet : UInt8) : Bool := octet.toNat &&& 0xc0 == 0x80
      if ch.toNat ≤ 0x7f then some (ch.toNat, rest)
      else if 0xc2 ≤ ch.toNat ∧ ch.toNat ≤ 0xdf then
        match rest with
        | b1 :: rest =>
            if !tail b1 then none
            else some (((ch.toNat &&& 0x1f) <<< 6) ||| (b1.toNat &&& 0x3f), rest)
        | _ => none
      else if 0xe0 ≤ ch.toNat ∧ ch.toNat ≤ 0xef then
        match rest with
        | b1 :: b2 :: rest =>
            if !tail b1 || !tail b2 then none
            else if ch.toNat = 0xe0 ∧ b1.toNat < 0xa0 then none
            else if ch.toNat = 0xed ∧ 0xa0 ≤ b1.toNat then none
            else some (((ch.toNat &&& 0x0f) <<< 12) ||| ((b1.toNat &&& 0x3f) <<< 6) |||
              (b2.toNat &&& 0x3f), rest)
        | _ => none
      else if 0xf0 ≤ ch.toNat ∧ ch.toNat ≤ 0xf4 then
        match rest with
        | b1 :: b2 :: b3 :: rest =>
            if !tail b1 || !tail b2 || !tail b3 then none
            else if ch.toNat = 0xf0 ∧ b1.toNat < 0x90 then none
            else if ch.toNat = 0xf4 ∧ 0x90 ≤ b1.toNat then none
            else some (((ch.toNat &&& 0x07) <<< 18) ||| ((b1.toNat &&& 0x3f) <<< 12) |||
              ((b2.toNat &&& 0x3f) <<< 6) ||| (b3.toNat &&& 0x3f), rest)
        | _ => none
      else none

def mutf7Alphabet : List UInt8 :=
  ['A', 'B', 'C', 'D', 'E', 'F', 'G', 'H', 'I', 'J', 'K', 'L', 'M',
    'N', 'O', 'P', 'Q', 'R', 'S', 'T', 'U', 'V', 'W', 'X', 'Y', 'Z',
    'a', 'b', 'c', 'd', 'e', 'f', 'g', 'h', 'i', 'j', 'k', 'l', 'm',
    'n', 'o', 'p', 'q', 'r', 's', 't', 'u', 'v', 'w', 'x', 'y', 'z',
    '0', '1', '2', '3', '4', '5', '6', '7', '8', '9', '+', ','].map ascii

/-- `alphabet[index]`; the table has an entry for every sextet. -/
def mutf7Char (index : Nat) : UInt8 := mutf7Alphabet.getD index 0

def mutf7EncodeShiftByte (buffer : BitBuffer) (byte : UInt8) : List UInt8 × BitBuffer :=
  let pushed := buffer.push 8 6 byte.toNat
  (pushed.1.map mutf7Char, pushed.2)

/-- A code unit below `0x10000`, high octet first. -/
def mutf7EncodeShiftUnit (buffer : BitBuffer) (unit : Nat) : List UInt8 × BitBuffer :=
  let high := mutf7EncodeShiftByte buffer (UInt8.ofNat (unit >>> 8))
  let low := mutf7EncodeShiftByte high.2 (UInt8.ofNat (unit &&& 0xff))
  (high.1 ++ low.1, low.2)

/-- The source recurses once, on the two surrogates, which are single units. -/
def mutf7EncodeShiftCodepoint (buffer : BitBuffer) (cp : Nat) : List UInt8 × BitBuffer :=
  if cp ≤ 0xffff then mutf7EncodeShiftUnit buffer cp
  else
    let value := cp - 0x10000
    let high := mutf7EncodeShiftUnit buffer (0xd800 ||| (value >>> 10))
    let low := mutf7EncodeShiftUnit high.2 (0xdc00 ||| (value &&& 0x3ff))
    (high.1 ++ low.1, low.2)

def mutf7FlushShift (buffer : BitBuffer) : List UInt8 :=
  (if buffer.count ≠ 0 then [mutf7Char ((buffer.bits <<< (6 - buffer.count)) &&& 0x3f)] else []) ++
    [ascii '-']

theorem mutf7DecodeUtf8Char_length {str rest : List UInt8} {cp : Nat}
    (decoded : mutf7DecodeUtf8Char str = some (cp, rest)) : rest.length < str.length := by
  unfold mutf7DecodeUtf8Char at decoded
  split at decoded
  · contradiction
  · repeat' split at decoded
    all_goals simp_all
    all_goals omega

/-- The main loop.  `inShift` holds the accumulator while a shifted run is open. -/
def mutf7EncodeLoop (inShift : Option BitBuffer) (str : List UInt8) :
    Except CharconvError (List UInt8) :=
  match str with
  | [] =>
      match inShift with
      | none => .ok []
      | some buffer => .ok (mutf7FlushShift buffer)
  | ch :: more =>
      match _decoded : mutf7DecodeUtf8Char (ch :: more) with
      | none => .error .conv
      | some (cp, rest) =>
          let flushed := (inShift.map mutf7FlushShift).getD []
          if mutf7IsDirect cp then do
            let out ← mutf7EncodeLoop none rest
            pure (flushed ++ UInt8.ofNat cp :: out)
          else if cp = (ascii '&').toNat then do
            let out ← mutf7EncodeLoop none rest
            pure (flushed ++ ascii '&' :: ascii '-' :: out)
          else do
            let opened := if inShift = none then [ascii '&'] else []
            let shifted := mutf7EncodeShiftCodepoint (inShift.getD .empty) cp
            let out ← mutf7EncodeLoop (some shifted.2) rest
            pure (opened ++ shifted.1 ++ out)
termination_by str.length
decreasing_by
  all_goals exact mutf7DecodeUtf8Char_length _decoded

def mutf7Encode (str : List UInt8) : Except CharconvError (List UInt8) :=
  mutf7EncodeLoop none str

def charconvEncodeMutf7 (str : List UInt8) : Except CharconvError (List UInt8) :=
  mutf7Encode (cString str)

end Etpan.Charconv
