import Etpan.Data.Decimal

namespace Etpan.Mbox

open Etpan.Data

/-! The header fields of a message in a mailbox file, `low-level/mbox/mailmbox_parse.c`.

The parsers take the octets from their position to the end of the file and return
offsets from that position. -/

def TAB : UInt8 := 9
def SP : UInt8 := 32

inductive FieldState where
  | start
  | cr
  | lf
  | wsp
deriving Repr, DecidableEq

def isBlank (byte : UInt8) : Bool := byte = TAB || byte = SP

/-- The state behind an octet, which is a blank in `UNSTRUCTURED_LF`. -/
def FieldState.next : FieldState → UInt8 → FieldState
  | .start, byte => if byte = CR then .cr else if byte = LF then .lf else .start
  | .cr, byte => if byte = LF then .lf else .start
  | .lf, _ => .wsp
  | .wsp, byte => if byte = CR then .cr else if byte = LF then .lf else .start

/-- The loop of `mailimf_ignore_field_parse`; `hasField` once a colon has been seen. -/
def ignoreFieldFrom : FieldState → Bool → List UInt8 → Option Nat
  | state, hasField, [] => if state = .lf ∧ hasField then some 0 else none
  | state, hasField, byte :: rest =>
      if state = .lf ∧ ¬ isBlank byte then if hasField then some 0 else none
      else (ignoreFieldFrom (state.next byte) (hasField || byte = ascii ':') rest).map (· + 1)

/-- The length of the field at the position, or `none` for `MAILIMF_ERROR_PARSE`. -/
def mailimfIgnoreFieldParse : List UInt8 → Option Nat
  | [] => none
  | byte :: rest =>
      if byte = CR ∨ byte = LF then none else ignoreFieldFrom .start false (byte :: rest)

/-- The octets consumed, none of them after an error. -/
def mailimfCrlfParse : List UInt8 → Nat
  | [] => 0
  | byte :: rest =>
      if byte = CR then if rest.head? = some LF then 2 else 0
      else if byte = LF then 1
      else 0

def uidHeader : List UInt8 :=
  [ascii 'X', ascii '-', ascii 'L', ascii 'i', ascii 'b', ascii 'E', ascii 't', ascii 'P', ascii 'a', ascii 'n',
    ascii '-', ascii 'U', ascii 'I', ascii 'D', ascii ':']

def toLower (byte : UInt8) : UInt8 :=
  if ascii 'A' ≤ byte ∧ byte ≤ ascii 'Z' then byte + 32 else byte

/-- The test for the UID header: a capital X and `strncasecmp`. -/
def isUidHeader (rest : List UInt8) : Bool :=
  rest.head? = some (ascii 'X') && (rest.take uidHeader.length).map toLower = uidHeader.map toLower

def isSpace (byte : UInt8) : Bool := byte = SP || (9 ≤ byte && byte ≤ 13)

/-- `strtoul` in base 10 with a 64-bit `unsigned long`.  The octets behind the end of
the file are taken for NUL, as in the last page of a mapping. -/
def strtoul (text : List UInt8) : Nat :=
  let text := text.dropWhile isSpace
  let negative := text.head? = some (ascii '-')
  let text := if negative ∨ text.head? = some (ascii '+') then text.tail else text
  let value := decimalValue (text.takeWhile isDigit)
  if 2 ^ 64 - 1 < value then 2 ^ 64 - 1
  else if negative then (2 ^ 64 - value) % 2 ^ 64
  else value

/-- At most `limit` blanks are skipped. -/
def skipBlanks : Nat → List UInt8 → List UInt8
  | limit + 1, byte :: rest => if byte = SP then skipBlanks limit rest else byte :: rest
  | _, rest => rest

/-- The UID of a field of `length` octets, which is not bound to end where the field does. -/
def fieldUid (rest : List UInt8) (length : Nat) : UInt32 :=
  UInt32.ofNat (strtoul (skipBlanks (length - uidHeader.length) (rest.drop uidHeader.length)))

theorem ignoreFieldFrom_le {state : FieldState} {hasField : Bool} {rest : List UInt8} {length : Nat}
    (parsed : ignoreFieldFrom state hasField rest = some length) : length ≤ rest.length := by
  induction rest generalizing state hasField length with
  | nil =>
      rw [ignoreFieldFrom] at parsed
      split at parsed <;> cases parsed
      exact le_rfl
  | cons byte rest ih =>
      rw [ignoreFieldFrom] at parsed
      split at parsed
      · split at parsed <;> cases parsed
        exact Nat.zero_le _
      · obtain ⟨inner, behind, rfl⟩ := Option.map_eq_some_iff.mp parsed
        exact Nat.succ_le_succ (ih behind)

theorem mailimfIgnoreFieldParse_bounds {rest : List UInt8} {length : Nat}
    (parsed : mailimfIgnoreFieldParse rest = some length) : 0 < length ∧ length ≤ rest.length := by
  cases rest with
  | nil => contradiction
  | cons byte rest =>
      rw [mailimfIgnoreFieldParse] at parsed
      split at parsed
      · contradiction
      · refine ⟨?_, ignoreFieldFrom_le parsed⟩
        rw [ignoreFieldFrom, if_neg (by simp)] at parsed
        obtain ⟨inner, -, rfl⟩ := Option.map_eq_some_iff.mp parsed
        exact Nat.succ_pos inner

/-- `mailmbox_fields_parse`: the length of the header fields and the UID of the last UID
header among them, `uid` if there is none. -/
def mailmboxFieldsParse (uid : UInt32) (rest : List UInt8) : Nat × UInt32 :=
  match _parsed : mailimfIgnoreFieldParse rest with
  | none => (0, uid)
  | some length =>
      let uid := if uidHeader.length ≤ length ∧ isUidHeader rest then fieldUid rest length else uid
      let others := mailmboxFieldsParse uid (rest.drop length)
      (length + others.1, others.2)
termination_by rest.length
decreasing_by
  have bounds := mailimfIgnoreFieldParse_bounds (by assumption)
  rw [List.length_drop]
  omega

end Etpan.Mbox
