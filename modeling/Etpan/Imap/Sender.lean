import Etpan.Stream.WriteCalls
import Etpan.Data.Decimal

namespace Etpan.Imap

open Etpan.Data Etpan.Stream

/-! The senders of `low-level/imap/mailimap_sender.c`.

A sender is modelled by the buffers that it hands to `mailstream_write`, one after the
other.  Each sender stops with `MAILIMAP_ERROR_STREAM` at the first write that returns -1,
which is how `writeAll` runs such a list. -/

abbrev Sending := List (List UInt8)

def Sending.text (sending : Sending) : List UInt8 := sending.flatten

@[simp] theorem Sending.text_append (first second : Sending) :
    Sending.text (first ++ second) = first.text ++ second.text :=
  List.flatten_append

@[simp] theorem Sending.text_nil : Sending.text [] = [] := rfl

def mailimapSizedTokenSend (atom : List UInt8) : Sending := pieces false atom

/-- The length is that of the string, so the token ends at its first zero octet. -/
def mailimapTokenSend (atom : List UInt8) : Sending := mailimapSizedTokenSend (cString atom)

def mailimapCharSend (ch : UInt8) : Sending := [[ch]]

def mailimapStructListSend {α : Type} (list : List α) (symbol : UInt8) (sender : α → Sending) : Sending :=
  match list with
  | [] => []
  | first :: rest => sender first ++ rest.flatMap fun elt => mailimapCharSend symbol ++ sender elt

def mailimapStructSpacedListSend {α : Type} (list : List α) (sender : α → Sending) : Sending :=
  mailimapStructListSend list (ascii ' ') sender

def mailimapSpaceSend : Sending := mailimapCharSend (ascii ' ')

def mailimapCrlfSend : Sending := mailimapCharSend CR ++ mailimapCharSend LF

def mailimapOparenthSend : Sending := mailimapCharSend (ascii '(')

def mailimapCparenthSend : Sending := mailimapCharSend (ascii ')')

def mailimapDquoteSend : Sending := mailimapCharSend (ascii '"')

def mailimapDigitSend (digit : Nat) : Sending := mailimapCharSend (decimalDigit digit)

theorem div_ten_lt {number : UInt32} (more : number / 10 ≠ 0) : (number / 10).toNat < number.toNat := by
  have nonzero : (number / 10).toNat ≠ 0 := fun zero => more (UInt32.toNat_inj.mp zero)
  rw [UInt32.toNat_div] at nonzero ⊢
  change number.toNat / 10 ≠ 0 at nonzero
  change number.toNat / 10 < number.toNat
  omega

def mailimapNumberSend (number : UInt32) : Sending :=
  if more : number / 10 ≠ 0 then
    mailimapNumberSend (number / 10) ++ mailimapDigitSend (number % 10).toNat
  else mailimapDigitSend (number % 10).toNat
termination_by number.toNat
decreasing_by exact div_ten_lt more

def mailimapUint64Send (number : UInt64) : Sending := mailimapTokenSend (decimal number.toNat)

def mailimapModSequenceValueSend (number : UInt64) : Sending := mailimapUint64Send number

def isalnum (byte : UInt8) : Bool :=
  isDigit byte || ascii 'A' ≤ byte && byte ≤ ascii 'Z' || ascii 'a' ≤ byte && byte ≤ ascii 'z'

def isAtom (str : List UInt8) : Bool :=
  !str.isEmpty && str.all fun byte => byte = ascii '-' || isalnum byte

def isQuotedSpecials (ch : UInt8) : Bool := ch = ascii '"' || ch = ascii '\\'

def mailimapQuotedCharSend (ch : UInt8) : Sending :=
  if isQuotedSpecials ch then mailimapCharSend (ascii '\\') ++ mailimapCharSend ch
  else mailimapCharSend ch

def mailimapQuotedSend (quoted : List UInt8) : Sending :=
  mailimapDquoteSend ++ (cString quoted).flatMap mailimapQuotedCharSend ++ mailimapDquoteSend

def mailimapAtomSend (atom : List UInt8) : Sending := mailimapTokenSend atom

def mailimapAstringSend (astring : List UInt8) : Sending :=
  if isAtom (cString astring) then mailimapAtomSend astring else mailimapQuotedSend astring

def mailimapMailboxSend (mb : List UInt8) : Sending := mailimapAstringSend mb

@[simp] theorem mailimapSizedTokenSend_text (atom : List UInt8) :
    (mailimapSizedTokenSend atom).text = crlfBreaks atom :=
  pieces_plain atom

@[simp] theorem mailimapCharSend_text (ch : UInt8) : (mailimapCharSend ch).text = [ch] := rfl

@[simp] theorem mailimapSpaceSend_text : mailimapSpaceSend.text = [ascii ' '] := rfl

@[simp] theorem mailimapCrlfSend_text : mailimapCrlfSend.text = [CR, LF] := rfl

@[simp] theorem mailimapOparenthSend_text : mailimapOparenthSend.text = [ascii '('] := rfl

@[simp] theorem mailimapCparenthSend_text : mailimapCparenthSend.text = [ascii ')'] := rfl

@[simp] theorem mailimapDquoteSend_text : mailimapDquoteSend.text = [ascii '"'] := rfl

theorem crlfBreaks_breakFree {text : List UInt8} (free : BreakFree text) : crlfBreaks text = text := by
  rw [crlfBreaks, ← separateLines_splitLinesFrom, splitLinesFrom_of_breakFree free]
  rfl

theorem mailimapTokenSend_text {atom : List UInt8} (nulFree : NulFree atom) (free : BreakFree atom) :
    (mailimapTokenSend atom).text = atom := by
  rw [mailimapTokenSend, cString_eq_self nulFree, mailimapSizedTokenSend_text, crlfBreaks_breakFree free]

theorem mailimapNumberSend_text (number : UInt32) :
    (mailimapNumberSend number).text = decimal number.toNat := by
  fun_induction mailimapNumberSend number with
  | case1 number more ih =>
      have large : ¬ number.toNat < 10 := by
        have shrinks : number.toNat / 10 ≠ 0 := by
          rw [show number.toNat / 10 = (number / 10).toNat from (UInt32.toNat_div number 10).symm]
          exact fun zero => more (UInt32.toNat_inj.mp zero)
        omega
      have digits : decimal number.toNat = decimal (number.toNat / 10) ++ [decimalDigit (number.toNat % 10)] := by
        rw [decimal, if_neg large]
      rw [Sending.text_append, ih, digits, UInt32.toNat_div]
      rfl
  | case2 number last =>
      have zero : number.toNat / 10 = 0 := by
        rw [show number.toNat / 10 = (number / 10).toNat from (UInt32.toNat_div number 10).symm,
          Decidable.not_not.mp last]
        rfl
      have small : number.toNat < 10 := by omega
      have digit : (number % 10).toNat = number.toNat := by
        rw [UInt32.toNat_mod]
        exact Nat.mod_eq_of_lt small
      rw [decimal, if_pos small, digit]
      rfl

def literalHead (plus : Bool) (count : Nat) : List UInt8 :=
  ascii '{' :: decimal count ++ (if plus then [ascii '+'] else []) ++ [ascii '}', CR, LF]

end Etpan.Imap
