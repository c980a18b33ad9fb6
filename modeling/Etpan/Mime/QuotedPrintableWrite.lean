import Etpan.Mime.QuotedPrintableParse

namespace Etpan.Mime

open Etpan.Data Etpan.Imf

/-! The quoted-printable writer of `low-level/mime/mailmime_write_generic.c`. -/

def qpMaxCol : Nat := 72

inductive QpWriteState where
  | init
  | cr
  | space
  | spaceCr
deriving Repr, DecidableEq

/-- The variables of the loop; `start` and `len` delimit the literal octets that are
still to be written. -/
structure QpWrite (σ : Type) where
  out : Output σ
  start : Nat
  len : Nat
  i : Nat
  state : QpWriteState
deriving Repr, DecidableEq

def isBlank (ch : UInt8) : Bool := ch = ascii ' ' ∨ ch = ascii '\t'

/-- The printable characters that are escaped all the same; the five numbers are the
double quote, the backslash, the back quote and the braces. -/
def qpSpecials : List UInt8 :=
  "!#$@[]^|~=?_F".toList.map ascii ++ [34, 92, 96, 123, 125]

def isQpLiteral (ch : UInt8) : Bool := (33 ≤ ch ∧ ch ≤ 60) ∨ (62 ≤ ch ∧ ch ≤ 126)

def hexDigit (value : Nat) : UInt8 := ("0123456789ABCDEF".toList.map ascii).getD value 0

/-- What `snprintf` prints for the format `=%02X`. -/
def hexstr (ch : UInt8) : List UInt8 :=
  [ascii '=', hexDigit (ch.toNat / 16), hexDigit (ch.toNat % 16)]

section Write

variable {σ : Type} (doWrite : DoWrite σ) (text : List UInt8) (beyond : UInt8) (istext : Bool)

/-- The octets at `*pstart`; a run that reaches past the text reads the octet that
follows it in memory. -/
def run (start len : Nat) : List UInt8 := ((text ++ [beyond]).drop start).take len

def writeRemaining (w : QpWrite σ) : Option (QpWrite σ) :=
  if 0 < w.len then
    (mailimfStringWriteDriver doWrite w.out (run text beyond w.start w.len)).map
      fun out => { w with out, len := 0 }
  else some w

/-- The run, then `str`; the next run starts at `start`. -/
def writeThen (w : QpWrite σ) (str : List UInt8) (start : Nat) : Option (QpWrite σ) :=
  (writeRemaining doWrite text beyond w).bind fun w =>
    (mailimfStringWriteDriver doWrite w.out str).map fun out => { w with out, start }

def softBreak (w : QpWrite σ) : Option (QpWrite σ) :=
  if w.out.col + w.len > qpMaxCol then writeThen doWrite text beyond w [ascii '=', CR, LF] w.i else some w

def qpInitStep (w : QpWrite σ) (ch : UInt8) : Option (QpWrite σ) :=
  if isBlank ch then some { w with state := .space, len := w.len + 1, i := w.i + 1 }
  else if ch = CR then some { w with state := .cr, i := w.i + 1 }
  else if ch ∈ qpSpecials then
    (writeThen doWrite text beyond w (hexstr ch) (w.i + 1)).map fun w => { w with i := w.i + 1 }
  else if istext ∧ ch = LF then
    (writeThen doWrite text beyond w [CR, LF] (w.i + 1)).map fun w => { w with i := w.i + 1 }
  else if isQpLiteral ch then some { w with len := w.len + 1, i := w.i + 1 }
  else (writeThen doWrite text beyond w (hexstr ch) (w.i + 1)).map fun w => { w with i := w.i + 1 }

def qpCrStep (w : QpWrite σ) (ch : UInt8) : Option (QpWrite σ) :=
  if ch = LF then
    (writeThen doWrite text beyond w [CR, LF] (w.i + 1)).map fun w => { w with state := .init, i := w.i + 1 }
  else (writeThen doWrite text beyond w (hexstr CR) w.i).map fun w => { w with state := .init }

def qpSpaceStep (w : QpWrite σ) (ch : UInt8) : Option (QpWrite σ) :=
  if ch = CR then some { w with state := .spaceCr, i := w.i + 1 }
  else if ch = LF then
    (writeThen doWrite text beyond w (hexstr (text.getD (w.i - 1) 0) ++ [CR, LF]) (w.i + 1)).map
      fun w => { w with state := .init, i := w.i + 1 }
  else if isBlank ch then some { w with len := w.len + 1, i := w.i + 1 }
  else some { w with state := .init }

def qpSpaceCrStep (w : QpWrite σ) (ch : UInt8) : Option (QpWrite σ) :=
  if ch = LF then
    (writeThen doWrite text beyond w (hexstr (text.getD (w.i - 2) 0) ++ [CR, LF]) (w.i + 1)).map
      fun w => { w with state := .init, i := w.i + 1 }
  else
    (writeThen doWrite text beyond w (text.getD (w.i - 2) 0 :: hexstr CR) (w.i + 1)).map
      fun w => { w with state := .init }

def qpWriteStep (w : QpWrite σ) (ch : UInt8) : Option (QpWrite σ) :=
  (softBreak doWrite text beyond w).bind fun w =>
    match w.state with
    | .init => qpInitStep doWrite text beyond istext w ch
    | .cr => qpCrStep doWrite text beyond w ch
    | .space => qpSpaceStep doWrite text beyond w ch
    | .spaceCr => qpSpaceCrStep doWrite text beyond w ch

/-- A turn that does not move on leaves the state `init`, so two turns for each octet
are enough. -/
def qpWriteLoop : Nat → QpWrite σ → Option (QpWrite σ)
  | 0, w => some w
  | turns + 1, w =>
      match text.drop w.i with
      | [] => some w
      | ch :: _ => (qpWriteStep doWrite text beyond istext w ch).bind (qpWriteLoop turns)

def mailmimeQuotedPrintableWriteDriver (out : Output σ) : Option (Output σ) :=
  (qpWriteLoop doWrite text beyond istext (2 * text.length) ⟨out, 0, 0, 0, .init⟩).bind fun w =>
    (writeRemaining doWrite text beyond w).map fun w => w.out

end Write

end Etpan.Mime
