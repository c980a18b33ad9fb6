import Etpan.Imf.StringWrite

namespace Etpan.Mime

open Etpan.Data Etpan.Imf

/-! Splitting a multipart body into its parts, `low-level/mime/mailmime_content.c`.

Positions are offsets into the message, as in the source.  The parser of one part
is a parameter: it stands for the header and body parsers that
`mailmime_multipart_body_parse` runs on each slice. -/

inductive PreambleState where
  | a0
  | a
  | a1
  | b
  | c
  | d
  | e
deriving Repr, DecidableEq

def preambleStep (state : PreambleState) (ch : UInt8) : PreambleState :=
  match state with
  | .a0 => if ch = ascii '-' then .a1 else if ch = CR then .b else if ch = LF then .c else .a
  | .a => if ch = CR then .b else if ch = LF then .c else .a
  | .a1 => if ch = ascii '-' then .e else if ch = CR then .b else if ch = LF then .c else .a
  | .b => if ch = CR then .b else if ch = LF then .c else if ch = ascii '-' then .d else .a0
  | .c => if ch = ascii '-' then .d else if ch = CR then .b else if ch = LF then .c else .a0
  | .d => if ch = ascii '-' then .e else .a
  | .e => .e

/-- The number of octets up to the end of the first `--` that the scanner accepts. -/
def preambleScan : PreambleState → List UInt8 → Option Nat
  | .e, _ => some 0
  | _, [] => none
  | state, ch :: rest => (preambleScan (preambleStep state ch) rest).map (· + 1)

def mailmimePreambleParse (message : List UInt8) (indx : Nat) (beol : Bool) : Except MailimfError Nat :=
  match preambleScan (if beol then .a0 else .a) (message.drop indx) with
  | none => .error .parse
  | some count => .ok (indx + count)

def boundaryHere (boundary rest : List UInt8) : Bool :=
  boundary.length < rest.length && boundary.isPrefixOf rest

def mailmimeBoundaryParse (message boundary : List UInt8) (indx : Nat) : Except MailimfError Nat :=
  if boundaryHere boundary (message.drop indx) then .ok (indx + boundary.length) else .error .parse

def isWsp (ch : UInt8) : Bool := ch = ascii ' ' ∨ ch = ascii '\t'

def mailmimeLwspParse (message : List UInt8) (indx : Nat) : Except MailimfError Nat :=
  let count := ((message.drop indx).takeWhile isWsp).length
  if count = 0 then .error .parse else .ok (indx + count)

def skipLwsp (message : List UInt8) (indx : Nat) : Nat :=
  match mailmimeLwspParse message indx with
  | .ok next => next
  | .error _ => indx

def mailimfCrlfParse (message : List UInt8) (indx : Nat) : Except MailimfError Nat :=
  match message.drop indx with
  | [] => .error .parse
  | ch :: rest =>
      if ch = CR then if rest.head? = some LF then .ok (indx + 2) else .error .parse
      else if ch = LF then .ok (indx + 1)
      else .error .parse

inductive Dash2State where
  | s0
  | s1
  | s2
  | s3
  | s4
deriving Repr, DecidableEq

def dash2Step (state : Dash2State) (ch : UInt8) : Dash2State :=
  match state with
  | .s0 => if ch = CR then .s1 else if ch = LF then .s2 else .s0
  | .s1 => if ch = LF then .s2 else .s0
  | .s2 => if ch = ascii '-' then .s3 else if ch = CR then .s1 else if ch = LF then .s2 else .s0
  | .s3 => if ch = CR then .s1 else if ch = LF then .s2 else if ch = ascii '-' then .s4 else .s0
  | .s4 => .s0

/-- The scan of `mailmime_body_part_dash2_parse`: where it stops and `end_text`.  A
failed boundary (state 6) goes back to state 0 at the same octet. -/
def dash2Scan (boundary : List UInt8) : Dash2State → List UInt8 → Nat → Nat → Nat × Nat
  | _, [], cur, endText => (cur, endText)
  | .s4, ch :: rest, cur, endText =>
      if boundaryHere boundary (ch :: rest) then (cur + boundary.length, endText)
      else dash2Scan boundary (dash2Step .s0 ch) rest (cur + 1) endText
  | .s2, ch :: rest, cur, endText =>
      dash2Scan boundary (dash2Step .s2 ch) rest (cur + 1) (if ch = ascii '-' then cur else endText)
  | state, ch :: rest, cur, endText => dash2Scan boundary (dash2Step state ch) rest (cur + 1) endText

/-- The end of a text without the line end that belongs to the delimiter. -/
def trimEol (message : List UInt8) (beginText endText : Nat) : Nat :=
  if endText ≤ beginText then endText
  else if message[endText - 1]? = some CR then endText - 1
  else if message[endText - 1]? = some LF then
    if endText - 1 ≤ beginText then endText - 1
    else if message[endText - 2]? = some CR then endText - 2
    else endText - 1
  else endText

/-- The position after the call and the end of the text that starts at `indx`. -/
def mailmimeBodyPartDash2Parse (message boundary : List UInt8) (indx : Nat) : Except MailimfError (Nat × Nat) :=
  let scan := dash2Scan boundary .s0 (message.drop indx) indx message.length
  let endText := trimEol message indx scan.2
  if endText - indx = 0 then .error .parse else .ok (scan.1, endText)

/-- The loop of `mailmime_body_part_dash2_transport_crlf_parse`.  Each text found is
not empty, so there are at most as many turns as octets. -/
def transportCrlfLoop (message boundary : List UInt8) : Nat → Nat → Except MailimfError (Nat × Nat)
  | 0, _ => .error .parse
  | turns + 1, cur =>
      match mailmimeBodyPartDash2Parse message boundary cur with
      | .error reason => .error reason
      | .ok (next, endText) =>
          match mailimfCrlfParse message (skipLwsp message next) with
          | .ok after => .ok (after, endText)
          | .error _ => transportCrlfLoop message boundary turns (skipLwsp message next)

def mailmimeBodyPartDash2TransportCrlfParse (message boundary : List UInt8) (indx : Nat) :
    Except MailimfError (Nat × Nat) :=
  transportCrlfLoop message boundary (message.length + 1) indx

/-- `mailmime_multipart_close_parse` after its two dashes; the octet after the padding
is passed even when it is no line end, and so is the end of the message. -/
def closePadding : List UInt8 → Nat
  | [] => 1
  | ch :: rest =>
      if isWsp ch then closePadding rest + 1
      else if ch = CR then 2
      else 1

def mailmimeMultipartCloseParse (message : List UInt8) (indx : Nat) : Except MailimfError Nat :=
  match message.drop indx with
  | first :: second :: rest =>
      if first = ascii '-' ∧ second = ascii '-' then .ok (indx + 2 + closePadding rest) else .error .parse
  | _ => .error .parse

def closeLoop (message boundary : List UInt8) : Nat → Nat → Except MailimfError (Nat × Nat)
  | 0, _ => .error .parse
  | turns + 1, cur =>
      match mailmimeBodyPartDash2Parse message boundary cur with
      | .error reason => .error reason
      | .ok (next, endText) =>
          if message.length ≤ next then .ok (next, endText)
          else
            match mailmimeMultipartCloseParse message next with
            | .ok after => .ok (after, endText)
            | .error _ => closeLoop message boundary turns next

def mailmimeBodyPartDash2CloseParse (message boundary : List UInt8) (indx : Nat) :
    Except MailimfError (Nat × Nat) :=
  closeLoop message boundary (message.length + 1) indx

def blankLine : List UInt8 → Option Nat
  | [] => none
  | ch :: rest =>
      if isWsp ch then (blankLine rest).map (· + 1)
      else if ch = CR then if rest.head? = some LF then some 2 else none
      else if ch = LF then some 1
      else none

def mailmimeMultipartNextParse (message : List UInt8) (indx : Nat) : Except MailimfError Nat :=
  match blankLine (message.drop indx) with
  | none => .error .parse
  | some count => .ok (indx + count)

def partLoop {α : Type} (parsePart : List UInt8 → Except MailimfError α) (message boundary : List UInt8) :
    Nat → Nat → Except MailimfError (List α × Nat)
  | 0, _ => .error .parse
  | turns + 1, cur =>
      -- a plain delimiter is searched in all of the rest before a close delimiter is
      let found : Except MailimfError (Nat × Nat × Bool) :=
        match mailmimeBodyPartDash2TransportCrlfParse message boundary cur with
        | .ok (next, endText) => .ok (next, endText, false)
        | .error .parse =>
            match mailmimeBodyPartDash2CloseParse message boundary cur with
            | .ok (next, endText) => .ok (next, endText, true)
            | .error reason => .error reason
        | .error reason => .error reason
      match found with
      | .error reason => .error reason
      | .ok (next, endText, finalPart) =>
          match parsePart ((message.drop cur).take (endText - cur)) with
          | .error .parse => .ok ([], next)
          | .error reason => .error reason
          | .ok part =>
              let next := match mailmimeMultipartNextParse message next with
                | .ok after => after
                | .error _ => next
              if finalPart then .ok ([part], next)
              else (partLoop parsePart message boundary turns next).map fun rest => (part :: rest.1, rest.2)

def preambleLoop (message boundary : List UInt8) : Nat → Nat → Nat × Nat
  | 0, cur => (cur, cur)
  | turns + 1, cur =>
      match mailmimeBoundaryParse message boundary cur with
      | .ok next => (next, cur)
      | .error _ =>
          match mailmimePreambleParse message cur false with
          | .ok next => preambleLoop message boundary turns next
          | .error _ => (cur, cur)

def skipBlankLines (message : List UInt8) : Nat → Nat → Nat
  | 0, partBegin => partBegin
  | turns + 1, partBegin =>
      match mailimfCrlfParse message (skipLwsp message partBegin) with
      | .ok next => skipBlankLines message turns next
      | .error _ => partBegin

def sizeModulus : Nat := 2 ^ 64

/-- Subtraction of `size_t` values. -/
def sizeSub (left right : Nat) : Nat :=
  if right ≤ left then left - right else left + sizeModulus - right

/-- `preamble_length`.  The offsets are not checked before they are lowered, so an
octet outside the message may be read; `stray` gives these octets. -/
def preambleLength (stray : Nat → UInt8) (message : List UInt8) (preambleBegin preambleEnd : Nat) : Nat :=
  let octet := fun position => (message[position]?).getD (stray position)
  let end2 := sizeSub preambleEnd 2
  let stripped :=
    if end2 = preambleBegin then end2
    else if octet (sizeSub end2 1) = LF then
      let end1 := sizeSub end2 1
      if preambleBegin ≤ sizeSub end1 1 ∧ octet (sizeSub end1 1) = CR then sizeSub end1 1 else end1
    else if octet (sizeSub end2 1) = CR then sizeSub end2 1
    else end2
  stripped - preambleBegin

/-- What `mailmime_multipart_body_parse` returns; a missing preamble or epilogue is
empty. -/
structure MultipartBody (α : Type) where
  parts : List α
  preamble : List UInt8
  epilogue : List UInt8
  indx : Nat
deriving Repr, DecidableEq

def mailmimeMultipartBodyParse {α : Type} (parsePart : List UInt8 → Except MailimfError α)
    (stray : Nat → UInt8) (message boundary : List UInt8) (indx : Nat) :
    Except MailimfError (MultipartBody α) :=
  let opened :=
    match mailmimePreambleParse message indx true with
    | .ok cur => preambleLoop message boundary (message.length + 1) cur
    | .error _ => (indx, indx)
  let preamble := (message.drop indx).take (preambleLength stray message indx opened.2)
  let partBegin := skipBlankLines message (message.length + 1) opened.1
  match partLoop parsePart message boundary (message.length + 1) partBegin with
  | .error reason => .error reason
  | .ok (parts, cur) =>
      let epilogue :=
        match mailimfCrlfParse message (skipLwsp message cur) with
        | .ok epilogueBegin => message.drop epilogueBegin
        | .error _ => []
      .ok { parts, preamble, epilogue, indx := message.length }

end Etpan.Mime
