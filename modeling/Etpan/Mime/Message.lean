import Etpan.Data.Abnf
import Etpan.Imf.OptionalField
import Etpan.Mime.Multipart
import Etpan.Mime.PartParse

namespace Etpan.Mime

open Etpan.Data Etpan.Imf

/-! `mailmime_parse_with_default`: a part and the parts in it.

The parsers of one MIME field and of the envelope fields of a message are parameters. -/

inductive MailmimeCompositeType where
  | error
  | message
  | multipart
  | extension
deriving Repr, DecidableEq

inductive MailmimeType where
  | error
  | discrete
  | composite (ctType : MailmimeCompositeType)
deriving Repr, DecidableEq

structure MailmimeContent where
  ctType : MailmimeType
  ctSubtype : List UInt8
  ctParameters : List (List UInt8 × List UInt8)
deriving Repr, DecidableEq

inductive MailmimeField where
  | type (content : MailmimeContent)
  | transferEncoding (encType : MailmimeMechanism)
  | other
deriving Repr, DecidableEq

structure MailmimeData where
  encoding : MailmimeMechanism
  text : List UInt8
deriving Repr, DecidableEq

structure MailmimeHead where
  mmContentType : MailmimeContent
  mmMimeFields : List MailmimeField
  mmBody : MailmimeData
deriving Repr, DecidableEq

inductive Mailmime where
  | single (head : MailmimeHead)
  | multiple (head : MailmimeHead) (mmPreamble mmEpilogue : List UInt8) (mmMpList : List Mailmime)
  | message (head : MailmimeHead) (mmMsgMime : Option Mailmime)

def Mailmime.head : Mailmime → MailmimeHead
  | .single head | .multiple head _ _ _ | .message head _ => head

inductive MailmimeDefaultType where
  | textPlain
  | message
deriving Repr, DecidableEq

def mailmimeMaxParseDepth : Nat := 20

/-- `strcasecmp` is 0. -/
def sameCaseless (left right : List UInt8) : Bool := left.map tolower = right.map tolower

theorem sameCaseless_iff {left right : List UInt8} : sameCaseless left right = true ↔ left.map tolower = right.map tolower := by
  rw [sameCaseless, decide_eq_true_eq]

def mailmimeGetContentText : MailmimeContent := { ctType := .discrete, ctSubtype := asciiText "plain", ctParameters := [] }

def mailmimeGetContentMessage : MailmimeContent := { ctType := .composite .message, ctSubtype := asciiText "rfc822", ctParameters := [] }

def mailmimeContentParamGet (content : MailmimeContent) (name : List UInt8) : Option (List UInt8) :=
  (content.ctParameters.find? fun param => sameCaseless param.1 name).map Prod.snd

def mailmimeExtractBoundary (content : MailmimeContent) : Option (List UInt8) :=
  (mailmimeContentParamGet content (asciiText "boundary")).map fun boundary =>
    if 2 ≤ boundary.length ∧ boundary.head? = some (ascii '"') ∧ boundary.getLast? = some (ascii '"') then boundary.tail.dropLast
    else boundary

def mailmimeTransferEncodingGet (fields : List MailmimeField) : MailmimeMechanism :=
  (fields.findSome? fun field => match field with
    | .transferEncoding encType => some encType
    | _ => none).getD .eightBit

def detachContentType : List MailmimeField → Option MailmimeContent × List MailmimeField
  | [] => (none, [])
  | .type content :: rest => (some content, rest)
  | field :: rest =>
      let detached := detachContentType rest
      (detached.1, field :: detached.2)

/-- `body_type` with the boundary of a multipart. -/
inductive BodyType where
  | single
  | multiple (boundary : List UInt8)
  | message
deriving Repr, DecidableEq

def bodyType (content : MailmimeContent) (encoding : MailmimeMechanism) : Except MailimfError BodyType :=
  match content.ctType with
  | .composite .multipart =>
      match mailmimeExtractBoundary content with
      | none => .ok .single
      | some boundary => .ok (.multiple boundary)
  | .composite .message =>
      if sameCaseless content.ctSubtype (asciiText "rfc822") ∧ encoding ≠ .quotedPrintable ∧ encoding ≠ .base64 then .ok .message else .ok .single
  | .composite _ => .error .inval
  | _ => .ok .single

section Parse

variable (mailmimeFieldParse : MailimfOptionalField → Except MailimfError MailmimeField)
  (mailimfEnvelopeAndOptionalFieldsParse : List UInt8 → Except MailimfError (List MailimfOptionalField × List UInt8))
  (stray : Nat → UInt8)

/-- The fields that can be parsed; there is an error when these are none. -/
def mailmimeFieldsParse (fields : List MailimfOptionalField) : Except MailimfError (List MailmimeField) := do
  let list ← fields.foldlM (fun list field =>
    match mailmimeFieldParse field with
    | .ok mimeField => .ok (list ++ [mimeField])
    | .error .parse => .ok list
    | .error reason => .error reason) []
  if list = [] then .error .parse else .ok list

def optionalResult {α : Type} : Except MailimfError α → Except MailimfError (Option α)
  | .ok result => .ok (some result)
  | .error .parse => .ok none
  | .error reason => .error reason

def skipCrlf (text : List UInt8) : List UInt8 := (Imf.mailimfCrlfParse text).getD text

def partFieldsParse (data : List UInt8) : Except MailimfError (Nat × Option (List MailmimeField)) :=
  let (fields, rest) := mailimfOptionalFieldsParse data
  (optionalResult (mailmimeFieldsParse mailmimeFieldParse fields)).map fun mimeFields =>
    (data.length - (skipCrlf rest).length, mimeFields)

/-- The content type, which is looked for in the fields and has a default, and the body, which
is all of the text. -/
def mailmimeHeadOf (message : List UInt8) (indx : Nat) (defaultType : MailmimeDefaultType) (contentType : Option MailmimeContent)
    (mimeFields : Option (List MailmimeField)) : MailmimeHead :=
  let fields := mimeFields.getD []
  let detached := if contentType.isSome then (contentType, fields) else detachContentType fields
  let content := detached.1.getD (match defaultType with
    | .textPlain => mailmimeGetContentText
    | .message => mailmimeGetContentMessage)
  { mmContentType := content, mmMimeFields := detached.2,
    mmBody := { encoding := mailmimeTransferEncodingGet detached.2, text := message.drop indx } }

/-- `mailmime_parse_with_default` at the depth `MAILMIME_MAX_PARSE_DEPTH + 1 - remaining`;
`mimeFields` is missing where the source passes NULL. -/
def mailmimeParseWithDefault : Nat → List UInt8 → Nat → MailmimeDefaultType → Option MailmimeContent → Option (List MailmimeField) →
    Except MailimfError Mailmime
  | 0, _, _, _, _, _ => .error .parseDepth
  | remaining + 1, message, indx, defaultType, contentType, mimeFields =>
      let head := mailmimeHeadOf message indx defaultType contentType mimeFields
      match bodyType head.mmContentType head.mmBody.encoding with
      | .error reason => .error reason
      | .ok .single => .ok (.single head)
      | .ok .message =>
          (do
            let (fields, rest) ← mailimfEnvelopeAndOptionalFieldsParse (message.drop indx)
            let submimeFields ← optionalResult (mailmimeFieldsParse mailmimeFieldParse fields)
            if remaining = 0 then .error .parseDepth
            else
              optionalResult (mailmimeParseWithDefault remaining message (message.length - (skipCrlf rest).length) .textPlain none
                submimeFields)).map (Mailmime.message head)
      | .ok (.multiple boundary) =>
          let defaultSubtype := if sameCaseless head.mmContentType.ctSubtype (asciiText "digest") then .message else .textPlain
          if remaining = 0 then .error .parseDepth
          else
            (optionalResult (mailmimeMultipartBodyParse (fun data =>
              match partFieldsParse mailmimeFieldParse data with
              | .error reason => .error reason
              | .ok (bodyBegin, fields) => mailmimeParseWithDefault remaining data bodyBegin defaultSubtype none fields)
              stray message boundary indx)).map fun parsed =>
                match parsed with
                | none => .multiple head [] [] []
                | some body => .multiple head body.preamble body.epilogue body.parts

/-- The parser that `mailmime_multipart_body_parse` runs on the slice of a part. -/
def mailmimePartOfSlice (remaining : Nat) (defaultSubtype : MailmimeDefaultType) (data : List UInt8) : Except MailimfError Mailmime :=
  match partFieldsParse mailmimeFieldParse data with
  | .error reason => .error reason
  | .ok (bodyBegin, fields) =>
      mailmimeParseWithDefault mailmimeFieldParse mailimfEnvelopeAndOptionalFieldsParse stray remaining data bodyBegin defaultSubtype none fields

end Parse

end Etpan.Mime
