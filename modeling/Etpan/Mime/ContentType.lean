import Etpan.Imf.Address
import Etpan.Imf.Word
import Etpan.Mime.Rfc2231

namespace Etpan.Mime

open Etpan.Data Etpan.Imf

/-! The Content-Type field: `mailmime_content_parse` of `low-level/mime/mailmime.c` and
`mailmime_content_type_write_driver` of `low-level/mime/mailmime_write_generic.c`.

The parsers are written as those of `Imf/Lexical`. -/

def isTspecials (ch : UInt8) : Bool := ch ∈ asciiText "()<>@,;:\\\"/[]?="

/-- Control characters are not left out. -/
def isToken (ch : UInt8) : Bool := !(0x7F < ch || ch = ascii ' ' || isTspecials ch)

def mailimfCustomStringParse (isCustomChar : UInt8 → Bool) (text : List UInt8) : Option (List UInt8 × List UInt8) :=
  if text.takeWhile isCustomChar = [] then none
  else some (cString (text.takeWhile isCustomChar), text.dropWhile isCustomChar)

def mailmimeTokenParse : List UInt8 → Option (List UInt8 × List UInt8) := mailimfCustomStringParse isToken

def mailmimeExtensionTokenParse : List UInt8 → Option (List UInt8 × List UInt8) := mailmimeTokenParse

def mailmimeSubtypeParse : List UInt8 → Option (List UInt8 × List UInt8) := mailmimeExtensionTokenParse

def mailmimeAttributeParse : List UInt8 → Option (List UInt8 × List UInt8) := mailmimeTokenParse

inductive MailmimeTypeName where
  | text
  | image
  | audio
  | video
  | application
  | message
  | multipart
  | extension (dtExtension : List UInt8)
deriving Repr, DecidableEq

/-- The names that are looked for, the composite types first. -/
def typeNames : List (List UInt8 × MailmimeTypeName) :=
  [(asciiText "message", .message), (asciiText "multipart", .multipart), (asciiText "text", .text), (asciiText "image", .image),
    (asciiText "audio", .audio), (asciiText "video", .video), (asciiText "application", .application)]

/-- `mailmime_composite_type_parse`, and `mailmime_discrete_type_parse` where that fails. -/
def mailmimeTypeParse (text : List UInt8) : Option (MailmimeTypeName × List UInt8) :=
  match typeNames.findSome? fun known => (mailimfTokenCaseInsensitiveParse known.1 text).map fun rest => (known.2, rest) with
  | some found => some found
  | none => (mailmimeExtensionTokenParse text).map fun (extension, rest) => (.extension extension, rest)

def mailmimeValueParse (text : List UInt8) : Option (List UInt8 × List UInt8) :=
  (mailimfAtomParse text).or (mailimfQuotedStringParse text)

def mailmimeParameterParse (text : List UInt8) : Option (MailmimeParameter × List UInt8) := do
  let (paName, text) ← mailmimeAttributeParse text
  let text ← mailimfUnstrictCharParse (ascii '=') text
  let (paValue, text) ← mailmimeValueParse (skipCfws text)
  some ((paName, paValue), text)

/-- The loop over the parameters, each of which takes an octet. -/
def parametersLoop : Nat → List MailmimeParameter → List UInt8 → List MailmimeParameter × List UInt8
  | 0, parametersList, text => (parametersList, text)
  | turns + 1, parametersList, text =>
      match mailimfUnstrictCharParse (ascii ';') text with
      | none => (parametersList, text)
      | some behind =>
          match mailmimeParameterParse (skipCfws behind) with
          | none => (parametersList, text)
          | some (parameter, behind) => parametersLoop turns (parametersList ++ [parameter]) behind

structure ParsedContent where
  ctType : MailmimeTypeName
  ctSubtype : List UInt8
  ctParameters : List MailmimeParameter
deriving Repr, DecidableEq

def subtypeParse (text : List UInt8) : Option (List UInt8 × List UInt8) :=
  match mailimfUnstrictCharParse (ascii '/') text with
  | some text => mailmimeSubtypeParse (skipCfws text)
  | none => some (asciiText "unknown", text)

/-- `charconv` and `turns` are those of the normalization. -/
def mailmimeContentParse (charconv : List UInt8 → List UInt8 → Option (List UInt8)) (turns : Nat) (text : List UInt8) :
    Option (ParsedContent × List UInt8) := do
  let (ctType, text) ← mailmimeTypeParse (skipCfws text)
  let (ctSubtype, text) ← subtypeParse text
  let (parametersList, text) := parametersLoop text.length [] text
  let ctParameters ← mailmimeRfc2231NormalizeParameters charconv turns parametersList
  some ({ ctType, ctSubtype, ctParameters }, text)

/-- `MAX_MAIL_COL` of `mailmime_write_generic.c`. -/
def maxMimeCol : Nat := 78

/-- `mailmime_type_write_driver`. -/
def MailmimeTypeName.spelling : MailmimeTypeName → List UInt8
  | .text => asciiText "text"
  | .image => asciiText "image"
  | .audio => asciiText "audio"
  | .video => asciiText "video"
  | .application => asciiText "application"
  | .message => asciiText "message"
  | .multipart => asciiText "multipart"
  | .extension dtExtension => dtExtension

def mailmimeParameterWriteDriver (out : Output (List UInt8)) (param : MailmimeParameter) : Output (List UInt8) :=
  mailimfQuotedStringWriteDriver (writeString (writeString out param.1) (asciiText "=")) param.2

def parametersWriteLoop (out : Output (List UInt8)) (ctParameters : List MailmimeParameter) : Output (List UInt8) :=
  ctParameters.foldl (fun out param =>
    let out := writeString out (asciiText "; ")
    let len := param.1.length + 1 + param.2.length
    let out := if 1 < out.col ∧ maxMimeCol < out.col + len then writeString out headerFold else out
    mailmimeParameterWriteDriver out param) out

def mailmimeContentTypeWriteDriver (out : Output (List UInt8)) (content : ParsedContent) : Output (List UInt8) :=
  parametersWriteLoop (writeString (writeString (writeString out content.ctType.spelling) (asciiText "/")) content.ctSubtype) content.ctParameters

end Etpan.Mime
