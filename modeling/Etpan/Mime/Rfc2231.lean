import Etpan.Data.Decimal
import Etpan.Mime.Message

namespace Etpan.Mime

open Etpan.Data Etpan.Imf

/-! `mailmime_rfc2231_normalize_parameters`: parameters whose value is spread over several
names are put together.

A name or a value is the octets of its C string. An `int` that overflows has no result in C:
the outer `none`. A list counts its elements in an `int`, so a count of sections does not
overflow. -/

structure Rfc2231Name where
  base : List UInt8
  number : Nat
  hasSection : Bool
  encoded : Bool
  valid : Bool
deriving Repr, DecidableEq

/-- The name after `memset` to 0. -/
def Rfc2231Name.cleared : Rfc2231Name := { base := [], number := 0, hasSection := false, encoded := false, valid := false }

def rfc2231HexValue (ch : UInt8) : Option Nat :=
  if ascii '0' ≤ ch ∧ ch ≤ ascii '9' then some (ch.toNat - (ascii '0').toNat)
  else if ascii 'A' ≤ ch ∧ ch ≤ ascii 'F' then some (ch.toNat - (ascii 'A').toNat + 10)
  else if ascii 'a' ≤ ch ∧ ch ≤ ascii 'f' then some (ch.toNat - (ascii 'a').toNat + 10)
  else none

def rfc2231AppendPercentDecoded : List UInt8 → List UInt8
  | [] => []
  | ch :: hi :: lo :: rest =>
      match rfc2231HexValue hi, rfc2231HexValue lo with
      | some high, some low =>
          if ch = ascii '%' then UInt8.ofNat (high * 16 + low) :: rfc2231AppendPercentDecoded rest
          else ch :: rfc2231AppendPercentDecoded (hi :: lo :: rest)
      | _, _ => ch :: rfc2231AppendPercentDecoded (hi :: lo :: rest)
  | ch :: rest => ch :: rfc2231AppendPercentDecoded rest

/-- The digits of a section number, read into an `int`. -/
def rfc2231Section : List UInt8 → Nat → Option Nat
  | [], number => some number
  | digit :: digits, number =>
      let next := number * 10 + (digit.toNat - (ascii '0').toNat)
      if next < 2 ^ 31 then rfc2231Section digits next else none

def rfc2231NameParse (name : List UInt8) : Option Rfc2231Name :=
  let base := name.takeWhile (· ≠ ascii '*')
  match name.dropWhile (· ≠ ascii '*') with
  | [] => some .cleared
  | _ :: rest =>
      if base = [] then some .cleared
      else if rest = [] then some { Rfc2231Name.cleared with base, encoded := true, valid := true }
      else
        let digits := rest.takeWhile isDigit
        if digits = [] then some { Rfc2231Name.cleared with base }
        else
          match rfc2231Section digits 0 with
          | none => none
          | some number =>
              let tail := rest.dropWhile isDigit
              let encoded := tail.head? = some (ascii '*')
              let behind := if encoded then tail.tail else tail
              some { base, number, hasSection := true, encoded, valid := behind = [] }

abbrev MailmimeParameter := List UInt8 × List UInt8

def mailmimeRfc2231ParameterHasBase (name baseName : List UInt8) : Option Bool :=
  if sameCaseless name baseName then some true
  else
    match rfc2231NameParse name with
    | none => none
    | some info => some (info.valid && sameCaseless info.base baseName)

/-- The charset before the first quote, when there are two, and the text behind the second. -/
def rfc2231ParseExtendedPrefix (value : List UInt8) : Option (List UInt8) × List UInt8 :=
  match value.dropWhile (· ≠ ascii '\'') with
  | [] => (none, value)
  | _ :: afterFirst =>
      match afterFirst.dropWhile (· ≠ ascii '\'') with
      | [] => (none, value)
      | _ :: text => (some (value.takeWhile (· ≠ ascii '\'')), text)

/-- `charconv` takes a charset and a text; where it fails the text stays as it is. -/
def rfc2231ConvertToUtf8 (charconv : List UInt8 → List UInt8 → Option (List UInt8)) (charset : Option (List UInt8)) (str : List UInt8) :
    List UInt8 :=
  match charset with
  | none => cString str
  | some charset =>
      if charset = [] then cString str
      else if sameCaseless charset (asciiText "utf-8") ∨ sameCaseless charset (asciiText "utf8") ∨ sameCaseless charset (asciiText "us-ascii") then
        cString str
      else
        match charconv charset str with
        | some converted => cString converted
        | none => cString str

/-- The first parameter with this section, and whether that is encoded. -/
def rfc2231FindSection (base : List UInt8) (number : Nat) : List MailmimeParameter → Option (Option (MailmimeParameter × Bool))
  | [] => some none
  | param :: parameters =>
      match rfc2231NameParse param.1 with
      | none => none
      | some info =>
          if info.valid ∧ info.hasSection ∧ info.number = number ∧ sameCaseless info.base base then some (some (param, info.encoded))
          else rfc2231FindSection base number parameters

def rfc2231FindSingleExtended (base : List UInt8) : List MailmimeParameter → Option (Option MailmimeParameter)
  | [] => some none
  | param :: parameters =>
      match rfc2231NameParse param.1 with
      | none => none
      | some info =>
          if info.valid ∧ ¬ info.hasSection ∧ sameCaseless info.base base then some (some param)
          else rfc2231FindSingleExtended base parameters

/-- The variables of the loop over the sections. -/
structure Rfc2231Sections where
  decoded : List UInt8
  charset : Option (List UInt8)
  found : Bool
deriving Repr, DecidableEq

/-- That loop; `none` also when the turns do not suffice. -/
def rfc2231DecodeSections (parameters : List MailmimeParameter) (base : List UInt8) : Nat → Nat → Rfc2231Sections → Option Rfc2231Sections
  | 0, _, _ => none
  | turns + 1, number, state =>
      match rfc2231FindSection base number parameters with
      | none => none
      | some none => some state
      | some (some (param, encoded)) =>
          let (charset, value) := if number = 0 ∧ encoded then rfc2231ParseExtendedPrefix param.2 else (state.charset, param.2)
          let decoded := state.decoded ++ (if encoded then rfc2231AppendPercentDecoded value else value)
          rfc2231DecodeSections parameters base turns (number + 1) { decoded, charset, found := true }

section Charconv

variable (charconv : List UInt8 → List UInt8 → Option (List UInt8))

/-- `some none` is a parse error: no section 0. -/
def rfc2231DecodeContinuation (parameters : List MailmimeParameter) (base : List UInt8) : Option (Option (List UInt8)) :=
  match rfc2231DecodeSections parameters base (parameters.length + 1) 0 { decoded := [], charset := none, found := false } with
  | none => none
  | some state => if state.found then some (some (rfc2231ConvertToUtf8 charconv state.charset state.decoded)) else some none

def rfc2231DecodeSingleExtended (param : MailmimeParameter) : List UInt8 :=
  let (charset, text) := rfc2231ParseExtendedPrefix param.2
  rfc2231ConvertToUtf8 charconv charset (rfc2231AppendPercentDecoded text)

def rfc2231DecodeForBase (parameters : List MailmimeParameter) (base : List UInt8) : Option (Option (List UInt8)) :=
  match rfc2231DecodeContinuation charconv parameters base with
  | none => none
  | some (some value) => some (some value)
  | some none =>
      match rfc2231FindSingleExtended base parameters with
      | none => none
      | some none => some none
      | some (some param) => some (some (rfc2231DecodeSingleExtended charconv param))

def rfc2231BaseWasSeen (seen : List (List UInt8)) (base : List UInt8) : Bool := seen.any fun seenBase => sameCaseless seenBase base

def rfc2231RemoveBaseParameters (base : List UInt8) : List MailmimeParameter → Option (List MailmimeParameter)
  | [] => some []
  | param :: parameters =>
      match mailmimeRfc2231ParameterHasBase param.1 base with
      | none => none
      | some hasBase =>
          match rfc2231RemoveBaseParameters base parameters with
          | none => none
          | some kept => some (if hasBase then kept else param :: kept)

/-- The loop over the parameters with its cursor. After a replacement the cursor is set to the first
element, and the `for` then steps to the one after it. -/
def rfc2231NormalizeLoop : Nat → List MailmimeParameter → List (List UInt8) → Nat → Option (List MailmimeParameter)
  | 0, _, _, _ => none
  | turns + 1, parameters, seen, cur =>
      match parameters[cur]? with
      | none => some parameters
      | some param =>
          match rfc2231NameParse param.1 with
          | none => none
          | some info =>
              if ¬ info.valid ∨ rfc2231BaseWasSeen seen info.base then rfc2231NormalizeLoop turns parameters seen (cur + 1)
              else
                match rfc2231DecodeForBase charconv parameters info.base with
                | none => none
                | some none => rfc2231NormalizeLoop turns parameters seen (cur + 1)
                | some (some decodedValue) =>
                    match rfc2231RemoveBaseParameters info.base parameters with
                    | none => none
                    | some kept => rfc2231NormalizeLoop turns (kept ++ [(info.base, decodedValue)]) (seen ++ [info.base]) (0 + 1)

/-- `none` when the turns do not suffice, too. -/
def mailmimeRfc2231NormalizeParameters (turns : Nat) (parameters : List MailmimeParameter) : Option (List MailmimeParameter) :=
  rfc2231NormalizeLoop charconv turns parameters [] 0

end Charconv

end Etpan.Mime
