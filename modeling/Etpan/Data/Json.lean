import Etpan.Data.Abnf
import Etpan.Data.Decimal

namespace Etpan.Data

open Computability

/-! JSON texts as RFC 8259 spells them: syntax trees that keep the whitespace. -/

def isJsonSpace (byte : UInt8) : Bool := byte = 32 || byte = 9 || byte = CR || byte = LF

inductive StringItem where
  | plain (character : Char)
  | escape (letter : UInt8)
  | unicode (first second third fourth : UInt8)
deriving DecidableEq

mutual

inductive Json where
  /-- A literal name or a number. -/
  | scalar (token : List UInt8)
  | string (items : List StringItem)
  | array (blank : List UInt8) (elements : JsonElements)
  | object (blank : List UInt8) (members : JsonMembers)

inductive JsonElements where
  | nil
  | cons (before : List UInt8) (value : Json) (after : List UInt8) (rest : JsonElements)

/-- The members of an object; the whitespace stands around the name and the value. -/
inductive JsonMembers where
  | nil
  | cons (before : List UInt8) (key : List StringItem) (middle between : List UInt8) (value : Json) (after : List UInt8)
      (rest : JsonMembers)

end

def StringItem.text : StringItem → List UInt8
  | .plain character => String.utf8EncodeChar character
  | .escape letter => [ascii '\\', letter]
  | .unicode first second third fourth => [ascii '\\', ascii 'u', first, second, third, fourth]

def stringToken (items : List StringItem) : List UInt8 :=
  ascii '"' :: (items.flatMap StringItem.text ++ [ascii '"'])

mutual

def Json.text : Json → List UInt8
  | .scalar token => token
  | .string items => stringToken items
  | .array blank elements => ascii '[' :: elements.text blank
  | .object blank members => ascii '{' :: members.text blank

/-- What follows the opening bracket; `blank` stands in an array without elements. -/
def JsonElements.text (blank : List UInt8) : JsonElements → List UInt8
  | .nil => blank ++ [ascii ']']
  | .cons before value after rest => before ++ value.text ++ after ++ rest.tail

def JsonElements.tail : JsonElements → List UInt8
  | .nil => [ascii ']']
  | .cons before value after rest => ascii ',' :: (before ++ value.text ++ after ++ rest.tail)

def JsonMembers.text (blank : List UInt8) : JsonMembers → List UInt8
  | .nil => blank ++ [ascii '}']
  | .cons before key middle between value after rest =>
      before ++ stringToken key ++ middle ++ [ascii ':'] ++ between ++ value.text ++ after ++ rest.tail

def JsonMembers.tail : JsonMembers → List UInt8
  | .nil => [ascii '}']
  | .cons before key middle between value after rest =>
      ascii ',' :: (before ++ stringToken key ++ middle ++ [ascii ':'] ++ between ++ value.text ++ after ++ rest.tail)

end

def isHexDigit (byte : UInt8) : Bool :=
  isDigit byte || (ascii 'a' ≤ tolower byte && tolower byte ≤ ascii 'f')

def StringItem.Valid : StringItem → Prop
  | .plain character => 0x20 ≤ character.toNat ∧ character ≠ '"' ∧ character ≠ '\\'
  | .escape letter => letter ∈ asciiText "\"\\/bfnrt"
  | .unicode first second third fourth =>
      isHexDigit first = true ∧ isHexDigit second = true ∧ isHexDigit third = true ∧ isHexDigit fourth = true

def digit : Language UInt8 := octet isDigit

def jsonNumber : Language UInt8 :=
  (1 + terminal "-") *
    ((terminal "0" + octet (fun byte => isDigit byte && byte ≠ ascii '0') * digit∗) *
      ((1 + terminal "." * (digit * digit∗)) *
        (1 + terminal "e" * ((1 + (terminal "-" + terminal "+")) * (digit * digit∗)))))

def IsScalar (token : List UInt8) : Prop :=
  token = asciiText "false" ∨ token = asciiText "null" ∨ token = asciiText "true" ∨ token ∈ jsonNumber

def IsBlank (text : List UInt8) : Prop := ∀ byte ∈ text, isJsonSpace byte = true

mutual

def Json.Valid : Json → Prop
  | .scalar token => IsScalar token
  | .string items => ∀ item ∈ items, item.Valid
  | .array blank elements => IsBlank blank ∧ elements.Valid
  | .object blank members => IsBlank blank ∧ members.Valid

def JsonElements.Valid : JsonElements → Prop
  | .nil => True
  | .cons before value after rest => IsBlank before ∧ value.Valid ∧ IsBlank after ∧ rest.Valid

def JsonMembers.Valid : JsonMembers → Prop
  | .nil => True
  | .cons before key middle between value after rest =>
      IsBlank before ∧ (∀ item ∈ key, item.Valid) ∧ IsBlank middle ∧ IsBlank between ∧ value.Valid ∧ IsBlank after ∧ rest.Valid

end

def hexValue (byte : UInt8) : Nat :=
  if isDigit byte then byte.toNat - 48 else (tolower byte).toNat - 87

def codeUnit (first second third fourth : UInt8) : Nat :=
  ((hexValue first * 16 + hexValue second) * 16 + hexValue third) * 16 + hexValue fourth

def escapedOctet (letter : UInt8) : UInt8 :=
  if letter = ascii 'b' then 8
  else if letter = ascii 'f' then 12
  else if letter = ascii 'n' then LF
  else if letter = ascii 'r' then CR
  else if letter = ascii 't' then 9
  else letter

/-- The character with a code point, or the replacement character for a surrogate. -/
def characterOf (code : Nat) : Char := if code.isValidChar then Char.ofNat code else '\uFFFD'

/-- The text that a string stands for: two escapes of surrogates are one character. -/
def unescape : List StringItem → List UInt8
  | [] => []
  | .plain character :: rest => String.utf8EncodeChar character ++ unescape rest
  | .escape letter :: rest => escapedOctet letter :: unescape rest
  | .unicode a b c d :: .unicode e f g h :: rest =>
      let high := codeUnit a b c d
      let low := codeUnit e f g h
      if 0xD800 ≤ high ∧ high < 0xDC00 ∧ 0xDC00 ≤ low ∧ low < 0xE000 then
        String.utf8EncodeChar (characterOf (0x10000 + (high - 0xD800) * 0x400 + (low - 0xDC00))) ++ unescape rest
      else String.utf8EncodeChar (characterOf high) ++ unescape (.unicode e f g h :: rest)
  | .unicode a b c d :: rest => String.utf8EncodeChar (characterOf (codeUnit a b c d)) ++ unescape rest

def JsonMembers.keys : JsonMembers → List (List UInt8)
  | .nil => []
  | .cons _ key _ _ _ _ rest => unescape key :: rest.keys

mutual

/-- No object, at any depth, has two names with the same text. -/
def Json.UniqueKeys : Json → Prop
  | .scalar _ => True
  | .string _ => True
  | .array _ elements => elements.UniqueKeys
  | .object _ members => members.keys.Nodup ∧ members.UniqueKeys

def JsonElements.UniqueKeys : JsonElements → Prop
  | .nil => True
  | .cons _ value _ rest => value.UniqueKeys ∧ rest.UniqueKeys

def JsonMembers.UniqueKeys : JsonMembers → Prop
  | .nil => True
  | .cons _ _ _ _ value _ rest => value.UniqueKeys ∧ rest.UniqueKeys

def Json.EachKey (condition : List UInt8 → Prop) : Json → Prop
  | .scalar _ => True
  | .string _ => True
  | .array _ elements => elements.EachKey condition
  | .object _ members => members.EachKey condition

def JsonElements.EachKey (condition : List UInt8 → Prop) : JsonElements → Prop
  | .nil => True
  | .cons _ value _ rest => value.EachKey condition ∧ rest.EachKey condition

def JsonMembers.EachKey (condition : List UInt8 → Prop) : JsonMembers → Prop
  | .nil => True
  | .cons _ key _ _ value _ rest => condition (unescape key) ∧ value.EachKey condition ∧ rest.EachKey condition

end

end Etpan.Data
