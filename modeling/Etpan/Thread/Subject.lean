import Etpan.Data.Abnf

namespace Etpan.Thread

open Etpan.Data

/-! `extract_subject` of `driver/tools/mailthread.c`.

`subj` holds the octets that may be read, and `none` stands for a read of any other. -/

def space : UInt8 := ascii ' '

/-- What the loops of step (1) take for a tab or continuation. -/
def isContinuation (octet : UInt8) : Bool := octet = 9 || octet = CR || octet = LF

/-- The text that is written over the subject; `cont` is set in the inner loop, which skips the
octet that ends it, too. -/
def writeSpaces (cont : Bool) : List UInt8 → List UInt8
  | [] => []
  | octet :: cur =>
      if isContinuation octet then if cont then writeSpaces true cur else space :: writeSpaces true cur
      else if cont then writeSpaces false cur else octet :: writeSpaces false cur

/-- The array after step (1): the octets behind the new text stay. -/
def convertSpaces (text : List UInt8) : List UInt8 :=
  writeSpaces false text ++ 0 :: (text ++ [0]).drop ((writeSpaces false text).length + 1)

section Scanners

variable (subj : List UInt8)

/-- `strncasecmp(subj + cur, literal, n) == 0`. -/
def sameNoCase : List UInt8 → Nat → Option Bool
  | [], _ => some true
  | octet :: literal, cur =>
      (subj[cur]?).bind fun byte => if tolower byte = tolower octet then sameNoCase literal (cur + 1) else some false

/-- The position of the bracket that closes a blob; the count is how far `length` is. -/
def findClose : Nat → Nat → Option (Option Nat)
  | 0, _ => some none
  | left + 1, curToken =>
      (subj[curToken]?).bind fun byte =>
        if byte = ascii '[' then some none
        else if byte = ascii ']' then some (some curToken)
        else findClose left (curToken + 1)

def skipSpaces : Nat → Nat → Option Nat
  | 0, curToken => some curToken
  | left + 1, curToken =>
      (subj[curToken]?).bind fun byte => if byte ≠ space then some curToken else skipSpaces left (curToken + 1)

/-- A result of `some none` is FALSE. -/
def skipSubjBlob (start length : Nat) : Option (Option Nat) :=
  (subj[start]?).bind fun byte =>
    if byte ≠ ascii '[' then some none
    else (findClose subj (length - (start + 1)) (start + 1)).bind fun closed =>
      match closed with
      | none => some none
      | some curToken => (skipSpaces subj (length - (curToken + 1)) (curToken + 1)).map some

def skipPrefix (start length : Nat) : Option (Option Nat) :=
  (if 3 ≤ length then sameNoCase subj (asciiText "fwd") start else some false).bind fun fwd =>
    if fwd then some (some (start + 3))
    else if 2 ≤ length then
      (sameNoCase subj (asciiText "fw") start).bind fun fw =>
        if fw then some (some (start + 2))
        else (sameNoCase subj (asciiText "re") start).map fun re => if re then some (start + 2) else none
    else some none

def skipSubjRefwd (start length : Nat) : Option (Option Nat) :=
  (skipPrefix subj start length).bind fun found =>
    match found with
    | none => some none
    | some curToken =>
        (skipSpaces subj (length - curToken) curToken).bind fun curToken =>
          (skipSubjBlob subj curToken length).bind fun blob =>
            (subj[blob.getD curToken]?).map fun byte => if byte ≠ ascii ':' then none else some (blob.getD curToken + 1)

/-- The blobs before a prefix; each has two octets at least. -/
def skipBlobs (length : Nat) : Nat → Nat → Option Nat
  | 0, curToken => some curToken
  | left + 1, curToken =>
      if curToken < length then
        (skipSubjBlob subj curToken length).bind fun blob =>
          match blob with
          | none => some curToken
          | some next => skipBlobs length left next
      else some curToken

/-- The new position, and whether `node_is_reply` is set. -/
def skipSubjLeader (start length : Nat) : Option (Option (Nat × Bool)) :=
  (subj[start]?).bind fun byte =>
    if byte = space then some (some (start + 1, false))
    else (skipBlobs subj length (length - start) start).bind fun curToken =>
      (skipSubjRefwd subj curToken length).map fun refwd => refwd.map fun next => (next, true)

/-- Steps (3) to (5); `none` stands for a run of more than the given number of rounds, too. -/
def removePrefixes (len : Nat) : Nat → Nat × Bool → Option (Nat × Bool)
  | 0, _ => none
  | rounds + 1, (start, reply) =>
      (skipSubjLeader subj start len).bind fun leader =>
        let start := (leader.map Prod.fst).getD start
        let reply := reply || (leader.map Prod.snd).getD false
        (skipSubjBlob subj start len).bind fun blob =>
          -- a blob that is the rest of the subject stays
          match blob.filter (· ≠ len) with
          | some next => removePrefixes len rounds (next, reply)
          | none => if leader.isSome then removePrefixes len rounds (start, reply) else some (start, reply)

end Scanners

/-- Step (2); the count is the length to begin with. -/
def removeTrailers : Nat → List UInt8 × Nat × Bool → Option (List UInt8 × Nat × Bool)
  | 0, state => some state
  | left + 1, (subj, len, reply) =>
      if len = 0 then some (subj, len, reply)
      else (subj[len - 1]?).bind fun byte =>
        if byte = space then removeTrailers left (subj.set (len - 1) 0, len - 1, reply)
        else if len < 5 then some (subj, len, reply)
        else (sameNoCase subj (asciiText "(fwd)") (len - 5)).bind fun same =>
          if same then removeTrailers left (subj.set (len - 5) 0, len - 5, true) else some (subj, len, reply)

/-- Steps (2) to (6): the array, the position at which the rest begins and the mark. -/
def removeAll : Nat → List UInt8 × Nat × Nat × Bool → Option (List UInt8 × Nat × Bool)
  | 0, _ => none
  | rounds + 1, (subj, len, start, reply) =>
      (removeTrailers len (subj, len, reply)).bind fun (subj, len, reply) =>
        (removePrefixes subj len (len + 1) (start, reply)).bind fun (start, reply) =>
          (if 5 ≤ len then sameNoCase subj (asciiText "[fwd:") start else some false).bind fun header =>
            if header then
              (subj[len - 1]?).bind fun byte =>
                if byte = ascii ']' then removeAll rounds (subj.set (len - 1) 0, len - 1, start + 5, true)
                else some (subj, start + 5, reply)
            else some (subj, start, reply)

def toupper (byte : UInt8) : UInt8 :=
  if ascii 'a' ≤ byte && byte ≤ ascii 'z' then byte - 32 else byte

/-- Steps (2) to (7) on the array of a subject; `len` is what it was before step (1). -/
def extractFrom (subj : List UInt8) (len : Nat) : Option (List UInt8 × Bool) :=
  (removeAll (len + 1) (subj, len, 0, false)).map fun (subj, start, reply) => ((cString (subj.drop start)).map toupper, reply)

/-- The base subject of a decoded subject, and whether `node_is_reply` is set. -/
def extractText (text : List UInt8) : Option (List UInt8 × Bool) := extractFrom (convertSpaces text) text.length

/-- Step (1): `mailmime_encoded_phrase_parse` gives `none` where it does not return MAILIMF_NO_ERROR. -/
def decodedSubject (mailmimeEncodedPhraseParse : List UInt8 → Option (List UInt8)) (str : List UInt8) : List UInt8 :=
  cString ((mailmimeEncodedPhraseParse str).getD str)

def extractSubject (mailmimeEncodedPhraseParse : List UInt8 → Option (List UInt8)) (str : List UInt8) : Option (List UInt8 × Bool) :=
  extractText (decodedSubject mailmimeEncodedPhraseParse str)

/-- The same run, which may read the new text and the zero octet behind it, but no more. -/
def extractWithin (text : List UInt8) : Option (List UInt8 × Bool) :=
  extractFrom (writeSpaces false text ++ [0]) text.length

end Etpan.Thread
