import Etpan.Data.Words
import Etpan.Mbox.Fields

namespace Etpan.Smtp

open Etpan.Data

/-! `mailesmtp_parse_ehlo` of `low-level/smtp/mailsmtp.c`.

The text of the reply is what follows a position in it: the lines are separated by line
feeds and there is no NUL before the end.  The eight tests of the extensions and the eight
tests of the mechanisms stand in tables, in the order of the source. -/

/-- The fields of `struct mailsmtp` that the reply to EHLO sets. -/
structure Capabilities where
  esmtp : UInt32
  auth : UInt32
  smtpMaxMsgSize : Nat
deriving Repr, DecidableEq

/-- A literal of the source and the flag it stands for. -/
structure Named where
  name : List UInt8
  flag : UInt32
deriving Repr, DecidableEq

def MAILSMTP_ESMTP : UInt32 := 1

def MAILSMTP_AUTH_CHECKED : UInt32 := 1

def sizeExtension : Named := ⟨asciiText "SIZE", 8⟩

/-- EXPN, ETRN, DSN, 8BITMIME, STARTTLS, SIZE, CLIENTID and PIPELINING. -/
def extensions : List Named :=
  [⟨asciiText "EXPN", 2⟩, ⟨asciiText "ETRN", 16⟩, ⟨asciiText "DSN", 64⟩, ⟨asciiText "8BITMIME", 4⟩,
    ⟨asciiText "STARTTLS", 32⟩, sizeExtension, ⟨asciiText "CLIENTID", 256⟩, ⟨asciiText "PIPELINING", 128⟩]

def authMechanisms : List Named :=
  [⟨asciiText "LOGIN", 8⟩, ⟨asciiText "CRAM-MD5", 2⟩, ⟨asciiText "PLAIN", 4⟩, ⟨asciiText "DIGEST-MD5", 16⟩,
    ⟨asciiText "GSSAPI", 32⟩, ⟨asciiText "SRP", 64⟩, ⟨asciiText "NTLM", 128⟩, ⟨asciiText "KERBEROS_V4", 256⟩]

def TAB : UInt8 := 9

def SP : UInt8 := 32

def isdelim (x : UInt8) : Bool := x = SP || x = CR || x = LF || x = 0 || x = TAB

def isBlank (x : UInt8) : Bool := x = SP || x = TAB

/-- `!strncasecmp(response, name, n) && isdelim(response[n])`. -/
def isKeyword (name response : List UInt8) : Bool :=
  startsWith name response && isdelim (response.getD name.length 0)

/-- The loop over the mechanisms of a line.  `none` stands for more rounds than the given
number. -/
def authLoop : Nat → List UInt8 → UInt32 → Option (List UInt8 × UInt32)
  | 0, _, _ => none
  | rounds + 1, response, auth =>
      if response.head? ≠ some LF ∧ response.head? ≠ none then
        let response := response.dropWhile (· = SP)
        match authMechanisms.find? fun mechanism => startsWith mechanism.name response with
        | some mechanism => authLoop rounds (response.drop mechanism.name.length) (auth ||| mechanism.flag)
        | none =>
            -- unknown auth method - jump to next word or eol
            authLoop rounds (response.dropWhile fun x => !isdelim x || x = CR) auth
      else some (response, auth)

/-- The tests on one line: what is known after them and where the scan stands. -/
def ehloLine (rounds : Nat) (session : Capabilities) (response : List UInt8) : Option (Capabilities × List UInt8) :=
  match extensions.find? fun extension => isKeyword extension.name response with
  | some extension =>
      let size := if extension = sizeExtension ∧ isBlank (response.getD 4 0) = true then
        Mbox.strtoul (response.drop 4) else session.smtpMaxMsgSize
      some ({ session with esmtp := session.esmtp ||| extension.flag, smtpMaxMsgSize := size }, response)
  | none =>
      -- the second test is for broken servers
      if startsWith (asciiText "AUTH ") response ∨ startsWith (asciiText "AUTH=") response then
        (authLoop rounds (response.drop 5) session.auth).map fun (response, auth) => ({ session with auth }, response)
      else some (session, response)

def ehloLoop : Nat → Capabilities → List UInt8 → Option Capabilities
  | 0, _, _ => none
  | rounds + 1, session, response =>
      match ehloLine rounds session response with
      | none => none
      | some (session, response) =>
          match nextLine response with
          | none => some session
          | some response => ehloLoop rounds session response

/-- `none` stands for more rounds than the given number. -/
def mailesmtpParseEhlo (rounds : Nat) (session : Capabilities) (response : List UInt8) : Option Capabilities :=
  ehloLoop rounds { session with esmtp := MAILSMTP_ESMTP, auth := MAILSMTP_AUTH_CHECKED } response

def replyLines (reply : List UInt8) : List (List UInt8) := (lineStarts reply).map fun start => withoutCR (firstLine start)

def KeywordIs (name line : List UInt8) : Prop := (line.takeWhile (!isdelim ·)).map tolower = name.map tolower

instance (name line : List UInt8) : Decidable (KeywordIs name line) := inferInstanceAs (Decidable (_ = _))

def authList (line : List UInt8) : Option (List UInt8) :=
  if KeywordIs (asciiText "AUTH") line then some (line.drop 4)
  else if startsWith (asciiText "AUTH=") line then some (line.drop 5)
  else none

def HasWord (name list : List UInt8) : Prop := ∃ word ∈ list.splitOnP isBlank, word.map tolower = name.map tolower

def Listed (name reply : List UInt8) : Prop := ∃ line ∈ replyLines reply, ∃ list, authList line = some list ∧ HasWord name list

def sizeOf (line : List UInt8) : Option Nat :=
  if KeywordIs (asciiText "SIZE") line then
    let parameter := ((line.drop 4).dropWhile isBlank).takeWhile (!isBlank ·)
    if parameter ≠ [] ∧ parameter.all isDigit = true then some (decimalValue parameter) else none
  else none

def announcedSize (reply : List UInt8) : Nat := (((replyLines reply).filterMap sizeOf).getLast?).getD 0

/-- The flags and the size are those of the reply. -/
structure Describes (after : Capabilities) (reply : List UInt8) : Prop where
  extensions : ∀ extension ∈ extensions,
    after.esmtp &&& extension.flag ≠ 0 ↔ ∃ line ∈ replyLines reply, KeywordIs extension.name line
  mechanisms : ∀ mechanism ∈ authMechanisms, after.auth &&& mechanism.flag ≠ 0 ↔ Listed mechanism.name reply
  size : after.smtpMaxMsgSize = announcedSize reply

end Etpan.Smtp
