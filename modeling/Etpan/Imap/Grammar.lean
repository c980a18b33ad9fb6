import Etpan.Data.Abnf
import Etpan.Data.Decimal

namespace Etpan.Imap.Grammar

open Computability Etpan.Data

/-! The productions of the IMAP grammar that the comments of
`low-level/imap/mailimap_sender.c`, `condstore.c` and `qresync.c` quote. -/

def isChar (byte : UInt8) : Bool := 1 ≤ byte && byte ≤ 0x7f

def isCtl (byte : UInt8) : Bool := byte ≤ 0x1f || byte = 0x7f

def isListWildcards (byte : UInt8) : Bool := byte = ascii '%' || byte = ascii '*'

def isQuotedSpecials (byte : UInt8) : Bool := byte = ascii '"' || byte = ascii '\\'

def isRespSpecials (byte : UInt8) : Bool := byte = ascii ']'

def isAtomSpecials (byte : UInt8) : Bool :=
  byte = ascii '(' || byte = ascii ')' || byte = ascii '{' || byte = ascii ' ' || isCtl byte ||
    isListWildcards byte || isQuotedSpecials byte || isRespSpecials byte

def isAtomChar (byte : UInt8) : Bool := isChar byte && !isAtomSpecials byte

def isAstringChar (byte : UInt8) : Bool := isAtomChar byte || isRespSpecials byte

def isTextChar (byte : UInt8) : Bool := isChar byte && byte != CR && byte != LF

def atom : Language UInt8 := octet isAtomChar * (octet isAtomChar)∗

def quotedChar : Language UInt8 :=
  octet (fun byte => isTextChar byte && !isQuotedSpecials byte) + terminal "\\" * octet isQuotedSpecials

def quoted : Language UInt8 := terminal "\"" * quotedChar∗ * terminal "\""

def number : Language UInt8 := octet isDigit * (octet isDigit)∗

/-- `"{" number "}" CRLF *CHAR8`, with as many octets as the number says. -/
def literal : Language UInt8 := fun octets =>
  ∃ digits data, digits ∈ number ∧ octets = ascii '{' :: digits ++ [ascii '}', CR, LF] ++ data ∧
    data.length = decimalValue digits ∧ ∀ byte ∈ data, byte ≠ 0

def string : Language UInt8 := quoted + literal

def astring : Language UInt8 := octet isAstringChar * (octet isAstringChar)∗ + string

def mailbox : Language UInt8 := terminal "INBOX" + astring

def SP : Language UInt8 := terminal " "

def isDigitNz (byte : UInt8) : Bool := ascii '1' ≤ byte && byte ≤ ascii '9'

def nzNumber : Language UInt8 := octet isDigitNz * (octet isDigit)∗

def sequenceNum : Language UInt8 := nzNumber + terminal "*"

def setItem : Language UInt8 := sequenceNum + sequenceNum * (terminal ":" * sequenceNum)

/-- The alternative `(set "," set)` repeats the others between commas. -/
def set : Language UInt8 := separated (terminal ",") setItem

def flagKeyword : Language UInt8 := atom

def flagExtension : Language UInt8 := terminal "\\" * atom

def flag : Language UInt8 :=
  terminal "\\Answered" + terminal "\\Flagged" + terminal "\\Deleted" + terminal "\\Seen" + terminal "\\Draft" +
    flagKeyword + flagExtension

def flagList : Language UInt8 := terminal "(" * ((1 + separated SP flag) * terminal ")")

def storeAttFlags : Language UInt8 :=
  (1 + terminal "+" + terminal "-") * (terminal "FLAGS" * ((1 + terminal ".SILENT") *
    (SP * (flagList + separated SP flag))))

/-! ### Commands of `condstore.c` and `qresync.c` -/

def modSequenceValue : Language UInt8 := octet isDigit * (octet isDigit)∗

def modSequenceValzer : Language UInt8 := terminal "0" + modSequenceValue

def storeModifier : Language UInt8 := terminal "UNCHANGEDSINCE" * (SP * modSequenceValzer)

def store : Language UInt8 :=
  terminal "STORE" * (SP * (set * ((1 + SP * (terminal "(" * (separated SP storeModifier * terminal ")"))) *
    (SP * storeAttFlags))))

def uidStore : Language UInt8 := terminal "UID" * (SP * store)

def seqMatchData : Language UInt8 := terminal "(" * (set * (SP * (set * terminal ")")))

def qresyncParam : Language UInt8 :=
  terminal "QRESYNC" * (SP * (terminal "(" * (nzNumber * (SP * (modSequenceValue *
    ((1 + SP * set) * ((1 + SP * seqMatchData) * terminal ")")))))))

def selectParam : Language UInt8 := terminal "CONDSTORE" + qresyncParam

def select : Language UInt8 :=
  terminal "SELECT" * (SP * (mailbox * (1 + SP * (terminal "(" * (separated SP selectParam * terminal ")")))))

def fetchModifier : Language UInt8 := terminal "CHANGEDSINCE" * (SP * modSequenceValue) + terminal "VANISHED"

def fetchModifiers : Language UInt8 := 1 + SP * (terminal "(" * (separated SP fetchModifier * terminal ")"))

end Etpan.Imap.Grammar
