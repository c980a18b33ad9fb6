import Etpan.Data.CommandLine
import Etpan.Data.BlankWords
import Etpan.Imf.Phrase
import Etpan.Imf.StringWrite

namespace Etpan.Imf

open Etpan.Data

/-! Mailboxes, groups and lists of addresses, `low-level/imf/mailimf.c`. -/

structure MailimfMailbox where
  mbDisplayName : Option (List UInt8)
  mbAddrSpec : List UInt8
deriving Repr, DecidableEq

/-- A group without a list of mailboxes is treated as one with an empty list. -/
structure MailimfGroup where
  grpDisplayName : List UInt8
  grpMbList : List MailimfMailbox
deriving Repr, DecidableEq

inductive MailimfAddress where
  | mailbox (mailbox : MailimfMailbox)
  | group (group : MailimfGroup)
deriving Repr, DecidableEq

def orParse {α : Type} : Option α → Except MailimfError α
  | none => .error .parse
  | some read => .ok read

def mailimfLowerParse : List UInt8 → Option (List UInt8) := mailimfUnstrictCharParse (ascii '<')

def mailimfGreaterParse : List UInt8 → Option (List UInt8) := mailimfUnstrictCharParse (ascii '>')

def mailimfColonParse : List UInt8 → Option (List UInt8) := mailimfUnstrictCharParse (ascii ':')

def mailimfSemiColonParse : List UInt8 → Option (List UInt8) := mailimfUnstrictCharParse (ascii ';')

/-- The octets before the end of an addr-spec, and the rest.  Folding white space is passed over. -/
def addrSpecScan : List UInt8 → List UInt8 × List UInt8
  | [] => ([], [])
  | ch :: rest =>
      if ch ∈ asciiText ">,():;" ∨ (ch = CR ∨ ch = LF) ∧ startsFws (ch :: rest) = false then ([], ch :: rest)
      else (ch :: (addrSpecScan rest).1, (addrSpecScan rest).2)

def isAddrSpecBlank (ch : UInt8) : Bool := ch = ascii ' ' || ch = ascii '\t' || ch = CR || ch = LF

def mailimfAddrSpecParse (text : List UInt8) : Option (List UInt8 × List UInt8) :=
  let read := addrSpecScan (skipCfws text)
  if read.1 = [] then none else some (cString (read.1.filter fun ch => !isAddrSpecBlank ch), read.2)

/-- An empty addr-spec is accepted. -/
def mailimfAngleAddrParse (text : List UInt8) : Option (List UInt8 × List UInt8) :=
  (mailimfLowerParse (skipCfws text)).bind fun text =>
    let (addrSpec, text) := (mailimfAddrSpecParse text).getD ([], skipCfws text)
    (mailimfGreaterParse text).map fun rest => (addrSpec, rest)

def mailimfDisplayNameParse : List UInt8 → Except MailimfError (List UInt8 × List UInt8) := mailimfPhraseParse

def mailimfNameAddrParse (text : List UInt8) : Except MailimfError (MailimfMailbox × List UInt8) :=
  let angleAddr (mbDisplayName : Option (List UInt8)) (text : List UInt8) :=
    orParse ((mailimfAngleAddrParse text).map fun (mbAddrSpec, rest) => ({ mbDisplayName, mbAddrSpec : MailimfMailbox }, rest))
  match mailimfDisplayNameParse text with
  | .error .parse => angleAddr none text
  | .error error => .error error
  | .ok (displayName, rest) => angleAddr (some displayName) rest

def mailimfMailboxParse (text : List UInt8) : Except MailimfError (MailimfMailbox × List UInt8) :=
  match mailimfNameAddrParse text with
  | .error .parse =>
      orParse ((mailimfAddrSpecParse text).map fun (mbAddrSpec, rest) => ({ mbDisplayName := none, mbAddrSpec }, rest))
  | read => read

section StructList

variable {α : Type} (symbol : UInt8) (parser : List UInt8 → Except MailimfError (α × List UInt8))

/-- `final` is the text behind the last element.  Each turn reads a symbol, so that there are not more
turns than octets. -/
def structListLoop : Nat → List α → List UInt8 → Except MailimfError (List α × List UInt8)
  | 0, structList, final => .ok (structList, final)
  | turns + 1, structList, final =>
      match mailimfUnstrictCharParse symbol final with
      | none => .ok (structList, final)
      | some text =>
          match parser text with
          | .error .parse => .ok (structList, final)
          | .error error => .error error
          | .ok (value, rest) => structListLoop turns (structList ++ [value]) rest

def mailimfStructListParse (text : List UInt8) : Except MailimfError (List α × List UInt8) :=
  match parser text with
  | .error error => .error error
  | .ok (value, rest) => structListLoop symbol parser rest.length [value] rest

end StructList

def mailimfMailboxListParse : List UInt8 → Except MailimfError (List MailimfMailbox × List UInt8) :=
  mailimfStructListParse (ascii ',') mailimfMailboxParse

def mailimfGroupParse (text : List UInt8) : Except MailimfError (MailimfGroup × List UInt8) :=
  match mailimfDisplayNameParse text with
  | .error error => .error error
  | .ok (grpDisplayName, text) =>
      match mailimfColonParse text with
      | none => .error .parse
      | some text =>
          let closed (grpMbList : List MailimfMailbox) (text : List UInt8) :=
            orParse ((mailimfSemiColonParse text).map fun rest => ({ grpDisplayName, grpMbList : MailimfGroup }, rest))
          match mailimfMailboxListParse text with
          | .error .parse => closed [] (skipCfws text)
          | .error error => .error error
          | .ok (mailboxList, text) => closed mailboxList text

def mailimfAddressParse (text : List UInt8) : Except MailimfError (MailimfAddress × List UInt8) :=
  match mailimfGroupParse text with
  | .ok (group, rest) => .ok (.group group, rest)
  | .error .parse => (mailimfMailboxParse text).map fun (mailbox, rest) => (.mailbox mailbox, rest)
  | .error error => .error error

def mailimfAddressListParse : List UInt8 → Except MailimfError (List MailimfAddress × List UInt8) :=
  mailimfStructListParse (ascii ',') mailimfAddressParse

/-! The writers of addresses, `low-level/imf/mailimf_write_generic.c`, into memory: their only error
there is MAILIMF_ERROR_INVAL. -/

abbrev Written := Output (List UInt8)

def writeString (out : Written) (str : List UInt8) : Written := (mailimfStringWriteDriver memory out str).getD out

def maxMailCol : Nat := 72

def headerFold : List UInt8 := [CR, LF, ascii ' ']

/-- The end of a word in `mailimf_header_string_write_driver`. -/
def writeWord (out : Written) (first : Bool) (word : List UInt8) : Written :=
  let out :=
    if maxMailCol ≤ word.length + out.col then writeString out headerFold
    else if first then out else writeString out [ascii ' ']
  writeString out word

/-- The loop of `mailimf_header_string_write_driver`; `word` is what stands between `word_begin` and `p`, and is
empty in the states STATE_BEGIN and STATE_SPACE. -/
def headerStringLoop : Written → Bool → List UInt8 → List UInt8 → Written
  | out, first, word, [] => if word = [] then out else writeWord out first word
  | out, first, word, ch :: rest =>
      if ch = CR ∨ ch = LF ∨ ch = ascii ' ' ∨ ch = ascii '\t' then
        if word = [] then headerStringLoop out first [] rest
        else headerStringLoop (writeWord out first word) false [] rest
      else if maxImfLine ≤ word.length + out.col then
        headerStringLoop (writeString (writeString out word) headerFold) first [ch] rest
      else headerStringLoop out first (word ++ [ch]) rest

def mailimfHeaderStringWriteDriver (out : Written) (str : List UInt8) : Written := headerStringLoop out true [] str

def quotedOctet (ch : UInt8) : List UInt8 := if ch = ascii '\\' ∨ ch = ascii '"' then [ascii '\\', ch] else [ch]

/-- The quotes are not counted. -/
def mailimfQuotedStringWriteDriver (out : Written) (string : List UInt8) : Written :=
  let quoted := string.flatMap quotedOctet
  { data := out.data ++ [ascii '"'] ++ quoted ++ [ascii '"'], col := out.col + quoted.length }

def isAtextString (s : List UInt8) : Bool :=
  s.all fun ch =>
    (ascii 'a' ≤ ch && ch ≤ ascii 'z') || (ascii 'A' ≤ ch && ch ≤ ascii 'Z') || (ascii '0' ≤ ch && ch ≤ ascii '9') ||
      ch ∈ asciiText " \t!#$%&'*+-/=?^_`\x7b|\x7d~"

def writeDisplayName (out : Written) (displayName : List UInt8) : Except MailimfError Written :=
  if isAtextString displayName then .ok (mailimfHeaderStringWriteDriver out displayName)
  else
    let out := if maxMailCol ≤ out.col + displayName.length then writeString out headerFold else out
    if maxImfLine / 2 < displayName.length then .error .inval else .ok (mailimfQuotedStringWriteDriver out displayName)

def openAngle (out : Written) (addrSpec : List UInt8) : Written :=
  if 1 < out.col ∧ maxMailCol ≤ out.col + addrSpec.length + 3 then writeString (writeString out headerFold) (asciiText "<")
  else writeString out (asciiText " <")

def mailimfMailboxWriteDriver (out : Written) (mb : MailimfMailbox) : Except MailimfError Written :=
  match mb.mbDisplayName with
  | some displayName =>
      (writeDisplayName out displayName).map fun out =>
        writeString (writeString (openAngle out mb.mbAddrSpec) mb.mbAddrSpec) (asciiText ">")
  | none =>
      let out := if maxMailCol ≤ out.col + mb.mbAddrSpec.length then writeString out headerFold else out
      .ok (writeString out mb.mbAddrSpec)

section List

variable {α : Type} (writeDriver : Written → α → Except MailimfError Written)

def listWriteLoop : Bool → Written → List α → Except MailimfError Written
  | _, out, [] => .ok out
  | first, out, value :: rest => do
      let out ← writeDriver (if first then out else writeString out (asciiText ", ")) value
      listWriteLoop false out rest

end List

def mailimfMailboxListWriteDriver : Written → List MailimfMailbox → Except MailimfError Written :=
  listWriteLoop mailimfMailboxWriteDriver true

def mailimfGroupWriteDriver (out : Written) (group : MailimfGroup) : Except MailimfError Written := do
  let out := writeString (mailimfHeaderStringWriteDriver out group.grpDisplayName) (asciiText ": ")
  let out ← mailimfMailboxListWriteDriver out group.grpMbList
  return writeString out (asciiText ";")

def mailimfAddressWriteDriver (out : Written) : MailimfAddress → Except MailimfError Written
  | .mailbox mailbox => mailimfMailboxWriteDriver out mailbox
  | .group group => mailimfGroupWriteDriver out group

def mailimfAddressListWriteDriver : Written → List MailimfAddress → Except MailimfError Written :=
  listWriteLoop mailimfAddressWriteDriver true

section Strings

open Etpan.Mime

/-! ### The string writers below the line limit -/

inductive FoldedWords : List (List UInt8) → List UInt8 → Prop
  | nil : FoldedWords [] []
  | cons {gap word words text} (isGap : gap = [ascii ' '] ∨ gap = headerFold) (rest : FoldedWords words text) :
      FoldedWords (word :: words) (gap ++ (word ++ text))

def IsFold (fold : List UInt8) : Prop := fold = [] ∨ fold = headerFold

theorem writeString_breakFree {str : List UInt8} (free : BreakFree str) (short : str.length ≤ maxImfLine) (out : Written) :
    writeString out str = { data := out.data ++ str, col := out.col + str.length } := by
  rw [writeString, mailimfStringWriteDriver_breakFree free short, Option.getD_some]

theorem writeString_fold (out : Written) : writeString out headerFold = { data := out.data ++ headerFold, col := 1 } := by
  have shortLine : cutLine memory out [] = some (out, []) := cutLine_short out (by decide)
  have shortNext : cutLine memory { data := out.data ++ [CR, LF], col := 0 } [] = some ({ data := out.data ++ [CR, LF], col := 0 }, []) :=
    cutLine_short _ (by decide)
  have notBreak : ascii ' ' ≠ LF ∧ ascii ' ' ≠ CR := by decide
  rw [writeString, mailimfStringWriteDriver, headerFold, stringWriteLoop, shortLine, Option.bind_some]
  simp only [if_neg CR_ne_LF, if_true, flushLine_memory, List.append_nil, Option.bind_some]
  rw [stringWriteLoop, shortNext, Option.bind_some]
  simp only [if_neg notBreak.1, if_neg notBreak.2, stringWriteLoop, List.nil_append, flushBuf_memory, Option.map_some, Option.getD_some,
    List.append_assoc, List.cons_append, List.length_singleton, Nat.zero_add]

theorem breakFree_blank : BreakFree [ascii ' '] := by decide

def writeWords : Written → Bool → List (List UInt8) → Written
  | out, _, [] => out
  | out, first, word :: words => writeWords (writeWord out first word) false words

theorem isBreak_iff (ch : UInt8) : (ch = CR ∨ ch = LF ∨ ch = ascii ' ' ∨ ch = ascii '\t') ↔ isBlankOctet ch = true :=
  (@forall_octet (fun ch => (ch = CR ∨ ch = LF ∨ ch = ascii ' ' ∨ ch = ascii '\t') ↔ isBlankOctet ch = true) (by decide +kernel)) ch

end Strings

end Etpan.Imf
