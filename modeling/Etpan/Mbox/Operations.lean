import Etpan.Mbox.Numbering
import Etpan.Mbox.Headers

namespace Etpan.Mbox

open Etpan.Data

/-! The operations on a mailbox folder, `low-level/mbox/mailmbox.c`.

A file that the library has written is what a later call maps, so the file is the mapping
of the folder. -/

inductive MailmboxError where
  | readOnly
  | file
  | msgNotFound
deriving Repr, DecidableEq

/-- `get_line`: the length of a line with its end. -/
def getLine : List UInt8 → Nat
  | [] => 0
  | byte :: rest =>
      if byte = CR then if rest.head? = some LF then 2 else getLine rest + 1
      else if byte = LF then 1
      else getLine rest + 1

def writeFixedLine (line : List UInt8) : List UInt8 :=
  if 5 ≤ line.length ∧ line.take 5 = fromPrefix then ascii '>' :: line else line

theorem getLine_pos {text : List UInt8} (nonempty : text ≠ []) : 0 < getLine text := by
  cases text with
  | nil => contradiction
  | cons byte rest =>
      rw [getLine]
      split_ifs <;> omega

def writeFixedLines (text : List UInt8) : List UInt8 :=
  if _nothing : text = [] then []
  else writeFixedLine (text.take (getLine text)) ++ writeFixedLines (text.drop (getLine text))
termination_by text.length
decreasing_by
  have positive := getLine_pos _nothing
  have text_pos := List.length_pos_iff.mpr _nothing
  rw [List.length_drop]
  omega

/-- The header fields without UID headers, and what follows them. -/
def fixedFields (message : List UInt8) : List UInt8 × List UInt8 :=
  match _parsed : mailimfIgnoreFieldParse message with
  | none => ([], message)
  | some length =>
      let others := fixedFields (message.drop length)
      (if isUidHeader message then others.1 else message.take length ++ others.1, others.2)
termination_by message.length
decreasing_by
  have bounds := mailimfIgnoreFieldParse_bounds (by assumption)
  rw [List.length_drop]
  omega

def signedDecimal (uid : UInt32) : List UInt8 :=
  if uid.toNat < 2 ^ 31 then decimal uid.toNat else ascii '-' :: decimal (2 ^ 32 - uid.toNat)

/-- `write_fixed_message`, which adds no UID header for `force_no_uid`. -/
def writeFixedMessage (message : List UInt8) (uid : Option UInt32) : List UInt8 :=
  let header := fixedFields message
  header.1 ++ (uid.elim [] fun uid => uidLine (signedDecimal uid)) ++ writeFixedLines header.2

/-! The sizes are counted in loops of their own. -/

def getFixedLineSize (line : List UInt8) : Nat :=
  if 5 ≤ line.length ∧ line.take 5 = fromPrefix then line.length + 1 else line.length

def getFixedLinesSize (text : List UInt8) : Nat :=
  if _nothing : text = [] then 0
  else getFixedLineSize (text.take (getLine text)) + getFixedLinesSize (text.drop (getLine text))
termination_by text.length
decreasing_by
  have positive := getLine_pos _nothing
  have text_pos := List.length_pos_iff.mpr _nothing
  rw [List.length_drop]
  omega

/-- The size of the header fields without UID headers, and what follows them. -/
def getFixedFieldsSize (message : List UInt8) : Nat × List UInt8 :=
  match _parsed : mailimfIgnoreFieldParse message with
  | none => (0, message)
  | some length =>
      let others := getFixedFieldsSize (message.drop length)
      (if isUidHeader message then others.1 else length + others.1, others.2)
termination_by message.length
decreasing_by
  have bounds := mailimfIgnoreFieldParse_bounds (by assumption)
  rw [List.length_drop]
  omega

def getFixedMessageSize (message : List UInt8) (uid : Option UInt32) : Nat :=
  let header := getFixedFieldsSize message
  header.1 + (uid.elim 0 fun uid => uidHeader.length + 2 + digitCount uid.toNat) + getFixedLinesSize header.2

def MailmboxFolder.slice (folder : MailmboxFolder) (offset length : Nat) : List UInt8 :=
  (folder.mbMapping.drop offset).take length

def MailmboxFolder.data (folder : MailmboxFolder) (place : MsgPlace) : List UInt8 :=
  folder.slice place.msgHeaders (place.msgSize - place.msgStartLen)

def mailmboxFetchMsg (folder : MailmboxFolder) (num : UInt32) : Except MailmboxError (List UInt8) :=
  match folder.mbHash num with
  | none => .error .msgNotFound
  | some address =>
      let info := folder.info address
      if info.msgDeleted then .error .msgNotFound
      else .ok (writeFixedMessage (folder.data info.toMsgPlace) none)

def mailmboxDeleteMsg (folder : MailmboxFolder) (uid : UInt32) : Except MailmboxError MailmboxFolder :=
  if folder.mbReadOnly then .error .readOnly
  else match folder.mbHash uid with
    | none => .error .msgNotFound
    | some address =>
        let info := folder.info address
        if info.msgDeleted then .error .msgNotFound
        else .ok { folder.infoSet address { info with msgDeleted := true } with
          mbChanged := true
          mbDeletedCount := folder.mbDeletedCount + 1 }

/-- The octets that `snprintf` leaves of a text in a buffer of `room` octets. -/
def snprintf (room : Nat) (text : List UInt8) : List UInt8 :=
  if text.length < room then text else text.take (room - 1) ++ [0]

/-- A UID header is put into a message that is kept. -/
def MailmboxFolder.addsUid (folder : MailmboxFolder) (info : MailmboxMsgInfo) : Bool :=
  !folder.mbNoUid && !info.msgWrittenUid

def MailmboxFolder.expungedSize (folder : MailmboxFolder) (info : MailmboxMsgInfo) : Nat :=
  info.msgSize + info.msgPadding +
    if folder.addsUid info then uidHeader.length + 2 + digitCount info.msgUid.toNat else 0

def MailmboxFolder.expungeMessage (folder : MailmboxFolder) (size : Nat) (dest : List UInt8) (info : MailmboxMsgInfo) :
    List UInt8 :=
  let dest := dest ++ folder.slice info.msgStart (info.msgHeadersLen + info.msgStartLen)
  let dest :=
    if folder.addsUid info then
      let dest := dest ++ (uidHeader ++ [SP])
      dest ++ snprintf (size - dest.length) (decimal info.msgUid.toNat ++ [LF])
    else dest
  dest ++ folder.slice (info.msgHeaders + info.msgHeadersLen)
    (info.msgSize - (info.msgStartLen + info.msgHeadersLen) + info.msgPadding)

/-- The file without the deleted messages.  A file of no octets cannot be mapped, and
`mailmbox_expunge_to_file_no_lock` fails then. -/
def mailmboxExpungeToFileNoLock (folder : MailmboxFolder) : Except MailmboxError (List UInt8) :=
  let kept := folder.infos.filter fun info => !info.msgDeleted
  let size := (kept.map folder.expungedSize).sum
  if size = 0 then .error .file
  else .ok (kept.foldl (folder.expungeMessage size) [])

def mailmboxExpungeNoLock (folder : MailmboxFolder) : Except MailmboxError MailmboxFolder :=
  if folder.mbReadOnly then .error .readOnly
  else if (folder.mbMaxUid ≤ folder.mbWrittenUid ∨ folder.mbNoUid) ∧ ¬ folder.mbChanged then .ok folder
  else match mailmboxExpungeToFileNoLock folder with
    | .error error => .error error
    | .ok file =>
        .ok { mailmboxParse { folder with mbMapping := file } with mbChanged := false, mbDeletedCount := 0 }

def mailmboxExpunge (folder : MailmboxFolder) : Except MailmboxError MailmboxFolder :=
  if folder.mbReadOnly then .error .readOnly else mailmboxExpungeNoLock folder

/-- The separator line that `strftime` writes for `From - %c` and a line end: the date has
no line end in it. -/
structure FromLine where
  date : List UInt8
  noBreak : LF ∉ date

def FromLine.text (line : FromLine) : List UInt8 :=
  fromPrefix ++ ([ascii '-', SP] ++ line.date ++ [LF])

/-- The line ends at the end of the file, two of them at most. -/
def crlfCount (mapping : List UInt8) : Nat := ((mapping.reverse.take 2).takeWhile (· = LF)).length

def appendedMessages (noUid : Bool) (line : FromLine) : UInt32 → List (List UInt8) → List UInt8
  | _, [] => []
  | maxUid, message :: messages =>
      line.text ++ writeFixedMessage message (if noUid then none else some (maxUid + 1)) ++ [LF] ++
        appendedMessages noUid line (maxUid + 1) messages

def appendedSize (noUid : Bool) (line : FromLine) : UInt32 → List (List UInt8) → Nat
  | _, [] => 0
  | maxUid, message :: messages =>
      line.text.length + getFixedMessageSize message (if noUid then none else some (maxUid + 1)) + 1 +
        appendedSize noUid line (maxUid + 1) messages

def resized (size : Nat) (bytes : List UInt8) : List UInt8 :=
  (bytes ++ List.replicate (size - bytes.length) 0).take size

def mailmboxAppendMessageListNoLock (folder : MailmboxFolder) (line : FromLine) (messages : List (List UInt8)) :
    MailmboxFolder :=
  let breaks := if folder.mbMapping = [] then 0 else 2 - crlfCount folder.mbMapping
  let size := folder.mbMapping.length + breaks + appendedSize folder.mbNoUid line folder.mbMaxUid messages
  { folder with
    mbMapping := resized size (folder.mbMapping ++ List.replicate breaks LF ++
      appendedMessages folder.mbNoUid line folder.mbMaxUid messages)
    mbMaxUid := folder.mbMaxUid + UInt32.ofNat messages.length }

def mailmboxAppendMessageList (folder : MailmboxFolder) (line : FromLine) (messages : List (List UInt8)) :
    Except MailmboxError MailmboxFolder :=
  if folder.mbReadOnly then .error .readOnly
  else match mailmboxExpungeNoLock folder with
    | .error error => .error error
    | .ok folder =>
        .ok (mailmboxParseAdditionnal (mailmboxAppendMessageListNoLock folder line messages) folder.mbMapping.length)

end Etpan.Mbox
