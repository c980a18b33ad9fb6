import Etpan.Data.CommandLine
import Etpan.Data.LittleEndian
import Etpan.Data.Serial

namespace Etpan.Cache

open Etpan.Data

/-! The cache of header fields, `driver/tools/imfcache.c`.

A writer is given by the octets that it appends, and appending succeeds.  `none` is NULL. -/

/-! ### Header fields, `low-level/imf/mailimf_types.h` -/

structure Mailbox where
  mbDisplayName : Option CString
  mbAddrSpec : Option CString

structure Group where
  grpDisplayName : Option CString
  grpMbList : Option (List Mailbox)

def MAILIMF_ADDRESS_MAILBOX : UInt32 := 1
def MAILIMF_ADDRESS_GROUP : UInt32 := 2

/-- `other` is an address of another type, with no data. -/
inductive Address where
  | adMailbox (mailbox : Mailbox)
  | adGroup (group : Group)
  | other (adType : { type : UInt32 // type ≠ MAILIMF_ADDRESS_MAILBOX ∧ type ≠ MAILIMF_ADDRESS_GROUP })

structure DateTime where
  dtDay : Int32
  dtMonth : Int32
  dtYear : Int32
  dtHour : Int32
  dtMin : Int32
  dtSec : Int32
  dtZone : Int32

def MAILIMF_FIELD_ORIG_DATE : UInt32 := 9
def MAILIMF_FIELD_FROM : UInt32 := 10
def MAILIMF_FIELD_SENDER : UInt32 := 11
def MAILIMF_FIELD_REPLY_TO : UInt32 := 12
def MAILIMF_FIELD_TO : UInt32 := 13
def MAILIMF_FIELD_CC : UInt32 := 14
def MAILIMF_FIELD_BCC : UInt32 := 15
def MAILIMF_FIELD_MESSAGE_ID : UInt32 := 16
def MAILIMF_FIELD_IN_REPLY_TO : UInt32 := 17
def MAILIMF_FIELD_REFERENCES : UInt32 := 18
def MAILIMF_FIELD_SUBJECT : UInt32 := 19

/-- The types of the fields of an envelope are consecutive. -/
def IsEnvelopeType (type : UInt32) : Prop := MAILIMF_FIELD_ORIG_DATE ≤ type ∧ type ≤ MAILIMF_FIELD_SUBJECT

instance (type : UInt32) : Decidable (IsEnvelopeType type) := inferInstanceAs (Decidable (_ ∧ _))

/-- `other` is a field that the cache writes the type of only. -/
inductive Field where
  | fldOrigDate (dtDateTime : DateTime)
  | fldFrom (frmMbList : Option (List Mailbox))
  | fldSender (sndMb : Mailbox)
  | fldReplyTo (rtAddrList : Option (List Address))
  | fldTo (toAddrList : Option (List Address))
  | fldCc (ccAddrList : Option (List Address))
  | fldBcc (bccAddrList : Option (List Address))
  | fldMessageId (midValue : Option CString)
  | fldInReplyTo (midList : List (Option CString))
  | fldReferences (midList : List (Option CString))
  | fldSubject (sbjValue : CString)
  | other (fldType : { type : UInt32 // ¬ IsEnvelopeType type })

def CACHE_NULL_POINTER : UInt32 := 0
def CACHE_NOT_NULL : UInt32 := 1

def mailimfCacheIntWrite (value : UInt32) : List UInt8 := littleEndian 4 value

/-- The length is that of the string; it is cut to 32 bits, the octets are not. -/
def mailimfCacheStringWrite (str : Option CString) : List UInt8 :=
  match str with
  | none => mailimfCacheIntWrite CACHE_NULL_POINTER
  | some str => mailimfCacheIntWrite CACHE_NOT_NULL ++ (mailimfCacheIntWrite (UInt32.ofNat str.val.length) ++ str.val)

section Lists

variable {α : Type} (itemWrite : α → List UInt8)

def countedWrite (list : List α) : List UInt8 :=
  mailimfCacheIntWrite (UInt32.ofNat list.length) ++ list.flatMap itemWrite

/-- A list of addresses or of mailboxes may be missing. -/
def listWrite (list : Option (List α)) : List UInt8 :=
  match list with
  | none => mailimfCacheIntWrite CACHE_NULL_POINTER
  | some list => mailimfCacheIntWrite CACHE_NOT_NULL ++ countedWrite itemWrite list

end Lists

def mailimfCacheMailboxWrite (mb : Mailbox) : List UInt8 :=
  mailimfCacheStringWrite mb.mbDisplayName ++ mailimfCacheStringWrite mb.mbAddrSpec

def mailimfCacheMailboxListWrite : Option (List Mailbox) → List UInt8 := listWrite mailimfCacheMailboxWrite

def mailimfCacheGroupWrite (group : Group) : List UInt8 :=
  mailimfCacheStringWrite group.grpDisplayName ++ mailimfCacheMailboxListWrite group.grpMbList

def mailimfCacheAddressWrite : Address → List UInt8
  | .adMailbox mailbox => mailimfCacheIntWrite MAILIMF_ADDRESS_MAILBOX ++ mailimfCacheMailboxWrite mailbox
  | .adGroup group => mailimfCacheIntWrite MAILIMF_ADDRESS_GROUP ++ mailimfCacheGroupWrite group
  | .other adType => mailimfCacheIntWrite adType

def mailimfCacheAddressListWrite : Option (List Address) → List UInt8 := listWrite mailimfCacheAddressWrite

def mailimfCacheMsgIdListWrite : List (Option CString) → List UInt8 := countedWrite mailimfCacheStringWrite

def mailimfCacheDateTimeWrite (date : DateTime) : List UInt8 :=
  mailimfCacheIntWrite date.dtDay.toUInt32 ++ (mailimfCacheIntWrite date.dtMonth.toUInt32 ++
    (mailimfCacheIntWrite date.dtYear.toUInt32 ++ (mailimfCacheIntWrite date.dtHour.toUInt32 ++
      (mailimfCacheIntWrite date.dtMin.toUInt32 ++ (mailimfCacheIntWrite date.dtSec.toUInt32 ++
        mailimfCacheIntWrite date.dtZone.toUInt32)))))

def mailimfCacheFieldWrite : Field → List UInt8
  | .fldOrigDate date => mailimfCacheIntWrite MAILIMF_FIELD_ORIG_DATE ++ mailimfCacheDateTimeWrite date
  | .fldFrom mbList => mailimfCacheIntWrite MAILIMF_FIELD_FROM ++ mailimfCacheMailboxListWrite mbList
  | .fldSender mb => mailimfCacheIntWrite MAILIMF_FIELD_SENDER ++ mailimfCacheMailboxWrite mb
  | .fldReplyTo addrList => mailimfCacheIntWrite MAILIMF_FIELD_REPLY_TO ++ mailimfCacheAddressListWrite addrList
  | .fldTo addrList => mailimfCacheIntWrite MAILIMF_FIELD_TO ++ mailimfCacheAddressListWrite addrList
  | .fldCc addrList => mailimfCacheIntWrite MAILIMF_FIELD_CC ++ mailimfCacheAddressListWrite addrList
  | .fldBcc addrList => mailimfCacheIntWrite MAILIMF_FIELD_BCC ++ mailimfCacheAddressListWrite addrList
  | .fldMessageId value => mailimfCacheIntWrite MAILIMF_FIELD_MESSAGE_ID ++ mailimfCacheStringWrite value
  | .fldInReplyTo midList => mailimfCacheIntWrite MAILIMF_FIELD_IN_REPLY_TO ++ mailimfCacheMsgIdListWrite midList
  | .fldReferences midList => mailimfCacheIntWrite MAILIMF_FIELD_REFERENCES ++ mailimfCacheMsgIdListWrite midList
  | .fldSubject value => mailimfCacheIntWrite MAILIMF_FIELD_SUBJECT ++ mailimfCacheStringWrite (some value)
  | .other fldType => mailimfCacheIntWrite fldType

def mailimfCacheFieldsWrite : List Field → List UInt8 := countedWrite mailimfCacheFieldWrite

/-- An error that the reader returns, or a copy into a block that is too small for it. -/
inductive Failure where
  | stream
  | file
  | memory
  | inval
  | overrun
  deriving DecidableEq

abbrev CacheRead := Deserializer Failure

def mailSerializeRead (size : Nat) : CacheRead (List UInt8) := fun bytes position =>
  if position + size > bytes.length then .error .stream
  else .ok ((bytes.drop position).take size, position + size)

def intReadLoop : Nat → UInt32 → UInt32 → CacheRead UInt32
  | 0, value, _ => pure value
  | octets + 1, value, i => do
      let ch ← mailSerializeRead 1
      intReadLoop octets (value ||| (ch.headD 0).toUInt32 <<< (i <<< 3)) (i + 1)

def mailimfCacheIntRead : CacheRead UInt32 := intReadLoop 4 0 0

def toCString (block : List UInt8) : CString :=
  ⟨cString block, fun _ member => by simpa using List.mem_takeWhile_imp member⟩

def blockRead (size : Nat) (length : Nat) : CacheRead (List UInt8) := fun bytes position =>
  match mailSerializeRead length bytes position with
  | .error _ => .error .file
  | .ok block => if length ≤ size then .ok block else .error .overrun

def mailimfCacheStringRead : CacheRead (Option CString) := do
  let type ← mailimfCacheIntRead
  if type = CACHE_NULL_POINTER then pure none
  else
    let length ← mailimfCacheIntRead
    -- the size of the block is a sum of 32 bits
    let str ← blockRead (length + 1).toNat length.toNat
    pure (some (toCString str))

section Lists

variable {α : Type} (itemRead : CacheRead α)

def countedRead : CacheRead (List α) := do
  let count ← mailimfCacheIntRead
  itemRead.many count.toNat

def listRead : CacheRead (Option (List α)) := do
  let type ← mailimfCacheIntRead
  if type = CACHE_NULL_POINTER then pure none
  else
    let list ← countedRead itemRead
    pure (some list)

end Lists

def outOfMemory : Failure → Failure
  | .overrun => .overrun
  | _ => .memory

def mailimfCacheMailboxRead : CacheRead Mailbox := do
  let dspName ← mailimfCacheStringRead
  let addrSpec ← mailimfCacheStringRead.orFail outOfMemory
  pure ⟨dspName, addrSpec⟩

def mailimfCacheMailboxListRead : CacheRead (Option (List Mailbox)) := listRead mailimfCacheMailboxRead

def mailimfCacheGroupRead : CacheRead Group := do
  let displayName ← mailimfCacheStringRead
  let mbList ← mailimfCacheMailboxListRead
  pure ⟨displayName, mbList⟩

def mailimfCacheAddressRead : CacheRead Address := do
  let type ← mailimfCacheIntRead
  if isMailbox : type = MAILIMF_ADDRESS_MAILBOX then
    let mailbox ← mailimfCacheMailboxRead
    pure (.adMailbox mailbox)
  else if isGroup : type = MAILIMF_ADDRESS_GROUP then
    let group ← mailimfCacheGroupRead
    pure (.adGroup group)
  else pure (.other ⟨type, isMailbox, isGroup⟩)

def mailimfCacheAddressListRead : CacheRead (Option (List Address)) := listRead mailimfCacheAddressRead

def mailimfCacheMsgIdListRead : CacheRead (List (Option CString)) := countedRead mailimfCacheStringRead

def mailimfCacheDateTimeRead : CacheRead DateTime := do
  let day ← mailimfCacheIntRead
  let month ← mailimfCacheIntRead
  let year ← mailimfCacheIntRead
  let hour ← mailimfCacheIntRead
  let min ← mailimfCacheIntRead
  let sec ← mailimfCacheIntRead
  let zone ← mailimfCacheIntRead
  pure ⟨day.toInt32, month.toInt32, year.toInt32, hour.toInt32, min.toInt32, sec.toInt32, zone.toInt32⟩

def emptyString : CString := ⟨[], by simp [NulFree]⟩

/-- A missing subject is read as an empty one. -/
def mailimfCacheSubjectRead : CacheRead CString := do
  let str ← mailimfCacheStringRead
  pure (str.getD emptyString)

def mailimfCacheFieldRead : CacheRead Field := do
  let type ← mailimfCacheIntRead
  if type = MAILIMF_FIELD_ORIG_DATE then
    let date ← mailimfCacheDateTimeRead
    pure (.fldOrigDate date)
  else if type = MAILIMF_FIELD_FROM then
    let mbList ← mailimfCacheMailboxListRead
    pure (.fldFrom mbList)
  else if type = MAILIMF_FIELD_SENDER then
    let mb ← mailimfCacheMailboxRead
    pure (.fldSender mb)
  else if type = MAILIMF_FIELD_REPLY_TO then
    let addrList ← mailimfCacheAddressListRead
    pure (.fldReplyTo addrList)
  else if type = MAILIMF_FIELD_TO then
    let addrList ← mailimfCacheAddressListRead
    pure (.fldTo addrList)
  else if type = MAILIMF_FIELD_CC then
    let addrList ← mailimfCacheAddressListRead
    pure (.fldCc addrList)
  else if type = MAILIMF_FIELD_BCC then
    let addrList ← mailimfCacheAddressListRead
    pure (.fldBcc addrList)
  else if type = MAILIMF_FIELD_MESSAGE_ID then
    let value ← mailimfCacheStringRead
    pure (.fldMessageId value)
  else if type = MAILIMF_FIELD_IN_REPLY_TO then
    let midList ← mailimfCacheMsgIdListRead
    pure (.fldInReplyTo midList)
  else if type = MAILIMF_FIELD_REFERENCES then
    let midList ← mailimfCacheMsgIdListRead
    pure (.fldReferences midList)
  else if type = MAILIMF_FIELD_SUBJECT then
    let value ← mailimfCacheSubjectRead
    pure (.fldSubject value)
  else Deserializer.fail .inval

def mailimfCacheFieldsRead : CacheRead (List Field) := countedRead mailimfCacheFieldRead

end Etpan.Cache
