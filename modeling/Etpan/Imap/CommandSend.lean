import Etpan.Data.Delimited
import Etpan.Imap.Astring
import Etpan.Imap.Response

namespace Etpan.Imap

open Etpan.Data

/-! The senders of sets, flags, STORE and SELECT: `low-level/imap/mailimap_sender.c` and
`qresync.c`. -/

/-- Zero is sent as `*`. -/
def mailimapSequenceNumSend (sequenceNum : UInt32) : Sending :=
  if sequenceNum = 0 then mailimapCharSend (ascii '*') else mailimapNumberSend sequenceNum

def mailimapSetItemSend (item : SetItem) : Sending :=
  if item.setFirst = item.setLast then mailimapSequenceNumSend item.setFirst
  else mailimapSequenceNumSend item.setFirst ++ mailimapCharSend (ascii ':') ++ mailimapSequenceNumSend item.setLast

def mailimapSetSend (set : NumberSet) : Sending := mailimapStructListSend set (ascii ',') mailimapSetItemSend

def mailimapFlagExtensionSend (flagExtension : List UInt8) : Sending :=
  mailimapCharSend (ascii '\\') ++ mailimapAtomSend flagExtension

def mailimapFlagKeywordSend (flagKeyword : List UInt8) : Sending := mailimapTokenSend flagKeyword

def mailimapFlagSend : Flag → Sending
  | .answered => mailimapTokenSend (asciiText "\\Answered")
  | .flagged => mailimapTokenSend (asciiText "\\Flagged")
  | .deleted => mailimapTokenSend (asciiText "\\Deleted")
  | .seen => mailimapTokenSend (asciiText "\\Seen")
  | .draft => mailimapTokenSend (asciiText "\\Draft")
  | .keyword flKeyword => mailimapFlagKeywordSend flKeyword
  | .extension flExtension => mailimapFlagExtensionSend flExtension

def mailimapFlagListSend (flagList : List Flag) : Sending :=
  mailimapOparenthSend ++ mailimapStructSpacedListSend flagList mailimapFlagSend ++ mailimapCparenthSend

structure StoreAttFlags where
  flSign : Int
  flSilent : Bool
  flFlagList : List Flag
deriving Repr, DecidableEq

def signSend (flSign : Int) : Sending :=
  if flSign = 1 then mailimapCharSend (ascii '+') else if flSign = -1 then mailimapCharSend (ascii '-') else []

def mailimapStoreAttFlagsSend (storeFlags : StoreAttFlags) : Sending :=
  signSend storeFlags.flSign ++ mailimapTokenSend (asciiText "FLAGS") ++
    (if storeFlags.flSilent then mailimapTokenSend (asciiText ".SILENT") else []) ++
    mailimapSpaceSend ++ mailimapFlagListSend storeFlags.flFlagList

def mailimapStoreSend (set : NumberSet) (useUnchangedsince : Bool) (modSequenceValzer : UInt64)
    (storeAttFlags : StoreAttFlags) : Sending :=
  mailimapTokenSend (asciiText "STORE") ++ mailimapSpaceSend ++ mailimapSetSend set ++
    (if useUnchangedsince then
      mailimapOparenthSend ++ mailimapTokenSend (asciiText "UNCHANGEDSINCE") ++ mailimapSpaceSend ++
        mailimapModSequenceValueSend modSequenceValzer ++ mailimapCparenthSend
    else []) ++
    mailimapSpaceSend ++ mailimapStoreAttFlagsSend storeAttFlags

def mailimapUidStoreSend (set : NumberSet) (useUnchangedsince : Bool) (modSequenceValzer : UInt64)
    (storeAttFlags : StoreAttFlags) : Sending :=
  mailimapTokenSend (asciiText "UID") ++ mailimapSpaceSend ++
    mailimapStoreSend set useUnchangedsince modSequenceValzer storeAttFlags

/-- The `seq-match-data` of a select, which is sent only when both of its sets are given. -/
def seqMatchDataSend : Option NumberSet → Option NumberSet → Sending
  | some sequences, some uids =>
      mailimapSpaceSend ++ mailimapOparenthSend ++ mailimapSetSend sequences ++ mailimapSpaceSend ++
        mailimapSetSend uids ++ mailimapCparenthSend
  | _, _ => []

def mailimapSelectQresyncSend (mb : List UInt8) (uidvalidity : UInt32) (modseqValue : UInt64)
    (knownUids seqMatchDataSequences seqMatchDataUids : Option NumberSet) : Sending :=
  mailimapTokenSend (asciiText "SELECT") ++ mailimapSpaceSend ++ mailimapMailboxSend mb ++ mailimapSpaceSend ++
    mailimapTokenSend (asciiText "QRESYNC") ++ mailimapSpaceSend ++ mailimapOparenthSend ++
    mailimapNumberSend uidvalidity ++ mailimapSpaceSend ++ mailimapModSequenceValueSend modseqValue ++
    (match knownUids with
    | some uids => mailimapSpaceSend ++ mailimapSetSend uids
    | none => []) ++
    seqMatchDataSend seqMatchDataSequences seqMatchDataUids ++ mailimapCparenthSend

/-- The modifiers of a FETCH of `qresync.c`. -/
def sendFetchParam (modSequenceValue : UInt64) (vanished : Bool) : Sending :=
  if modSequenceValue = 0 then []
  else
    mailimapSpaceSend ++ mailimapOparenthSend ++ mailimapTokenSend (asciiText "CHANGEDSINCE") ++ mailimapSpaceSend ++
      mailimapModSequenceValueSend modSequenceValue ++
      (if vanished then mailimapSpaceSend ++ mailimapTokenSend (asciiText "VANISHED") else []) ++
      mailimapCparenthSend

theorem mailimapStructListSend_text {α : Type} (list : List α) (symbol : UInt8) (sender : α → Sending) :
    (mailimapStructListSend list symbol sender).text = joined symbol (fun elt => (sender elt).text) list := by
  cases list with
  | nil => rfl
  | cons first rest =>
      have others : Sending.text (rest.flatMap fun elt => mailimapCharSend symbol ++ sender elt) =
          rest.flatMap fun elt => symbol :: (sender elt).text := by
        induction rest with
        | nil => rfl
        | cons elt rest ih =>
            rw [List.flatMap_cons, List.flatMap_cons, Sending.text_append, Sending.text_append, ih]
            rfl
      rw [mailimapStructListSend, Sending.text_append, others]
      rfl

def sequenceNumText (sequenceNum : UInt32) : List UInt8 :=
  if sequenceNum = 0 then [ascii '*'] else decimal sequenceNum.toNat

def setItemText (item : SetItem) : List UInt8 :=
  if item.setFirst = item.setLast then sequenceNumText item.setFirst
  else sequenceNumText item.setFirst ++ ascii ':' :: sequenceNumText item.setLast

def setText (set : NumberSet) : List UInt8 := joined (ascii ',') setItemText set

theorem mailimapSequenceNumSend_text (sequenceNum : UInt32) :
    (mailimapSequenceNumSend sequenceNum).text = sequenceNumText sequenceNum := by
  rw [mailimapSequenceNumSend, sequenceNumText]
  split_ifs
  · rfl
  · exact mailimapNumberSend_text sequenceNum

theorem mailimapSetItemSend_text (item : SetItem) : (mailimapSetItemSend item).text = setItemText item := by
  rw [mailimapSetItemSend, setItemText]
  split_ifs
  · exact mailimapSequenceNumSend_text item.setFirst
  · simp only [Sending.text_append, mailimapSequenceNumSend_text, mailimapCharSend_text, List.append_assoc,
      List.singleton_append]

@[simp] theorem mailimapSetSend_text (set : NumberSet) : (mailimapSetSend set).text = setText set := by
  rw [mailimapSetSend, mailimapStructListSend_text, setText]
  exact congrArg (fun write => joined (ascii ',') write set) (funext mailimapSetItemSend_text)

@[simp] theorem mailimapModSequenceValueSend_text (number : UInt64) :
    (mailimapModSequenceValueSend number).text = decimal number.toNat := by
  have digits := @decimal_digits number.toNat
  have checked : ∀ byte : UInt8, isDigit byte = true → byte ≠ 0 ∧ byte ≠ CR ∧ byte ≠ LF := forall_octet (by decide +kernel)
  exact mailimapTokenSend_text (fun byte member => (checked byte (digits byte member)).1)
    fun byte member => (checked byte (digits byte member)).2

end Etpan.Imap
