import Etpan.Mbox.Parse

namespace Etpan.Mbox

open Etpan.Data

/-! A mailbox folder, `low-level/mbox/mailmbox_types.h`, and how parsing fills it.

The message infos are records by address: the table and the hash table both hold
addresses of them. -/

structure MailmboxMsgInfo extends MsgPlace where
  msgIndex : Nat
  msgUid : UInt32
  msgWrittenUid : Bool
  msgDeleted : Bool
deriving Repr, DecidableEq

structure MailmboxFolder where
  mbReadOnly : Bool
  mbNoUid : Bool
  mbChanged : Bool
  mbDeletedCount : Nat
  mbMapping : List UInt8
  mbWrittenUid : UInt32
  mbMaxUid : UInt32
  mbHash : UInt32 → Option Nat
  mbTab : List Nat
  /-- The records in memory; those from `allocated` on are not in use yet. -/
  info : Nat → MailmboxMsgInfo
  allocated : Nat

def mailmboxMsgInfoNew (place : MsgPlace) (uid : UInt32) : MailmboxMsgInfo :=
  { toMsgPlace := place, msgIndex := 0, msgUid := uid, msgWrittenUid := uid ≠ 0, msgDeleted := false }

namespace MailmboxFolder

def hashSet (folder : MailmboxFolder) (uid : UInt32) (address : Option Nat) : MailmboxFolder :=
  { folder with mbHash := Function.update folder.mbHash uid address }

def infoSet (folder : MailmboxFolder) (address : Nat) (info : MailmboxMsgInfo) : MailmboxFolder :=
  { folder with info := Function.update folder.info address info }

def addInfo (folder : MailmboxFolder) (place : MsgPlace) (uid : UInt32) : MailmboxFolder :=
  { folder.infoSet folder.allocated { mailmboxMsgInfoNew place uid with msgIndex := folder.mbTab.length } with
    mbTab := folder.mbTab ++ [folder.allocated]
    allocated := folder.allocated + 1 }

end MailmboxFolder

def mailmboxMsgInfoUpdate (folder : MailmboxFolder) (place : MsgPlace) (uid : UInt32) : MailmboxFolder :=
  match folder.mbHash uid with
  | none =>
      if uid = 0 then folder.addInfo place uid
      else (folder.addInfo place uid).hashSet uid (some folder.allocated)
  | some address => folder.infoSet address { folder.info address with toMsgPlace := place }

def higherUid (uid maxUid : UInt32) : UInt32 := if maxUid < uid then uid else maxUid

/-- The variables of `mailmbox_parse_additionnal` while it parses content. -/
structure Parsing where
  folder : MailmboxFolder
  maxUid : UInt32
  firstIndex : Nat

/-- The UID of a message against the messages known under it: one written in the file
stays, and a temporary one is given up. -/
def Parsing.claimUid (parsing : Parsing) (uid : UInt32) : Parsing × UInt32 :=
  match parsing.folder.mbHash uid with
  | none => (parsing, uid)
  | some address =>
      let info := parsing.folder.info address
      if info.msgWrittenUid then (parsing, 0)
      else
        ({ parsing with
            folder := (parsing.folder.hashSet uid none).infoSet address { info with msgUid := 0 }
            firstIndex := min info.msgIndex parsing.firstIndex }, uid)

def Parsing.message (parsing : Parsing) (found : MsgPlace × UInt32) : Parsing :=
  let (parsing, uid) := parsing.claimUid found.2
  { parsing with
    maxUid := higherUid uid parsing.maxUid
    folder := mailmboxMsgInfoUpdate parsing.folder found.1 uid }

def attributeUid (numbered : MailmboxFolder × UInt32) (address : Nat) : MailmboxFolder × UInt32 :=
  let (folder, maxUid) := numbered
  let info := folder.info address
  if info.msgUid ≠ 0 then (folder, maxUid)
  else
    ((folder.infoSet address { info with msgUid := maxUid + 1 }).hashSet (maxUid + 1) (some address), maxUid + 1)

namespace MailmboxFolder

/-- A message that is parsed again and whose UID is not in the file. -/
def isStale (folder : MailmboxFolder) (cur : Nat) (address : Nat) : Bool :=
  cur ≤ (folder.info address).msgStart && !(folder.info address).msgWrittenUid

def removeStale (folder : MailmboxFolder) (cur : Nat) : MailmboxFolder :=
  { folder with
    mbHash := (folder.mbTab.filter (folder.isStale cur)).foldl
      (fun hash address => Function.update hash (folder.info address).msgUid none) folder.mbHash
    mbTab := folder.mbTab.filter fun address => !folder.isStale cur address }

def reindex (folder : MailmboxFolder) : MailmboxFolder :=
  { folder with
    info := fun address =>
      if address ∈ folder.mbTab then
        { folder.info address with msgIndex := folder.mbTab.idxOf address }
      else folder.info address }

def highestUid (folder : MailmboxFolder) : UInt32 :=
  folder.mbTab.foldl (fun highest address => higherUid (folder.info address).msgUid highest) folder.mbWrittenUid

end MailmboxFolder

def mailmboxParseAdditionnal (folder : MailmboxFolder) (cur : Nat) : MailmboxFolder :=
  let folder := (folder.removeStale cur).reindex
  let parsing := (messagesFrom cur (folder.mbMapping.drop cur)).foldl Parsing.message
    ⟨folder, folder.highestUid, folder.mbTab.length⟩
  let numbered := (parsing.folder.mbTab.drop parsing.firstIndex).foldl attributeUid (parsing.folder, parsing.maxUid)
  { numbered.1 with mbWrittenUid := parsing.maxUid, mbMaxUid := numbered.2 }

def flushUid (folder : MailmboxFolder) : MailmboxFolder :=
  { folder with mbHash := fun _ => none, mbTab := [] }

def mailmboxParse (folder : MailmboxFolder) : MailmboxFolder :=
  mailmboxParseAdditionnal (flushUid folder) 0

/-- The folder that `mailmbox_init` makes of a file that it can map. -/
def mailmboxInit (file : List UInt8) (readOnly noUid : Bool) (defaultWrittenUid : UInt32) : MailmboxFolder :=
  mailmboxParse
    { mbReadOnly := readOnly, mbNoUid := noUid, mbChanged := false, mbDeletedCount := 0, mbMapping := file,
      mbWrittenUid := defaultWrittenUid, mbMaxUid := 0, mbHash := fun _ => none, mbTab := [],
      info := fun _ => ⟨⟨0, 0, 0, 0, 0, 0, 0, 0⟩, 0, 0, false, false⟩, allocated := 0 }

def MailmboxFolder.infos (folder : MailmboxFolder) : List MailmboxMsgInfo :=
  folder.mbTab.map folder.info

end Etpan.Mbox
