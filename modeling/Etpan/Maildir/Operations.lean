import Etpan.Data.Abnf
import Etpan.Data.Decimal
import Etpan.Data.FileCalls

namespace Etpan.Maildir

open Etpan.Data

/-! The operations of `low-level/maildir/maildir.c` on the three directories of a maildir.

The hash of the index holds, for a UID, the message that was added last with it: messages
are only ever added at the end of the list, changed in place or all removed at once. -/

inductive MaildirError where
  | create
  | directory
  | memory
  | file
  | notFound
  | folder
deriving Repr, DecidableEq

inductive Directory where
  | tmp
  | new
  | cur
deriving Repr, DecidableEq

structure Path where
  directory : Directory
  name : List UInt8
deriving Repr, DecidableEq

/-- The bits `MAILDIR_FLAG_XXX`. -/
structure Flags where
  new : Bool
  seen : Bool
  replied : Bool
  flagged : Bool
  trashed : Bool
deriving Repr, DecidableEq

structure Msg where
  msgUid : List UInt8
  msgFilename : List UInt8
  msgFlags : Flags
deriving Repr, DecidableEq

structure Maildir where
  mdirPid : Nat
  mdirHostname : List UInt8
  mdirCounter : UInt32
  mdirMtimeNew : Int
  mdirMtimeCur : Int
  mdirMsgList : List Msg
deriving Repr, DecidableEq

structure State where
  md : Maildir
  files : Files Path

def maildirNew (mdirPid : Nat) (mdirHostname : List UInt8) : Maildir := ⟨mdirPid, mdirHostname, 0, -1, -1, []⟩

/-- What stands before `:2,` in a file name and the letters behind it. -/
def splitInfo : List UInt8 → List UInt8 × Option (List UInt8)
  | [] => ([], none)
  | byte :: rest =>
      if (asciiText ":2,").isPrefixOf (byte :: rest) then ([], some ((byte :: rest).drop 3))
      else ((byte :: (splitInfo rest).1), (splitInfo rest).2)

def flagOfLetter (flags : Flags) (letter : UInt8) : Flags :=
  if letter = ascii 'S' then { flags with seen := true }
  else if letter = ascii 'R' then { flags with replied := true }
  else if letter = ascii 'F' then { flags with flagged := true }
  else if letter = ascii 'T' then { flags with trashed := true }
  else flags

def noFlags : Flags := ⟨false, false, false, false, false⟩

def msgNew (filename : List UInt8) (newMsg : Bool) : Msg :=
  let info := splitInfo filename
  ⟨info.1, filename, { (info.2.getD []).foldl flagOfLetter noFlags with new := newMsg }⟩

def directoryOf (flags : Flags) : Directory := if flags.new then .new else .cur

/-- The path that the flags and the file name of a message denote. -/
def Msg.path (msg : Msg) : Path := ⟨directoryOf msg.msgFlags, msg.msgFilename⟩

def maildirFlush (md : Maildir) (newMsg : Bool) : Maildir :=
  { md with mdirMsgList := md.mdirMsgList.filter fun msg => msg.msgFlags.new != newMsg }

def addMessage (md : Maildir) (filename : List UInt8) (isNew : Bool) : Maildir :=
  { md with mdirMsgList := md.mdirMsgList ++ [msgNew filename isNew] }

def entries (files : Files Path) (directory : Directory) : List (List UInt8) :=
  ((files.keys.filter fun path => path.directory = directory).map Path.name).filter fun name => name.head? != some (ascii '.')

def addDirectory (md : Maildir) (files : Files Path) (fault : Option Errno) (directory : Directory) (isNew : Bool) :
    Except MaildirError Maildir :=
  match fault with
  | some _ => .error .directory
  | none => .ok ((entries files directory).foldl (fun md name => addMessage md name isNew) md)

def chashGet (uid : List UInt8) : List Msg → Option (List Msg × Msg × List Msg)
  | [] => none
  | msg :: rest =>
      match chashGet uid rest with
      | some (before, found, behind) => some (msg :: before, found, behind)
      | none => if msg.msgUid = uid then some ([], msg, rest) else none

/-- How the calls of an update end; `stat` reports a modification time. -/
structure UpdateCalls where
  statNew : Except Errno Int
  statCur : Except Errno Int
  opendirNew : Option Errno
  opendirCur : Option Errno

def flushed (md : Maildir) : Maildir :=
  { maildirFlush (maildirFlush md false) true with mdirMtimeCur := -1, mdirMtimeNew := -1 }

/-- The directories are read again if one of the times has changed. -/
def readDirectories (calls : UpdateCalls) (files : Files Path) (md : Maildir) : Except MaildirError Maildir := do
  let md := maildirFlush (maildirFlush md false) true
  let md ← addDirectory md files calls.opendirNew .new true
  addDirectory md files calls.opendirCur .cur false

def maildirUpdate (calls : UpdateCalls) (files : Files Path) (md : Maildir) : Option MaildirError × Maildir :=
  match calls.statNew with
  | .error _ => (some .directory, flushed md)
  | .ok mtimeNew =>
      match calls.statCur with
      | .error _ => (some .directory, flushed { md with mdirMtimeNew := mtimeNew })
      | .ok mtimeCur =>
          let stamped := { md with mdirMtimeNew := mtimeNew, mdirMtimeCur := mtimeCur }
          if md.mdirMtimeNew = mtimeNew ∧ md.mdirMtimeCur = mtimeCur then (none, stamped)
          else
            match readDirectories calls files stamped with
            | .error error => (some error, flushed stamped)
            | .ok md => (none, md)

/-- How the calls of one attempt to name a file in `tmp/` end. -/
structure AttemptCalls where
  link : Option Errno
  rename : Option Errno
  unlink : Option Errno

structure AddCalls where
  update : UpdateCalls
  tmpname : List UInt8
  mkstemp : Option Errno
  ftruncate : Option Errno
  mmap : Option Errno
  now : Nat
  attempts : Nat → AttemptCalls
  unlinkTmpname : Option Errno
  linkNew : Option Errno
  unlinkDelivered : Option Errno
  renameNew : Option Errno
  statNew : Except Errno Int
  unlinkNew : Option Errno
  unlinkTmp : Option Errno

/-- `%lu.%u_%u.%s`. -/
def basename (md : Maildir) (now : Nat) (counter : UInt32) : List UInt8 :=
  decimal now ++ ascii '.' :: decimal md.mdirPid ++ ascii '_' :: decimal counter.toNat ++ ascii '.' :: md.mdirHostname

def maxTryAlloc : Nat := 32

/-- The name that the message gets in `tmp/`, with the counter and the files then; `left`
attempts are left and `tried` have been made. -/
def maildirGetNewMessageFilename (md : Maildir) (now : Nat) (attempts : Nat → AttemptCalls) (tmpFile : Path) :
    Nat → Nat → UInt32 → Files Path → Option (List UInt8) × UInt32 × Files Path
  | 0, _, counter, files => (none, counter, files)
  | left + 1, tried, counter, files =>
      let name := basename md now counter
      let calls := attempts tried
      match linkFile files calls.link tmpFile ⟨.tmp, name⟩ with
      | .ok linked => (some name, counter + 1, ignoringErrors linked (unlinkFile linked calls.unlink tmpFile))
      | .error .exdev => (none, counter, ignoringErrors files (unlinkFile files calls.unlink tmpFile))
      | .error .eperm =>
          match renameFile files calls.rename tmpFile ⟨.tmp, name⟩ with
          | .ok renamed => (some name, counter + 1, renamed)
          | .error _ => (none, counter, ignoringErrors files (unlinkFile files calls.unlink tmpFile))
      | .error _ => maildirGetNewMessageFilename md now attempts tmpFile left (tried + 1) (counter + 1) files

/-- The last part of an addition: the time of `new/` is taken and the message recorded. -/
def recordDelivery (calls : AddCalls) (name : List UInt8) (md : Maildir) (files : Files Path) : Option MaildirError × State :=
  match calls.statNew with
  | .error _ =>
      let files := ignoringErrors files (unlinkFile files calls.unlinkNew ⟨.new, name⟩)
      (some .file, { md, files := ignoringErrors files (unlinkFile files calls.unlinkTmp ⟨.tmp, name⟩) })
  | .ok mtimeNew => (none, { md := addMessage { md with mdirMtimeNew := mtimeNew } name true, files })

def deliver (calls : AddCalls) (name : List UInt8) (s : State) : Option MaildirError × State :=
  let source : Path := ⟨.tmp, name⟩
  let target : Path := ⟨.new, name⟩
  let abandoned : State := { s with files := ignoringErrors s.files (unlinkFile s.files calls.unlinkTmp source) }
  match linkFile s.files calls.linkNew source target with
  | .ok linked =>
      recordDelivery calls name s.md (ignoringErrors linked (unlinkFile linked calls.unlinkDelivered source))
  | .error .exdev => (some .folder, abandoned)
  | .error .eperm =>
      match renameFile s.files calls.renameNew source target with
      | .ok renamed => recordDelivery calls name s.md renamed
      | .error _ => (some .file, abandoned)
  -- every other error is passed over as if the link had been made
  | .error _ => recordDelivery calls name s.md s.files

/-- `mkstemp`, `ftruncate` and the mapping that the message is copied to; a mapping of no
octets fails. -/
def writeTmp (calls : AddCalls) (message : List UInt8) (files : Files Path) : Bool × Files Path :=
  let tmpFile : Path := ⟨.tmp, calls.tmpname⟩
  if calls.mkstemp.isSome ∨ tmpFile ∈ files then (false, files)
  else
    let abandoned (content : List UInt8) : Bool × Files Path :=
      let written := files.insert tmpFile content
      (false, ignoringErrors written (unlinkFile written calls.unlinkTmpname tmpFile))
    if calls.ftruncate.isSome then abandoned []
    else if calls.mmap.isSome ∨ message = [] then abandoned (List.replicate message.length 0)
    else (true, files.insert tmpFile message)

def maildirMessageAddUid (calls : AddCalls) (message : List UInt8) (s : State) : Option MaildirError × State :=
  match maildirUpdate calls.update s.files s.md with
  | (some error, md) => (some error, { s with md })
  | (none, md) =>
      match writeTmp calls message s.files with
      | (false, files) => (some .file, { md, files })
      | (true, files) =>
          let tmpFile : Path := ⟨.tmp, calls.tmpname⟩
          match maildirGetNewMessageFilename md calls.now calls.attempts tmpFile maxTryAlloc 0 md.mdirCounter files with
          | (none, counter, files) =>
              (some .file,
                { md := { md with mdirCounter := counter },
                  files := ignoringErrors files (unlinkFile files calls.unlinkTmpname tmpFile) })
          | (some name, counter, files) => deliver calls name { md := { md with mdirCounter := counter }, files }

/-! ### Removing a message and changing its flags -/

def maildirMessageRemove (unlink : Option Errno) (uid : List UInt8) (s : State) : Option MaildirError × State :=
  match chashGet uid s.md.mdirMsgList with
  | none => (some .notFound, s)
  | some (_, msg, _) =>
      match unlinkFile s.files unlink msg.path with
      | .error _ => (some .file, s)
      | .ok files => (none, { s with files })

structure ChangeCalls where
  link : Option Errno
  unlink : Option Errno
  rename : Option Errno

def flagStr (flags : Flags) : List UInt8 :=
  (if flags.seen then [ascii 'S'] else []) ++ (if flags.replied then [ascii 'R'] else []) ++
    (if flags.flagged then [ascii 'F'] else []) ++ (if flags.trashed then [ascii 'T'] else [])

def Msg.changed (msg : Msg) (newFlags : Flags) : Msg :=
  { msg with
    msgFilename := if flagStr newFlags = [] then msg.msgUid else msg.msgUid ++ asciiText ":2," ++ flagStr newFlags
    msgFlags := newFlags }

def maildirMessageChangeFlags (calls : ChangeCalls) (uid : List UInt8) (newFlags : Flags) (s : State) :
    Option MaildirError × State :=
  match chashGet uid s.md.mdirMsgList with
  | none => (some .notFound, s)
  | some (before, msg, behind) =>
      let source := msg.path
      let target := (msg.changed newFlags).path
      let recorded (files : Files Path) : Option MaildirError × State :=
        (none, { md := { s.md with mdirMsgList := before ++ msg.changed newFlags :: behind }, files })
      if source = target then (none, s)
      else
        match linkFile s.files calls.link source target with
        | .ok linked => recorded (ignoringErrors linked (unlinkFile linked calls.unlink source))
        | .error .exdev => (some .folder, s)
        | .error .eperm =>
            match renameFile s.files calls.rename source target with
            | .ok renamed => recorded renamed
            | .error _ => (some .folder, s)
        -- every other error is passed over as if the link had been made
        | .error _ => recorded s.files

end Etpan.Maildir
