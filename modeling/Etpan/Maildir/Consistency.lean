import Etpan.Maildir.Operations

namespace Etpan.Maildir

open Etpan.Data

/-! The index of a maildir against its directories, over runs of the operations. -/

inductive Operation where
  | update (calls : UpdateCalls)
  | addUid (calls : AddCalls) (message : List UInt8)
  | remove (unlink : Option Errno) (uid : List UInt8)
  | changeFlags (calls : ChangeCalls) (uid : List UInt8) (newFlags : Flags)

def Operation.run : Operation → State → Option MaildirError × State
  | .update calls, s => ((maildirUpdate calls s.files s.md).1, { s with md := (maildirUpdate calls s.files s.md).2 })
  | .addUid calls message, s => maildirMessageAddUid calls message s
  | .remove unlink uid, s => maildirMessageRemove unlink uid s
  | .changeFlags calls uid newFlags, s => maildirMessageChangeFlags calls uid newFlags s

/-- Each operation of a run has the property in the state that it is called in. -/
def EachStep (property : State → Operation → Prop) : State → List Operation → Prop
  | _, [] => True
  | s, operation :: operations => property s operation ∧ EachStep property (operation.run s).2 operations

def Backed (s : State) : Prop := ∀ msg ∈ s.md.mdirMsgList, msg.path ∈ s.files

instance (s : State) : Decidable (Backed s) := inferInstanceAs (Decidable (∀ msg ∈ s.md.mdirMsgList, msg.path ∈ s.files))

/-- The same messages in `new/` and `cur/`. -/
def SameStored (files files' : Files Path) : Prop := ∀ path : Path, path.directory ≠ .tmp → files'.lookup path = files.lookup path

structure Kept (s : State) (operation : Operation) : Prop where
  backed : (operation.run s).1 = none → Backed (operation.run s).2
  added : ∀ calls message, operation = .addUid calls message → (operation.run s).1 = none →
    ∃ msg, (operation.run s).2.md.mdirMsgList.getLast? = some msg ∧ (operation.run s).2.files.lookup msg.path = some message
  unchanged : (operation.run s).1 ≠ none →
    (operation.run s).2.md.mdirMsgList = s.md.mdirMsgList ∧ SameStored s.files (operation.run s).2.files

/-- An update fails: a directory cannot be examined, or cannot be read although it has changed. -/
def UpdateCalls.Fail (calls : UpdateCalls) (md : Maildir) : Prop :=
  match calls.statNew, calls.statCur with
  | .ok mtimeNew, .ok mtimeCur =>
      ¬(md.mdirMtimeNew = mtimeNew ∧ md.mdirMtimeCur = mtimeCur) ∧ (calls.opendirNew ≠ none ∨ calls.opendirCur ≠ none)
  | _, _ => True

/-- The directories have the modification times that were recorded for them. -/
def UpdateCalls.Recorded (calls : UpdateCalls) (md : Maildir) : Prop :=
  calls.statNew = .ok md.mdirMtimeNew ∧ calls.statCur = .ok md.mdirMtimeCur

def listing (files : Files Path) : List Msg :=
  ((entries files .new).map fun name => msgNew name true) ++ (entries files .cur).map fun name => msgNew name false

def AddCalls.named (calls : AddCalls) (message : List UInt8) (s : State) : Option (List UInt8) :=
  match writeTmp calls message s.files with
  | (false, _) => none
  | (true, files) =>
      (maildirGetNewMessageFilename s.md calls.now calls.attempts ⟨.tmp, calls.tmpname⟩ maxTryAlloc 0 s.md.mdirCounter files).1

/-- A link, or a rename where links are not permitted, fails in one of the ways that the code looks for. -/
def MoveFails (link rename : Option Errno) : Prop := link = some .exdev ∨ link = some .eperm ∧ rename ≠ none

/-- A file is moved to a name that is free, or is reported not to be. -/
structure MoveSafe (link rename : Option Errno) (target : Path) (files : Files Path) : Prop where
  expected : link = none ∨ link = some .exdev ∨ link = some .eperm
  fresh : MoveFails link rename ∨ target ∉ files

/-- The calls behind the name in `tmp/` that make an addition fail. -/
def AddCalls.DeliveryFails (calls : AddCalls) : Prop :=
  MoveFails calls.linkNew calls.renameNew ∨ ∃ errno, calls.statNew = .error errno

structure AddCalls.Safe (calls : AddCalls) (message : List UInt8) (s : State) : Prop where
  update : s.md.mdirMsgList = [] ∨ ¬calls.update.Fail s.md
  delivered : ∀ name ∈ calls.named message s, MoveSafe calls.linkNew calls.renameNew ⟨.new, name⟩ s.files
  undone : ∀ errno, calls.statNew = .error errno → calls.unlinkNew = none
  -- a failure after the directories have been read again leaves the index that was read
  recorded : calls.update.Fail s.md ∨ calls.update.Recorded s.md ∨ s.md.mdirMsgList = listing s.files ∨
    calls.named message s ≠ none ∧ ¬calls.DeliveryFails

def ChangeCalls.Safe (calls : ChangeCalls) (uid : List UInt8) (newFlags : Flags) (s : State) : Prop :=
  ∀ found ∈ chashGet uid s.md.mdirMsgList, found.2.1.path = (found.2.1.changed newFlags).path ∨
    MoveSafe calls.link calls.rename (found.2.1.changed newFlags).path s.files

def Safe (s : State) : Operation → Prop
  | .update calls => s.md.mdirMsgList = [] ∨ ¬calls.Fail s.md
  | .addUid calls message => calls.Safe message s
  | .remove unlink uid => chashGet uid s.md.mdirMsgList = none ∨ unlink ≠ none
  | .changeFlags calls uid newFlags => calls.Safe uid newFlags s

/-- What holds between the operations. -/
structure Consistent (s : State) : Prop where
  backed : Backed s
  distinct : (s.md.mdirMsgList.map Msg.path).Nodup

theorem maildirNew_consistent (pid : Nat) (hostname : List UInt8) (files : Files Path) :
    Consistent ⟨maildirNew pid hostname, files⟩ where
  backed := fun msg member => by cases member
  distinct := List.nodup_nil

theorem Msg.path_stored (msg : Msg) : msg.path.directory ≠ .tmp := by
  rw [Msg.path, directoryOf]
  split_ifs <;> simp

theorem mem_of_lookup {files files' : Files Path} {path : Path} (same : files'.lookup path = files.lookup path)
    (member : path ∈ files) : path ∈ files' := by
  rw [← AList.lookup_isSome] at member ⊢
  rwa [same]

theorem SameStored.backed {s : State} {files : Files Path} {md : Maildir} (consistent : Consistent s)
    (same : SameStored s.files files) (index : md.mdirMsgList = s.md.mdirMsgList) : Consistent ⟨md, files⟩ := by
  constructor
  · intro msg member
    change msg ∈ md.mdirMsgList at member
    rw [index] at member
    exact mem_of_lookup (same msg.path msg.path_stored) (consistent.backed msg member)
  · change (md.mdirMsgList.map Msg.path).Nodup
    rw [index]
    exact consistent.distinct

theorem flush_both (md : Maildir) : (maildirFlush (maildirFlush md false) true).mdirMsgList = [] := by
  simp [maildirFlush, List.filter_filter]

theorem foldl_addMessage (md : Maildir) (names : List (List UInt8)) (isNew : Bool) :
    (names.foldl (fun md name => addMessage md name isNew) md).mdirMsgList =
      md.mdirMsgList ++ names.map fun name => msgNew name isNew := by
  induction names generalizing md with
  | nil => simp
  | cons name names ih =>
      rw [List.foldl_cons, ih]
      simp [addMessage]

theorem mem_entries {files : Files Path} {directory : Directory} {name : List UInt8} (member : name ∈ entries files directory) :
    (⟨directory, name⟩ : Path) ∈ files := by
  simp only [entries, List.mem_filter, List.mem_map, decide_eq_true_eq] at member
  obtain ⟨⟨path, ⟨isKey, rfl⟩, rfl⟩, -⟩ := member
  exact AList.mem_keys.mpr isKey

theorem entries_nodup (files : Files Path) (directory : Directory) : (entries files directory).Nodup := by
  apply List.Nodup.filter
  apply List.Nodup.map_on
  · intro path isPath other isOther same
    simp only [List.mem_filter, decide_eq_true_eq] at isPath isOther
    cases path
    cases other
    simp_all
  · exact files.keys_nodup.filter _

theorem listing_consistent {files : Files Path} {md : Maildir} (list : md.mdirMsgList = listing files) :
    Consistent ⟨md, files⟩ := by
  constructor
  · intro msg member
    change msg ∈ md.mdirMsgList at member
    rw [list, listing, List.mem_append, List.mem_map, List.mem_map] at member
    rcases member with ⟨name, isEntry, rfl⟩ | ⟨name, isEntry, rfl⟩
    · exact mem_entries isEntry
    · exact mem_entries isEntry
  · change (md.mdirMsgList.map Msg.path).Nodup
    rw [list, listing, List.map_append, List.map_map, List.map_map, List.nodup_append]
    refine ⟨?_, ?_, ?_⟩
    · exact (entries_nodup files .new).map fun name other same => (Path.mk.inj same).2
    · exact (entries_nodup files .cur).map fun name other same => (Path.mk.inj same).2
    · intro path isNew other isCur same
      obtain ⟨name, -, rfl⟩ := List.mem_map.mp isNew
      obtain ⟨name', -, rfl⟩ := List.mem_map.mp isCur
      cases (Path.mk.inj same).1

/-- What an update leaves as it is. -/
structure SameIdentity (md md' : Maildir) : Prop where
  pid : md'.mdirPid = md.mdirPid
  hostname : md'.mdirHostname = md.mdirHostname
  counter : md'.mdirCounter = md.mdirCounter

theorem foldl_addMessage_identity (md : Maildir) (names : List (List UInt8)) (isNew : Bool) :
    SameIdentity md (names.foldl (fun md name => addMessage md name isNew) md) := by
  induction names generalizing md with
  | nil => exact ⟨rfl, rfl, rfl⟩
  | cons name names ih =>
      obtain ⟨pid, hostname, counter⟩ := ih (addMessage md name isNew)
      exact ⟨pid, hostname, counter⟩

theorem readDirectories_cases (calls : UpdateCalls) (files : Files Path) (md : Maildir) :
    (∃ error, readDirectories calls files md = .error error ∧ (calls.opendirNew ≠ none ∨ calls.opendirCur ≠ none)) ∨
      ∃ read, readDirectories calls files md = .ok read ∧ calls.opendirNew = none ∧ calls.opendirCur = none ∧
        read.mdirMsgList = listing files ∧ SameIdentity md read := by
  cases opendirNew : calls.opendirNew with
  | some errno =>
      exact .inl ⟨.directory, by simp [readDirectories, addDirectory, opendirNew, bind, Except.bind], .inl (by simp)⟩
  | none =>
      cases opendirCur : calls.opendirCur with
      | some errno =>
          refine .inl ⟨.directory, ?_, .inr (by simp)⟩
          simp [readDirectories, addDirectory, opendirNew, opendirCur, bind, Except.bind]
      | none =>
          refine .inr ⟨(entries files .cur).foldl (fun md name => addMessage md name false)
            ((entries files .new).foldl (fun md name => addMessage md name true) (maildirFlush (maildirFlush md false) true)),
            ?_, rfl, rfl, ?_, ?_⟩
          · simp only [readDirectories, addDirectory, opendirNew, opendirCur]
            rfl
          · rw [foldl_addMessage, foldl_addMessage, flush_both, List.nil_append, listing]
          · have early := foldl_addMessage_identity (maildirFlush (maildirFlush md false) true) (entries files .new) true
            have late := foldl_addMessage_identity ((entries files .new).foldl (fun md name => addMessage md name true)
              (maildirFlush (maildirFlush md false) true)) (entries files .cur) false
            exact ⟨late.pid.trans early.pid, late.hostname.trans early.hostname, late.counter.trans early.counter⟩

/-- An update fails exactly when one of its calls does, and then empties the index. -/
inductive Updated (calls : UpdateCalls) (files : Files Path) (md : Maildir) : Option MaildirError × Maildir → Prop
  | failed {error : MaildirError} {md' : Maildir} (reason : calls.Fail md) (index : md'.mdirMsgList = []) :
      Updated calls files md (some error, md')
  | done {md' : Maildir} (succeeds : ¬calls.Fail md) (identity : SameIdentity md md')
      (recorded : calls.Recorded md ∨ md.mdirMsgList = listing files → md'.mdirMsgList = md.mdirMsgList)
      (consistent : Consistent ⟨md, files⟩ → Consistent ⟨md', files⟩) : Updated calls files md (none, md')

theorem maildirUpdate_updated (calls : UpdateCalls) (files : Files Path) (md : Maildir) :
    Updated calls files md (maildirUpdate calls files md) := by
  have emptied : ∀ md : Maildir, (flushed md).mdirMsgList = [] := fun md => flush_both md
  rw [maildirUpdate]
  cases statNew : calls.statNew with
  | error errno => exact .failed (by simp [UpdateCalls.Fail, statNew]) (emptied _)
  | ok mtimeNew =>
      cases statCur : calls.statCur with
      | error errno => exact .failed (by simp [UpdateCalls.Fail, statNew, statCur]) (emptied _)
      | ok mtimeCur =>
          by_cases same : md.mdirMtimeNew = mtimeNew ∧ md.mdirMtimeCur = mtimeCur
          · simp only [if_pos same]
            refine .done (by simp [UpdateCalls.Fail, statNew, statCur, same]) ⟨rfl, rfl, rfl⟩ (fun _ => rfl) ?_
            exact fun consistent => ⟨consistent.backed, consistent.distinct⟩
          · simp only [if_neg same]
            rcases readDirectories_cases calls files { md with mdirMtimeNew := mtimeNew, mdirMtimeCur := mtimeCur } with
              ⟨error, reading, fault⟩ | ⟨read, reading, opendirNew, opendirCur, list, identity⟩
            · rw [reading]
              refine .failed ?_ (emptied _)
              simp only [UpdateCalls.Fail, statNew, statCur]
              exact ⟨same, fault⟩
            · rw [reading]
              refine .done ?_ ⟨identity.pid, identity.hostname, identity.counter⟩ ?_ fun _ => listing_consistent list
              · simp [UpdateCalls.Fail, statNew, statCur, opendirNew, opendirCur]
              · rintro (⟨recordedNew, recordedCur⟩ | before)
                · rw [statNew, Except.ok.injEq] at recordedNew
                  rw [statCur, Except.ok.injEq] at recordedCur
                  exact absurd ⟨recordedNew.symm, recordedCur.symm⟩ same
                · exact list.trans before.symm

theorem SameStored.refl (files : Files Path) : SameStored files files := fun _ _ => rfl

theorem SameStored.trans {first second third : Files Path} (early : SameStored first second) (late : SameStored second third) :
    SameStored first third := fun path stored => (late path stored).trans (early path stored)

theorem sameStored_insert {files : Files Path} {path : Path} {content : List UInt8} (inTmp : path.directory = .tmp) :
    SameStored files (files.insert path content) := by
  intro other stored
  exact AList.lookup_insert_ne fun same => stored (same ▸ inTmp)

theorem sameStored_unlink {files : Files Path} {path : Path} {fault : Option Errno} (inTmp : path.directory = .tmp) :
    SameStored files (ignoringErrors files (unlinkFile files fault path)) := by
  intro other stored
  exact ignoringErrors_unlinkFile fun same => stored (same ▸ inTmp)

theorem sameStored_moved {files files' : Files Path} {source target : Path} {content : List UInt8}
    (moved : Moved files files' source target content) (fromTmp : source.directory = .tmp) (toTmp : target.directory = .tmp) :
    SameStored files files' := fun path stored =>
  moved.others path (fun same => stored (same ▸ fromTmp)) fun same => stored (same ▸ toTmp)

theorem writeTmp_spec (calls : AddCalls) (message : List UInt8) (files : Files Path) :
    SameStored files (writeTmp calls message files).2 ∧
      ((writeTmp calls message files).1 = true → (writeTmp calls message files).2.lookup ⟨.tmp, calls.tmpname⟩ = some message) := by
  have abandoned : ∀ content : List UInt8, SameStored files (ignoringErrors (files.insert ⟨.tmp, calls.tmpname⟩ content)
      (unlinkFile (files.insert ⟨.tmp, calls.tmpname⟩ content) calls.unlinkTmpname ⟨.tmp, calls.tmpname⟩)) := fun content =>
    (sameStored_insert rfl).trans (sameStored_unlink rfl)
  simp only [writeTmp]
  split_ifs
  · exact ⟨SameStored.refl files, fun done => by cases done⟩
  · exact ⟨abandoned _, fun done => by cases done⟩
  · exact ⟨abandoned _, fun done => by cases done⟩
  · exact ⟨sameStored_insert rfl, fun _ => AList.lookup_insert files⟩

/-- Naming a file changes nothing but `tmp/`, and the name stands for the message. -/
theorem maildirGetNewMessageFilename_spec {md : Maildir} {now : Nat} {attempts : Nat → AttemptCalls} {tmpFile : Path}
    {message : List UInt8} {files : Files Path} (inTmp : tmpFile.directory = .tmp) (written : files.lookup tmpFile = some message)
    (left tried : Nat) (counter : UInt32) :
    SameStored files (maildirGetNewMessageFilename md now attempts tmpFile left tried counter files).2.2 ∧
      ∀ name ∈ (maildirGetNewMessageFilename md now attempts tmpFile left tried counter files).1,
        (maildirGetNewMessageFilename md now attempts tmpFile left tried counter files).2.2.lookup ⟨.tmp, name⟩ = some message := by
  induction left generalizing tried counter with
  | zero => exact ⟨SameStored.refl files, fun name none => by cases none⟩
  | succ left ih =>
      have dropped : SameStored files (ignoringErrors files (unlinkFile files (attempts tried).unlink tmpFile)) :=
        sameStored_unlink inTmp
      simp only [maildirGetNewMessageFilename]
      cases linking : linkFile files (attempts tried).link tmpFile ⟨.tmp, basename md now counter⟩ with
      | ok linked =>
          have moved := linkFile_moved written linking (attempts tried).unlink
          refine ⟨sameStored_moved moved inTmp rfl, ?_⟩
          rintro name ⟨⟩
          exact moved.found
      | error errno =>
          cases errno with
          | exdev => exact ⟨dropped, fun name none => by cases none⟩
          | eperm =>
              cases moving : renameFile files (attempts tried).rename tmpFile ⟨.tmp, basename md now counter⟩ with
              | error errno =>
                  simp only
                  exact ⟨dropped, fun name none => by cases none⟩
              | ok renamed =>
                  have moved := renameFile_moved written moving
                  refine ⟨sameStored_moved moved inTmp rfl, ?_⟩
                  rintro name ⟨⟩
                  exact moved.found
          | enoent => exact ih (tried + 1) (counter + 1)
          | eexist => exact ih (tried + 1) (counter + 1)
          | other number => exact ih (tried + 1) (counter + 1)

end Etpan.Maildir
