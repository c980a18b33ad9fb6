import Etpan.Data.FileCalls
import Etpan.Mh.Folder

namespace Etpan.Mh

open Etpan.Data

/-! The messages of the folders of `low-level/mh/mailmh.c`.

The files are those that the calls of the code see; the calls that may fail take how they
end, and each operation has the calls that it may make. -/

structure State where
  store : Store
  files : Files (List UInt8)

/-- `mailmh_folder_get_message_filename`. -/
def messagePath (folder : Folder) (indx : UInt32) : List UInt8 := inside folder.flFilename (decimal indx.toNat)

def MAX_TRY_ALLOC : Nat := 32

structure Attempt where
  link : Option Errno
  unlink : Option Errno
  rename : Option Errno

structure AllocCalls where
  attempts : Nat → Attempt
  reading : Reading

def candidate (folder : Folder) (k : Nat) : UInt32 := folder.flMaxIndex + 1 + UInt32.ofNat k

/-- The round in which the file gets its name, and the files then. -/
def allocLoop (calls : AllocCalls) (folder : Folder) (filename : List UInt8) (files : Files (List UInt8)) :
    Nat → Nat → Option (Nat × Files (List UInt8))
  | 0, _ => none
  | rounds + 1, k =>
      let attempt := calls.attempts k
      let newFilename := messagePath folder (candidate folder k)
      match linkFile files attempt.link filename newFilename with
      | .ok linked => some (k, ignoringErrors linked (unlinkFile linked attempt.unlink filename))
      | .error .exdev => none
      | .error .eperm => some (k, ignoringErrors files (renameFile files attempt.rename filename newFilename))
      | .error _ => allocLoop calls folder filename files rounds (k + 1)

def mailmhFolderAllocMsg (calls : AllocCalls) (ref : Nat) (folder : Folder) (filename : List UInt8) (s : State) :
    Except MhError UInt32 × State :=
  match allocLoop calls folder filename s.files MAX_TRY_ALLOC 0 with
  | none => (.error .folder, s)
  | some (k, files) =>
      let store := if MAX_TRY_ALLOC / 2 < k then (mailmhFolderUpdate s.store ref calls.reading).elim s.store Prod.snd else s.store
      (.ok (candidate folder k), { store := store.modify ref ({ · with flMaxIndex := candidate folder k }), files })

/-- How the calls of an addition end: the letters of the temporary name, unless `mkstemp`
fails, the number of octets that each `write` writes, unless it fails, and the modification
time, unless `stat` fails.  A write behind the given ones writes everything. -/
structure AddCalls where
  mkstemp : Option (List UInt8)
  writes : List (Option Nat)
  stat : Option Int
  alloc : AllocCalls
  unlink : Option Errno

/-- Each round writes from the start of the message. -/
def writeLoop (message : List UInt8) : List (Option Nat) → Nat → List UInt8 → Bool × List UInt8
  | _, 0, written => (true, written)
  | [], left + 1, written => (true, written ++ message.take (left + 1))
  | none :: _, _ + 1, written => (false, written)
  | some res :: writes, left + 1, written =>
      writeLoop message writes (left + 1 - res) (written ++ message.take (min res (left + 1)))

def tmpName (folder : Folder) (letters : List UInt8) : List UInt8 := inside folder.flFilename (asciiText "tmp" ++ letters)

/-- `mkstemp` does not take a name that a file has. -/
def mailmhFolderAddMessageUid (calls : AddCalls) (ref : Nat) (message : List UInt8) (s : State) :
    Option (Except MhError UInt32 × State) :=
  match s.store.folder ref with
  | none => none
  | some folder =>
      match calls.mkstemp with
      | none => some (.error .file, s)
      | some letters =>
          let tmpname := tmpName folder letters
          if tmpname ∈ s.files then some (.error .file, s)
          else
            match writeLoop message calls.writes message.length [] with
            | (false, content) => some (.error .file, { s with files := s.files.insert tmpname content })
            | (true, content) =>
                let s := { s with files := s.files.insert tmpname content }
                match calls.stat with
                | none => some (.error .file, s)
                | some mtime =>
                    match mailmhFolderAllocMsg calls.alloc ref folder tmpname s with
                    | (.error _, s) =>
                        some (.error .couldNotAllocMsg,
                          { s with files := ignoringErrors s.files (unlinkFile s.files calls.unlink tmpname) })
                    | (.ok indx, s) =>
                        some (.ok indx, { s with store := s.store.modify ref (addMsgInfo · indx message.length mtime) })

/-! ### Removing and moving a message -/

/-- `carray_delete_fast` and `chash_delete`. -/
def dropMessage (indx : UInt32) (folder : Folder) : Folder :=
  match folder.flMsgsHash.lookup indx with
  | none => folder
  | some msgInfo =>
      { folder with
        flMsgsTab := folder.flMsgsTab.set msgInfo.msgArrayIndex none
        flMsgsHash := folder.flMsgsHash.erase indx }

def mailmhFolderRemoveMessage (unlink : Option Errno) (ref : Nat) (indx : UInt32) (s : State) : Option (Except MhError Unit × State) :=
  match s.store.folder ref with
  | none => none
  | some folder =>
      match unlinkFile s.files unlink (messagePath folder indx) with
      | .error _ => some (.error .file, s)
      | .ok files => some (.ok (), { store := s.store.modify ref (dropMessage indx), files })

/-- How the calls of a move end; those behind the first are made when the file cannot be
given a name in the destination.  The flags say whether `open`, and `fstat` and `mmap`,
succeed. -/
structure MoveCalls where
  alloc : AllocCalls
  openFile : Bool
  map : Bool
  add : AddCalls
  unlink : Option Errno

/-- An empty file cannot be mapped. -/
def mailmhFolderAddMessageFile (calls : MoveCalls) (ref : Nat) (content : List UInt8) (s : State) :
    Option (Except MhError UInt32 × State) :=
  if calls.map = false ∨ content = [] then some (.error .file, s) else mailmhFolderAddMessageUid calls.add ref content s

def mailmhFolderMoveMessage (calls : MoveCalls) (dest src : Nat) (indx : UInt32) (s : State) : Option (Except MhError Unit × State) :=
  match s.store.folder src, s.store.folder dest with
  | some srcFolder, some destFolder =>
      let filename := messagePath srcFolder indx
      match mailmhFolderAllocMsg calls.alloc dest destFolder filename s with
      | (.ok _, s) => some (.ok (), s)
      | (.error _, s) =>
          match s.files.lookup filename with
          | none => some (.error .msgNotFound, s)
          | some content =>
              if calls.openFile then
                match mailmhFolderAddMessageFile calls dest content s with
                | none => none
                | some (.error error, s) => some (.error error, s)
                | some (.ok _, s) => (mailmhFolderRemoveMessage calls.unlink src indx s).map fun removed => (.ok (), removed.2)
              else some (.error .msgNotFound, s)
  | _, _ => none

end Etpan.Mh
