import Etpan.Mh.Messages

namespace Etpan.Mh

open Etpan.Data

/-! The messages of folders over runs: what an operation promises, and when it keeps to it. -/

inductive MessageOperation where
  | update (ref : Nat) (reading : Reading)
  | add (calls : AddCalls) (ref : Nat) (message : List UInt8)
  | remove (unlink : Option Errno) (ref : Nat) (indx : UInt32)
  | move (calls : MoveCalls) (dest src : Nat) (indx : UInt32)

/-- The index is the one that an addition returns. -/
def MessageOperation.run : MessageOperation → State → Option (Except MhError (Option UInt32) × State)
  | .update ref reading, s =>
      (mailmhFolderUpdate s.store ref reading).map fun (outcome, store) => (outcome.map fun _ => none, { s with store })
  | .add calls ref message, s => (mailmhFolderAddMessageUid calls ref message s).map fun (outcome, s) => (outcome.map some, s)
  | .remove unlink ref indx, s => (mailmhFolderRemoveMessage unlink ref indx s).map fun (outcome, s) => (outcome.map fun _ => none, s)
  | .move calls dest src indx, s => (mailmhFolderMoveMessage calls dest src indx s).map fun (outcome, s) => (outcome.map fun _ => none, s)

/-- Each operation of a run has the property, in the state that it is called in; a run does not
go on behind an operation on a folder that has been freed. -/
def EachStep (property : State → MessageOperation → Prop) : State → List MessageOperation → Prop
  | _, [] => True
  | s, operation :: operations =>
      property s operation ∧ ∀ outcome s', operation.run s = some (outcome, s') → EachStep property s' operations

def Lists (folder : Folder) (indx : UInt32) : Prop :=
  ∃ msgInfo, folder.flMsgsHash.lookup indx = some msgInfo ∧ msgInfo.msgIndex = indx ∧
    folder.flMsgsTab[msgInfo.msgArrayIndex]? = some (some msgInfo)

structure Unlisted (folder : Folder) (indx : UInt32) : Prop where
  tab : ∀ msgInfo, some msgInfo ∈ folder.flMsgsTab → msgInfo.msgIndex ≠ indx
  hash : folder.flMsgsHash.lookup indx = none

def Has (s : State) (ref : Nat) (indx : UInt32) (message : List UInt8) : Prop :=
  ∃ folder, s.store.folder ref = some folder ∧ s.files.lookup (messagePath folder indx) = some message ∧ Lists folder indx

def Lacks (s : State) (ref : Nat) (indx : UInt32) : Prop :=
  ∃ folder, s.store.folder ref = some folder ∧ messagePath folder indx ∉ s.files ∧ Unlisted folder indx

def MessageOperation.Takes (operation : MessageOperation) (s : State) (path : List UInt8) : Prop :=
  match operation with
  | .remove _ ref indx => ∃ folder, s.store.folder ref = some folder ∧ path = messagePath folder indx
  | .move _ _ src indx => ∃ folder, s.store.folder src = some folder ∧ path = messagePath folder indx
  | _ => False

/-- What an operation does when it succeeds. -/
def MessageOperation.Effect (operation : MessageOperation) (s s' : State) (indx : Option UInt32) : Prop :=
  match operation with
  | .update _ _ => True
  | .add _ ref message => ∃ added, indx = some added ∧ Has s' ref added message
  | .remove _ ref removed => Lacks s' ref removed
  | .move _ dest src moved => Lacks s' src moved ∧ ∃ folder content added, s.store.folder src = some folder ∧
      s.files.lookup (messagePath folder moved) = some content ∧ Has s' dest added content

/-- Files that were there are there, with what they contained, but for one that is taken away
by an operation that succeeds; and an operation that succeeds has its effect. -/
structure KeptMessages (s : State) (operation : MessageOperation) : Prop where
  files : ∀ outcome s' path content, operation.run s = some (outcome, s') → s.files.lookup path = some content →
    s'.files.lookup path = some content ∨ (∃ indx, outcome = .ok indx) ∧ operation.Takes s path
  effect : ∀ indx s', operation.run s = some (.ok indx, s') → operation.Effect s s' indx

/-- A round does not get the file its name, and another one follows. -/
def Refused (calls : AllocCalls) (folder : Folder) (filename : List UInt8) (files : Files (List UInt8)) (k : Nat) : Prop :=
  match (calls.attempts k).link with
  | none => filename ∉ files ∨ messagePath folder (candidate folder k) ∈ files
  | some errno => errno ≠ .exdev ∧ errno ≠ .eperm

/-- The first round that is not refused links the file, or tries a rename. -/
structure Taken (calls : AllocCalls) (folder : Folder) (filename : List UInt8) (files : Files (List UInt8)) (k : Nat) : Prop where
  tries : k < MAX_TRY_ALLOC
  refused : ∀ j < k, Refused calls folder filename files j
  taken : match (calls.attempts k).link with
    | none => filename ∈ files ∧ messagePath folder (candidate folder k) ∉ files
    | some errno => errno = .eperm

/-- Each write, from the start of the message, writes the octets that stand at its place in it. -/
def Fits (message : List UInt8) : Nat → List (Option Nat) → Prop
  | place, [] => message.take (message.length - place) = message.drop place
  | _, none :: _ => True
  | place, some res :: writes =>
      place < message.length → message.take (min res (message.length - place)) = (message.drop place).take res ∧
        Fits message (place + res) writes

/-- A call to `write` fails before the whole message is written. -/
def WriteFails (size : Nat) : Nat → List (Option Nat) → Prop
  | _, [] => False
  | place, none :: _ => place < size
  | place, some res :: writes => place < size ∧ WriteFails size (place + res) writes

/-- A rename succeeds, and gives the file a name that is free. -/
def RenameSafe (calls : AllocCalls) (folder : Folder) (files : Files (List UInt8)) (k : Nat) : Prop :=
  (calls.attempts k).link = some .eperm →
    (calls.attempts k).rename = none ∧ messagePath folder (candidate folder k) ∉ files

/-- The calls of an addition succeed, up to a round that names the file. -/
structure AddCalls.Gets (calls : AddCalls) (folder : Folder) (message : List UInt8) (files : Files (List UInt8))
    (letters : List UInt8) (k : Nat) : Prop where
  mkstemp : calls.mkstemp = some letters
  fresh : tmpName folder letters ∉ files
  writes : ¬ WriteFails message.length 0 calls.writes
  stat : calls.stat ≠ none
  taken : Taken calls.alloc folder (tmpName folder letters) (files.insert (tmpName folder letters) message) k

/-- If the message gets as far as a name, it has been written as it is, and the name was free. -/
def AddCalls.Safe (calls : AddCalls) (folder : Folder) (message : List UInt8) (files : Files (List UInt8)) : Prop :=
  ∀ letters k, calls.Gets folder message files letters k →
    Fits message 0 calls.writes ∧ RenameSafe calls.alloc folder (files.insert (tmpName folder letters) message) k

/-- The table has a message only where the hash says. -/
def Once (folder : Folder) (indx : UInt32) : Prop :=
  ∀ i msgInfo, folder.flMsgsTab[i]? = some (some msgInfo) → msgInfo.msgIndex = indx →
    ∃ found, folder.flMsgsHash.lookup indx = some found ∧ found.msgArrayIndex = i

def Dirent.number (ent : Dirent) : Option UInt32 :=
  match ent.kind with
  | .regular _ _ => if UInt32.ofNat (Mbox.strtoul ent.dName) ≠ 0 then some (UInt32.ofNat (Mbox.strtoul ent.dName)) else none
  | _ => none

def Reading.Once (reading : Reading) (folder : Folder) (indx : UInt32) : Prop :=
  ∀ mtime listing, reading.mtime = some mtime → folder.flMtime ≠ mtime → reading.listing = some listing →
    (listing.entries.filterMap Dirent.number).count indx ≤ 1

/-- The file gets no name in the destination; and if it is copied there, the copy is safe, and
the message can be removed from the source, whose table has it once. -/
structure MoveCalls.Safe (calls : MoveCalls) (dest src : Nat) (srcFolder destFolder : Folder) (indx : UInt32)
    (files : Files (List UInt8)) : Prop where
  copied : ∀ k, ¬ Taken calls.alloc destFolder (messagePath srcFolder indx) files k
  safe : ∀ content letters k, files.lookup (messagePath srcFolder indx) = some content → calls.openFile = true → calls.map = true →
    content ≠ [] → calls.add.Gets destFolder content files letters k →
      Fits content 0 calls.add.writes ∧ RenameSafe calls.add.alloc destFolder (files.insert (tmpName destFolder letters) content) k ∧
        calls.unlink = none ∧ Once srcFolder indx ∧
        (dest = src → MAX_TRY_ALLOC / 2 < k → calls.add.alloc.reading.Once srcFolder indx)

/-- What the operations need, in the state that they are called in. -/
def MessageSafe (s : State) : MessageOperation → Prop
  | .update _ _ => True
  | .add calls ref message => ∀ folder, s.store.folder ref = some folder → calls.Safe folder message s.files
  | .remove unlink ref indx => ∀ folder, s.store.folder ref = some folder → unlink = none → Once folder indx
  | .move calls dest src indx => ∀ srcFolder destFolder, s.store.folder src = some srcFolder → s.store.folder dest = some destFolder →
      calls.Safe dest src srcFolder destFolder indx s.files

def Indexed (folder : Folder) : Prop :=
  ∀ indx msgInfo, folder.flMsgsHash.lookup indx = some msgInfo → msgInfo.msgIndex = indx ∧
    folder.flMsgsTab[msgInfo.msgArrayIndex]? = some (some msgInfo)

variable {calls : AllocCalls} {folder : Folder} {filename : List UInt8} {files : Files (List UInt8)}

theorem Taken.congr {files' : Files (List UInt8)} {k : Nat} (taken : Taken calls folder filename files k)
    (same : ∀ path, path ∈ files' ↔ path ∈ files) : Taken calls folder filename files' k := by
  obtain ⟨tries, refused, taken⟩ := taken
  refine ⟨tries, fun j before => ?_, ?_⟩
  · have refusedHere := refused j before
    rw [Refused] at refusedHere ⊢
    cases link : (calls.attempts j).link with
    | none => simpa only [link, same] using refusedHere
    | some errno => simpa only [link] using refusedHere
  · cases link : (calls.attempts k).link with
    | none => simpa only [link, same] using taken
    | some errno => simpa only [link] using taken

theorem linkFile_cases (files : Files (List UInt8)) (fault : Option Errno) (source target : List UInt8) :
    (∃ errno, fault = some errno ∧ linkFile files fault source target = .error errno) ∨
      (∃ errno, fault = none ∧ (source ∉ files ∨ target ∈ files) ∧ linkFile files fault source target = .error errno ∧
        errno ≠ .exdev ∧ errno ≠ .eperm) ∨
      (∃ linked, fault = none ∧ source ∈ files ∧ target ∉ files ∧ linkFile files fault source target = .ok linked) := by
  cases fault with
  | some errno => exact Or.inl ⟨errno, rfl, rfl⟩
  | none =>
      cases found : files.lookup source with
      | none =>
          have absent : source ∉ files := AList.lookup_eq_none.mp found
          exact Or.inr (Or.inl ⟨.enoent, rfl, Or.inl absent, by simp [linkFile, found], by simp, by simp⟩)
      | some content =>
          have present : source ∈ files := AList.lookup_isSome.mp (by rw [found]; rfl)
          by_cases there : target ∈ files
          · exact Or.inr (Or.inl ⟨.eexist, rfl, Or.inr there, by simp [linkFile, found, there], by simp, by simp⟩)
          · exact Or.inr (Or.inr ⟨files.insert target content, rfl, present, there, by simp [linkFile, found, there]⟩)

theorem allocLoop_error {rounds k : Nat} {errno : Errno} (notExdev : errno ≠ .exdev) (notEperm : errno ≠ .eperm)
    (failed : linkFile files (calls.attempts k).link filename (messagePath folder (candidate folder k)) = .error errno) :
    allocLoop calls folder filename files (rounds + 1) k = allocLoop calls folder filename files rounds (k + 1) := by
  rw [allocLoop, failed]
  cases errno with
  | exdev => exact absurd rfl notExdev
  | eperm => exact absurd rfl notEperm
  | enoent => rfl
  | eexist => rfl
  | other number => rfl

theorem allocLoop_refused {rounds k : Nat} (refused : Refused calls folder filename files k) :
    allocLoop calls folder filename files (rounds + 1) k = allocLoop calls folder filename files rounds (k + 1) := by
  rw [Refused] at refused
  rcases linkFile_cases files (calls.attempts k).link filename (messagePath folder (candidate folder k)) with
    ⟨errno, fault, failed⟩ | ⟨errno, _, _, failed, notExdev, notEperm⟩ | ⟨_, fault, source, target, _⟩
  · rw [fault] at refused
    exact allocLoop_error refused.1 refused.2 failed
  · exact allocLoop_error notExdev notEperm failed
  · rw [fault] at refused
    rcases refused with missing | there
    · exact absurd source missing
    · exact absurd there target

inductive Names (calls : AllocCalls) (folder : Folder) (filename : List UInt8) (files : Files (List UInt8)) (k : Nat) :
    Files (List UInt8) → Prop
  | link {linked : Files (List UInt8)}
      (made : linkFile files (calls.attempts k).link filename (messagePath folder (candidate folder k)) = .ok linked) :
      Names calls folder filename files k (ignoringErrors linked (unlinkFile linked (calls.attempts k).unlink filename))
  | rename (refused : (calls.attempts k).link = some .eperm) :
      Names calls folder filename files k
        (ignoringErrors files (renameFile files (calls.attempts k).rename filename (messagePath folder (candidate folder k))))

theorem allocLoop_some {rounds k last : Nat} {files' : Files (List UInt8)} (refused : ∀ j < k, Refused calls folder filename files j)
    (bound : k + rounds = MAX_TRY_ALLOC) (got : allocLoop calls folder filename files rounds k = some (last, files')) :
    Taken calls folder filename files last ∧ Names calls folder filename files last files' := by
  induction rounds generalizing k with
  | zero => cases got
  | succ rounds ih =>
      by_cases here : Refused calls folder filename files k
      · rw [allocLoop_refused here] at got
        refine ih (fun j before => ?_) (by omega) got
        rcases Nat.lt_succ_iff_lt_or_eq.mp before with early | rfl
        · exact refused j early
        · exact here
      · have tries : k < MAX_TRY_ALLOC := by omega
        rw [Refused] at here
        rw [allocLoop] at got
        rcases linkFile_cases files (calls.attempts k).link filename (messagePath folder (candidate folder k)) with
          ⟨errno, fault, failed⟩ | ⟨_, fault, taken, _⟩ | ⟨linked, fault, source, target, made⟩
        · rw [fault] at here
          rw [failed] at got
          by_cases isExdev : errno = .exdev
          · rw [isExdev] at got
            cases got
          · have isEperm : errno = .eperm := by
              by_contra notEperm
              exact here ⟨isExdev, notEperm⟩
            rw [isEperm] at got fault
            cases got
            exact ⟨⟨tries, refused, by rw [fault]⟩, .rename fault⟩
        · rw [fault] at here
          exact absurd taken here
        · rw [made] at got
          cases got
          exact ⟨⟨tries, refused, by rw [fault]; exact ⟨source, target⟩⟩, .link made⟩

theorem allocLoop_none {rounds k : Nat} (failed : allocLoop calls folder filename files rounds k = none)
    (bound : k + rounds = MAX_TRY_ALLOC) (last : Nat) (late : k ≤ last) : ¬ Taken calls folder filename files last := by
  induction rounds generalizing k with
  | zero =>
      intro taken
      have tries := taken.tries
      omega
  | succ rounds ih =>
      by_cases here : Refused calls folder filename files k
      · rw [allocLoop_refused here] at failed
        rcases Nat.eq_or_lt_of_le late with rfl | later
        · intro taken
          have taken := taken.taken
          rw [Refused] at here
          cases link : (calls.attempts k).link with
          | none =>
              simp only [link] at taken here
              rcases here with missing | there
              · exact missing taken.1
              · exact taken.2 there
          | some errno =>
              simp only [link] at taken here
              exact here.2 taken
        · exact ih failed (by omega) later
      · intro taken
        rcases Nat.eq_or_lt_of_le late with rfl | later
        · have taken := taken.taken
          rw [allocLoop] at failed
          rcases linkFile_cases files (calls.attempts k).link filename (messagePath folder (candidate folder k)) with
            ⟨errno, fault, cannot⟩ | ⟨errno, fault, refused, _⟩ | ⟨linked, _, _, _, made⟩
          · rw [fault] at taken
            rw [cannot, show errno = .eperm from taken] at failed
            cases failed
          · rw [fault] at taken
            rcases refused with missing | there
            · exact missing taken.1
            · exact taken.2 there
          · rw [made] at failed
            cases failed
        · exact here (taken.refused k later)

theorem Names.moved {k : Nat} {files' : Files (List UInt8)} {content : List UInt8} (names : Names calls folder filename files k files')
    (found : files.lookup filename = some content) (safe : RenameSafe calls folder files k) :
    Moved files files' filename (messagePath folder (candidate folder k)) content ∧
      messagePath folder (candidate folder k) ∉ files := by
  cases names with
  | link made =>
      refine ⟨linkFile_moved found made _, ?_⟩
      rcases linkFile_cases files (calls.attempts k).link filename (messagePath folder (candidate folder k)) with
        ⟨_, _, failed⟩ | ⟨_, _, _, failed, _⟩ | ⟨_, _, _, target, _⟩
      · rw [made] at failed
        cases failed
      · rw [made] at failed
        cases failed
      · exact target
  | rename refused =>
      obtain ⟨succeeds, target⟩ := safe refused
      refine ⟨?_, target⟩
      have made : renameFile files (calls.attempts k).rename filename (messagePath folder (candidate folder k)) =
          .ok ((files.erase filename).insert (messagePath folder (candidate folder k)) content) := by
        simp only [renameFile, succeeds, found]
      rw [made]
      exact renameFile_moved found made

theorem writeLoop_done (message : List UInt8) (writes : List (Option Nat)) (written : List UInt8) :
    writeLoop message writes 0 written = (true, written) := by
  cases writes with
  | nil => rfl
  | cons write writes => cases write <;> rfl

theorem not_writeFails {size place : Nat} (done : size ≤ place) (writes : List (Option Nat)) : ¬ WriteFails size place writes := by
  cases writes with
  | nil => exact not_false
  | cons write writes =>
      cases write with
      | none => exact not_lt.mpr done
      | some res => exact fun fails => not_lt.mpr done fails.1

theorem writeLoop_fails (message : List UInt8) (writes : List (Option Nat)) (place : Nat) (written : List UInt8) :
    (writeLoop message writes (message.length - place) written).1 = false ↔ WriteFails message.length place writes := by
  induction writes generalizing place written with
  | nil =>
      cases left : message.length - place with
      | zero => simp [writeLoop, WriteFails]
      | succ left => simp [writeLoop, WriteFails]
  | cons write writes ih =>
      cases left : message.length - place with
      | zero =>
          have done : message.length ≤ place := by omega
          simp [writeLoop_done, not_writeFails done]
      | succ rest =>
          have more : place < message.length := by omega
          cases write with
          | none => simp [writeLoop, WriteFails, more]
          | some res =>
              rw [writeLoop, WriteFails, show rest + 1 - res = message.length - (place + res) by omega, ih]
              exact (and_iff_right more).symm

theorem writeLoop_written (message : List UInt8) (writes : List (Option Nat)) (place : Nat)
    (succeeds : (writeLoop message writes (message.length - place) (message.take place)).1 = true) (fits : Fits message place writes) :
    (writeLoop message writes (message.length - place) (message.take place)).2 = message := by
  induction writes generalizing place with
  | nil =>
      rw [Fits] at fits
      cases left : message.length - place with
      | zero => rw [writeLoop_done, List.take_of_length_le (by omega)]
      | succ rest =>
          rw [left] at fits
          rw [writeLoop, fits, List.take_append_drop]
  | cons write writes ih =>
      cases left : message.length - place with
      | zero => rw [writeLoop_done, List.take_of_length_le (by omega)]
      | succ rest =>
          rw [left] at succeeds
          cases write with
          | none => cases succeeds
          | some res =>
              obtain ⟨piece, others⟩ := fits (by omega)
              have next : message.take place ++ message.take (min res (rest + 1)) = message.take (place + res) := by
                rw [← left, piece, List.take_add]
              rw [writeLoop, next, show rest + 1 - res = message.length - (place + res) by omega] at succeeds ⊢
              exact ih (place + res) succeeds others

end Etpan.Mh
