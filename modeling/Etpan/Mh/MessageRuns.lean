import Etpan.Mh.MessageTables

namespace Etpan.Mh

open Etpan.Data

/-! Each operation on messages keeps to what is promised where its calls end as the code
expects, and so does every run. -/

variable {s s' : State} {ref : Nat} {folder : Folder} {indx : UInt32}

def FilesStay (files files' : Files (List UInt8)) : Prop :=
  ∀ path content, files.lookup path = some content → files'.lookup path = some content

theorem filesStay_insert {files : Files (List UInt8)} {path : List UInt8} (fresh : path ∉ files) (content : List UInt8) :
    FilesStay files (files.insert path content) := by
  intro other found there
  have differs : other ≠ path := by
    rintro rfl
    exact fresh (AList.lookup_isSome.mp (by rw [there]; rfl))
  rw [AList.lookup_insert_ne differs, there]

/-- What giving a file its name leaves. -/
structure Allocated (calls : AllocCalls) (ref : Nat) (folder : Folder) (filename : List UInt8) (s s' : State) (k : Nat) : Prop where
  taken : Taken calls folder filename s.files k
  names : Names calls folder filename s.files k s'.files
  acts : ∃ folder', Acts s.store s'.store ref folder folder' ∧
    ∀ indx, Once folder indx → (MAX_TRY_ALLOC / 2 < k → calls.reading.Once folder indx) → Once folder' indx

theorem alloc_cases (live : s.store.folder ref = some folder) (calls : AllocCalls) (filename : List UInt8) :
    (mailmhFolderAllocMsg calls ref folder filename s = (.error .folder, s) ∧ ∀ k, ¬ Taken calls folder filename s.files k) ∨
      ∃ k s', mailmhFolderAllocMsg calls ref folder filename s = (.ok (candidate folder k), s') ∧
        Allocated calls ref folder filename s s' k := by
  rw [mailmhFolderAllocMsg]
  cases got : allocLoop calls folder filename s.files MAX_TRY_ALLOC 0 with
  | none => exact Or.inl ⟨rfl, fun k => allocLoop_none got (Nat.zero_add _) k (Nat.zero_le k)⟩
  | some named =>
      obtain ⟨k, files⟩ := named
      obtain ⟨taken, names⟩ := allocLoop_some (fun j before => absurd before (Nat.not_lt_zero j)) (Nat.zero_add _) got
      refine Or.inr ⟨k, _, rfl, taken, names, ?_⟩
      obtain ⟨outcome, store, updated⟩ := update_some live calls.reading
      dsimp only
      split_ifs with many
      · obtain ⟨folder', acts, once⟩ := update_acts live updated
        rw [updated]
        refine ⟨_, acts.trans (.modify acts.live rfl fun indexed => indexed.congr rfl rfl), fun indx before few => ?_⟩
        exact (once indx before (few many)).congr rfl rfl
      · exact ⟨_, .modify live rfl fun indexed => indexed.congr rfl rfl, fun indx before _ => before.congr rfl rfl⟩

def AddCalls.written (calls : AddCalls) (message : List UInt8) : List UInt8 := (writeLoop message calls.writes message.length []).2

/-- What an addition leaves that succeeds and that is safe. -/
structure Added (s s' : State) (folder : Folder) (content : List UInt8) (indx : UInt32) : Prop where
  files : FilesStay s.files s'.files
  fresh : messagePath folder indx ∉ s.files
  stored : s'.files.lookup (messagePath folder indx) = some content

/-- How an addition ends. -/
inductive Adds (calls : AddCalls) (s : State) (ref : Nat) (folder : Folder) (message : List UInt8) :
    Except MhError UInt32 × State → Prop
  | failed {error : MhError} {s' : State} (store : s'.store = s.store) (files : FilesStay s.files s'.files)
      (stuck : ∀ letters k, ¬ calls.Gets folder message s.files letters k) :
      Adds calls s ref folder message (.error error, s')
  | added {letters : List UInt8} {k : Nat} {s' : State} {folder' : Folder} (gets : calls.Gets folder message s.files letters k)
      (acts : Acts s.store s'.store ref folder folder') (lists : Lists folder' (candidate folder k))
      (once : ∀ indx, indx ≠ candidate folder k → Once folder indx →
        (MAX_TRY_ALLOC / 2 < k → calls.alloc.reading.Once folder indx) → Once folder' indx)
      (safe : RenameSafe calls.alloc folder (s.files.insert (tmpName folder letters) message) k →
        Added s s' folder (calls.written message) (candidate folder k)) :
      Adds calls s ref folder message (.ok (candidate folder k), s')

theorem written_eq {calls : AddCalls} {message : List UInt8} (writes : ¬ WriteFails message.length 0 calls.writes)
    (fits : Fits message 0 calls.writes) : calls.written message = message := by
  have fails := writeLoop_fails message calls.writes 0 []
  have same := writeLoop_written message calls.writes 0
  rw [Nat.sub_zero] at fails
  rw [Nat.sub_zero, List.take_zero] at same
  refine same ?_ fits
  by_contra failed
  exact writes (fails.mp (by simpa using failed))

theorem RenameSafe.congr {calls : AllocCalls} {files files' : Files (List UInt8)} {k : Nat} (safe : RenameSafe calls folder files k)
    (same : ∀ path, path ∈ files' ↔ path ∈ files) : RenameSafe calls folder files' k :=
  fun refused => ⟨(safe refused).1, fun there => (safe refused).2 ((same _).mp there)⟩

theorem add_adds (live : s.store.folder ref = some folder) (calls : AddCalls) (message : List UInt8) :
    ∃ ended, mailmhFolderAddMessageUid calls ref message s = some ended ∧ Adds calls s ref folder message ended := by
  have fails := writeLoop_fails message calls.writes 0 []
  rw [Nat.sub_zero] at fails
  have isWritten : calls.written message = (writeLoop message calls.writes message.length []).2 := rfl
  rw [mailmhFolderAddMessageUid, live]
  dsimp only
  cases made : calls.mkstemp with
  | none =>
      refine ⟨_, rfl, .failed rfl (fun _ _ there => there) fun letters k gets => ?_⟩
      have mkstemp := gets.mkstemp
      rw [made] at mkstemp
      cases mkstemp
  | some letters =>
      have only : ∀ {letters' k}, calls.Gets folder message s.files letters' k → letters' = letters := by
        intro letters' k gets
        have mkstemp := gets.mkstemp
        rw [made] at mkstemp
        cases mkstemp
        rfl
      dsimp only
      by_cases exists' : tmpName folder letters ∈ s.files
      · rw [if_pos exists']
        refine ⟨_, rfl, .failed rfl (fun _ _ there => there) fun letters' k gets => ?_⟩
        exact gets.fresh (only gets ▸ exists')
      · rw [if_neg exists']
        cases ended : writeLoop message calls.writes message.length [] with
        | mk succeeds content =>
            rw [ended] at fails isWritten
            have stay := filesStay_insert exists' content
            have keys : ∀ path, path ∈ s.files.insert (tmpName folder letters) content ↔
                path ∈ s.files.insert (tmpName folder letters) message := by
              intro path
              rw [AList.mem_insert, AList.mem_insert]
            cases succeeds with
            | false => exact ⟨_, rfl, .failed rfl stay fun letters' k gets => gets.writes (fails.mp rfl)⟩
            | true =>
                cases stat : calls.stat with
                | none => exact ⟨_, rfl, .failed rfl stay fun letters' k gets => gets.stat stat⟩
                | some mtime =>
                    dsimp only
                    have liveNow : ({ s with files := s.files.insert (tmpName folder letters) content } : State).store.folder ref = some folder := live
                    rcases alloc_cases liveNow calls.alloc (tmpName folder letters) with ⟨failed, none'⟩ | ⟨k, s', named, allocated⟩
                    · rw [failed]
                      refine ⟨_, rfl, .failed rfl (fun path found there => ?_) fun letters' k gets => ?_⟩
                      · have differs : path ≠ tmpName folder letters := by
                          rintro rfl
                          exact exists' (AList.lookup_isSome.mp (by rw [there]; rfl))
                        exact (ignoringErrors_unlinkFile differs).trans (stay path found there)
                      · have taken := gets.taken
                        rw [only gets] at taken
                        exact none' k (taken.congr keys)
                    · rw [named]
                      obtain ⟨taken, names, next, acts, once⟩ := allocated
                      have gets : calls.Gets folder message s.files letters k :=
                        ⟨made, exists', fun writeFails => absurd (fails.mpr writeFails) (by simp), by rw [stat]; simp,
                          taken.congr fun path => (keys path).symm⟩
                      refine ⟨_, rfl, .added gets (acts.trans (.modify acts.live rfl fun indexed => indexed.addMsgInfo _ _ mtime))
                        (lists_addMsgInfo next _ _ _) (fun indx differs before few => ?_) fun renameSafe => ?_⟩
                      · exact (once indx before few).addMsgInfo differs.symm _ _
                      · obtain ⟨moved, absent⟩ := names.moved (AList.lookup_insert _) (renameSafe.congr keys)
                        have fresh : messagePath folder (candidate folder k) ∉ s.files := fun there =>
                          absent ((AList.mem_insert _).mpr (Or.inr there))
                        refine ⟨fun path found there => ?_, fresh, by rw [isWritten]; exact moved.found⟩
                        have present : path ∈ s.files := AList.lookup_isSome.mp (by rw [there]; rfl)
                        have notTmp : path ≠ tmpName folder letters := fun same => exists' (same ▸ present)
                        exact (moved.others path notTmp fun same => fresh (same ▸ present)).trans (stay path found there)

structure Removed (s s' : State) (ref : Nat) (folder : Folder) (indx : UInt32) : Prop where
  files : s'.files = s.files.erase (messagePath folder indx)
  acts : Acts s.store s'.store ref folder (dropMessage indx folder)

theorem remove_cases' (live : s.store.folder ref = some folder) (unlink : Option Errno) (indx : UInt32) :
    mailmhFolderRemoveMessage unlink ref indx s = some (.error .file, s) ∧ (unlink ≠ none ∨ messagePath folder indx ∉ s.files) ∨
      ∃ s', mailmhFolderRemoveMessage unlink ref indx s = some (.ok (), s') ∧ unlink = none ∧ Removed s s' ref folder indx := by
  rw [mailmhFolderRemoveMessage, live]
  dsimp only
  cases unlink with
  | some errno => exact Or.inl ⟨rfl, Or.inl (by simp)⟩
  | none =>
      rw [unlinkFile]
      split_ifs with there
      · exact Or.inr ⟨_, rfl, rfl, rfl, .modify live (dropMessage_filename indx folder) fun indexed => indexed.dropMessage indx⟩
      · exact Or.inl ⟨rfl, Or.inr there⟩

theorem Removed.lacks (removed : Removed s s' ref folder indx) (once : Once folder indx) : Lacks s' ref indx := by
  refine ⟨_, removed.acts.live, ?_, dropMessage_unlisted once⟩
  rw [messagePath, removed.acts.filename, ← messagePath, removed.files, AList.mem_erase]
  exact fun gone => gone.1 rfl

theorem Removed.others (removed : Removed s s' ref folder indx) {path : List UInt8} (differs : path ≠ messagePath folder indx) :
    s'.files.lookup path = s.files.lookup path := by
  rw [removed.files, AList.lookup_erase_ne differs]

theorem Removed.has {dest src : Nat} {srcFolder destFolder : Folder} {added moved : UInt32} {message : List UInt8}
    (removed : Removed s s' src srcFolder moved) (indexed : AllIndexed s.store) (srcLive : s.store.folder src = some srcFolder)
    (destLive : s.store.folder dest = some destFolder) (lists : Lists destFolder added)
    (stored : s.files.lookup (messagePath destFolder added) = some message)
    (differs : messagePath destFolder added ≠ messagePath srcFolder moved) : Has s' dest added message := by
  by_cases same : dest = src
  · rw [same, srcLive] at destLive
    cases destLive
    have indices : added ≠ moved := by
      rintro rfl
      exact differs rfl
    obtain ⟨msgInfo, found, number, there⟩ := lists
    obtain ⟨found', there'⟩ := dropMessage_keeps (indexed src srcFolder srcLive) indices found
    refine ⟨_, same ▸ removed.acts.live, ?_, msgInfo, found', number, there'⟩
    rw [messagePath, removed.acts.filename, ← messagePath, removed.others differs, stored]
  · exact ⟨destFolder, removed.acts.others dest destFolder same destLive, by rw [removed.others differs, stored], lists⟩

inductive Moves (calls : MoveCalls) (s : State) (dest src : Nat) (srcFolder : Folder) (indx : UInt32) :
    Option (Except MhError Unit × State) → Prop
  | failed {error : MhError} {s' : State} (files : FilesStay s.files s'.files) (indexed : AllIndexed s.store → AllIndexed s'.store) :
      Moves calls s dest src srcFolder indx (some (.error error, s'))
  | moved {s' : State} {content : List UInt8} {added : UInt32} (stored : s.files.lookup (messagePath srcFolder indx) = some content)
      (lacks : Lacks s' src indx) (has : Has s' dest added content) (indexed : AllIndexed s'.store)
      (files : ∀ path found, path ≠ messagePath srcFolder indx → s.files.lookup path = some found → s'.files.lookup path = some found) :
      Moves calls s dest src srcFolder indx (some (.ok (), s'))

theorem move_moves {dest src : Nat} {srcFolder destFolder : Folder} {calls : MoveCalls} (indexed : AllIndexed s.store)
    (srcLive : s.store.folder src = some srcFolder) (destLive : s.store.folder dest = some destFolder)
    (safe : calls.Safe dest src srcFolder destFolder indx s.files) :
    Moves calls s dest src srcFolder indx (mailmhFolderMoveMessage calls dest src indx s) := by
  rw [mailmhFolderMoveMessage, srcLive, destLive]
  dsimp only
  rcases alloc_cases destLive calls.alloc (messagePath srcFolder indx) with ⟨failed, _⟩ | ⟨k, _, _, allocated⟩
  swap
  · exact absurd allocated.taken (safe.copied k)
  rw [failed]
  dsimp only
  cases stored : s.files.lookup (messagePath srcFolder indx) with
  | none => exact .failed (fun _ _ there => there) id
  | some content =>
      dsimp only
      cases opened : calls.openFile with
      | false => exact .failed (fun _ _ there => there) id
      | true =>
          rw [if_pos rfl, mailmhFolderAddMessageFile]
          by_cases unmapped : calls.map = false ∨ content = []
          · rw [if_pos unmapped]
            exact .failed (fun _ _ there => there) id
          · rw [if_neg unmapped]
            obtain ⟨mapped, nonempty⟩ := not_or.mp unmapped
            obtain ⟨ended, adds, cases'⟩ := add_adds destLive calls.add content
            rw [adds]
            cases cases' with
            | failed store files _ => exact .failed files fun before => by rw [store]; exact before
            | @added letters k between destFolder' gets acts lists once isSafe =>
                obtain ⟨fits, renameSafe, unlinks, isOnce, reading⟩ :=
                  safe.safe content letters k stored opened (by simpa using mapped) nonempty gets
                obtain ⟨files, fresh, present⟩ := isSafe renameSafe
                rw [written_eq gets.writes fits] at present
                have srcThere := files _ _ stored
                have differs : messagePath destFolder (candidate destFolder k) ≠ messagePath srcFolder indx := by
                  intro same
                  rw [same] at fresh
                  exact fresh (AList.lookup_isSome.mp (by rw [stored]; rfl))
                have indexed' := acts.indexed indexed
                have samePath : ∀ indx, messagePath destFolder' indx = messagePath destFolder indx := by
                  intro indx
                  rw [messagePath, acts.filename, ← messagePath]
                -- the source, as the addition leaves it
                obtain ⟨srcFolder', srcLive', srcPath, srcOnce⟩ : ∃ srcFolder', between.store.folder src = some srcFolder' ∧
                    messagePath srcFolder' indx = messagePath srcFolder indx ∧ Once srcFolder' indx := by
                  by_cases same : dest = src
                  · rw [same, srcLive] at destLive
                    cases destLive
                    refine ⟨destFolder', same ▸ acts.live, samePath indx, once indx ?_ isOnce fun many => reading same many⟩
                    rintro rfl
                    exact differs rfl
                  · exact ⟨srcFolder, acts.others src srcFolder (Ne.symm same) srcLive, rfl, isOnce⟩
                rcases remove_cases' srcLive' calls.unlink indx with
                  ⟨_, reason⟩ | ⟨s', removes, _, removed⟩
                · rcases reason with faulty | missing
                  · exact absurd unlinks faulty
                  · exact absurd (AList.lookup_isSome.mp (by rw [srcPath, srcThere]; rfl)) missing
                · dsimp only
                  rw [removes]
                  have storedThere : between.files.lookup (messagePath destFolder' (candidate destFolder k)) = some content := by
                    rw [samePath, present]
                  have apart : messagePath destFolder' (candidate destFolder k) ≠ messagePath srcFolder' indx := by
                    rw [samePath, srcPath]
                    exact differs
                  refine .moved stored (removed.lacks srcOnce) (removed.has indexed' srcLive' acts.live lists storedThere apart)
                    (removed.acts.indexed indexed') fun path found other there => ?_
                  rw [removed.others (by rw [srcPath]; exact other)]
                  exact files path found there

/-- What an operation that is safe does, with the invariant behind it. -/
structure Steps (s : State) (operation : MessageOperation) : Prop where
  kept : KeptMessages s operation
  indexed : ∀ outcome s', operation.run s = some (outcome, s') → AllIndexed s'.store

theorem Steps.of_none {operation : MessageOperation} (stuck : operation.run s = none) : Steps s operation := by
  constructor
  · constructor
    · intro outcome s' path content ran
      rw [stuck] at ran
      cases ran
    · intro indx s' ran
      rw [stuck] at ran
      cases ran
  · intro outcome s' ran
    rw [stuck] at ran
    cases ran

theorem Steps.of_some {operation : MessageOperation} {outcome : Except MhError (Option UInt32)} (ran : operation.run s = some (outcome, s'))
    (files : ∀ path content, s.files.lookup path = some content →
      s'.files.lookup path = some content ∨ (∃ indx, outcome = .ok indx) ∧ operation.Takes s path)
    (effect : ∀ indx, outcome = .ok indx → operation.Effect s s' indx) (indexed : AllIndexed s'.store) : Steps s operation := by
  constructor
  · constructor
    · intro other after path content ends
      rw [ran] at ends
      cases ends
      exact files path content
    · intro indx after ends
      rw [ran] at ends
      cases ends
      exact effect indx rfl
  · intro other after ends
    rw [ran] at ends
    cases ends
    exact indexed

theorem update_steps (indexed : AllIndexed s.store) (reading : Reading) : Steps s (.update ref reading) := by
  cases live : s.store.folder ref with
  | none => exact .of_none (by simp only [MessageOperation.run, mailmhFolderUpdate, live, Option.map_none])
  | some folder =>
      obtain ⟨outcome, store, updated⟩ := update_some live reading
      obtain ⟨_, acts, _⟩ := update_acts live updated
      have ran : MessageOperation.run (.update ref reading) s = some (outcome.map fun _ => none, { s with store }) := by
        rw [MessageOperation.run, updated]
        rfl
      exact .of_some ran (fun path content there => Or.inl there) (fun _ _ => trivial) (acts.indexed indexed)

theorem add_steps {calls : AddCalls} {message : List UInt8} (indexed : AllIndexed s.store) (safe : MessageSafe s (.add calls ref message)) :
    Steps s (.add calls ref message) := by
  cases live : s.store.folder ref with
  | none => exact .of_none (by simp only [MessageOperation.run, mailmhFolderAddMessageUid, live, Option.map_none])
  | some folder =>
      obtain ⟨ended, isAdd, adds⟩ := add_adds live calls message
      cases adds with
      | failed store files _ =>
          refine .of_some (by rw [MessageOperation.run, isAdd]; rfl) (fun path content there => Or.inl (files path content there)) ?_ ?_
          · intro indx isOk
            cases isOk
          · rw [store]
            exact indexed
      | @added letters k between folder' gets acts lists once isSafe =>
          obtain ⟨fits, renameSafe⟩ := safe folder live letters k gets
          obtain ⟨files, _, stored⟩ := isSafe renameSafe
          rw [written_eq gets.writes fits] at stored
          refine .of_some (by rw [MessageOperation.run, isAdd]; rfl) (fun path content there => Or.inl (files path content there)) ?_
            (acts.indexed indexed)
          intro indx isOk
          cases isOk
          refine ⟨_, rfl, folder', acts.live, ?_, lists⟩
          rw [messagePath, acts.filename, ← messagePath, stored]

theorem remove_steps {unlink : Option Errno} (indexed : AllIndexed s.store) (safe : MessageSafe s (.remove unlink ref indx)) :
    Steps s (.remove unlink ref indx) := by
  cases live : s.store.folder ref with
  | none => exact .of_none (by simp only [MessageOperation.run, mailmhFolderRemoveMessage, live, Option.map_none])
  | some folder =>
      rcases remove_cases' live unlink indx with ⟨failed, _⟩ | ⟨s', removes, unlinks, removed⟩
      · refine .of_some (by rw [MessageOperation.run, failed]; rfl) (fun path content there => Or.inl there) ?_ indexed
        intro _ isOk
        cases isOk
      · refine .of_some (by rw [MessageOperation.run, removes]; rfl) (fun path content there => ?_)
          (fun _ _ => removed.lacks (safe folder live unlinks)) (removed.acts.indexed indexed)
        by_cases isPath : path = messagePath folder indx
        · exact Or.inr ⟨⟨none, rfl⟩, folder, live, isPath⟩
        · rw [removed.others isPath]
          exact Or.inl there

theorem move_steps {calls : MoveCalls} {dest src : Nat} (indexed : AllIndexed s.store) (safe : MessageSafe s (.move calls dest src indx)) :
    Steps s (.move calls dest src indx) := by
  cases srcLive : s.store.folder src with
  | none => exact .of_none (by simp only [MessageOperation.run, mailmhFolderMoveMessage, srcLive, Option.map_none])
  | some srcFolder =>
      cases destLive : s.store.folder dest with
      | none => exact .of_none (by simp only [MessageOperation.run, mailmhFolderMoveMessage, srcLive, destLive, Option.map_none])
      | some destFolder =>
          have moves := move_moves indexed srcLive destLive (safe srcFolder destFolder srcLive destLive)
          cases moved : mailmhFolderMoveMessage calls dest src indx s with
          | none =>
              rw [moved] at moves
              cases moves
          | some ended =>
              rw [moved] at moves
              cases moves with
              | failed files indexed' =>
                  refine .of_some (by rw [MessageOperation.run, moved]; rfl) (fun path content there => Or.inl (files path content there))
                    ?_ (indexed' indexed)
                  intro _ isOk
                  cases isOk
              | @moved s' content added stored lacks has indexed' files =>
                  refine .of_some (by rw [MessageOperation.run, moved]; rfl) (fun path found there => ?_)
                    (fun _ _ => ⟨lacks, srcFolder, content, added, srcLive, stored, has⟩) indexed'
                  by_cases isPath : path = messagePath srcFolder indx
                  · exact Or.inr ⟨⟨none, rfl⟩, srcFolder, srcLive, isPath⟩
                  · exact Or.inl (files path found isPath there)

theorem safe_steps {operation : MessageOperation} (indexed : AllIndexed s.store) (safe : MessageSafe s operation) : Steps s operation := by
  cases operation with
  | update ref reading => exact update_steps indexed reading
  | add calls ref message => exact add_steps indexed safe
  | remove unlink ref indx => exact remove_steps indexed safe
  | move calls dest src indx => exact move_steps indexed safe

def Unread (s : Store) : Prop :=
  ∀ ref folder, s.folder ref = some folder → folder.flMsgsTab = [] ∧ folder.flMsgsHash = ∅

theorem Unread.indexed {s : Store} (unread : Unread s) : AllIndexed s := by
  intro ref folder live indx msgInfo found
  rw [(unread ref folder live).2] at found
  cases found

theorem eachStep_kept {operations : List MessageOperation} (indexed : AllIndexed s.store) (safe : EachStep MessageSafe s operations) :
    EachStep KeptMessages s operations := by
  induction operations generalizing s with
  | nil => trivial
  | cons operation operations ih =>
      have steps := safe_steps indexed safe.1
      exact ⟨steps.kept, fun outcome s' ran => ih (steps.indexed outcome s' ran) (safe.2 outcome s' ran)⟩

/-- From new folders and any files on, every operation of a run whose operations are safe keeps
to what is promised. -/
theorem run_kept {operations : List MessageOperation} (unread : Unread s.store) (safe : EachStep MessageSafe s operations) :
    EachStep KeptMessages s operations :=
  eachStep_kept unread.indexed safe

def addCalls (writes : List (Option Nat)) : AddCalls where
  mkstemp := some (asciiText "aaaaaa")
  writes
  stat := some 1
  alloc := ⟨fun _ => ⟨none, none, none⟩, ⟨some 0, none⟩⟩
  unlink := none

def newFolder : State := ⟨mailmhNew (asciiText "mh"), ∅⟩

theorem newFolder_unread : Unread newFolder.store := by
  intro ref folder live
  rw [newFolder, mailmhNew, Store.alloc_folder] at live
  split_ifs at live
  · cases live
    exact ⟨rfl, rfl⟩
  · cases live

/-- Two messages are added; the second is written in two pieces that are alike. -/
theorem twoAdditions_kept : EachStep KeptMessages newFolder
    [.add (addCalls []) 0 (asciiText "ab"), .add (addCalls [some 2]) 0 (asciiText "abab")] := by
  refine run_kept newFolder_unread ⟨fun folder live letters k gets => ?_, fun _ s' ran => ⟨fun folder live letters k gets => ?_, fun _ _ _ => trivial⟩⟩
  · refine ⟨show (asciiText "ab").take _ = _ by decide, fun refused => ?_⟩
    cases refused
  · refine ⟨fun _ => ⟨by decide, show (asciiText "abab").take _ = _ by decide⟩, fun refused => ?_⟩
    cases refused

def mainFolder : Folder := mailmhFolderNew none (asciiText "mh") 0

theorem firstPath : messagePath mainFolder (candidate mainFolder 0) = asciiText "mh/1" := by
  show inside (asciiText "mh") (decimal 1) = _
  rw [decimal, if_pos (by decide)]
  decide

/-- The first round names the file, as no file has the name. -/
theorem shortWrite_gets : (addCalls [some 1]).Gets mainFolder (asciiText "ab") newFolder.files (asciiText "aaaaaa") 0 where
  mkstemp := rfl
  fresh := fun there => by cases there
  writes := fun fails => fails.2
  stat := fun absent => by cases absent
  taken := ⟨by decide, fun j before => absurd before (Nat.not_lt_zero j), by
    show _ ∈ _ ∧ messagePath mainFolder (candidate mainFolder 0) ∉ _
    rw [firstPath]
    decide⟩

/-- After a short write the message is written from its start again. -/
theorem shortWrite_not_kept : ¬∀ (s : State) (operations : List MessageOperation), Unread s.store → EachStep KeptMessages s operations := by
  intro always
  have kept := (always newFolder [.add (addCalls [some 1]) 0 (asciiText "ab")] newFolder_unread).1
  obtain ⟨ended, isAdd, adds⟩ := add_adds (show newFolder.store.folder 0 = some mainFolder from rfl) (addCalls [some 1]) (asciiText "ab")
  cases adds with
  | failed _ _ stuck => exact stuck _ _ shortWrite_gets
  | added gets acts _ _ safe =>
      have stored := (safe fun refused => by cases refused).stored
      obtain ⟨added, isAdded, folder, live, found, _⟩ := kept.effect _ _ (by rw [MessageOperation.run, isAdd]; rfl)
      cases isAdded
      rw [acts.live] at live
      cases live
      rw [messagePath, acts.filename, ← messagePath, stored] at found
      exact absurd found (by decide)

end Etpan.Mh
