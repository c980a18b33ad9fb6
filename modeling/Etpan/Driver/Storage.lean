import Mathlib

/-!
The sessions of a mail storage and its folders. A folder uses the storage's session, and is listed in it, or one of
its own. Using or freeing a session that is not open is a fault, `none`.
-/

namespace Etpan.Driver

structure MailFolder where
  fldSession : Option Nat := none
  fldSharedSession : Bool := false

structure MailStorage where
  stoSession : Option Nat := none
  stoSharedFolders : List Nat := []
  folder : Nat → MailFolder := fun _ => {}
  live : List Nat := []

inductive StorageError where
  | badState
  | driver (code : Nat)
  deriving DecidableEq

/-- What the driver answers: its new storage session, the selection, and a folder's own session or `none` for the storage's. -/
structure DriverAnswers where
  stoConnect : Except Nat Nat
  sessSelectFolder : Except Nat Unit
  stoGetFolderSession : Except Nat (Option Nat)

def mailsessionLogout (storage : MailStorage) (session : Nat) : Option MailStorage :=
  if session ∈ storage.live then some { storage with live := storage.live.erase session } else none

def mailstorageConnect (storage : MailStorage) (answer : Except Nat Nat) : Except StorageError Unit × MailStorage :=
  match storage.stoSession with
  | some _ => (.ok (), storage)
  | none =>
    if !storage.stoSharedFolders.isEmpty then (.error .badState, storage)
    else match answer with
      | .error code => (.error (.driver code), storage)
      | .ok session => (.ok (), { storage with stoSession := some session, live := session :: storage.live })

/-- The part of `mailfolder_connect` behind a connected storage. -/
def mailfolderGetSession (storage : MailStorage) (i : Nat) (answers : DriverAnswers) :
    Option (Except StorageError Unit × MailStorage) :=
  match (storage.folder i).fldSession with
  | some session =>
    if (storage.folder i).fldSharedSession then
      if session ∈ storage.live then some (answers.sessSelectFolder.mapError .driver, storage) else none
    else some (.ok (), storage)
  | none => match answers.stoGetFolderSession with
    | .error code => some (.error (.driver code), storage)
    | .ok own =>
      let session := own.or storage.stoSession
      let shared := session == storage.stoSession
      some (.ok (), { storage with
        folder := Function.update storage.folder i ⟨session, shared⟩
        stoSharedFolders := if shared then storage.stoSharedFolders ++ [i] else storage.stoSharedFolders
        live := own.toList ++ storage.live })

def mailfolderConnect (storage : MailStorage) (i : Nat) (answers : DriverAnswers) :
    Option (Except StorageError Unit × MailStorage) :=
  match mailstorageConnect storage answers.stoConnect with
  | (.error reason, storage) => some (.error reason, storage)
  | (.ok (), storage) => mailfolderGetSession storage i answers

def mailfolderDisconnect (storage : MailStorage) (i : Nat) : Option MailStorage :=
  match (storage.folder i).fldSession with
  | none => some storage
  | some session =>
    let released := { storage with folder := Function.update storage.folder i { storage.folder i with fldSession := none } }
    if (storage.folder i).fldSharedSession then some { released with stoSharedFolders := storage.stoSharedFolders.erase i }
    else mailsessionLogout released session

/-- The loop of `mailstorage_disconnect` disconnects the first listed folder until none is listed. -/
def disconnectShared : Nat → MailStorage → Option MailStorage
  | 0, storage => if storage.stoSharedFolders.isEmpty then some storage else none
  | turns + 1, storage => match storage.stoSharedFolders.head? with
    | none => some storage
    | some i => (mailfolderDisconnect storage i).bind (disconnectShared turns)

def mailstorageDisconnect (storage : MailStorage) : Option MailStorage :=
  (disconnectShared storage.stoSharedFolders.length storage).bind fun storage =>
    match storage.stoSession with
    | none => some storage
    | some session => mailsessionLogout { storage with stoSession := none } session

inductive StorageCall where
  | connect (answer : Except Nat Nat)
  | disconnect
  | connectFolder (i : Nat) (answers : DriverAnswers)
  | disconnectFolder (i : Nat)

def StorageCall.run (storage : MailStorage) : StorageCall → Option (Except StorageError Unit × MailStorage)
  | connect answer => some (mailstorageConnect storage answer)
  | disconnect => (mailstorageDisconnect storage).map (.ok (), ·)
  | connectFolder i answers => mailfolderConnect storage i answers
  | disconnectFolder i => (mailfolderDisconnect storage i).map (.ok (), ·)

/-- A driver opens sessions that are not open yet. -/
def StorageCall.Fresh (storage : MailStorage) : StorageCall → Prop
  | connect answer => ∀ session, answer = .ok session → session ∉ storage.live
  | connectFolder _ answers => (∀ session, answers.stoConnect = .ok session → session ∉ storage.live) ∧
      ∀ session, answers.stoGetFolderSession = .ok (some session) → session ∉ storage.live ∧ answers.stoConnect ≠ .ok session
  | _ => True

/-- The storage's session and the folders' own ones are the open ones, and each has one owner. -/
structure MailStorage.Sound (storage : MailStorage) : Prop where
  nodup : storage.stoSharedFolders.Nodup
  listed : ∀ i, i ∈ storage.stoSharedFolders ↔ (storage.folder i).fldSession ≠ none ∧ (storage.folder i).fldSharedSession = true
  shares : ∀ i ∈ storage.stoSharedFolders, (storage.folder i).fldSession = storage.stoSession
  once : storage.live.Nodup
  owned : ∀ session, session ∈ storage.live ↔ storage.stoSession = some session ∨
    ∃ i, (storage.folder i).fldSession = some session ∧ (storage.folder i).fldSharedSession = false
  apart : ∀ i, (storage.folder i).fldSharedSession = false → (storage.folder i).fldSession ≠ none →
    (storage.folder i).fldSession ≠ storage.stoSession ∧ ∀ j, (storage.folder j).fldSession = (storage.folder i).fldSession → j = i

/-- A call that does not fault, is not refused for a listed folder and leaves a sound storage. -/
def Served (result : Option (Except StorageError Unit × MailStorage)) : Prop :=
  ∃ answer after, result = some (answer, after) ∧ answer ≠ .error .badState ∧ after.Sound

section Steps

variable {storage : MailStorage} {i : Nat}

theorem owns_update {folder : Nat → MailFolder} {changed : MailFolder} {session : Nat} :
    (∃ j, (Function.update folder i changed j).fldSession = some session ∧ (Function.update folder i changed j).fldSharedSession = false) ↔
      changed.fldSession = some session ∧ changed.fldSharedSession = false ∨
        ∃ j, j ≠ i ∧ (folder j).fldSession = some session ∧ (folder j).fldSharedSession = false :=
  Function.exists_update_iff folder (p := fun _ folder => folder.fldSession = some session ∧ folder.fldSharedSession = false)

theorem mailfolderDisconnect_sound (sound : storage.Sound) :
    ∃ after, mailfolderDisconnect storage i = some after ∧ after.Sound ∧ after.stoSession = storage.stoSession ∧
      after.stoSharedFolders = storage.stoSharedFolders.erase i := by
  obtain ⟨nodup, listed, shares, once, owned, apart⟩ := sound
  unfold mailfolderDisconnect
  cases used : (storage.folder i).fldSession with
  | none =>
      have absent : i ∉ storage.stoSharedFolders := fun member => ((listed i).mp member).1 used
      exact ⟨storage, rfl, ⟨nodup, listed, shares, once, owned, apart⟩, rfl, (List.erase_of_not_mem absent).symm⟩
  | some session =>
      cases shared : (storage.folder i).fldSharedSession with
      | true =>
          refine ⟨_, rfl, ⟨nodup.erase i, ?_, ?_, once,
            fun other => (owned other).trans (or_congr_right (owns_update.trans ?_).symm), ?_⟩, rfl, rfl⟩ <;>
            grind [List.Nodup.mem_erase_iff, Function.update_apply]
      | false =>
          have live : session ∈ storage.live := (owned session).mpr (.inr ⟨i, used, shared⟩)
          have unlisted : i ∉ storage.stoSharedFolders := fun member => by simp [((listed i).mp member).2] at shared
          refine ⟨_, if_pos live, ⟨nodup, ?_, ?_, once.erase session,
            fun other => Iff.trans ?_ (or_congr_right owns_update.symm), ?_⟩, rfl, (List.erase_of_not_mem unlisted).symm⟩ <;>
            grind [List.Nodup.mem_erase_iff, Function.update_apply]

theorem disconnectShared_sound (sound : storage.Sound) :
    ∃ after, disconnectShared storage.stoSharedFolders.length storage = some after ∧ after.Sound ∧
      after.stoSharedFolders = [] := by
  generalize listed : storage.stoSharedFolders = folders
  induction folders generalizing storage with
  | nil => exact ⟨storage, by simp [disconnectShared, listed], sound, listed⟩
  | cons i rest ih =>
      obtain ⟨after, released, sound, -, left⟩ := mailfolderDisconnect_sound (i := i) sound
      rw [listed, List.erase_cons_head] at left
      obtain ⟨final, ended, sound, empty⟩ := ih sound left
      exact ⟨final, by simp [disconnectShared, listed, released, ended], sound, empty⟩

theorem mailstorageDisconnect_sound (sound : storage.Sound) :
    ∃ after, mailstorageDisconnect storage = some after ∧ after.Sound := by
  obtain ⟨after, ended, sound, empty⟩ := disconnectShared_sound sound
  rw [mailstorageDisconnect, ended, Option.bind_some]
  obtain ⟨nodup, listed, shares, once, owned, apart⟩ := sound
  cases connected : after.stoSession with
  | none => exact ⟨after, rfl, nodup, listed, shares, once, owned, apart⟩
  | some session =>
      have live : session ∈ after.live := (owned session).mpr (.inl connected)
      refine ⟨_, if_pos live, nodup, ?_, ?_, once.erase session, ?_, ?_⟩ <;>
        grind [List.Nodup.mem_erase_iff, Function.update_apply]

theorem mailstorageConnect_sound {answer : Except Nat Nat} (sound : storage.Sound)
    (fresh : ∀ session, answer = .ok session → session ∉ storage.live) :
    (mailstorageConnect storage answer).1 ≠ .error .badState ∧ (mailstorageConnect storage answer).2.Sound ∧
      ((mailstorageConnect storage answer).1 = .ok () → (mailstorageConnect storage answer).2.stoSession ≠ none) := by
  cases connected : storage.stoSession with
  | some session =>
      simp [mailstorageConnect, connected, sound]
  | none =>
      obtain ⟨nodup, listed, shares, once, owned, apart⟩ := sound
      have unlisted : storage.stoSharedFolders = [] := List.eq_nil_iff_forall_not_mem.mpr fun i member =>
        ((listed i).mp member).1 ((shares i member).trans connected)
      cases answer with
      | error code =>
          have refused : mailstorageConnect storage (.error code) = (.error (.driver code), storage) := by
            simp [mailstorageConnect, connected, unlisted]
          exact ⟨by simp [refused], refused ▸ ⟨nodup, listed, shares, once, owned, apart⟩, by simp [refused]⟩
      | ok opened =>
          have fresh := fresh opened rfl
          simp [mailstorageConnect, connected, unlisted]
          constructor <;> grind

theorem mailfolderGetSession_sound {answers : DriverAnswers} (sound : storage.Sound) (connected : storage.stoSession ≠ none)
    (fresh : ∀ session, answers.stoGetFolderSession = .ok (some session) → session ∉ storage.live) :
    Served (mailfolderGetSession storage i answers) := by
  have whole := sound
  obtain ⟨nodup, listed, shares, once, owned, apart⟩ := sound
  unfold mailfolderGetSession
  cases used : (storage.folder i).fldSession with
  | some session =>
      cases shared : (storage.folder i).fldSharedSession with
      | false => exact ⟨_, _, rfl, by simp, whole⟩
      | true =>
          have live : session ∈ storage.live := (owned session).mpr (.inl ((shares i (by simp [*])).symm.trans used))
          exact ⟨_, _, if_pos live, by cases answers.sessSelectFolder <;> simp [Except.mapError], whole⟩
  | none =>
      cases answer : answers.stoGetFolderSession with
      | error code => exact ⟨_, _, rfl, by simp, whole⟩
      | ok own =>
          refine ⟨_, _, rfl, by simp, ?_⟩
          cases own with
          | none =>
              obtain ⟨session, connected⟩ := Option.ne_none_iff_exists'.mp connected
              have unlisted : i ∉ storage.stoSharedFolders := fun member => ((listed i).mp member).1 used
              refine ⟨?_, ?_, ?_, ?_, fun other => Iff.trans ?_ (or_congr_right owns_update.symm), ?_⟩ <;>
                grind [Function.update_apply]
          | some own =>
              have fresh := fresh own answer
              refine ⟨?_, ?_, ?_, ?_, fun other => Iff.trans ?_ (or_congr_right owns_update.symm), ?_⟩ <;>
                grind [Function.update_apply]

theorem mailfolderConnect_sound {answers : DriverAnswers} (sound : storage.Sound) (fresh : (StorageCall.connectFolder i answers).Fresh storage) :
    Served (mailfolderConnect storage i answers) := by
  obtain ⟨guarded, kept, opened⟩ := mailstorageConnect_sound sound fresh.1
  have live : ∀ session, answers.stoGetFolderSession = .ok (some session) →
      session ∉ (mailstorageConnect storage answers.stoConnect).2.live := by
    intro session answer
    have := fresh.2 session answer
    unfold mailstorageConnect
    grind
  rw [mailfolderConnect]
  generalize mailstorageConnect storage answers.stoConnect = result at *
  obtain ⟨_ | _, storage⟩ := result
  · exact ⟨_, _, rfl, by simpa using guarded, kept⟩
  · exact mailfolderGetSession_sound kept (opened rfl) live

theorem StorageCall.run_sound (call : StorageCall) (sound : storage.Sound) (fresh : call.Fresh storage) :
    Served (call.run storage) := by
  cases call with
  | connect answer =>
      obtain ⟨guarded, kept, -⟩ := mailstorageConnect_sound sound fresh
      exact ⟨_, _, rfl, guarded, kept⟩
  | disconnect =>
      obtain ⟨after, ended, kept⟩ := mailstorageDisconnect_sound sound
      exact ⟨.ok (), after, by rw [run, ended]; rfl, by simp, kept⟩
  | connectFolder i answers => exact mailfolderConnect_sound sound fresh
  | disconnectFolder i =>
      obtain ⟨after, ended, kept, -⟩ := mailfolderDisconnect_sound (i := i) sound
      exact ⟨.ok (), after, by rw [run, ended]; rfl, by simp, kept⟩

end Steps

def storageRun (storage : MailStorage) : List StorageCall → Option (List (Except StorageError Unit) × MailStorage)
  | [] => some ([], storage)
  | call :: calls => do
    let (answer, storage) ← call.run storage
    let (answers, storage) ← storageRun storage calls
    return (answer :: answers, storage)

def RunFresh (storage : MailStorage) : List StorageCall → Prop
  | [] => True
  | call :: calls => call.Fresh storage ∧ ∀ result, call.run storage = some result → RunFresh result.2 calls

/-- Every run ends without a fault, its open sessions are the ones in use, and no connection finds listed folders. -/
theorem storageRun_sound {calls : List StorageCall} (fresh : RunFresh {} calls) :
    ∃ answers after, storageRun {} calls = some (answers, after) ∧ .error .badState ∉ answers ∧ after.Sound := by
  have sound : MailStorage.Sound {} := by constructor <;> simp
  generalize ({} : MailStorage) = storage at *
  induction calls generalizing storage with
  | nil => exact ⟨[], storage, rfl, by simp, sound⟩
  | cons call calls ih =>
      obtain ⟨answer, next, ran, guarded, kept⟩ := call.run_sound sound fresh.1
      obtain ⟨answers, after, rest, others, final⟩ := ih next (fresh.2 _ ran) kept
      exact ⟨answer :: answers, after, by simp [storageRun, ran, rest], by simp [others, guarded.symm], final⟩

/-- A folder shares the storage's session and another opens its own before the storage is disconnected. -/
theorem storageRun_sound_shared :
    let calls := [.connectFolder 0 ⟨.ok 1, .ok (), .ok none⟩, .connectFolder 1 ⟨.ok 3, .ok (), .ok (some 2)⟩, .disconnect]
    ∃ answers after, storageRun {} calls = some (answers, after) ∧ .error .badState ∉ answers ∧ after.Sound := by
  refine storageRun_sound ⟨by simp [StorageCall.Fresh], ?_⟩
  rintro _ ⟨⟩
  refine ⟨by simp [StorageCall.Fresh], ?_⟩
  rintro _ ⟨⟩
  exact ⟨trivial, fun _ _ => trivial⟩

end Etpan.Driver
