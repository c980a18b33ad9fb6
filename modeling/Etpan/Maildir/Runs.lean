import Etpan.Maildir.Consistency

namespace Etpan.Maildir

open Etpan.Data

/-! Each operation keeps the index and the directories together where its calls end as the
code expects, and so does every run. -/

theorem Consistent.append {s : State} {md : Maildir} {files : Files Path} {source : Path} {msg : Msg} {content : List UInt8}
    (consistent : Consistent s) (moved : Moved s.files files source msg.path content) (fromTmp : source.directory = .tmp)
    (fresh : msg.path ∉ s.files) (index : md.mdirMsgList = s.md.mdirMsgList ++ [msg]) : Consistent ⟨md, files⟩ := by
  constructor
  · intro other member
    change other ∈ md.mdirMsgList at member
    rw [index, List.mem_append, List.mem_singleton] at member
    rcases member with old | rfl
    · have there := consistent.backed other old
      refine mem_of_lookup (moved.others other.path ?_ ?_) there
      · exact fun same => other.path_stored (same ▸ fromTmp)
      · exact fun same => fresh (same ▸ there)
    · exact AList.lookup_isSome.mp (by rw [moved.found]; rfl)
  · change (md.mdirMsgList.map Msg.path).Nodup
    rw [index, List.map_append, List.map_singleton, List.nodup_append]
    refine ⟨consistent.distinct, List.nodup_singleton _, ?_⟩
    intro path isOld other isNew same
    obtain ⟨old, member, rfl⟩ := List.mem_map.mp isOld
    rw [List.mem_singleton.mp isNew] at same
    exact fresh (same ▸ consistent.backed old member)

theorem Consistent.replace {s : State} {md : Maildir} {files : Files Path} {before behind : List Msg} {old msg : Msg}
    {content : List UInt8} (consistent : Consistent s) (list : s.md.mdirMsgList = before ++ old :: behind)
    (moved : Moved s.files files old.path msg.path content) (fresh : msg.path ∉ s.files)
    (index : md.mdirMsgList = before ++ msg :: behind) : Consistent ⟨md, files⟩ := by
  have distinct := consistent.distinct
  rw [list, List.map_append, List.map_cons, List.nodup_middle, List.nodup_cons] at distinct
  have others : ∀ other ∈ before ++ behind, other.path ∈ s.files ∧ other.path ≠ old.path := by
    intro other member
    constructor
    · apply consistent.backed other
      rw [list]
      rcases List.mem_append.mp member with early | late
      · simp [early]
      · simp [late]
    · intro same
      apply distinct.1
      rw [← same, ← List.map_append]
      exact List.mem_map_of_mem member
  constructor
  · intro other member
    change other ∈ md.mdirMsgList at member
    rw [index, List.mem_append, List.mem_cons] at member
    have split : other = msg ∨ other ∈ before ++ behind := by
      rcases member with early | rfl | late
      · exact .inr (by simp [early])
      · exact .inl rfl
      · exact .inr (by simp [late])
    rcases split with rfl | elsewhere
    · exact AList.lookup_isSome.mp (by rw [moved.found]; rfl)
    · obtain ⟨there, differs⟩ := others other elsewhere
      exact mem_of_lookup (moved.others other.path differs fun same => fresh (same ▸ there)) there
  · change (md.mdirMsgList.map Msg.path).Nodup
    rw [index, List.map_append, List.map_cons, List.nodup_middle, List.nodup_cons]
    refine ⟨?_, distinct.2⟩
    intro member
    rw [← List.map_append] at member
    obtain ⟨other, isOther, same⟩ := List.mem_map.mp member
    exact fresh (same ▸ (others other isOther).1)

inductive Moving (link rename : Option Errno) (files : Files Path) (source target : Path) : Prop
  | linked {linked : Files Path} (linking : linkFile files link source target = .ok linked) (absent : target ∉ files)
  | exdev (linking : linkFile files link source target = .error .exdev) (fails : MoveFails link rename)
  | renamed {renamed : Files Path} (linking : linkFile files link source target = .error .eperm)
      (moving : renameFile files rename source target = .ok renamed) (absent : target ∉ files)
  | eperm {errno : Errno} (linking : linkFile files link source target = .error .eperm)
      (moving : renameFile files rename source target = .error errno) (fails : MoveFails link rename)

theorem MoveSafe.moves {link rename : Option Errno} {files : Files Path} {source target : Path} {content : List UInt8}
    (safe : MoveSafe link rename target files) (found : files.lookup source = some content) :
    Moving link rename files source target := by
  obtain ⟨rfl | rfl | rfl, fresh⟩ := safe
  · have absent : target ∉ files := by simpa [MoveFails] using fresh
    cases linking : linkFile files none source target with
    | ok linked => exact .linked linking absent
    | error errno => cases linkFile_error found absent linking
  · exact .exdev rfl (.inl rfl)
  · cases moving : renameFile files rename source target with
    | ok renamed =>
        have absent : target ∉ files := by simpa [MoveFails, renameFile_ok moving] using fresh
        exact .renamed rfl moving absent
    | error errno => exact .eperm rfl moving (.inr ⟨rfl, by simp [renameFile_error found moving]⟩)

/-- An operation is done and leaves the message in the index, or fails and leaves everything. -/
inductive Delivered (message : List UInt8) (s : State) (failed : Prop) : Option MaildirError × State → Prop
  | done {s' : State} {msg : Msg} (consistent : Consistent s') (last : s'.md.mdirMsgList.getLast? = some msg)
      (stored : s'.files.lookup msg.path = some message) : Delivered message s failed (none, s')
  | failed {s' : State} {error : MaildirError} (reason : failed) (index : s'.md.mdirMsgList = s.md.mdirMsgList)
      (same : SameStored s.files s'.files) : Delivered message s failed (some error, s')

theorem recordDelivery_delivered {calls : AddCalls} {name message : List UInt8} {s : State} {files : Files Path} {failed : Prop}
    (consistent : Consistent s) (moved : Moved s.files files ⟨.tmp, name⟩ ⟨.new, name⟩ message)
    (fresh : (⟨.new, name⟩ : Path) ∉ s.files) (undone : ∀ errno, calls.statNew = .error errno → calls.unlinkNew = none)
    (reason : ∀ errno, calls.statNew = .error errno → failed) :
    Delivered message s failed (recordDelivery calls name s.md files) := by
  rw [recordDelivery]
  cases stat : calls.statNew with
  | ok mtimeNew =>
      have index : (addMessage { s.md with mdirMtimeNew := mtimeNew } name true).mdirMsgList =
          s.md.mdirMsgList ++ [msgNew name true] := rfl
      exact .done (@Consistent.append s _ files ⟨.tmp, name⟩ (msgNew name true) message consistent moved rfl fresh index)
        List.getLast?_concat moved.found
  | error errno =>
      refine .failed (reason errno stat) rfl ?_
      have removed : SameStored s.files (ignoringErrors files (unlinkFile files calls.unlinkNew ⟨.new, name⟩)) := by
        intro path stored
        have notTmp : path ≠ ⟨.tmp, name⟩ := fun same => stored (by rw [same])
        by_cases isTarget : path = ⟨.new, name⟩
        · have there : (⟨.new, name⟩ : Path) ∈ files := AList.lookup_isSome.mp (by rw [moved.found]; rfl)
          rw [isTarget, undone errno stat, unlinkFile, if_pos there, AList.lookup_eq_none.mpr fresh]
          exact AList.lookup_erase _ _
        · rw [ignoringErrors_unlinkFile isTarget]
          exact moved.others path notTmp isTarget
      exact removed.trans (sameStored_unlink rfl)

theorem deliver_delivered {calls : AddCalls} {name message : List UInt8} {s : State} (consistent : Consistent s)
    (written : s.files.lookup ⟨.tmp, name⟩ = some message)
    (safe : MoveSafe calls.linkNew calls.renameNew ⟨.new, name⟩ s.files)
    (undone : ∀ errno, calls.statNew = .error errno → calls.unlinkNew = none) :
    Delivered message s calls.DeliveryFails (deliver calls name s) := by
  have stat : ∀ errno, calls.statNew = .error errno → calls.DeliveryFails := fun errno failed => .inr ⟨errno, failed⟩
  simp only [deliver]
  cases safe.moves written with
  | linked linking absent =>
      simp only [linking]
      exact recordDelivery_delivered consistent (linkFile_moved written linking calls.unlinkDelivered) absent undone stat
  | exdev linking fails =>
      simp only [linking]
      exact .failed (.inl fails) rfl (sameStored_unlink rfl)
  | renamed linking moving absent =>
      simp only [linking, moving]
      exact recordDelivery_delivered consistent (renameFile_moved written moving) absent undone stat
  | eperm linking moving fails =>
      simp only [linking, moving]
      exact .failed (.inl fails) rfl (sameStored_unlink rfl)

theorem maildirGetNewMessageFilename_identity {md md' : Maildir} (identity : SameIdentity md md') (now : Nat)
    (attempts : Nat → AttemptCalls) (tmpFile : Path) (left tried : Nat) (counter : UInt32) (files : Files Path) :
    maildirGetNewMessageFilename md' now attempts tmpFile left tried counter files =
      maildirGetNewMessageFilename md now attempts tmpFile left tried counter files := by
  have names : basename md' now = basename md now := by
    funext counter
    simp only [basename, identity.pid, identity.hostname]
  induction left generalizing tried counter with
  | zero => rfl
  | succ left ih => simp only [maildirGetNewMessageFilename, names, ih]

theorem AddCalls.Safe.index {calls : AddCalls} {message : List UInt8} {s : State} {md : Maildir} (safe : calls.Safe message s)
    (succeeds : ¬calls.update.Fail s.md)
    (recorded : calls.update.Recorded s.md ∨ s.md.mdirMsgList = listing s.files → md.mdirMsgList = s.md.mdirMsgList)
    (failed : calls.named message s = none ∨ calls.DeliveryFails) : md.mdirMsgList = s.md.mdirMsgList := by
  rcases safe.recorded with fails | same | listed | ⟨isNamed, isDelivered⟩
  · exact absurd fails succeeds
  · exact recorded (.inl same)
  · exact recorded (.inr listed)
  · rcases failed with unnamed | undelivered
    · exact absurd unnamed isNamed
    · exact absurd undelivered isDelivered

theorem maildirMessageAddUid_delivered {calls : AddCalls} {message : List UInt8} {s : State} (consistent : Consistent s)
    (safe : calls.Safe message s) : Delivered message s True (maildirMessageAddUid calls message s) := by
  rw [maildirMessageAddUid]
  have updated := maildirUpdate_updated calls.update s.files s.md
  generalize maildirUpdate calls.update s.files s.md = outcome at updated ⊢
  cases updated with
  | @failed error md reason index =>
      rcases safe.update with emptyBefore | succeeds
      · exact .failed trivial (index.trans emptyBefore.symm) (SameStored.refl s.files)
      · exact absurd reason succeeds
  | @done md succeeds identity recorded kept =>
      have index := @AddCalls.Safe.index calls message s md safe succeeds recorded
      have moves := safe.delivered
      obtain ⟨sameWritten, stored⟩ := writeTmp_spec calls message s.files
      simp only [AddCalls.named] at index moves
      generalize writeTmp calls message s.files = written at sameWritten stored index moves ⊢
      obtain ⟨isWritten, files⟩ := written
      cases isWritten with
      | false => exact .failed trivial (index (.inl rfl)) sameWritten
      | true =>
          simp only at index moves ⊢
          rw [maildirGetNewMessageFilename_identity identity, identity.counter]
          obtain ⟨sameNamed, namedStored⟩ := @maildirGetNewMessageFilename_spec s.md calls.now calls.attempts ⟨.tmp, calls.tmpname⟩
            message files rfl (stored rfl) maxTryAlloc 0 s.md.mdirCounter
          generalize maildirGetNewMessageFilename s.md calls.now calls.attempts ⟨.tmp, calls.tmpname⟩ maxTryAlloc 0
            s.md.mdirCounter files = naming at sameNamed namedStored index moves ⊢
          obtain ⟨name, counter, namedFiles⟩ := naming
          have same : SameStored s.files namedFiles := sameWritten.trans sameNamed
          cases name with
          | none => exact .failed trivial (index (.inl rfl)) (same.trans (sameStored_unlink rfl))
          | some name =>
              have ready : Consistent ⟨{ md with mdirCounter := counter }, namedFiles⟩ := same.backed (kept consistent) rfl
              obtain ⟨expected, fresh⟩ := moves name rfl
              have absent : (⟨.new, name⟩ : Path) ∉ s.files → (⟨.new, name⟩ : Path) ∉ namedFiles := fun absent there =>
                absent (mem_of_lookup (same ⟨.new, name⟩ (by simp)).symm there)
              have delivered := deliver_delivered ready (namedStored name rfl) ⟨expected, fresh.imp_right absent⟩ safe.undone
              simp only
              generalize deliver calls name ⟨{ md with mdirCounter := counter }, namedFiles⟩ = outcome at delivered ⊢
              cases delivered with
              | done consistent last stored => exact .done consistent last stored
              | failed reason index' same' => exact .failed trivial (index'.trans (index (.inr reason))) (same.trans same')

theorem chashGet_split {uid : List UInt8} {list before behind : List Msg} {msg : Msg}
    (found : chashGet uid list = some (before, msg, behind)) : list = before ++ msg :: behind := by
  induction list generalizing before with
  | nil => cases found
  | cons first rest ih =>
      cases later : chashGet uid rest with
      | some result =>
          obtain ⟨before', msg', behind'⟩ := result
          simp only [chashGet, later, Option.some.injEq, Prod.mk.injEq] at found
          obtain ⟨rfl, rfl, rfl⟩ := found
          rw [ih later, List.cons_append]
      | none =>
          simp only [chashGet, later] at found
          split_ifs at found
          cases found
          rfl

inductive Settled (s : State) : Option MaildirError × State → Prop
  | done {s' : State} (consistent : Consistent s') : Settled s (none, s')
  | failed {s' : State} {error : MaildirError} (index : s'.md.mdirMsgList = s.md.mdirMsgList)
      (same : SameStored s.files s'.files) : Settled s (some error, s')

theorem Settled.unmoved (s : State) (error : MaildirError) : Settled s (some error, s) := .failed rfl (SameStored.refl s.files)

theorem Settled.consistent {s : State} {outcome : Option MaildirError × State} (settled : Settled s outcome)
    (consistent : Consistent s) : Consistent outcome.2 := by
  cases settled with
  | done after => exact after
  | failed index same => exact same.backed consistent index

theorem Delivered.settled {message : List UInt8} {s : State} {failed : Prop} {outcome : Option MaildirError × State}
    (delivered : Delivered message s failed outcome) : Settled s outcome := by
  cases delivered with
  | done consistent last stored => exact .done consistent
  | failed reason index same => exact .failed index same

theorem maildirUpdate_settled {calls : UpdateCalls} {s : State} (consistent : Consistent s) (safe : Safe s (.update calls)) :
    Settled s ((Operation.update calls).run s) := by
  have updated := maildirUpdate_updated calls s.files s.md
  rw [Operation.run]
  generalize maildirUpdate calls s.files s.md = outcome at updated ⊢
  cases updated with
  | failed reason index =>
      rcases safe with emptyBefore | succeeds
      · exact .failed (index.trans emptyBefore.symm) (SameStored.refl s.files)
      · exact absurd reason succeeds
  | done succeeds identity recorded kept => exact .done (kept consistent)

theorem maildirMessageRemove_settled {unlink : Option Errno} {uid : List UInt8} {s : State}
    (safe : Safe s (.remove unlink uid)) : Settled s (maildirMessageRemove unlink uid s) := by
  rw [maildirMessageRemove]
  cases found : chashGet uid s.md.mdirMsgList with
  | none => exact .unmoved s _
  | some result =>
      rcases safe with missing | fails
      · cases found.symm.trans missing
      · obtain ⟨errno, rfl⟩ := Option.ne_none_iff_exists'.mp fails
        exact .unmoved s _

theorem maildirMessageChangeFlags_settled {calls : ChangeCalls} {uid : List UInt8} {newFlags : Flags} {s : State}
    (consistent : Consistent s) (safe : calls.Safe uid newFlags s) :
    Settled s (maildirMessageChangeFlags calls uid newFlags s) := by
  rw [maildirMessageChangeFlags]
  cases found : chashGet uid s.md.mdirMsgList with
  | none => exact .unmoved s _
  | some result =>
      obtain ⟨before, msg, behind⟩ := result
      have list := chashGet_split found
      obtain ⟨content, stored⟩ : ∃ content, s.files.lookup msg.path = some content :=
        Option.isSome_iff_exists.mp (AList.lookup_isSome.mpr (consistent.backed msg (by simp [list])))
      have moves := safe _ found
      simp only at moves ⊢
      split_ifs with same
      · exact .done consistent
      · cases (moves.resolve_left same).moves stored with
        | linked linking absent =>
            simp only [linking]
            exact .done (consistent.replace list (linkFile_moved stored linking calls.unlink) absent rfl)
        | exdev linking fails =>
            simp only [linking]
            exact .unmoved s _
        | renamed linking moving absent =>
            simp only [linking, moving]
            exact .done (consistent.replace list (renameFile_moved stored moving) absent rfl)
        | eperm linking moving fails =>
            simp only [linking, moving]
            exact .unmoved s _

theorem Settled.kept {s : State} {operation : Operation} (settled : Settled s (operation.run s))
    (added : ∀ calls message, operation = .addUid calls message → (operation.run s).1 = none →
      ∃ msg, (operation.run s).2.md.mdirMsgList.getLast? = some msg ∧ (operation.run s).2.files.lookup msg.path = some message) :
    Kept s operation := by
  refine ⟨?_, added, ?_⟩
  · intro succeeded
    generalize operation.run s = outcome at settled succeeded ⊢
    cases settled with
    | done consistent => exact consistent.backed
    | failed index same => cases succeeded
  · intro failed
    generalize operation.run s = outcome at settled failed ⊢
    cases settled with
    | done consistent => exact absurd rfl failed
    | failed index same => exact ⟨index, same⟩

theorem Consistent.step {s : State} {operation : Operation} (consistent : Consistent s) (safe : Safe s operation) :
    Kept s operation ∧ Consistent (operation.run s).2 := by
  cases operation with
  | update calls =>
      have settled := maildirUpdate_settled consistent safe
      exact ⟨settled.kept (by rintro calls message ⟨⟩), settled.consistent consistent⟩
  | addUid calls message =>
      have delivered : Delivered message s True ((Operation.addUid calls message).run s) :=
        maildirMessageAddUid_delivered consistent safe
      refine ⟨delivered.settled.kept ?_, delivered.settled.consistent consistent⟩
      rintro calls' message' ⟨⟩ succeeded
      generalize (Operation.addUid calls message).run s = outcome at delivered succeeded ⊢
      cases delivered with
      | done consistent last stored => exact ⟨_, last, stored⟩
      | failed reason index same => cases succeeded
  | remove unlink uid =>
      have settled : Settled s ((Operation.remove unlink uid).run s) := maildirMessageRemove_settled safe
      exact ⟨settled.kept (by rintro calls message ⟨⟩), settled.consistent consistent⟩
  | changeFlags calls uid newFlags =>
      have settled : Settled s ((Operation.changeFlags calls uid newFlags).run s) :=
        maildirMessageChangeFlags_settled consistent safe
      exact ⟨settled.kept (by rintro calls message ⟨⟩), settled.consistent consistent⟩

theorem Consistent.run {s : State} {operations : List Operation} (consistent : Consistent s)
    (safe : EachStep Safe s operations) : EachStep Kept s operations := by
  induction operations generalizing s with
  | nil => trivial
  | cons operation operations ih =>
      obtain ⟨first, rest⟩ := safe
      obtain ⟨kept, after⟩ := consistent.step first
      exact ⟨kept, ih after rest⟩

theorem maildirRun_kept (pid : Nat) (hostname : List UInt8) (files : Files Path) (operations : List Operation)
    (safe : EachStep Safe ⟨maildirNew pid hostname, files⟩ operations) :
    EachStep Kept ⟨maildirNew pid hostname, files⟩ operations :=
  (maildirNew_consistent pid hostname files).run safe

def UpdateCalls.succeeding (mtimeNew mtimeCur : Int) : UpdateCalls := ⟨.ok mtimeNew, .ok mtimeCur, none, none⟩

def AddCalls.linking (linkNew : Option Errno) : AddCalls where
  update := .succeeding 1 1
  tmpname := asciiText "etpan-maildir-000000"
  mkstemp := none
  ftruncate := none
  mmap := none
  now := 7
  attempts := fun _ => ⟨none, none, none⟩
  unlinkTmpname := none
  linkNew := linkNew
  unlinkDelivered := none
  renameNew := none
  statNew := .ok 2
  unlinkNew := none
  unlinkTmp := none

def oneFile : Files Path := AList.singleton ⟨.cur, asciiText "a"⟩ (asciiText "text")

theorem maildirRun_kept_changed :
    EachStep Kept ⟨maildirNew 1 (asciiText "host"), oneFile⟩
      [.update (.succeeding 1 1), .changeFlags ⟨none, none, none⟩ (asciiText "a") { noFlags with seen := true },
        .remove (some (.other 13)) (asciiText "a"), .addUid (.linking none) (asciiText "more")] := by
  apply maildirRun_kept 1 (asciiText "host") oneFile
  refine ⟨.inl rfl, ?_, .inr (by simp), ⟨.inr ?_, ?_, ?_, ?_⟩, trivial⟩
  · rintro found ⟨⟩
    exact .inr ⟨.inl rfl, .inr (by decide)⟩
  · simp [UpdateCalls.Fail, AddCalls.linking, UpdateCalls.succeeding]
  · intro name isName
    refine ⟨.inl rfl, .inr ?_⟩
    intro member
    have isKey : (⟨.new, name⟩ : Path) ∈ [(⟨.cur, asciiText "a:2,S"⟩ : Path)] := AList.mem_keys.mp member
    cases (Path.mk.inj (List.mem_singleton.mp isKey)).1
  · rintro errno ⟨⟩
  · exact .inr (.inl ⟨rfl, rfl⟩)

/-- A full disk at the link to `new/` or to the name with new flags, and a removed message. -/
theorem maildirRun_phantom :
    ¬EachStep Kept ⟨maildirNew 1 (asciiText "host"), ∅⟩
      [.update (.succeeding 1 1), .addUid (.linking (some (.other 28))) (asciiText "more")] ∧
    ¬EachStep Kept ⟨maildirNew 1 (asciiText "host"), oneFile⟩
      [.update (.succeeding 1 1), .changeFlags ⟨some (.other 28), none, none⟩ (asciiText "a") { noFlags with seen := true }] ∧
    ¬EachStep Kept ⟨maildirNew 1 (asciiText "host"), oneFile⟩ [.update (.succeeding 1 1), .remove none (asciiText "a")] := by
  refine ⟨?_, ?_, ?_⟩
  · rintro ⟨-, kept, -⟩
    exact absurd (kept.backed (by decide +kernel)) (by decide +kernel)
  · rintro ⟨-, kept, -⟩
    exact absurd (kept.backed rfl) (by decide)
  · rintro ⟨-, kept, -⟩
    exact absurd (kept.backed rfl) (by decide)

end Etpan.Maildir
