import Etpan.Pop3.Bookkeeping

namespace Etpan.Pop3

open Etpan.Data Etpan.Stream Etpan.DataTypes Carray

/-! Runs of listings, deletions, resets and quits. -/

variable {σ : Type} {transport : Transport σ} {stray : Slots MsgInfo} {rounds : Nat} {f after : Session σ}

section Table

variable {msgTab : Carray MsgInfo} {indx : UInt32} {msg : MsgInfo}

theorem pred_toNat (positive : indx ≠ 0) : (indx - 1).toNat + 1 = indx.toNat := by
  have nonzero : indx.toNat ≠ 0 := fun zero => positive (UInt32.toNat_inj.mp zero)
  have one : (1 : UInt32).toNat = 1 := rfl
  have pred : (indx - 1).toNat = indx.toNat - 1 :=
    UInt32.toNat_sub_of_le _ _ (UInt32.le_iff_toNat_le.mpr (by omega))
  omega

theorem msgInfoTabFindMsg_iff (valid : msgTab.Valid) :
    msgInfoTabFindMsg msgTab indx = some msg ↔ indx ≠ 0 ∧ msgTab.contents[(indx - 1).toNat]? = some (some msg) := by
  unfold msgInfoTabFindMsg
  by_cases zero : indx = 0
  · simp [zero]
  by_cases beyond : indx > msgTab.len
  · rw [if_neg zero, if_pos beyond]
    have above := UInt32.lt_iff_toNat_lt.mp beyond
    have pred := pred_toNat zero
    have outside : msgTab.contents[(indx - 1).toNat]? = none := by
      rw [List.getElem?_eq_none_iff, valid.contents_length]
      omega
    simp [outside]
  · rw [if_neg zero, if_neg beyond, carrayGet_contents (slot_inside zero beyond), Option.join_eq_some_iff]
    simp [zero]

theorem markDeleted_contents (msgTab : Carray MsgInfo) (indx : UInt32) (msg : MsgInfo) :
    (markDeleted msgTab indx msg).contents = msgTab.contents.set (indx - 1).toNat (some { msg with msgDeleted := true }) :=
  carraySet_contents _ _ _

theorem markDeleted_valid (valid : msgTab.Valid) : (markDeleted msgTab indx msg).Valid := carraySet_valid valid _ _

theorem markDeleted_find (valid : msgTab.Valid) (found : msgInfoTabFindMsg msgTab indx = some msg) {other : UInt32}
    {otherMsg : MsgInfo} (foundAfter : msgInfoTabFindMsg (markDeleted msgTab indx msg) other = some otherMsg) :
    (other = indx ∧ otherMsg.msgDeleted = true) ∨ (other ≠ indx ∧ msgInfoTabFindMsg msgTab other = some otherMsg) := by
  obtain ⟨positive, slot⟩ := (msgInfoTabFindMsg_iff valid).mp found
  obtain ⟨otherPositive, otherSlot⟩ := (msgInfoTabFindMsg_iff (markDeleted_valid valid)).mp foundAfter
  rw [markDeleted_contents] at otherSlot
  by_cases same : other = indx
  · subst same
    have inside := (List.getElem?_eq_some_iff.mp slot).1
    rw [List.getElem?_set_self inside] at otherSlot
    cases otherSlot
    exact .inl ⟨rfl, rfl⟩
  · have apart : (indx - 1).toNat ≠ (other - 1).toNat := by
      intro equal
      have first := pred_toNat positive
      have second := pred_toNat otherPositive
      exact same (UInt32.toNat_inj.mp (by omega))
    rw [List.getElem?_set_ne apart] at otherSlot
    exact .inr ⟨same, (msgInfoTabFindMsg_iff valid).mpr ⟨otherPositive, otherSlot⟩⟩

theorem markDeleted_count (valid : msgTab.Valid) (found : msgInfoTabFindMsg msgTab indx = some msg) :
    markedCount (some (markDeleted msgTab indx msg)) =
      if msg.msgDeleted then markedCount (some msgTab) else markedCount (some msgTab) + 1 := by
  obtain ⟨-, slot⟩ := (msgInfoTabFindMsg_iff valid).mp found
  obtain ⟨inside, held⟩ := List.getElem?_eq_some_iff.mp slot
  simp only [markedCount, markDeleted_contents, List.countP_set inside, held]
  cases marked : msg.msgDeleted with
  | false => simp [isMarked, marked]
  | true =>
      have counted : 0 < msgTab.contents.countP isMarked :=
        List.countP_pos_iff.mpr ⟨_, List.mem_of_getElem? slot, by simp [isMarked, marked]⟩
      simp only [isMarked, Option.any_some, marked, ↓reduceIte]
      omega

theorem Unmarked.count (unmarked : Unmarked msgTab) : markedCount (some msgTab) = 0 := by
  rw [markedCount, List.countP_eq_zero]
  rintro (_ | msg) member
  · simp [isMarked]
  · simp [isMarked, unmarked msg member]

theorem Unmarked.of_count (zero : markedCount (some msgTab) = 0) : Unmarked msgTab := by
  intro msg member
  have unmarked := List.countP_eq_zero.mp zero (some msg) member
  simpa [isMarked] using unmarked

theorem markedCount_le (valid : msgTab.Valid) : markedCount (some msgTab) < 2 ^ 32 := by
  have bounded := msgTab.len.toNat_lt
  have counted : msgTab.contents.countP isMarked ≤ msgTab.contents.length := List.countP_le_length
  rw [valid.contents_length] at counted
  rw [markedCount]
  omega

theorem exists_marked (valid : msgTab.Valid) (some_marked : markedCount (some msgTab) ≠ 0) :
    ∃ indx msg, msgInfoTabFindMsg msgTab indx = some msg ∧ msg.msgDeleted = true := by
  obtain ⟨slot, member, marked⟩ := List.countP_pos_iff.mp (Nat.pos_of_ne_zero some_marked)
  obtain ⟨position, inside, held⟩ := List.getElem_of_mem member
  cases slot with
  | none => simp [isMarked] at marked
  | some msg =>
      have bounded := msgTab.len.toNat_lt
      have within := inside
      rw [valid.contents_length] at within
      have number : (UInt32.ofNat (position + 1)).toNat = position + 1 := by
        rw [UInt32.toNat_ofNat', Nat.mod_eq_of_lt (by omega)]
      have positive : UInt32.ofNat (position + 1) ≠ 0 := by
        intro zero
        rw [zero] at number
        simp at number
      have pred := pred_toNat positive
      refine ⟨UInt32.ofNat (position + 1), msg, (msgInfoTabFindMsg_iff valid).mpr ⟨positive, ?_⟩, by simpa [isMarked] using marked⟩
      rw [show (UInt32.ofNat (position + 1) - 1).toNat = position by omega, List.getElem?_eq_getElem inside, held]

/-- The reset fails where a slot is empty, and otherwise clears the mark of every message. -/
theorem msgInfoTabReset_outcome (valid : msgTab.Valid) :
    match msgInfoTabReset msgTab with
    | none => none ∈ msgTab.contents
    | some table => none ∉ msgTab.contents ∧ table.Valid ∧ table.contents = msgTab.contents.map (Option.map clearMark) := by
  by_cases gap : none ∈ msgTab.contents
  · have any : (msgTab.array.take msgTab.len.toNat).any Option.isNone = true :=
      List.any_eq_true.mpr ⟨none, gap, rfl⟩
    simpa only [msgInfoTabReset, any, ↓reduceIte] using gap
  · have all : (msgTab.array.take msgTab.len.toNat).any Option.isNone = false := by
      rw [List.any_eq_false]
      rintro (_ | msg) member
      · exact absurd member gap
      · simp
    simp only [msgInfoTabReset, all, Bool.false_eq_true, ↓reduceIte]
    have lengths : (msgTab.array.take msgTab.len.toNat).length = msgTab.len.toNat := valid.contents_length
    refine ⟨gap, ⟨valid.fits, valid.nonempty, ?_⟩, ?_⟩
    · have within := valid.within
      rw [List.length_append, List.length_map, lengths, List.length_drop, ← valid.allocated]
      omega
    · rw [contents, List.take_append_of_le_length (by rw [List.length_map, lengths]), List.take_of_length_le
        (by rw [List.length_map, lengths])]
      rfl

theorem clearMark_find {table : Carray MsgInfo} (valid : msgTab.Valid) (valid' : table.Valid)
    (cleared : table.contents = msgTab.contents.map (Option.map clearMark)) (indx : UInt32) (msg : MsgInfo) :
    msgInfoTabFindMsg table indx = some msg ↔ ∃ old, msgInfoTabFindMsg msgTab indx = some old ∧ clearMark old = msg := by
  simp only [msgInfoTabFindMsg_iff valid, msgInfoTabFindMsg_iff valid', cleared, List.getElem?_map, Option.map_eq_some_iff]
  constructor
  · rintro ⟨positive, slot, held, old, rfl, spelled⟩
    exact ⟨old, ⟨positive, held⟩, spelled⟩
  · rintro ⟨old, ⟨positive, held⟩, spelled⟩
    exact ⟨positive, some old, held, old, rfl, spelled⟩

theorem clearMark_fresh {table : Carray MsgInfo} (valid : table.Valid)
    (cleared : table.contents = msgTab.contents.map (Option.map clearMark)) : Fresh table := by
  refine ⟨valid, fun msg member => ?_⟩
  rw [cleared] at member
  obtain ⟨slot, -, unmarked⟩ := List.mem_map.mp member
  obtain ⟨old, -, rfl⟩ := Option.map_eq_some_iff.mp unmarked
  rfl

end Table

/-! ### What holds between two calls -/

structure Sound (f : Session σ) : Prop extends Mirrors f where
  valid : ∀ msgTab, f.msgTab = some msgTab → msgTab.Valid
  unlisted : f.msgTab = none → f.state = .transaction → ∀ indx, deletionStands indx f.stream.2 = false

theorem Sound.congr (sound : Sound f) (sameState : after.state = f.state) (sameTab : after.msgTab = f.msgTab)
    (sameCount : after.deletedCount = f.deletedCount)
    (stands : ∀ indx, deletionStands indx after.stream.2 = deletionStands indx f.stream.2) : Sound after where
  counted := by rw [sameCount, sameTab]; exact sound.counted
  marks := fun msgTab listed indx msg found => by
    rw [stands]
    exact sound.marks msgTab (sameTab ▸ listed) indx msg found
  valid := fun msgTab listed => sound.valid msgTab (sameTab ▸ listed)
  unlisted := fun absent inTransaction indx => by
    rw [stands]
    exact sound.unlisted (sameTab ▸ absent) (sameState ▸ inTransaction) indx

theorem Sound.fresh {msgTab : Carray MsgInfo} (listed : after.msgTab = some msgTab) (fresh : Fresh msgTab)
    (zero : after.deletedCount = 0)
    (nothing : ∀ indx msg, msgInfoTabFindMsg msgTab indx = some msg → deletionStands indx after.stream.2 = false) :
    Sound after where
  counted := by rw [zero, listed, fresh.unmarked.count]; rfl
  marks := fun table found indx msg held => by
    cases listed.symm.trans found
    rw [nothing indx msg held]
    exact fresh.unmarked msg (List.mem_of_getElem? ((msgInfoTabFindMsg_iff fresh.valid).mp held).2)
  valid := fun table found => by
    cases listed.symm.trans found
    exact fresh.valid
  unlisted := fun absent => by
    rw [listed] at absent
    cases absent

theorem Listed.sound (sound : Sound f) (absent : f.msgTab = none) (listed : Listed f after) : Sound after := by
  rcases listed.table with ⟨stillAbsent, sameCount⟩ | ⟨inTransaction, msgTab, found, fresh, zero⟩
  · exact sound.congr listed.state (stillAbsent.trans absent.symm) sameCount listed.stands
  · exact .fresh found fresh zero fun indx _ _ => (listed.stands indx).trans (sound.unlisted absent inTransaction indx)

/-- After the listing that a call makes where it needs one, a table is the one there was or a new one with no message marked. -/
theorem mailpop3ListIfNeeded_sound {r : Pop3Error} (sound : Sound f)
    (ended : mailpop3ListIfNeeded transport.logged stray rounds f = some (r, after)) :
    Sound after ∧ after.state = f.state ∧ (f.msgTab ≠ none → after = f) ∧
      (f.msgTab = none → ∀ msgTab, after.msgTab = some msgTab → Fresh msgTab) := by
  cases table : f.msgTab with
  | none =>
      have listed := mailpop3ListIfNeeded_listed table ended
      refine ⟨listed.sound sound table, listed.state, fun present => (present rfl).elim, fun _ msgTab found => ?_⟩
      rcases listed.table with ⟨absent, -⟩ | ⟨-, msgTab', found', fresh, -⟩
      · rw [absent] at found
        cases found
      · cases found'.symm.trans found
        exact fresh
  | some msgTab =>
      have same : (.noError, f) = (r, after) := by
        simpa [mailpop3ListIfNeeded, table] using ended
      cases same
      exact ⟨sound, rfl, fun _ => rfl, fun absent => (nomatch absent)⟩

structure Judged (transport : Transport σ) (stray : Slots MsgInfo) (rounds : Nat) (f : Session σ) (call : Call) : Prop where
  exact : Keeps transport stray rounds f call ↔ Survivable transport f call
  sound : Survivable transport f call → ∀ r after, call.run transport stray rounds f = some (r, after) → Sound after

theorem list_judged (sound : Sound f) : Judged transport stray rounds f .list := by
  have after_sound (r : Pop3Error) (after : Session σ) (ended : Call.list.run transport stray rounds f = some (r, after)) :
      Sound after := by
    obtain ⟨⟨r', msgTab, f'⟩, listed, spelled⟩ := Option.map_eq_some_iff.mp ended
    cases spelled
    obtain ⟨⟨r', f'⟩, needed, spelled⟩ := Option.map_eq_some_iff.mp listed
    cases spelled
    exact (mailpop3ListIfNeeded_sound sound needed).1
  refine ⟨⟨fun _ => trivial, fun _ => ⟨fun r after ended => (after_sound r after ended).toMirrors, ?_, ?_⟩⟩, fun _ => after_sound⟩
  · rintro ⟨⟩
  · rintro after ⟨⟩

theorem exchange_dele (sound : Sound f) {msgTab : Carray MsgInfo} {indx : UInt32} {msg : MsgInfo} (listed : f.msgTab = some msgTab)
    (found : msgInfoTabFindMsg msgTab indx = some msg) {after : Session σ}
    (answered : exchange transport.logged f (deleCommand indx) = (some .ok, after)) :
    (Mirrors { after with msgTab := after.msgTab.map fun msgTab => markDeleted msgTab indx msg, deletedCount := after.deletedCount + 1 } ↔
      msg.msgDeleted = false) ∧
    (msg.msgDeleted = false →
      Sound { after with msgTab := after.msgTab.map fun msgTab => markDeleted msgTab indx msg, deletedCount := after.deletedCount + 1 }) := by
  have exchanged := exchange_exchanged transport f (deleCommand_nulFree indx)
  obtain ⟨sameState, sameTab, sameCount⟩ := exchange_kept transport.logged f (deleCommand indx)
  rw [answered] at exchanged sameState sameTab sameCount
  have valid := sound.valid msgTab listed
  have counted := sound.counted
  have bounded := markedCount_le valid
  have one : (1 : UInt32).toNat = 1 := rfl
  have marking := markDeleted_count valid found
  rw [listed] at counted
  simp only at sameTab sameCount
  rw [sameTab, sameCount, listed]
  have sum : (f.deletedCount + 1).toNat = (markedCount (some msgTab) + 1) % 2 ^ 32 := by
    rw [UInt32.toNat_add, counted, one]
  have soundAfter (unmarked : msg.msgDeleted = false) :
      Sound { after with msgTab := (some msgTab).map fun msgTab => markDeleted msgTab indx msg, deletedCount := f.deletedCount + 1 } := by
    simp only [Option.map_some]
    rw [unmarked] at marking
    simp only [Bool.false_eq_true, ↓reduceIte] at marking
    have room := markedCount_le (@markDeleted_valid msgTab indx msg valid)
    refine ⟨⟨?_, ?_⟩, ?_, ?_⟩
    · simp only [sum, marking]
      omega
    · rintro table ⟨⟩ other otherMsg foundAfter
      have heard := (exchanged.heard other).2
      simp only [↓reduceIte] at heard
      change otherMsg.msgDeleted = (heardOf other after.stream.2).stands
      rcases markDeleted_find valid found foundAfter with ⟨rfl, marked⟩ | ⟨apart, same⟩
      · rw [heard, if_pos rfl, marked]
      · have notThis : deleCommand indx ≠ deleCommand other := fun same => apart (deleCommand_inj same).symm
        have notRset : deleCommand indx ≠ rsetCommand := (ne_deleCommand (by decide) indx).symm
        rw [heard, if_neg notThis, if_neg notRset]
        exact sound.marks msgTab listed other otherMsg same
    · rintro table ⟨⟩
      exact markDeleted_valid valid
    · rintro ⟨⟩
  refine ⟨⟨fun mirrors => ?_, fun unmarked => (soundAfter unmarked).toMirrors⟩, soundAfter⟩
  by_contra marked
  have counts := mirrors.counted
  simp only [Option.map_some, sum, marking] at counts
  simp only [Bool.not_eq_false] at marked
  rw [if_pos marked] at counts
  omega

/-- An exchange that is not answered +OK changes nothing of what the bookkeeping depends on. -/
theorem Sound.exchange (sound : Sound f) {command : List UInt8} (whole : cString command = command)
    {status : Option ResponseStatus} (outcome : exchange transport.logged f command = (status, after)) (notOk : status ≠ some .ok) :
    Sound after := by
  have exchanged := exchange_exchanged transport f whole
  obtain ⟨sameState, sameTab, sameCount⟩ := exchange_kept transport.logged f command
  rw [outcome] at exchanged sameState sameTab sameCount
  refine sound.congr sameState sameTab sameCount fun indx => ?_
  have heard := (exchanged.heard indx).2
  rwa [if_neg notOk] at heard

theorem dele_sound (sound : Sound f) (indx : UInt32) (survivable : Survivable transport f (.dele indx)) {r : Pop3Error}
    (ended : mailpop3Dele transport.logged stray rounds f indx = some (r, after)) : Sound after := by
  unfold mailpop3Dele at ended
  split at ended
  · cases ended
    exact sound
  · next inTransaction =>
    obtain ⟨⟨msg, f'⟩, searched, rest⟩ := Option.map_eq_some_iff.mp ended
    obtain ⟨⟨r', f''⟩, needed, spelled⟩ := Option.map_eq_some_iff.mp searched
    have both : (f''.msgTab.bind fun msgTab => msgInfoTabFindMsg msgTab indx, f'') = (msg, f') := spelled
    obtain ⟨found, rfl⟩ := Prod.mk.inj both
    obtain ⟨sound', sameState, present, newTable⟩ := mailpop3ListIfNeeded_sound sound needed
    cases msg with
    | none =>
        cases rest
        exact sound'.congr rfl rfl rfl fun _ => rfl
    | some msg =>
        obtain ⟨msgTab, listed, slot⟩ := Option.bind_eq_some_iff.mp found
        rcases outcome : exchange transport.logged f'' (deleCommand indx) with ⟨status, last⟩
        simp only [outcome] at rest
        rcases status with _ | _ | _
        · cases rest
          exact sound'.exchange (deleCommand_nulFree indx) outcome (by simp)
        · obtain ⟨-, rfl⟩ := Prod.mk.inj rest
          refine (exchange_dele sound' listed slot outcome).2 ?_
          -- only a message of an old table can be marked
          cases old : f.msgTab with
          | none =>
              have fresh := newTable old msgTab listed
              exact fresh.unmarked msg (List.mem_of_getElem? ((msgInfoTabFindMsg_iff fresh.valid).mp slot).2)
          | some table =>
              obtain rfl := present (by simp [old])
              by_contra marked
              rw [Bool.not_eq_false] at marked
              exact survivable (not_not.mp inTransaction) msgTab msg listed slot marked (congrArg Prod.fst outcome)
        · cases rest
          exact sound'.exchange (deleCommand_nulFree indx) outcome (by simp)

theorem dele_judged (sound : Sound f) (indx : UInt32) : Judged transport stray rounds f (.dele indx) := by
  refine ⟨⟨fun keeps => ?_, fun survivable => ⟨fun r after ended => (dele_sound sound indx survivable ended).toMirrors, ?_, ?_⟩⟩,
    fun survivable r after ended => dele_sound sound indx survivable ended⟩
  · intro inTransaction msgTab msg listed found marked answered
    rcases outcome : exchange transport.logged f (deleCommand indx) with ⟨status, last⟩
    have statusOk : status = some .ok := (congrArg Prod.fst outcome).symm.trans answered
    subst statusOk
    have run : Call.run transport stray rounds f (.dele indx) =
        some (.noError, { last with
          msgTab := last.msgTab.map fun msgTab => markDeleted msgTab indx msg
          deletedCount := last.deletedCount + 1 }) := by
      simp [Call.run, mailpop3Dele, inTransaction, findMsg, mailpop3ListIfNeeded, listed, found, outcome]
    have unmarked := (exchange_dele sound listed found outcome).1.mp (keeps.mirrors _ _ run)
    rw [marked] at unmarked
    cases unmarked
  · rintro ⟨⟩
  · rintro after ⟨⟩

theorem exchange_rset {status : ResponseStatus} (outcome : exchange transport.logged f rsetCommand = (some status, after)) (indx : UInt32) :
    deletionStands indx after.stream.2 = if status = .ok then false else deletionStands indx f.stream.2 := by
  have exchanged := exchange_exchanged transport f (show cString rsetCommand = rsetCommand by decide)
  rw [outcome] at exchanged
  have heard := (exchanged.heard indx).2
  rw [if_neg (ne_deleCommand (by decide) indx), if_pos rfl] at heard
  change (heardOf indx after.stream.2).stands = _
  simpa using heard

theorem rset_judged (sound : Sound f) : Judged transport stray rounds f .rset := by
  have judged (r : Pop3Error) (after : Session σ) (run : Call.run transport stray rounds f .rset = some (r, after))
      (sound' : Sound after) (survivable : Survivable transport f .rset) : Judged transport stray rounds f .rset := by
    refine ⟨⟨fun _ => survivable, fun _ => ⟨fun r' after' run' => ?_, fun _ => by rw [run]; rfl, by rintro after ⟨⟩⟩⟩,
      fun _ r' after' run' => ?_⟩
    · cases run.symm.trans run'
      exact sound'.toMirrors
    · cases run.symm.trans run'
      exact sound'
  by_cases inTransaction : f.state = .transaction
  · rcases outcome : exchange transport.logged f rsetCommand with ⟨status, last⟩
    obtain ⟨sameState, sameTab, sameCount⟩ := exchange_kept transport.logged f rsetCommand
    simp only [outcome] at sameState sameTab sameCount
    have answered : answer transport f rsetCommand = status := congrArg Prod.fst outcome
    cases status with
    | none =>
        refine judged .stream last ?_ (sound.exchange (by decide) outcome (by simp)) ?_
        · simp [Call.run, mailpop3Rset, inTransaction, outcome]
        · intro _ msgTab listed unanswered
          exact absurd answered unanswered
    | some status =>
        have stands := exchange_rset outcome
        cases listed : f.msgTab with
        | none =>
            refine judged .noError last ?_ ?_ ?_
            · simp [Call.run, mailpop3Rset, inTransaction, outcome, sameTab, listed]
            · refine sound.congr sameState sameTab sameCount fun indx => ?_
              rw [stands, sound.unlisted listed inTransaction indx, ite_self]
            · intro _ msgTab found
              rw [listed] at found
              cases found
        | some msgTab =>
            have valid := sound.valid msgTab listed
            have reset := msgInfoTabReset_outcome valid
            cases slots : msgInfoTabReset msgTab with
            | none =>
                rw [slots] at reset
                have run : Call.run transport stray rounds f .rset = none := by
                  simp [Call.run, mailpop3Rset, inTransaction, outcome, sameTab, listed, slots]
                refine ⟨⟨fun keeps => ?_, fun survivable => ?_⟩, fun survivable => ?_⟩
                · have returned := keeps.returns rfl
                  rw [run] at returned
                  cases returned
                · exact absurd reset (survivable inTransaction msgTab listed (by simp [answered])).1
                · exact absurd reset (survivable inTransaction msgTab listed (by simp [answered])).1
            | some table =>
                rw [slots] at reset
                obtain ⟨filled, valid', cleared⟩ := reset
                have find := clearMark_find valid valid' cleared
                have run : Call.run transport stray rounds f .rset =
                    some (.noError, { last with msgTab := some table, deletedCount := 0 }) := by
                  simp [Call.run, mailpop3Rset, inTransaction, outcome, sameTab, listed, slots]
                by_cases known : status = .err → markedCount f.msgTab = 0
                · refine judged _ _ run (.fresh rfl (clearMark_fresh valid' cleared) rfl fun indx msg found => ?_) ?_
                  · change deletionStands indx last.stream.2 = false
                    rw [stands]
                    cases status with
                    | ok => rfl
                    | err =>
                        obtain ⟨old, found', -⟩ := (find indx msg).mp found
                        have unmarked := Unmarked.of_count (listed ▸ known rfl)
                        rw [if_neg (by decide), ← sound.marks msgTab listed indx old found']
                        exact unmarked old (List.mem_of_getElem? ((msgInfoTabFindMsg_iff valid).mp found').2)
                  · intro _ msgTab' found _
                    cases listed.symm.trans found
                    exact ⟨filled, fun refused => known (by simpa [answered] using refused)⟩
                · have unsurvivable : ¬ Survivable transport f .rset := fun survivable =>
                    known fun refused => (survivable inTransaction msgTab listed (by simp [answered])).2 (by rw [answered, refused])
                  refine ⟨⟨fun keeps => ?_, fun survivable => absurd survivable unsurvivable⟩,
                    fun survivable => absurd survivable unsurvivable⟩
                  obtain ⟨refused, some_marked⟩ := Classical.not_imp.mp known
                  rw [listed] at some_marked
                  obtain ⟨indx, old, found, marked⟩ := exists_marked valid some_marked
                  -- the deletion still stands on the server, and the message has lost its mark
                  have mirrored := (keeps.mirrors _ _ run).marks table rfl indx _ ((find indx _).mpr ⟨old, found, rfl⟩)
                  change false = deletionStands indx last.stream.2 at mirrored
                  rw [stands, refused, if_neg (by decide), ← sound.marks msgTab listed indx old found, marked] at mirrored
                  cases mirrored
  · refine judged .badState f ?_ sound fun inTransaction' => absurd inTransaction' inTransaction
    simp [Call.run, mailpop3Rset, inTransaction]

/-- A closed session has no table, so that its count has to be zero. -/
theorem closeSession_mirrors (f : Session σ) : Mirrors (closeSession transport.logged f) ↔ f.deletedCount = 0 := by
  have zero : (0 : UInt32).toNat = 0 := rfl
  constructor
  · intro mirrors
    exact UInt32.toNat_inj.mp (mirrors.counted.trans zero.symm)
  · intro none_deleted
    refine ⟨?_, fun _ impossible => (nomatch impossible)⟩
    change f.deletedCount.toNat = 0
    rw [none_deleted, zero]

theorem closeSession_sound (mirrors : Mirrors (closeSession transport.logged f)) : Sound (closeSession transport.logged f) :=
  ⟨mirrors, fun _ impossible => (nomatch impossible), fun _ impossible => (nomatch impossible)⟩

theorem Exchanged.answeredOk {command : List UInt8} {status : ResponseStatus} {log : List Passed}
    (exchanged : Exchanged f command (some status) log) : AnsweredOk command log ↔ some status ≠ some .err := by
  cases exchanged with
  | answered line =>
      constructor
      · rintro ⟨before, line', spelled, ok⟩ failed
        have same := (List.append_inj' spelled rfl).2
        simp only [List.cons.injEq, Passed.read.injEq, Option.some.injEq, and_true, true_and] at same
        rw [same, ok] at failed
        cases failed
      · intro succeeded
        refine ⟨f.stream.2, line, rfl, ?_⟩
        cases parsed : (parseResponse (some line)).1 with
        | ok => rfl
        | err => exact absurd (congrArg some parsed) succeeded

theorem quit_judged (f : Session σ) : Judged transport stray rounds f .quit := by
  have judged (r : Pop3Error) (last : Session σ) (run : mailpop3Quit transport.logged f = (r, closeSession transport.logged last))
      (sameCount : last.deletedCount = f.deletedCount)
      (committed : r = .noError → (AnsweredOk quitCommand last.stream.2 ↔ answer transport f quitCommand ≠ some .err))
      (otherwise : r ≠ .noError → f.state ≠ .disconnected → answer transport f quitCommand ≠ some .err)
      (connected : r = .noError → f.state ≠ .disconnected) : Judged transport stray rounds f .quit := by
    have closes := @closeSession_mirrors σ transport last
    have sameLog : (closeSession transport.logged last).stream.2 = last.stream.2 := by
      unfold closeSession
      split <;> rfl
    refine ⟨⟨fun keeps => ⟨?_, fun open_ => ?_⟩, fun survivable => ⟨?_, by rintro ⟨⟩, ?_⟩⟩, ?_⟩
    · rw [← sameCount]
      exact closes.mp (keeps.mirrors _ _ (congrArg some run))
    · by_cases succeeds : r = .noError
      · have answered := keeps.committed _ rfl (succeeds ▸ congrArg some run)
        rw [sameLog] at answered
        exact (committed succeeds).mp answered
      · exact otherwise succeeds open_
    · rintro r' after run'
      cases run.symm.trans (Option.some.inj run')
      exact closes.mpr (sameCount.trans survivable.1)
    · rintro after - run'
      obtain ⟨succeeds, rfl⟩ := Prod.mk.inj (run.symm.trans (Option.some.inj run'))
      rw [sameLog]
      exact (committed succeeds).mpr (survivable.2 (connected succeeds))
    · rintro survivable r' after run'
      cases run.symm.trans (Option.some.inj run')
      exact closeSession_sound (closes.mpr (sameCount.trans survivable.1))
  by_cases disconnected : f.state = .disconnected
  · refine judged .badState f ?_ rfl (by rintro ⟨⟩) (fun _ connected => absurd disconnected connected) (by rintro ⟨⟩)
    simp [mailpop3Quit, disconnected]
  · have open_ : ¬ (f.state ≠ .authorization ∧ f.state ≠ .transaction) := by
      cases state : f.state <;> simp_all
    have exchanged := exchange_exchanged transport f (show cString quitCommand = quitCommand by decide)
    have sameCount := (exchange_kept transport.logged f quitCommand).2.2
    rcases outcome : exchange transport.logged f quitCommand with ⟨status, last⟩
    rw [outcome] at exchanged sameCount
    have answered : answer transport f quitCommand = status := congrArg Prod.fst outcome
    cases status with
    | none =>
        refine judged .stream last ?_ sameCount (by rintro ⟨⟩) (fun _ _ => by rw [answered]; simp) (by rintro ⟨⟩)
        simp only [mailpop3Quit, if_neg open_, outcome]
    | some status =>
        refine judged .noError last ?_ sameCount (fun _ => ?_) (fun failed => absurd rfl failed) (fun _ => disconnected)
        · simp only [mailpop3Quit, if_neg open_, outcome]
        · rw [answered]
          exact exchanged.answeredOk

theorem call_judged (sound : Sound f) (call : Call) : Judged transport stray rounds f call := by
  cases call with
  | list => exact list_judged sound
  | dele indx => exact dele_judged sound indx
  | rset => exact rset_judged sound
  | quit => exact quit_judged f

def unlistedSession (f : Mailpop3 σ) : Session σ :=
  { stream := (f.stream, []), connected := f.connected, state := f.state, timestamp := f.timestamp, response := f.response,
    msgTab := none, deletedCount := 0 }

theorem unlistedSession_sound (f : Mailpop3 σ) : Sound (unlistedSession f) :=
  ⟨⟨rfl, fun _ impossible => (nomatch impossible)⟩, fun _ impossible => (nomatch impossible), fun _ _ _ => rfl⟩

/-- Each call of a run keeps the bookkeeping right exactly where each of them can be survived. -/
theorem bookkeeping_iff (transport : Transport σ) (stray : Slots MsgInfo) (rounds : Nat) (f : Mailpop3 σ) (calls : List Call) :
    EachStep (step transport stray rounds) (fun s call => ∀ f, s = some f → Keeps transport stray rounds f call)
        (some (unlistedSession f)) calls ↔
      EachStep (step transport stray rounds) (fun s call => ∀ f, s = some f → Survivable transport f call)
        (some (unlistedSession f)) calls := by
  let invariant (s : Option (Session σ)) : Prop := ∀ f, s = some f → Sound f
  have start : invariant (some (unlistedSession f)) := by
    rintro f' ⟨⟩
    exact unlistedSession_sound f
  refine EachStep.iff_safe (fun s call sound _ => ?_) (fun s call sound _ survivable => ?_) start (EachStep.always (fun _ _ => trivial) _ _)
  · exact forall₂_congr fun f' reached => (call_judged (sound f' reached) call).exact
  · intro after reached
    obtain ⟨f', rfl, ran⟩ := Option.bind_eq_some_iff.mp reached
    obtain ⟨⟨r, last⟩, ended, rfl⟩ := Option.map_eq_some_iff.mp ran
    exact (call_judged (sound f' rfl) call).sound (survivable f' rfl) r last ended

def Transport.scripted : Transport (List Line) where
  write := fun lines octets => (octets.length, lines)
  flush := fun lines => (0, lines)
  readLine := fun lines => (lines.head?, lines.tail)
  close := id

def scriptedSession (lines : List String) : Mailpop3 (List Line) :=
  ⟨lines.map asciiText, true, .transaction, none, none, none, 0⟩

/-- A refused QUIT succeeds, and a message that is deleted twice counts twice. -/
theorem bookkeeping_lost :
    ¬ EachStep (step .scripted (fun _ => none) 4) (fun s call => ∀ f, s = some f → Keeps .scripted (fun _ => none) 4 f call)
        (some (unlistedSession (scriptedSession ["-ERR the maildrop was not updated"]))) [.quit] ∧
      ¬ EachStep (step .scripted (fun _ => none) 4) (fun s call => ∀ f, s = some f → Keeps .scripted (fun _ => none) 4 f call)
        (some (unlistedSession (scriptedSession ["+OK", "1 100", ".", "+OK", "1 a", ".", "+OK", "+OK"]))) [.dele 1, .dele 1] := by
  constructor
  · rintro ⟨kept, -⟩
    obtain ⟨before, line, spelled, ok⟩ := (kept _ rfl).committed _ rfl rfl
    have passed : [] ++ [Passed.sent quitCommand, .read (some (asciiText "-ERR the maildrop was not updated"))] =
        before ++ [.sent quitCommand, .read (some line)] := spelled
    have same := (List.append_inj' passed rfl).2
    simp only [List.cons.injEq, Passed.read.injEq, Option.some.injEq, and_true, true_and] at same
    rw [← same] at ok
    revert ok
    decide
  · rintro ⟨-, kept, -⟩
    have counts : ((step .scripted (fun _ => none) 4 (step .scripted (fun _ => none) 4 (some (unlistedSession (scriptedSession
        ["+OK", "1 100", ".", "+OK", "1 a", ".", "+OK", "+OK"]))) (.dele 1)) (.dele 1)).map fun f =>
          (f.deletedCount.toNat, markedCount f.msgTab)) = some (2, 1) := by
      decide
    obtain ⟨after, reached, numbers⟩ := Option.map_eq_some_iff.mp counts
    obtain ⟨f, first, second⟩ := Option.bind_eq_some_iff.mp reached
    obtain ⟨⟨r, last⟩, ran, rfl⟩ := Option.map_eq_some_iff.mp second
    have counted := ((kept f first).mirrors r last ran).counted
    obtain ⟨two, one⟩ := Prod.mk.inj numbers
    rw [two, one] at counted
    cases counted

end Etpan.Pop3
