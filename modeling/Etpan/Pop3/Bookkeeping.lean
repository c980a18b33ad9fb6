import Etpan.Pop3.Listing

namespace Etpan.Pop3

open Etpan.Data Etpan.Stream Etpan.DataTypes Carray

/-! The deletions that a session believes in, against what has passed on its stream. -/

inductive Passed where
  | sent (octets : List UInt8)
  | read (line : Option Line)

section Logged

variable {σ : Type}

def Transport.logged (transport : Transport σ) : Transport (σ × List Passed) where
  write := fun s octets => ((transport.write s.1 octets).1, (transport.write s.1 octets).2, s.2 ++ [.sent octets])
  flush := fun s => ((transport.flush s.1).1, (transport.flush s.1).2, s.2)
  readLine := fun s => ((transport.readLine s.1).1, (transport.readLine s.1).2, s.2 ++ [.read (transport.readLine s.1).1])
  close := fun s => (transport.close s.1, s.2)

end Logged

/-- What an observer of the stream knows of one message: the command that waits for its answer, and whether a
deletion of the message stands. -/
structure Heard where
  pending : List UInt8
  stands : Bool

/-- A DELE answered +OK deletes the message, an RSET answered +OK takes that back. -/
def hear (indx : UInt32) (heard : Heard) : Passed → Heard
  | .sent octets => { heard with pending := octets }
  | .read line =>
      ⟨[], if (parseResponse line).1 = .ok then
          if heard.pending = deleCommand indx then true
          else if heard.pending = rsetCommand then false
          else heard.stands
        else heard.stands⟩

def heardOf (indx : UInt32) (log : List Passed) : Heard := log.foldl (hear indx) ⟨[], false⟩

/-- A DELE for the message was answered +OK, and no later RSET was. -/
def deletionStands (indx : UInt32) (log : List Passed) : Bool := (heardOf indx log).stands

def AnsweredOk (command : List UInt8) (log : List Passed) : Prop :=
  ∃ before line, log = before ++ [.sent command, .read (some line)] ∧ (parseResponse (some line)).1 = .ok

def isMarked (slot : Option MsgInfo) : Bool := slot.any MsgInfo.msgDeleted

def markedCount (msgTab : Option (Carray MsgInfo)) : Nat :=
  match msgTab with
  | none => 0
  | some msgTab => msgTab.contents.countP isMarked

abbrev Session (σ : Type) := Mailpop3 (σ × List Passed)

variable {σ : Type}

/-- The count is that of the marked messages, and the marked messages are those deleted on the server. -/
structure Mirrors (f : Session σ) : Prop where
  counted : f.deletedCount.toNat = markedCount f.msgTab
  marks : ∀ msgTab, f.msgTab = some msgTab → ∀ indx msg, msgInfoTabFindMsg msgTab indx = some msg →
    msg.msgDeleted = deletionStands indx f.stream.2

inductive Call where
  | list
  | dele (indx : UInt32)
  | rset
  | quit
  deriving DecidableEq

section Runs

variable (transport : Transport σ) (stray : Slots MsgInfo) (rounds : Nat)

/-- `none` is a call that does not return: a listing goes on for more than `rounds` lines, or the process dies. -/
def Call.run (f : Session σ) : Call → Option (Pop3Error × Session σ)
  | .list => (mailpop3List transport.logged stray rounds f).map fun (r, _, f) => (r, f)
  | .dele indx => mailpop3Dele transport.logged stray rounds f indx
  | .rset => mailpop3Rset transport.logged f
  | .quit => some (mailpop3Quit transport.logged f)

def step (s : Option (Session σ)) (call : Call) : Option (Session σ) :=
  s.bind fun f => (call.run transport stray rounds f).map Prod.snd

/-- The call keeps the bookkeeping right; RSET does not kill the process, and QUIT succeeds only when the server says so. -/
structure Keeps (f : Session σ) (call : Call) : Prop where
  mirrors : ∀ r after, call.run transport stray rounds f = some (r, after) → Mirrors after
  returns : call = .rset → (call.run transport stray rounds f).isSome
  committed : ∀ after, call = .quit → call.run transport stray rounds f = some (.noError, after) →
    AnsweredOk quitCommand after.stream.2

/-- What the server answers to a command that is sent now; `none` is a failure of the stream. -/
def answer (f : Session σ) (command : List UInt8) : Option ResponseStatus := (exchange transport.logged f command).1

/-- The calls that the bookkeeping survives. -/
def Survivable (f : Session σ) : Call → Prop
  | .list => True
  | .dele indx => f.state = .transaction → ∀ msgTab msg, f.msgTab = some msgTab → msgInfoTabFindMsg msgTab indx = some msg →
      msg.msgDeleted = true → answer transport f (deleCommand indx) ≠ some .ok
  | .rset => f.state = .transaction → ∀ msgTab, f.msgTab = some msgTab → answer transport f rsetCommand ≠ none →
      none ∉ msgTab.contents ∧ (answer transport f rsetCommand = some .err → markedCount f.msgTab = 0)
  | .quit => f.deletedCount = 0 ∧ (f.state ≠ .disconnected → answer transport f quitCommand ≠ some .err)

end Runs

theorem signedDecimal_length (indx : UInt32) : (signedDecimal indx).length ≤ 11 := by
  have bounded := indx.toNat_lt
  unfold signedDecimal
  split
  · rw [decimal_length]
    have digits := @digitCount_le indx.toNat 10 (by omega) (by omega)
    omega
  · rw [List.length_cons, decimal_length]
    have digits := @digitCount_le (2 ^ 32 - indx.toNat) 10 (by omega) (by omega)
    omega

theorem signedDecimal_nulFree (indx : UInt32) : NulFree (signedDecimal indx) := by
  unfold signedDecimal
  split
  · exact (decimal_plain _).1
  · have sign : NulFree [ascii '-'] := by decide
    exact sign.append (decimal_plain _).1

theorem decimal_ne_minus (number : Nat) (text : List UInt8) : decimal number ≠ ascii '-' :: text := by
  intro same
  have digit : isDigit (ascii '-') = true := decimal_digits _ (same ▸ List.mem_cons_self)
  revert digit
  decide

theorem signedDecimal_inj {indx other : UInt32} (same : signedDecimal indx = signedDecimal other) : indx = other := by
  have bounded := indx.toNat_lt
  have otherBounded := other.toNat_lt
  unfold signedDecimal at same
  apply UInt32.toNat_inj.mp
  split at same <;> split at same
  · have numbers := congrArg decimalValue same
    rwa [decimalValue_decimal, decimalValue_decimal] at numbers
  · exact (decimal_ne_minus _ _ same).elim
  · exact (decimal_ne_minus _ _ same.symm).elim
  · have numbers := congrArg decimalValue (List.cons.inj same).2
    rw [decimalValue_decimal, decimalValue_decimal] at numbers
    omega

theorem deleCommand_text (indx : UInt32) : deleCommand indx = asciiText "DELE " ++ signedDecimal indx ++ [CR, LF] := by
  have short := signedDecimal_length indx
  have five : (asciiText "DELE ").length = 5 := rfl
  rw [deleCommand, snprintf, List.take_of_length_le]
  simp only [List.length_append, List.length_cons, List.length_nil, five, POP3_STRING_SIZE]
  omega

theorem deleCommand_inj {indx other : UInt32} (same : deleCommand indx = deleCommand other) : indx = other := by
  rw [deleCommand_text, deleCommand_text, List.append_assoc, List.append_assoc] at same
  exact signedDecimal_inj (List.append_cancel_right (List.append_cancel_left same))

theorem ne_deleCommand {command : List UInt8} (begins : command.head? ≠ some (ascii 'D')) (indx : UInt32) :
    command ≠ deleCommand indx := by
  rintro rfl
  exact begins (by rw [deleCommand_text]; rfl)

theorem deleCommand_nulFree (indx : UInt32) : cString (deleCommand indx) = deleCommand indx := by
  have text : NulFree (asciiText "DELE ") := by decide
  have final : NulFree [CR, LF] := by decide
  rw [deleCommand_text]
  exact cString_eq_self ((text.append (signedDecimal_nulFree indx)).append final)

/-! ### What one exchange adds to the log -/

section Exchange

variable {transport : Transport σ} {f : Session σ} {command : List UInt8}

theorem heardOf_append (indx : UInt32) (log more : List Passed) :
    heardOf indx (log ++ more) = more.foldl (hear indx) (heardOf indx log) := List.foldl_append

theorem hear_settled {indx : UInt32} {heard : Heard} (settled : heard.pending = []) (line : Option Line) :
    hear indx heard (.read line) = heard := by
  have notDele : heard.pending ≠ deleCommand indx := by
    rw [settled]
    exact ne_deleCommand (by decide) indx
  have notRset : heard.pending ≠ rsetCommand := by
    rw [settled]
    decide
  obtain ⟨pending, stands⟩ := heard
  cases settled
  simp [hear, notDele, notRset]

theorem exchange_kept (transport : Transport σ) (f : Mailpop3 σ) (command : List UInt8) :
    (exchange transport f command).2.state = f.state ∧ (exchange transport f command).2.msgTab = f.msgTab ∧
      (exchange transport f command).2.deletedCount = f.deletedCount := by
  simp only [exchange, sendCommand]
  repeat' split
  all_goals exact ⟨rfl, rfl, rfl⟩

inductive Exchanged (f : Session σ) (command : List UInt8) : Option ResponseStatus → List Passed → Prop
  | unsent : Exchanged f command none (f.stream.2 ++ [.sent command])
  | unanswered : Exchanged f command none (f.stream.2 ++ [.sent command, .read none])
  | answered (line : Line) : Exchanged f command (some (parseResponse (some line)).1) (f.stream.2 ++ [.sent command, .read (some line)])

theorem exchange_exchanged (transport : Transport σ) (f : Session σ) (whole : cString command = command) :
    Exchanged f command (exchange transport.logged f command).1 (exchange transport.logged f command).2.stream.2 := by
  by_cases unwritten : (transport.write f.stream.1 command).1 = -1
  · simpa [exchange, sendCommand, Transport.logged, whole, unwritten] using Exchanged.unsent
  by_cases unflushed : (transport.flush (transport.write f.stream.1 command).2).1 = -1
  · simpa [exchange, sendCommand, Transport.logged, whole, unwritten, unflushed] using Exchanged.unsent
  cases line : (transport.readLine (transport.flush (transport.write f.stream.1 command).2).2).1 with
  | none => simpa [exchange, sendCommand, Transport.logged, whole, unwritten, unflushed, line] using Exchanged.unanswered
  | some line' => simpa [exchange, sendCommand, Transport.logged, whole, unwritten, unflushed, line] using Exchanged.answered line'

theorem Exchanged.heard {status : Option ResponseStatus} {log : List Passed} (exchanged : Exchanged f command status log)
    (indx : UInt32) :
    (status ≠ none → (heardOf indx log).pending = []) ∧
      (heardOf indx log).stands =
        if status = some .ok then
          if command = deleCommand indx then true
          else if command = rsetCommand then false
          else deletionStands indx f.stream.2
        else deletionStands indx f.stream.2 := by
  cases exchanged with
  | unsent => exact ⟨fun answered => (answered rfl).elim, by simp [heardOf_append, hear, deletionStands]⟩
  | unanswered => exact ⟨fun answered => (answered rfl).elim, by simp [heardOf_append, hear, deletionStands, parseResponse]⟩
  | answered line => exact ⟨fun _ => by simp [heardOf_append, hear], by simp [heardOf_append, hear, deletionStands]⟩

theorem Exchanged.other {status : Option ResponseStatus} {log : List Passed} (exchanged : Exchanged f command status log)
    (notDele : command.head? ≠ some (ascii 'D')) (notRset : command ≠ rsetCommand) (indx : UInt32) :
    deletionStands indx log = deletionStands indx f.stream.2 := by
  have heard := (exchanged.heard indx).2
  rw [if_neg (ne_deleCommand notDele indx), if_neg notRset, ite_self] at heard
  exact heard

end Exchange

section Listing

variable {transport : Transport σ} {stray : Slots MsgInfo} {rounds : Nat}

def SameHeard (log earlier : List Passed) : Prop := ∀ indx, heardOf indx log = heardOf indx earlier

def SettledLog (log : List Passed) : Prop := ∀ indx, (heardOf indx log).pending = []

theorem SameHeard.readLine {log earlier : List Passed} (same : SameHeard log earlier) (settled : SettledLog earlier)
    (line : Option Line) : SameHeard (log ++ [.read line]) earlier := by
  intro indx
  rw [heardOf_append, same indx]
  exact hear_settled (settled indx) line

theorem readList_logged {s after : σ × List Passed} {msgTab : Option (Carray MsgInfo)} (settled : SettledLog s.2)
    (listed : readList transport.logged.readLine stray rounds s = some (msgTab, after)) :
    (∀ table, msgTab = some table → Fresh table) ∧ SameHeard after.2 s.2 := by
  unfold readList at listed
  cases created : carrayNew 128 true (some stray) with
  | none =>
      rw [created] at listed
      cases listed
      exact ⟨fun table impossible => (nomatch impossible), fun _ => rfl⟩
  | some table =>
      rw [created] at listed
      let kept (s' : (σ × List Passed) × Carray MsgInfo) : Prop := Fresh s'.2 ∧ SameHeard s'.1.2 s.2
      let done (r : Option (Carray MsgInfo) × σ × List Passed) : Prop :=
        (∀ table, r.1 = some table → Fresh table) ∧ SameHeard r.2.2 s.2
      have turn (s') (invariant : kept s') : (readListRound transport.logged.readLine stray s').elim kept done := by
        have same := invariant.2.readLine settled (transport.readLine s'.1.1).1
        unfold readListRound
        split
        · next after' read =>
            obtain rfl := congrArg Prod.snd read
            exact ⟨fun table impossible => (nomatch impossible), same⟩
        · next line after' read =>
            obtain rfl := congrArg Prod.snd read
            split
            · exact ⟨fun table found => Option.some.inj found ▸ invariant.1, same⟩
            · split
              · exact ⟨fun table impossible => (nomatch impossible), same⟩
              · next table' listed' => exact ⟨listLine_fresh invariant.1 listed', same⟩
      exact loop_keeps turn ⟨carrayNew_fresh created, fun _ => rfl⟩ listed

theorem readUidl_logged {s after : σ × List Passed} {msgTab table : Carray MsgInfo} {ended : Bool} (settled : SettledLog s.2)
    (fresh : Fresh msgTab) (listed : readUidl transport.logged.readLine rounds s msgTab = some (ended, after, table)) :
    Fresh table ∧ SameHeard after.2 s.2 := by
  let kept (s' : (σ × List Passed) × Carray MsgInfo) : Prop := Fresh s'.2 ∧ SameHeard s'.1.2 s.2
  let done (r : Bool × (σ × List Passed) × Carray MsgInfo) : Prop := Fresh r.2.2 ∧ SameHeard r.2.1.2 s.2
  have turn (s') (invariant : kept s') : (readUidlRound transport.logged.readLine s').elim kept done := by
    have same := invariant.2.readLine settled (transport.readLine s'.1.1).1
    unfold readUidlRound
    split
    · next after' read =>
        obtain rfl := congrArg Prod.snd read
        exact ⟨invariant.1, same⟩
    · next line after' read =>
        obtain rfl := congrArg Prod.snd read
        split
        · exact ⟨invariant.1, same⟩
        · exact ⟨uidlLine_fresh invariant.1 line, same⟩
  exact loop_keeps turn ⟨fresh, fun _ => rfl⟩ listed

theorem SameHeard.stands {log earlier : List Passed} (same : SameHeard log earlier) (indx : UInt32) :
    deletionStands indx log = deletionStands indx earlier := congrArg Heard.stands (same indx)

/-- What a listing may change: there is a new table with no message marked, or still none. -/
structure Listed (f after : Session σ) : Prop where
  state : after.state = f.state
  stands : ∀ indx, deletionStands indx after.stream.2 = deletionStands indx f.stream.2
  table : (after.msgTab = none ∧ after.deletedCount = f.deletedCount) ∨
    f.state = .transaction ∧ ∃ msgTab, after.msgTab = some msgTab ∧ Fresh msgTab ∧ after.deletedCount = 0

theorem exchange_listing (transport : Transport σ) (f : Session σ) {command : List UInt8} (whole : cString command = command)
    (notDele : command.head? ≠ some (ascii 'D')) (notRset : command ≠ rsetCommand) {status : Option ResponseStatus}
    {after : Session σ} (outcome : exchange transport.logged f command = (status, after)) :
    after.state = f.state ∧ after.msgTab = f.msgTab ∧ after.deletedCount = f.deletedCount ∧
      (∀ indx, deletionStands indx after.stream.2 = deletionStands indx f.stream.2) ∧
        (status ≠ none → SettledLog after.stream.2) := by
  have exchanged := exchange_exchanged transport f whole
  obtain ⟨sameState, sameTab, sameCount⟩ := exchange_kept transport.logged f command
  rw [outcome] at exchanged sameState sameTab sameCount
  exact ⟨sameState, sameTab, sameCount, exchanged.other notDele notRset, fun answered indx => (exchanged.heard indx).1 answered⟩

theorem mailpop3DoUidl_listed {f after : Session σ} {r : Pop3Error} {msgTab : Carray MsgInfo} (fresh : Fresh msgTab)
    (present : f.msgTab = some msgTab) (zero : f.deletedCount = 0)
    (ended : mailpop3DoUidl transport.logged rounds f msgTab = some (r, after)) :
    after.state = f.state ∧ (∀ indx, deletionStands indx after.stream.2 = deletionStands indx f.stream.2) ∧
      ∃ table, after.msgTab = some table ∧ Fresh table ∧ after.deletedCount = 0 := by
  unfold mailpop3DoUidl at ended
  split at ended
  · cases ended
    exact ⟨rfl, fun _ => rfl, msgTab, present, fresh, zero⟩
  · rcases outcome : exchange transport.logged f uidlCommand with ⟨status, f'⟩
    obtain ⟨sameState, sameTab, sameCount, stands, settled⟩ :=
      exchange_listing transport f (by decide) (by decide) (by decide) outcome
    have kept : ∃ table, f'.msgTab = some table ∧ Fresh table ∧ f'.deletedCount = 0 :=
      ⟨msgTab, sameTab.trans present, fresh, sameCount.trans zero⟩
    rw [outcome] at ended
    rcases status with _ | _ | _
    · cases ended
      exact ⟨sameState, stands, kept⟩
    · obtain ⟨⟨finished, stream, table⟩, read, spelled⟩ := Option.map_eq_some_iff.mp ended
      cases spelled
      obtain ⟨fresh', same⟩ := readUidl_logged (settled (by simp)) fresh read
      exact ⟨sameState, fun indx => (same.stands indx).trans (stands indx), table, rfl, fresh', sameCount.trans zero⟩
    · cases ended
      exact ⟨sameState, stands, kept⟩

theorem mailpop3ListIfNeeded_listed {f after : Session σ} {r : Pop3Error} (absent : f.msgTab = none)
    (ended : mailpop3ListIfNeeded transport.logged stray rounds f = some (r, after)) : Listed f after := by
  have same : { f with msgTab := none } = f := by rw [← absent]
  unfold mailpop3ListIfNeeded at ended
  rw [absent] at ended
  simp only [Option.isNone_none, ↓reduceIte, mailpop3DoList, same] at ended
  split at ended
  · cases ended
    exact ⟨rfl, fun _ => rfl, .inl ⟨absent, rfl⟩⟩
  · next inTransaction =>
    rcases outcome : exchange transport.logged f listCommand with ⟨status, f'⟩
    obtain ⟨sameState, sameTab, sameCount, stands, settled⟩ :=
      exchange_listing transport f (by decide) (by decide) (by decide) outcome
    have kept : Listed f f' := ⟨sameState, stands, .inl ⟨sameTab.trans absent, sameCount⟩⟩
    rw [outcome] at ended
    rcases status with _ | _ | _
    · cases ended
      exact kept
    · obtain ⟨⟨table, stream⟩, read, further⟩ := Option.bind_eq_some_iff.mp ended
      obtain ⟨fresh, same'⟩ := readList_logged (settled (by simp)) read
      cases table with
      | none =>
          cases further
          exact ⟨sameState, fun indx => (same'.stands indx).trans (stands indx), .inl ⟨sameTab.trans absent, sameCount⟩⟩
      | some table =>
          obtain ⟨⟨r', f''⟩, uidls, spelled⟩ := Option.map_eq_some_iff.mp further
          cases spelled
          obtain ⟨uidlState, uidlStands, found⟩ := mailpop3DoUidl_listed (fresh table rfl) rfl rfl uidls
          refine ⟨uidlState.trans sameState, fun indx => ?_, .inr ⟨not_not.mp inTransaction, found⟩⟩
          exact (uidlStands indx).trans ((same'.stands indx).trans (stands indx))
    · cases ended
      exact kept

end Listing

end Etpan.Pop3
