import Etpan.Imap.Vanished

namespace Etpan.Imap

/-! The state of a session and the record of its mailbox, over whole runs of commands. -/

inductive Call where
  | connect (answer : GreetingAnswer)
  | login (answer : Answer)
  | select (condstore : Bool) (answer : Answer)
  | examine (condstore : Bool) (answer : Answer)
  | selectQresync (answer : Answer)
  | close (answer : Answer)
  | logout (answer : Answer)

def CommandResult.outcome {α : Type} (result : CommandResult α) : MailimapError × Session := (result.code, result.session)

/-- The return code of a call and the session after it; whether CONDSTORE is asked for only
changes what is sent. -/
def Call.run (session : Session) : Call → MailimapError × Session
  | .connect answer => mailimapConnect session answer
  | .login answer => mailimapLogin session answer
  | .select _ answer => (mailimapSelectCondstoreOptional session answer).outcome
  | .examine _ answer => (mailimapExamineCondstoreOptional session answer).outcome
  | .selectQresync answer => (mailimapSelectQresync session answer).outcome
  | .close answer => mailimapClose session answer
  | .logout answer => mailimapLogout session answer

def Answer.response? : Answer → Option Response
  | .line (.ok response) => some response
  | _ => none

def ImapState.maySelect (state : ImapState) : Bool := state = .authenticated || state = .selected

/-- The answer that a call receives, unless the session is in a state in which it sends nothing. -/
def Call.received (session : Session) : Call → Option Response
  | .connect _ => none
  | .login answer => if session.imapState = .nonAuthenticated then answer.response? else none
  | .select _ answer | .examine _ answer | .selectQresync answer =>
      if session.imapState.maySelect then answer.response? else none
  | .close answer => if session.imapState = .selected then answer.response? else none
  | .logout answer => answer.response?

def Call.selects : Call → Bool
  | .select _ _ | .examine _ _ | .selectQresync _ => true
  | _ => false

/-- The answers received since the SELECT or EXAMINE that succeeded last, its own included. -/
def Call.track (session : Session) (since : Option (List Response)) (call : Call) : Option (List Response) :=
  if call.selects ∧ (call.run session).1 = .noError then some (call.received session).toList
  else since.map (· ++ (call.received session).toList)

def runCalls (session : Session) (since : Option (List Response)) : List Call → Session × Option (List Response)
  | [] => (session, since)
  | call :: calls => runCalls (call.run session).2 (call.track session since) calls

/-- A record exists in the selected state only, and it is the fold of the answers since. -/
structure SelectedState (session : Session) (since : Option (List Response)) : Prop where
  selected : session.imapState = .selected ↔ session.imapSelectionInfo ≠ none
  accumulated : ∀ info, session.imapSelectionInfo = some info →
    ∃ responses, since = some responses ∧
      info = responses.foldl (fun info response => response.describe info) mailimapSelectionInfoNew

/-- An answer that ends with the tag of the command and is not BAD. -/
def ProperAnswer (session : Session) (answer : Answer) : Prop :=
  ∀ parsed, answer = .line parsed → ∃ response rspCondState, parsed = .ok response ∧
    response.rspRespDone = .tagged (mailimapSendCurrentTag session).tagStr rspCondState ∧ rspCondState.rspType ≠ .bad

/-- A mailbox is selected with a proper answer or with none, and a logout comes when none is. -/
def Call.Safe (session : Session) : Call → Prop
  | .select _ answer | .examine _ answer | .selectQresync answer =>
      session.imapState.maySelect = true → ProperAnswer session answer
  | .logout _ => session.imapState ≠ .selected
  | _ => True

def SafeRun (session : Session) : List Call → Prop
  | [] => True
  | call :: calls => call.Safe session ∧ SafeRun (call.run session).2 calls

theorem mailimapParseResponse_session (session : Session) (parsed : Except ParseError Response) :
    (mailimapParseResponse session parsed).2 =
      match parsed with
      | .error _ => session
      | .ok response => responseStore session response := by
  cases parsed with
  | error reason => rfl
  | ok response =>
      simp only [mailimapParseResponse]
      split
      · rfl
      · split_ifs <;> rfl

theorem mailimapParseResponse_proper {session : Session} {response : Response} {rspCondState : RespCondState}
    (done : response.rspRespDone = .tagged session.tagStr rspCondState) (notBad : rspCondState.rspType ≠ .bad) :
    mailimapParseResponse session (.ok response) = (.ok response, responseStore session response) := by
  simp only [mailimapParseResponse, done, responseStore_tagStr]
  rw [if_neg (by simp), if_neg notBad]

/-- The session when the answer was read and stored. -/
def receive (session : Session) (answer : Answer) : Session :=
  match answer.response? with
  | some response => responseStore (mailimapSendCurrentTag session) response
  | none => mailimapSendCurrentTag session

theorem receive_state (session : Session) (answer : Answer) :
    (receive session answer).imapState = session.imapState := by
  rw [receive]
  cases answer.response? with
  | none => rfl
  | some response => exact (stored_response _ response).state

theorem receive_selection (session : Session) (answer : Answer) :
    (receive session answer).imapSelectionInfo = session.imapSelectionInfo.map fun info =>
      answer.response?.toList.foldl (fun info response => response.describe info) info := by
  rw [receive]
  cases answer.response? with
  | none => exact Option.map_id'.symm
  | some response => exact (stored_response _ response).selection

theorem SelectedState.receive {session : Session} {since : Option (List Response)} (holds : SelectedState session since)
    (answer : Answer) : SelectedState (receive session answer) (since.map (· ++ answer.response?.toList)) := by
  constructor
  · rw [receive_state, receive_selection, holds.selected]
    simp
  · intro info found
    rw [receive_selection, Option.map_eq_some_iff] at found
    obtain ⟨before, isBefore, rfl⟩ := found
    obtain ⟨responses, rfl, rfl⟩ := holds.accumulated before isBefore
    exact ⟨responses ++ answer.response?.toList, rfl, List.foldl_append.symm⟩

theorem SelectedState.none {session : Session} {since : Option (List Response)}
    (notSelected : session.imapState ≠ .selected) (nothing : session.imapSelectionInfo = none) :
    SelectedState session since := by
  constructor
  · rw [nothing]
    simpa using notSelected
  · intro info found
    rw [nothing] at found
    cases found

theorem SelectedState.nothing {session : Session} {since : Option (List Response)} (holds : SelectedState session since)
    (notSelected : session.imapState ≠ .selected) : session.imapSelectionInfo = .none := by
  by_contra some_
  exact notSelected (holds.selected.mpr some_)

theorem plainCommand_cases (failure : MailimapError) (onOk : Session → Session) (session : Session) (answer : Answer) :
    (plainCommand failure onOk session answer).2 = receive session answer ∨
      (plainCommand failure onOk session answer).2 = onOk (receive session answer) := by
  cases answer with
  | sendFailed => exact .inl rfl
  | noLine => exact .inl rfl
  | line parsed =>
      have after := mailimapParseResponse_session (mailimapSendCurrentTag session) parsed
      have received : (mailimapParseResponse (mailimapSendCurrentTag session) parsed).2 = receive session (.line parsed) := by
        rw [after]
        cases parsed with
        | error reason => rfl
        | ok response => rfl
      simp only [plainCommand]
      rw [← received]
      rcases mailimapParseResponse (mailimapSendCurrentTag session) parsed with ⟨reason | response, stored⟩
      · exact .inl rfl
      · simp only [plainAnswered]
        split
        · exact .inr rfl
        · exact .inl rfl

theorem selectCommand_selectedState {α : Type} {failure : MailimapError} {result : ResponseInfo → α}
    {onFailure : α → Option α} {session : Session} {since : Option (List Response)} {answer : Answer}
    (failed : failure ≠ .noError) (holds : SelectedState session since)
    (proper : session.imapState.maySelect = true → ProperAnswer session answer) :
    SelectedState (selectCommand failure result onFailure session answer).session
      (if (selectCommand failure result onFailure session answer).code = .noError then
        some (if session.imapState.maySelect then answer.response? else none).toList
      else since.map (· ++ (if session.imapState.maySelect then answer.response? else none).toList)) := by
  by_cases may : session.imapState.maySelect = true
  · have allowed : ¬ (session.imapState ≠ .authenticated ∧ session.imapState ≠ .selected) := by
      simp only [ImapState.maySelect, Bool.or_eq_true, decide_eq_true_eq] at may
      tauto
    rw [if_pos may, selectCommand, if_neg allowed]
    have kept := holds.receive answer
    cases answer with
    | sendFailed =>
        rw [if_neg (by simp [CommandResult.error])]
        exact kept
    | noLine =>
        rw [if_neg (by simp [CommandResult.error])]
        exact kept
    | line parsed =>
        obtain ⟨response, rspCondState, rfl, done, notBad⟩ := proper may parsed rfl
        have answered := @mailimapParseResponse_proper
          { mailimapSendCurrentTag session with imapSelectionInfo := some mailimapSelectionInfoNew } response rspCondState
          done notBad
        have stored := (stored_response { mailimapSendCurrentTag session with
          imapSelectionInfo := some mailimapSelectionInfoNew } response).selection
        have code : response.errorCode = rspCondState.rspType := by rw [Response.errorCode, done]
        simp only [answered, selectAnswered, code]
        cases type : rspCondState.rspType with
        | ok =>
            rw [if_pos rfl]
            refine ⟨iff_of_true rfl ?_, ?_⟩
            · rw [stored]
              exact Option.some_ne_none _
            · intro info found
              rw [stored] at found
              cases found
              exact ⟨[response], rfl, rfl⟩
        | no =>
            rw [if_neg failed]
            exact .none (by simp) rfl
        | bad => exact absurd type notBad
  · have refused : session.imapState ≠ .authenticated ∧ session.imapState ≠ .selected := by
      simpa [ImapState.maySelect] using may
    rw [selectCommand, if_pos refused, if_neg may, if_neg (by simp [CommandResult.error])]
    have same : since.map (· ++ (Option.none : Option Response).toList) = since := by simp
    rw [same]
    exact holds

theorem mailimapConnect_selectedState {session : Session} {since : Option (List Response)} (holds : SelectedState session since)
    (answer : GreetingAnswer) : SelectedState (mailimapConnect session answer).2 since := by
  by_cases disconnected : session.imapState = .disconnected
  · have notSelected : session.imapState ≠ .selected := by
      rw [disconnected]
      nofun
    have nothing := holds.nothing notSelected
    rw [mailimapConnect, if_neg (by simpa using disconnected)]
    cases answer with
    | noLine => exact .none notSelected nothing
    | line parsed =>
        cases parsed with
        | error reason => exact .none notSelected nothing
        | ok greeting =>
            cases greeting with
            | bye rspText =>
                have stored := stored_respText { session with imapConnectionInfo := some Option.none } rspText
                refine .none ?_ ?_
                · exact stored.state.symm ▸ notSelected
                · exact stored.selection.trans (by rw [nothing]; rfl)
            | auth preauth rspText =>
                have stored := stored_respText { session with imapConnectionInfo := some Option.none } rspText
                have none_ := stored.selection.trans (by rw [nothing]; rfl : _ = Option.none)
                cases preauth with
                | false => exact .none nofun none_
                | true => exact .none nofun none_
  · rw [mailimapConnect, if_pos disconnected]
    exact holds

theorem map_append_none (since : Option (List Response)) : since.map (· ++ (none : Option Response).toList) = since := by
  simp

theorem Call.run_selectedState {session : Session} {since : Option (List Response)} {call : Call}
    (holds : SelectedState session since) (safe : call.Safe session) :
    SelectedState (call.run session).2 (call.track session since) := by
  cases call with
  | connect answer =>
      rw [Call.track, if_neg (by simp [Call.selects]), Call.received, map_append_none]
      exact mailimapConnect_selectedState holds answer
  | login answer =>
      rw [Call.track, if_neg (by simp [Call.selects]), Call.received, Call.run, mailimapLogin]
      by_cases permitted : session.imapState = .nonAuthenticated
      · have notSelected : session.imapState ≠ .selected := by
          rw [permitted]
          nofun
        have nothing := (holds.receive answer).nothing (by rwa [receive_state])
        rw [if_neg (by simpa using permitted)]
        rcases plainCommand_cases .login (fun session => { session with imapState := .authenticated }) session answer with
          same | changed
        · rw [same]
          exact .none (by rwa [receive_state]) nothing
        · rw [changed]
          exact .none nofun nothing
      · rw [if_pos permitted, if_neg permitted, map_append_none]
        exact holds
  | select condstore answer =>
      have selected := @selectCommand_selectedState _ .select getModSequenceValue some _ _ _ nofun holds safe
      simp only [Call.track, Call.selects, true_and, Call.received]
      exact selected
  | examine condstore answer =>
      have selected := @selectCommand_selectedState _ .examine getModSequenceValue some _ _ _ nofun holds safe
      simp only [Call.track, Call.selects, true_and, Call.received]
      exact selected
  | selectQresync answer =>
      have selected := @selectCommand_selectedState _ .select qresyncResult (fun _ => none) _ _ _ nofun holds safe
      simp only [Call.track, Call.selects, true_and, Call.received]
      exact selected
  | close answer =>
      rw [Call.track, if_neg (by simp [Call.selects]), Call.received, Call.run, mailimapClose]
      by_cases permitted : session.imapState = .selected
      · rw [if_neg (by simpa using permitted), if_pos permitted]
        rcases plainCommand_cases .close
            (fun session => { session with imapSelectionInfo := none, imapState := .authenticated }) session answer with
          same | changed
        · rw [same]
          exact holds.receive answer
        · rw [changed]
          exact .none nofun rfl
      · rw [if_pos permitted, if_neg permitted, map_append_none]
        exact holds
  | logout answer =>
      have nothing := (holds.receive answer).nothing (by rwa [receive_state])
      apply SelectedState.none
      · change ImapState.disconnected ≠ .selected
        nofun
      · change (plainCommand .logout (fun session => { session with imapConnectionInfo := none }) session
          answer).2.imapSelectionInfo = none
        rcases plainCommand_cases .logout (fun session => { session with imapConnectionInfo := none }) session answer with
          same | changed
        · rw [same, nothing]
        · rw [changed, nothing]

theorem SafeRun.front {session : Session} {made rest : List Call} (safe : SafeRun session (made ++ rest)) :
    SafeRun session made := by
  induction made generalizing session with
  | nil => trivial
  | cons call made ih => exact ⟨safe.1, ih safe.2⟩

theorem runCalls_keeps {session : Session} {since : Option (List Response)} {calls : List Call}
    (holds : SelectedState session since) (safe : SafeRun session calls) :
    SelectedState (runCalls session since calls).1 (runCalls session since calls).2 := by
  induction calls generalizing session since with
  | nil => exact holds
  | cons call calls ih => exact ih (Call.run_selectedState holds safe.1) safe.2

/-- In a run in which mailboxes are selected with proper answers and logouts come when none is
selected, every state that is reached has a record exactly when it is the selected one, and the
record comes from the answers since the last mailbox was selected. -/
theorem runCalls_selectedState (workaround : Bool) {calls : List Call}
    (safe : SafeRun { mailimapNew with is163WorkaroundEnabled := workaround } calls) {made rest : List Call}
    (reached : calls = made ++ rest) :
    SelectedState (runCalls { mailimapNew with is163WorkaroundEnabled := workaround } none made).1
      (runCalls { mailimapNew with is163WorkaroundEnabled := workaround } none made).2 := by
  rw [reached] at safe
  exact runCalls_keeps (.none nofun rfl) safe.front

def preauthenticated : Call := .connect (.line (.ok (.auth true { rspCode := none, rspText := [] })))

theorem runCalls_selectedState_select :
    SelectedState (runCalls mailimapNew none
        [preauthenticated, .select false (.line (.ok (answering [.mailboxData (.exists_ 3)])))]).1
      (runCalls mailimapNew none
        [preauthenticated, .select false (.line (.ok (answering [.mailboxData (.exists_ 3)])))]).2 := by
  refine @runCalls_selectedState false
    [preauthenticated, .select false (.line (.ok (answering [.mailboxData (.exists_ 3)])))] ⟨trivial, ?_, trivial⟩ _ [] rfl
  intro may parsed same
  cases same
  refine ⟨_, { rspType := .ok, rspText := { rspCode := none, rspText := [] } }, rfl, ?_, nofun⟩
  rw [tagStr_one rfl rfl]
  rfl

/-- A SELECT whose answer cannot be parsed leaves a record behind, and so does a logout. -/
theorem runCalls_leavesRecord :
    ¬ SelectedState (runCalls mailimapNew none [preauthenticated, .select false (.line (.error .parse))]).1
      (runCalls mailimapNew none [preauthenticated, .select false (.line (.error .parse))]).2 ∧
    ¬ SelectedState (runCalls mailimapNew none
        [preauthenticated, .select false (.line (.ok (answering []))), .logout .noLine]).1
      (runCalls mailimapNew none
        [preauthenticated, .select false (.line (.ok (answering []))), .logout .noLine]).2 := by
  constructor
  · intro holds
    have state : ImapState.authenticated = .selected := holds.selected.mpr (by decide)
    cases state
  · intro holds
    have state : ImapState.disconnected = .selected := by
      apply holds.selected.mpr
      simp only [runCalls, Call.run, mailimapSelectCondstoreOptional, selectCommand]
      rw [if_neg (by decide), mailimapParseResponse_answering (tagStr_one rfl rfl)]
      exact Option.some_ne_none _
    cases state

def Call.sends (session : Session) : Call → Bool
  | .connect _ => false
  | .login _ => session.imapState = .nonAuthenticated
  | .select _ _ | .examine _ _ | .selectQresync _ => session.imapState.maySelect
  | .close _ => session.imapState = .selected
  | .logout _ => true

def runTags (session : Session) : List Call → List (List UInt8)
  | [] => []
  | call :: calls =>
      (if call.sends session then [(mailimapSendCurrentTag session).tagStr] else []) ++ runTags (call.run session).2 calls

def Session.counter (session : Session) : Bool × Nat := (session.is163WorkaroundEnabled, session.imapTag)

theorem tagStr_injective {first second : Session} (plain : first.is163WorkaroundEnabled = second.is163WorkaroundEnabled)
    (same : first.tagStr = second.tagStr) : first.imapTag = second.imapTag := by
  rw [Session.tagStr, Session.tagStr, plain, List.append_cancel_left_eq] at same
  rw [← Data.decimalValue_decimal first.imapTag, same, Data.decimalValue_decimal]

theorem receive_counter (session : Session) (answer : Answer) :
    (receive session answer).counter = (session.is163WorkaroundEnabled, session.imapTag + 1) := by
  rw [receive]
  cases answer.response? with
  | none => rfl
  | some response =>
      have stored := stored_response (mailimapSendCurrentTag session) response
      rw [Session.counter, stored.tag, stored.workaround]
      rfl

theorem mailimapParseResponse_counter (session : Session) (parsed : Except ParseError Response) :
    (mailimapParseResponse session parsed).2.counter = session.counter := by
  rw [mailimapParseResponse_session]
  cases parsed with
  | error reason => rfl
  | ok response =>
      have stored := stored_response session response
      rw [Session.counter, stored.tag, stored.workaround, Session.counter]

theorem plainCommand_counter {failure : MailimapError} {onOk : Session → Session} (frame : ∀ session, (onOk session).counter = session.counter)
    (session : Session) (answer : Answer) :
    (plainCommand failure onOk session answer).2.counter = (session.is163WorkaroundEnabled, session.imapTag + 1) := by
  rcases plainCommand_cases failure onOk session answer with same | changed
  · rw [same, receive_counter]
  · rw [changed, frame, receive_counter]

theorem selectAnswered_counter {α : Type} {failure : MailimapError} {result : ResponseInfo → α} {onFailure : α → Option α}
    (answered : Except MailimapError Response × Session) :
    (selectAnswered failure result onFailure answered).session.counter = answered.2.counter := by
  obtain ⟨reason | response, after⟩ := answered
  · rfl
  · rw [selectAnswered]
    dsimp only
    split <;> rfl

theorem selectCommand_counter {α : Type} {failure : MailimapError} {result : ResponseInfo → α} {onFailure : α → Option α} (session : Session)
    (answer : Answer) : (selectCommand failure result onFailure session answer).session.counter =
      (session.is163WorkaroundEnabled, session.imapTag + if session.imapState.maySelect then 1 else 0) := by
  have may : session.imapState.maySelect = true ↔ ¬ (session.imapState ≠ .authenticated ∧ session.imapState ≠ .selected) := by
    simp only [ImapState.maySelect, Bool.or_eq_true, decide_eq_true_eq]
    tauto
  rw [selectCommand]
  split_ifs with refused permitted permitted
  · exact absurd refused (may.mp permitted)
  · rfl
  · cases answer with
    | sendFailed => rfl
    | noLine => rfl
    | line parsed => exact (selectAnswered_counter _).trans (mailimapParseResponse_counter _ parsed)
  · exact absurd (may.mpr refused) permitted

theorem Call.run_counter (session : Session) (call : Call) : (call.run session).2.counter =
    (session.is163WorkaroundEnabled, session.imapTag + if call.sends session then 1 else 0) := by
  cases call with
  | connect answer =>
      have quiet : (if (Call.connect answer).sends session then 1 else 0) = 0 := rfl
      rw [quiet, run, mailimapConnect]
      split_ifs
      · rfl
      · rcases answer with _ | reason | greeting
        · rfl
        · rfl
        · cases greeting with
          | bye rspText =>
              have stored := stored_respText { session with imapConnectionInfo := some none } rspText
              exact congrArg₂ Prod.mk stored.workaround stored.tag
          | auth preauth rspText =>
              have stored := stored_respText { session with imapConnectionInfo := some none } rspText
              cases preauth <;> exact congrArg₂ Prod.mk stored.workaround stored.tag
  | login answer =>
      rw [run, mailimapLogin]
      by_cases permitted : session.imapState = .nonAuthenticated
      · simpa [sends, permitted] using plainCommand_counter (by exact fun _ => rfl) session answer
      · simp [sends, permitted, Session.counter]
  | select _ answer | examine _ answer | selectQresync answer => exact selectCommand_counter session answer
  | close answer =>
      rw [run, mailimapClose]
      by_cases permitted : session.imapState = .selected
      · simpa [sends, permitted] using plainCommand_counter (by exact fun _ => rfl) session answer
      · simp [sends, permitted, Session.counter]
  | logout answer =>
      exact @plainCommand_counter .logout (fun session => { session with imapConnectionInfo := none }) (fun _ => rfl) session answer

theorem mailimapParseResponse_own (session : Session) (response : Response) :
    (∃ rspCondState, response.rspRespDone = .tagged session.tagStr rspCondState) ∨
      ∃ reason after, mailimapParseResponse session (.ok response) = (.error reason, after) ∧ reason ≠ .noError := by
  simp only [mailimapParseResponse, responseStore_tagStr]
  cases response.rspRespDone with
  | fatal rspText => exact .inr ⟨_, _, rfl, by decide⟩
  | tagged rspTag rspCondState =>
      by_cases own : rspTag = session.tagStr
      · exact .inl ⟨rspCondState, by rw [own]⟩
      · exact .inr ⟨_, _, if_pos own, by decide⟩

theorem plainCommand_own {failure : MailimapError} {onOk : Session → Session} {session : Session} {response : Response}
    (done : (plainCommand failure onOk session (.line (.ok response))).1 = .noError) :
    ∃ rspCondState, response.rspRespDone = .tagged (mailimapSendCurrentTag session).tagStr rspCondState := by
  refine (mailimapParseResponse_own (mailimapSendCurrentTag session) response).resolve_right ?_
  rintro ⟨reason, after, failed, notDone⟩
  simp only [plainCommand, failed, plainAnswered] at done
  exact notDone done

theorem selectCommand_own {α : Type} {failure : MailimapError} {result : ResponseInfo → α} {onFailure : α → Option α} {session : Session}
    {response : Response} (done : (selectCommand failure result onFailure session (.line (.ok response))).code = .noError) :
    ∃ rspCondState, response.rspRespDone = .tagged (mailimapSendCurrentTag session).tagStr rspCondState := by
  refine (mailimapParseResponse_own { mailimapSendCurrentTag session with imapSelectionInfo := some mailimapSelectionInfoNew }
    response).resolve_right ?_
  rintro ⟨reason, after, failed, notDone⟩
  rw [selectCommand] at done
  split_ifs at done
  · cases done
  · simp only [failed, selectAnswered] at done
    exact notDone done

theorem Call.run_own {session : Session} {call : Call} {response : Response} (received : call.received session = some response)
    (done : (call.run session).1 = .noError) :
    call.sends session = true ∧
      ∃ rspCondState, response.rspRespDone = .tagged (mailimapSendCurrentTag session).tagStr rspCondState := by
  have line : ∀ {answer : Answer}, answer.response? = some response → answer = .line (.ok response) := by
    intro answer isResponse
    cases answer with
    | sendFailed | noLine => cases isResponse
    | line parsed => cases parsed with
      | error reason => cases isResponse
      | ok other => cases isResponse; rfl
  cases call with
  | connect answer => cases received
  | login answer =>
      rw [Call.received] at received
      split_ifs at received with permitted
      rw [line received, run, mailimapLogin, if_neg (by simp [permitted])] at done
      exact ⟨by simp [sends, permitted], plainCommand_own done⟩
  | select _ answer | examine _ answer | selectQresync answer =>
      rw [Call.received] at received
      split_ifs at received with permitted
      rw [line received] at done
      exact ⟨permitted, selectCommand_own done⟩
  | close answer =>
      rw [Call.received] at received
      split_ifs at received with permitted
      rw [line received, run, mailimapClose, if_neg (by simp [permitted])] at done
      exact ⟨by simp [sends, permitted], plainCommand_own done⟩
  | logout answer =>
      rw [line received] at done
      exact ⟨rfl, plainCommand_own done⟩

/-- The tags of a run are above the counter, and no two alike. -/
theorem runTags_nodup (session : Session) (calls : List Call) : (runTags session calls).Nodup ∧
    ∀ tag ∈ runTags session calls, ∃ other : Session, other.is163WorkaroundEnabled = session.is163WorkaroundEnabled ∧
      session.imapTag < other.imapTag ∧ tag = other.tagStr := by
  induction calls generalizing session with
  | nil => exact ⟨List.nodup_nil, fun _ member => absurd member List.not_mem_nil⟩
  | cons call calls ih =>
      obtain ⟨nodup, above⟩ := ih (call.run session).2
      obtain ⟨plain, count⟩ := Prod.mk.inj (call.run_counter session)
      have later : ∀ tag ∈ runTags (call.run session).2 calls, ∃ other : Session,
          other.is163WorkaroundEnabled = session.is163WorkaroundEnabled ∧ (call.run session).2.imapTag < other.imapTag ∧
            tag = other.tagStr := by
        intro tag member
        obtain ⟨other, same, higher, isTag⟩ := above tag member
        exact ⟨other, same.trans plain, higher, isTag⟩
      rw [runTags]
      cases sends : call.sends session with
      | false =>
          rw [sends, if_neg Bool.false_ne_true, Nat.add_zero] at count
          rw [if_neg Bool.false_ne_true, List.nil_append]
          exact ⟨nodup, fun tag member => count ▸ later tag member⟩
      | true =>
          rw [sends, if_pos rfl] at count
          rw [if_pos rfl, List.singleton_append]
          refine ⟨List.nodup_cons.mpr ⟨fun again => ?_, nodup⟩, fun tag member => ?_⟩
          · obtain ⟨other, same, higher, isTag⟩ := later _ again
            have equal := @tagStr_injective (mailimapSendCurrentTag session) other same.symm isTag
            rw [count, ← equal] at higher
            exact absurd higher (Nat.lt_irrefl _)
          · rcases List.mem_cons.mp member with own | after
            · exact ⟨mailimapSendCurrentTag session, rfl, Nat.lt_succ_self _, own⟩
            · obtain ⟨other, same, higher, isTag⟩ := later tag after
              exact ⟨other, same, by omega, isTag⟩

theorem runTags_append (session : Session) (since : Option (List Response)) (before after : List Call) :
    runTags session (before ++ after) = runTags session before ++ runTags (runCalls session since before).1 after := by
  induction before generalizing session since with
  | nil => rfl
  | cons call before ih => rw [List.cons_append, runTags, runTags, List.append_assoc, ih _ (call.track session since)]; rfl

end Etpan.Imap
