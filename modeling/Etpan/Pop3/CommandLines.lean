import Etpan.Pop3.Session
import Etpan.Smtp.Mail

namespace Etpan.Pop3

open Etpan.Data Etpan.Stream Etpan.Smtp

/-! What the commands that carry an argument of the caller put on the wire, for
both protocols that are sent by lines. -/

variable {σ : Type}

theorem smtpCommand_sent (write : Write σ) (flush readResponse : σ → Int × σ) (session : Mailsmtp (σ × List UInt8))
    (text : List UInt8) (reply : Int → SmtpError) :
    (command (recording write) (recordingFlush flush) (recordingFlush readResponse) session text reply).2.stream.2 =
      session.stream.2 ++ cString text := by
  simp only [command, Smtp.sendCommand]
  repeat' split
  all_goals simp [recording, recordingFlush]

def Transport.recording (transport : Transport σ) : Transport (σ × List UInt8) where
  write := Stream.recording transport.write
  flush := recordingFlush transport.flush
  readLine := fun s => ((transport.readLine s.1).1, (transport.readLine s.1).2, s.2)
  close := fun s => (transport.close s.1, s.2)

theorem exchange_sent (transport : Transport σ) (f : Mailpop3 (σ × List UInt8)) (command : List UInt8) :
    (exchange transport.recording f command).2.stream.2 = f.stream.2 ++ cString command := by
  simp only [exchange, sendCommand]
  repeat' split
  all_goals simp [Transport.recording, recording, recordingFlush]

/-! ### The commands and their lines -/

inductive Command where
  | mail (sender : CString)
  | mailSize (sender : CString) (returnFull : Bool) (envid : Option CString) (size : UInt64)
  | rcpt (recipient : CString) (notify : UInt32) (orcpt : Option CString)
  | user (name : CString)
  | pass (password : CString)

structure Sessions (σ : Type) where
  transport : Transport σ
  readResponse : σ → Int × σ
  smtp : Mailsmtp σ
  pop3 : Mailpop3 σ

namespace Sessions

variable (sessions : Sessions σ)

def recordedSmtp : Mailsmtp (σ × List UInt8) := ⟨(sessions.smtp.stream, []), sessions.smtp.esmtp⟩

def recordedPop3 : Mailpop3 (σ × List UInt8) :=
  { sessions.pop3 with stream := (sessions.pop3.stream, []) }

end Sessions

namespace Command

variable (sessions : Sessions σ)

/-- Whether the call returns without an error, and the octets it sends. -/
def outcome : Command → Bool × List UInt8
  | mail sender =>
      let result := mailsmtpMail (recording sessions.transport.write) (recordingFlush sessions.transport.flush)
        (recordingFlush sessions.readResponse) sessions.recordedSmtp sender
      (result.1 = .noError, result.2.stream.2)
  | mailSize sender returnFull envid size =>
      let result := mailesmtpMailSize (recording sessions.transport.write) (recordingFlush sessions.transport.flush)
        (recordingFlush sessions.readResponse) sessions.recordedSmtp sender returnFull envid size
      (result.1 = .noError, result.2.stream.2)
  | rcpt recipient notify orcpt =>
      let result := mailesmtpRcpt (recording sessions.transport.write) (recordingFlush sessions.transport.flush)
        (recordingFlush sessions.readResponse) sessions.recordedSmtp recipient notify orcpt
      (result.1 = .noError, result.2.stream.2)
  | user name =>
      let result := mailpop3User sessions.transport.recording sessions.recordedPop3 name
      (result.1 = .noError, result.2.stream.2)
  | pass password =>
      let result := mailpop3Pass sessions.transport.recording sessions.recordedPop3 password
      (result.1 = .noError, result.2.stream.2)

def notifying (argument : Option CString) : Option CString :=
  if sessions.smtp.announces MAILSMTP_ESMTP_DSN then argument else none

def arguments : Command → List (List UInt8)
  | mail sender => [sender]
  | mailSize sender _ envid _ => sender :: (notifying sessions envid).toList.map Subtype.val
  | rcpt recipient _ orcpt => recipient :: (notifying sessions orcpt).toList.map Subtype.val
  | user name => [name.val]
  | pass password => [password.val]

def line : Command → List UInt8
  | mail sender => asciiText "MAIL FROM:<" ++ sender ++ asciiText ">"
  | mailSize sender returnFull envid size =>
      asciiText "MAIL FROM:<" ++ sender ++ asciiText ">" ++ retParam sessions.smtp returnFull ++
        envidParam sessions.smtp envid ++ sizeParam sessions.smtp size
  | rcpt recipient notify orcpt =>
      asciiText "RCPT TO:<" ++ recipient ++ asciiText ">" ++ notifyStr sessions.smtp notify ++
        (match notifying sessions orcpt with
        | some orcpt => asciiText " ORCPT=" ++ orcpt
        | none => [])
  | user name => asciiText "USER " ++ name
  | pass password => asciiText "PASS " ++ password

def Refused : Command → Prop
  | user _ | pass _ => sessions.pop3.state ≠ .authorization
  | _ => False

/-- The octets are one whole line with the arguments in it, or there are none and the call returns an error. -/
def WholeLine (outcome : Bool × List UInt8) (arguments : List (List UInt8)) : Prop :=
  (outcome.2 = [] ∧ outcome.1 = false) ∨ OneLine outcome.2 arguments

end Command

theorem retParam_plain (session : Mailsmtp σ) (returnFull : Bool) :
    NulFree (retParam session returnFull) ∧ BreakFree (retParam session returnFull) := by
  unfold retParam
  cases returnFull <;> split <;> decide

theorem sizeParam_plain (session : Mailsmtp σ) (size : UInt64) :
    NulFree (sizeParam session size) ∧ BreakFree (sizeParam session size) := by
  have text : NulFree (asciiText " SIZE=") ∧ BreakFree (asciiText " SIZE=") := by decide
  have digits := decimal_plain size.toNat
  unfold sizeParam
  split
  · exact ⟨text.1.append digits.1, text.2.append digits.2⟩
  · decide

theorem notifyStr_plain (session : Mailsmtp σ) (notify : UInt32) :
    NulFree (notifyStr session notify) ∧ BreakFree (notifyStr session notify) := by
  unfold notifyStr notifyInfoStr
  split_ifs <;> decide

namespace Command

variable (sessions : Sessions σ) (command : Command)

theorem envidParam_notifying (envid : Option CString) :
    envidParam sessions.smtp envid =
      match notifying sessions envid with
      | some envid => asciiText " ENVID=" ++ envid
      | none => [] := by
  unfold envidParam notifying
  split
  · rfl
  · rfl

theorem arguments_infix : ∀ argument ∈ command.arguments sessions, argument <:+: command.line sessions := by
  intro argument member
  cases command with
  | mail sender =>
      obtain rfl := List.mem_singleton.mp member
      exact ⟨asciiText "MAIL FROM:<", asciiText ">", rfl⟩
  | mailSize sender returnFull envid size =>
      rcases List.mem_cons.mp member with rfl | notified
      · refine ⟨asciiText "MAIL FROM:<", asciiText ">" ++ retParam sessions.smtp returnFull ++
          envidParam sessions.smtp envid ++ sizeParam sessions.smtp size, ?_⟩
        simp [line]
      · cases carried : notifying sessions envid with
        | none => simp [carried] at notified
        | some envid' =>
            have named : argument = envid'.val := by simpa [carried] using notified
            refine ⟨asciiText "MAIL FROM:<" ++ sender ++ asciiText ">" ++ retParam sessions.smtp returnFull ++
              asciiText " ENVID=", sizeParam sessions.smtp size, ?_⟩
            simp [line, envidParam_notifying, carried, named]
  | rcpt recipient notify orcpt =>
      rcases List.mem_cons.mp member with rfl | notified
      · exact ⟨asciiText "RCPT TO:<", _, by simp only [line, List.append_assoc]; rfl⟩
      · cases carried : notifying sessions orcpt with
        | none => simp [carried] at notified
        | some orcpt' =>
            have named : argument = orcpt'.val := by simpa [carried] using notified
            refine ⟨asciiText "RCPT TO:<" ++ recipient ++ asciiText ">" ++ notifyStr sessions.smtp notify ++
              asciiText " ORCPT=", [], ?_⟩
            simp [line, carried, named]
  | user name =>
      obtain rfl := List.mem_singleton.mp member
      exact ⟨asciiText "USER ", [], by simp [line]⟩
  | pass password =>
      obtain rfl := List.mem_singleton.mp member
      exact ⟨asciiText "PASS ", [], by simp [line]⟩

theorem line_forall {property : UInt8 → Prop}
    (plain : ∀ bytes, NulFree bytes ∧ BreakFree bytes → ∀ byte ∈ bytes, property byte)
    (held : ∀ argument ∈ command.arguments sessions, ∀ byte ∈ argument, property byte) :
    ∀ byte ∈ command.line sessions, property byte := by
  have text (literal : String) (checked : NulFree (asciiText literal) ∧ BreakFree (asciiText literal)) :
      ∀ byte ∈ asciiText literal, property byte := plain _ checked
  intro byte member
  cases command with
  | mail sender =>
      simp only [line, List.mem_append] at member
      rcases member with (early | inside) | late
      · exact text _ (by decide) byte early
      · exact held _ (by simp [arguments]) byte inside
      · exact text _ (by decide) byte late
  | mailSize sender returnFull envid size =>
      simp only [line, List.mem_append] at member
      rcases member with ((((early | inside) | late) | ret) | envelope) | size'
      · exact text _ (by decide) byte early
      · exact held _ (by simp [arguments]) byte inside
      · exact text _ (by decide) byte late
      · exact plain _ (retParam_plain _ _) byte ret
      · rw [envidParam_notifying] at envelope
        cases carried : notifying sessions envid with
        | none => simp [carried] at envelope
        | some envid' =>
            rw [carried] at envelope
            rcases List.mem_append.mp envelope with early | inside
            · exact text _ (by decide) byte early
            · exact held _ (by simp [arguments, carried]) byte inside
      · exact plain _ (sizeParam_plain _ _) byte size'
  | rcpt recipient notify orcpt =>
      simp only [line, List.mem_append] at member
      rcases member with (((early | inside) | late) | notified) | original
      · exact text _ (by decide) byte early
      · exact held _ (by simp [arguments]) byte inside
      · exact text _ (by decide) byte late
      · exact plain _ (notifyStr_plain _ _) byte notified
      · cases carried : notifying sessions orcpt with
        | none => simp [carried] at original
        | some orcpt' =>
            rw [carried] at original
            rcases List.mem_append.mp original with early | inside
            · exact text _ (by decide) byte early
            · exact held _ (by simp [arguments, carried]) byte inside
  | user name =>
      rcases List.mem_append.mp member with early | inside
      · exact text _ (by decide) byte early
      · exact held _ (by simp [arguments]) byte inside
  | pass password =>
      rcases List.mem_append.mp member with early | inside
      · exact text _ (by decide) byte early
      · exact held _ (by simp [arguments]) byte inside

theorem arguments_nulFree : ∀ argument ∈ command.arguments sessions, NulFree argument := by
  intro argument member
  cases command <;> simp only [arguments, List.mem_cons, List.mem_map, List.not_mem_nil, or_false] at member
  case mail sender => exact member ▸ sender.property
  case mailSize sender _ envid _ =>
    rcases member with rfl | ⟨carried, _, rfl⟩
    · exact sender.property
    · exact carried.property
  case rcpt recipient _ orcpt =>
    rcases member with rfl | ⟨carried, _, rfl⟩
    · exact recipient.property
    · exact carried.property
  case user name => exact member ▸ name.property
  case pass password => exact member ▸ password.property

theorem snprintf_nulFree :
    cString (snprintf 513 (command.line sessions ++ [CR, LF])) = snprintf 513 (command.line sessions ++ [CR, LF]) := by
  have lineFree : NulFree (command.line sessions) :=
    command.line_forall sessions (fun bytes plain => plain.1) (command.arguments_nulFree sessions)
  have wholeFree : NulFree (command.line sessions ++ [CR, LF]) := lineFree.append (by decide)
  exact cString_eq_self fun byte member => wholeFree byte (List.mem_of_mem_take member)

theorem outcome_refused (refused : command.Refused sessions) : command.outcome sessions = (false, []) := by
  cases command with
  | mail | mailSize | rcpt => exact refused.elim
  | user name =>
      have otherState : sessions.recordedPop3.state ≠ .authorization := refused
      simp only [outcome, mailpop3User, if_pos otherState]
      rfl
  | pass password =>
      have otherState : sessions.recordedPop3.state ≠ .authorization := refused
      simp only [outcome, mailpop3Pass, if_pos otherState]
      rfl

theorem outcome_sent (accepted : ¬ command.Refused sessions) :
    (command.outcome sessions).2 = snprintf 513 (command.line sessions ++ [CR, LF]) := by
  rw [← snprintf_nulFree]
  cases command with
  | mail sender =>
      simp only [outcome, mailsmtpMail, smtpCommand_sent]
      rfl
  | mailSize sender returnFull envid size =>
      let front := asciiText "MAIL FROM:<" ++ sender ++ asciiText ">"
      let ret := retParam sessions.smtp returnFull
      let envelope := envidParam sessions.smtp envid
      let announced := sizeParam sessions.smtp size
      -- each parameter was formatted into a buffer of its own first
      have outermost := snprintf_nested 513 (front ++ snprintf 513 ret ++ snprintf 513 envelope) announced [CR, LF]
      have middle := snprintf_nested 513 (front ++ snprintf 513 ret) envelope (announced ++ [CR, LF])
      have innermost := snprintf_nested 513 front ret (envelope ++ (announced ++ [CR, LF]))
      simp only [← List.append_assoc] at outermost middle innermost
      have sent : (outcome sessions (mailSize sender returnFull envid size)).2 =
          cString (snprintf 513 (front ++ snprintf 513 ret ++ snprintf 513 envelope ++ snprintf 513 announced ++ [CR, LF])) := by
        simp only [outcome, mailesmtpMailSize, smtpCommand_sent]
        rfl
      rw [sent, outermost, middle, innermost]
      rfl
  | rcpt recipient notify orcpt =>
      have nothing : sessions.recordedSmtp.stream.2 = [] := rfl
      have sameStr : notifyStr sessions.recordedSmtp notify = notifyStr sessions.smtp notify := rfl
      have sameServer : sessions.recordedSmtp.announces MAILSMTP_ESMTP_DSN = sessions.smtp.announces MAILSMTP_ESMTP_DSN := rfl
      cases orcpt <;> by_cases announced : sessions.smtp.announces MAILSMTP_ESMTP_DSN
      all_goals
        simp [outcome, mailesmtpRcpt, smtpCommand_sent, line, notifying, SMTP_STRING_SIZE, nothing, sameStr, sameServer,
          announced]
  | user name =>
      have sameState : ¬ sessions.recordedPop3.state ≠ .authorization := accepted
      have sent := exchange_sent sessions.transport sessions.recordedPop3 (userCommand name)
      simp only [outcome, mailpop3User, if_neg sameState]
      rcases ended : exchange sessions.transport.recording sessions.recordedPop3 (userCommand name) with ⟨_ | _ | _, f⟩
      all_goals
        rw [ended] at sent
        exact sent
  | pass password =>
      have sameState : ¬ sessions.recordedPop3.state ≠ .authorization := accepted
      have sent := exchange_sent sessions.transport sessions.recordedPop3 (passCommand password)
      simp only [outcome, mailpop3Pass, if_neg sameState]
      rcases ended : exchange sessions.transport.recording sessions.recordedPop3 (passCommand password) with ⟨_ | _ | _, f⟩
      all_goals
        rw [ended] at sent
        exact sent

theorem sent_oneLine_iff (accepted : ¬ command.Refused sessions) :
    OneLine (command.outcome sessions).2 (command.arguments sessions) ↔
      (∀ argument ∈ command.arguments sessions, BreakFree argument) ∧ (command.line sessions).length + 2 ≤ 512 := by
  have free : (∀ argument ∈ command.arguments sessions, BreakFree argument) → BreakFree (command.line sessions) :=
    command.line_forall sessions fun bytes plain => plain.2
  rw [command.outcome_sent sessions accepted]
  exact oneLine_snprintf (command.arguments_infix sessions) free

theorem outcome_nonempty (accepted : ¬ command.Refused sessions) : (command.outcome sessions).2 ≠ [] := by
  rw [command.outcome_sent sessions accepted]
  cases command <;> simp [snprintf, line, asciiText]

/-- A command is one whole line exactly where its arguments have no line break and the line fits into the buffer. -/
theorem outcome_wholeLine_iff :
    WholeLine (command.outcome sessions) (command.arguments sessions) ↔
      command.Refused sessions ∨
        (∀ argument ∈ command.arguments sessions, BreakFree argument) ∧ (command.line sessions).length + 2 ≤ 512 := by
  by_cases refused : command.Refused sessions
  · simp [WholeLine, command.outcome_refused sessions refused, refused]
  · have something := command.outcome_nonempty sessions refused
    simp only [WholeLine, something, refused, false_and, false_or]
    exact command.sent_oneLine_iff sessions refused

def Sessions.silent : Sessions Unit where
  transport := ⟨fun s buf => (buf.length, s), fun s => (0, s), fun s => (some (asciiText "+OK"), s), id⟩
  readResponse := fun s => (250, s)
  smtp := ⟨(), 0⟩
  pop3 := ⟨(), true, .authorization, none, none, none, 0⟩

def letters (count : Nat) : CString :=
  ⟨List.replicate count (ascii 'a'), fun byte member => by rw [List.eq_of_mem_replicate member]; decide⟩

/-- A user name with a line break in it sends two commands, and the line of a long sender loses its end. -/
theorem outcome_not_wholeLine :
    ¬ WholeLine ((user ⟨asciiText "me" ++ [CR, LF] ++ asciiText "QUIT", by decide⟩).outcome Sessions.silent)
        ((user ⟨asciiText "me" ++ [CR, LF] ++ asciiText "QUIT", by decide⟩).arguments Sessions.silent) ∧
      ¬ WholeLine ((mail (letters 600)).outcome Sessions.silent) ((mail (letters 600)).arguments Sessions.silent) := by
  constructor
  · have accepted : ¬ (user ⟨asciiText "me" ++ [CR, LF] ++ asciiText "QUIT", by decide⟩).Refused Sessions.silent :=
      fun refused => refused rfl
    rintro (⟨nothing, -⟩ | whole)
    · exact outcome_nonempty _ _ accepted nothing
    · have unbroken := ((sent_oneLine_iff _ _ accepted).mp whole).1 _ (List.mem_singleton_self _)
      revert unbroken
      decide
  · have accepted : ¬ (mail (letters 600)).Refused Sessions.silent := id
    rintro (⟨nothing, -⟩ | whole)
    · exact outcome_nonempty _ _ accepted nothing
    · have short := ((sent_oneLine_iff _ _ accepted).mp whole).2
      have long : (letters 600).val.length = 600 := List.length_replicate
      simp only [line, List.length_append, long] at short
      omega

end Command

end Etpan.Pop3
