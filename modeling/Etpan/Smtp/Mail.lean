import Etpan.Data.Abnf
import Etpan.Data.CommandLine
import Etpan.Data.Decimal
import Etpan.Stream.SendData

namespace Etpan.Smtp

open Etpan.Data Etpan.Stream

/-! The envelope commands of `low-level/smtp/mailsmtp.c`.

The stream operations and the reading of the reply are parameters. -/

inductive SmtpError where
  | noError | unexpectedCode | stream | exceedStorageAllocation | inProcessing | insufficientSystemStorage
  | mailboxUnavailable | mailboxNameNotAllowed | badSequenceOfCommand | userNotLocal
  deriving DecidableEq

structure Mailsmtp (σ : Type) where
  stream : σ
  esmtp : UInt32

def SMTP_STRING_SIZE : Nat := 513

def MAILSMTP_ESMTP_SIZE : UInt32 := 8
def MAILSMTP_ESMTP_DSN : UInt32 := 64

def MAILSMTP_DSN_NOTIFY_SUCCESS : UInt32 := 1
def MAILSMTP_DSN_NOTIFY_FAILURE : UInt32 := 2
def MAILSMTP_DSN_NOTIFY_DELAY : UInt32 := 4
def MAILSMTP_DSN_NOTIFY_NEVER : UInt32 := 8

def Mailsmtp.announces {σ : Type} (session : Mailsmtp σ) (extension : UInt32) : Prop :=
  session.esmtp &&& extension ≠ 0

instance {σ : Type} (session : Mailsmtp σ) (extension : UInt32) : Decidable (session.announces extension) :=
  inferInstanceAs (Decidable (_ ≠ _))

def mailReply (code : Int) : SmtpError :=
  if code = 250 then .noError
  else if code = 552 then .exceedStorageAllocation
  else if code = 451 then .inProcessing
  else if code = 452 then .insufficientSystemStorage
  else if code = 550 then .mailboxUnavailable
  else if code = 553 then .mailboxNameNotAllowed
  else if code = 503 then .badSequenceOfCommand
  else if code = 0 then .stream
  else .unexpectedCode

def rcptReply (code : Int) : SmtpError :=
  if code = 250 then .noError
  else if code = 251 then .noError
  else if code = 550 ∨ code = 450 then .mailboxUnavailable
  else if code = 551 then .userNotLocal
  else if code = 552 then .exceedStorageAllocation
  else if code = 553 then .mailboxNameNotAllowed
  else if code = 451 then .inProcessing
  else if code = 452 then .insufficientSystemStorage
  else if code = 503 then .badSequenceOfCommand
  else if code = 0 then .stream
  else .unexpectedCode

section Parameters

variable {σ : Type}

def retParam (session : Mailsmtp σ) (returnFull : Bool) : List UInt8 :=
  if session.announces MAILSMTP_ESMTP_DSN then
    asciiText " RET=" ++ asciiText (if returnFull then "FULL" else "HDRS")
  else []

def envidParam (session : Mailsmtp σ) (envid : Option CString) : List UInt8 :=
  if session.announces MAILSMTP_ESMTP_DSN then
    match envid with
    | some envid => asciiText " ENVID=" ++ envid
    | none => []
  else []

def sizeParam (session : Mailsmtp σ) (size : UInt64) : List UInt8 :=
  if session.announces MAILSMTP_ESMTP_SIZE ∧ size ≠ 0 then asciiText " SIZE=" ++ decimal size.toNat else []

/-- The notifications asked for, each after a comma; the first comma becomes the equals sign. -/
def notifyInfoStr (notify : UInt32) : List UInt8 :=
  if notify &&& MAILSMTP_DSN_NOTIFY_NEVER ≠ 0 then asciiText ",NEVER"
  else
    (if notify &&& MAILSMTP_DSN_NOTIFY_SUCCESS ≠ 0 then asciiText ",SUCCESS" else []) ++
      (if notify &&& MAILSMTP_DSN_NOTIFY_FAILURE ≠ 0 then asciiText ",FAILURE" else []) ++
      (if notify &&& MAILSMTP_DSN_NOTIFY_DELAY ≠ 0 then asciiText ",DELAY" else [])

def notifyStr (session : Mailsmtp σ) (notify : UInt32) : List UInt8 :=
  if notify ≠ 0 ∧ session.announces MAILSMTP_ESMTP_DSN then
    asciiText " NOTIFY" ++ ascii '=' :: (notifyInfoStr notify).tail
  else []

end Parameters

section Commands

variable {σ : Type} (write : Write σ) (flush : σ → Int × σ) (readResponse : σ → Int × σ)

def sendCommand (session : Mailsmtp σ) (command : List UInt8) : Int × Mailsmtp σ :=
  let written := write session.stream (cString command)
  if written.1 = -1 then (-1, { session with stream := written.2 })
  else
    let flushed := flush written.2
    if flushed.1 = -1 then (-1, { session with stream := flushed.2 }) else (0, { session with stream := flushed.2 })

/-- What the envelope commands have in common: the command is sent and its reply is looked up. -/
def command (session : Mailsmtp σ) (text : List UInt8) (reply : Int → SmtpError) : SmtpError × Mailsmtp σ :=
  let sent := sendCommand write flush session text
  if sent.1 = -1 then (.stream, sent.2)
  else
    let response := readResponse sent.2.stream
    (reply response.1, { sent.2 with stream := response.2 })

def mailsmtpMail (session : Mailsmtp σ) (sender : CString) : SmtpError × Mailsmtp σ :=
  let text := snprintf SMTP_STRING_SIZE (asciiText "MAIL FROM:<" ++ sender ++ asciiText ">" ++ [CR, LF])
  command write flush readResponse session text mailReply

def mailesmtpMailSize (session : Mailsmtp σ) (sender : CString) (returnFull : Bool) (envid : Option CString)
    (size : UInt64) : SmtpError × Mailsmtp σ :=
  let retParam := snprintf SMTP_STRING_SIZE (retParam session returnFull)
  let envidParam := snprintf SMTP_STRING_SIZE (envidParam session envid)
  let sizeParam := snprintf SMTP_STRING_SIZE (sizeParam session size)
  let text := snprintf SMTP_STRING_SIZE
    (asciiText "MAIL FROM:<" ++ sender ++ asciiText ">" ++ retParam ++ envidParam ++ sizeParam ++ [CR, LF])
  command write flush readResponse session text mailReply

def mailesmtpRcpt (session : Mailsmtp σ) (recipient : CString) (notify : UInt32) (orcpt : Option CString) :
    SmtpError × Mailsmtp σ :=
  let notifyStr := notifyStr session notify
  let text :=
    match orcpt with
    | some orcpt =>
        if session.announces MAILSMTP_ESMTP_DSN then
          snprintf SMTP_STRING_SIZE
            (asciiText "RCPT TO:<" ++ recipient ++ asciiText ">" ++ notifyStr ++ asciiText " ORCPT=" ++ orcpt ++ [CR, LF])
        else snprintf SMTP_STRING_SIZE (asciiText "RCPT TO:<" ++ recipient ++ asciiText ">" ++ notifyStr ++ [CR, LF])
    | none => snprintf SMTP_STRING_SIZE (asciiText "RCPT TO:<" ++ recipient ++ asciiText ">" ++ notifyStr ++ [CR, LF])
  command write flush readResponse session text rcptReply

end Commands

end Etpan.Smtp
