import Etpan.Imap.Selection

namespace Etpan.Imap

open Etpan.Data

/-! The commands that change the state of a session, `low-level/imap/mailimap.c`,
`condstore.c` and `qresync.c`.  What a server does is an argument of each: how far the
exchange came and what its answer was parsed to. -/

inductive MailimapError where
  | noError
  | noErrorAuthenticated
  | noErrorNonAuthenticated
  | badState
  | stream
  | parse
  | fatal
  | protocol
  | dontAcceptConnection
  | logout
  | close
  | examine
  | fetch
  | uidFetch
  | search
  | uidSearch
  | login
  | select
  | needsMoreData
deriving Repr, DecidableEq

def ParseError.code : ParseError → MailimapError
  | .parse => .parse
  | .stream => .stream
  | .needsMoreData => .needsMoreData

/-- How an exchange went: a send or the flush failed, no line came, or a line came and the
parse of the answer that it starts gave an error or a response. -/
inductive Answer where
  | sendFailed
  | noLine
  | line (parsed : Except ParseError Response)

/-- The tag as text, with the letter of the workaround. -/
def Session.tagStr (session : Session) : List UInt8 :=
  (if session.is163WorkaroundEnabled then [ascii 'C'] else []) ++ decimal session.imapTag

/-- `mailimap_send_current_tag` counts before it sends. -/
def mailimapSendCurrentTag (session : Session) : Session := { session with imapTag := session.imapTag + 1 }

/-- The answer is stored before its end is looked at. -/
def mailimapParseResponse (session : Session) (parsed : Except ParseError Response) :
    Except MailimapError Response × Session :=
  match parsed with
  | .error reason => (.error reason.code, session)
  | .ok response =>
      let session := responseStore session response
      match response.rspRespDone with
      | .fatal _ => (.error .fatal, session)
      | .tagged rspTag rspCondState =>
          if rspTag ≠ session.tagStr then (.error .protocol, session)
          else if rspCondState.rspType = .bad then (.error .protocol, session)
          else (.ok response, session)

/-- The type of the tagged response, which the callers read without a test. -/
def Response.errorCode (response : Response) : RespCondStateType :=
  match response.rspRespDone with
  | .tagged _ rspCondState => rspCondState.rspType
  | .fatal _ => .bad

def getModSequenceValue (info : ResponseInfo) : UInt64 :=
  info.rspExtensionList.foldl (fun modSequenceValue extData =>
    match extData with
    | .condstoreRespTextCode (.highestmodseq csModseqValue) => csModseqValue
    | .condstoreRespTextCode .nomodseq => 0
    | _ => modSequenceValue) 0

/-- The caller takes over the first VANISHED response of the list. -/
def getVanished (info : ResponseInfo) : Option Vanished :=
  info.rspExtensionList.findSome? fun extData =>
    match extData with
    | .qresyncVanished vanished => some vanished
    | _ => none

structure CommandResult (α : Type) where
  code : MailimapError
  value : Option α
  session : Session

/-- A call that ends early. -/
def CommandResult.error {α : Type} (code : MailimapError) (session : Session) : CommandResult α :=
  { code, value := none, session }

/-- What the commands that select a mailbox do with an answer. -/
def selectAnswered {α : Type} (failure : MailimapError) (result : ResponseInfo → α) (onFailure : α → Option α) :
    Except MailimapError Response × Session → CommandResult α
  | (.error reason, session) => .error reason session
  | (.ok response, session) =>
      let value := result (session.imapResponseInfo.getD mailimapResponseInfoNew)
      match response.errorCode with
      | .ok => { code := .noError, value := some value, session := { session with imapState := .selected } }
      | _ =>
          { code := failure, value := onFailure value,
            session := { session with imapSelectionInfo := none, imapState := .authenticated } }

/-- The record of the mailbox is replaced when the first line of the answer is there. -/
def selectCommand {α : Type} (failure : MailimapError) (result : ResponseInfo → α) (onFailure : α → Option α)
    (session : Session) (answer : Answer) : CommandResult α :=
  if session.imapState ≠ .authenticated ∧ session.imapState ≠ .selected then .error .badState session
  else
    let session := mailimapSendCurrentTag session
    match answer with
    | .sendFailed => .error .stream session
    | .noLine => .error .stream session
    | .line parsed =>
        selectAnswered failure result onFailure
          (mailimapParseResponse { session with imapSelectionInfo := some mailimapSelectionInfoNew } parsed)

/-- The mod-sequence value is returned for a failed command as well. -/
def mailimapSelectCondstoreOptional (session : Session) (answer : Answer) : CommandResult UInt64 :=
  selectCommand .select getModSequenceValue some session answer

def mailimapExamineCondstoreOptional (session : Session) (answer : Answer) : CommandResult UInt64 :=
  selectCommand .examine getModSequenceValue some session answer

/-- What the commands of QRESYNC hand to the caller. -/
structure QresyncResult where
  fetchResult : Option (List MsgAtt)
  vanished : Option Vanished
  modSequenceValue : UInt64
deriving Repr, DecidableEq

def qresyncResult (info : ResponseInfo) : QresyncResult where
  fetchResult := info.rspFetchList
  vanished := getVanished info
  modSequenceValue := getModSequenceValue info

/-- The results of a failed command are freed. -/
def mailimapSelectQresync (session : Session) (answer : Answer) : CommandResult QresyncResult :=
  selectCommand .select qresyncResult (fun _ => none) session answer

/-- The command succeeds as soon as one message was fetched. -/
def fetchQresyncAnswered (failure : MailimapError) :
    Except MailimapError Response × Session → CommandResult QresyncResult
  | (.error reason, session) => .error reason session
  | (.ok response, session) =>
      let value := { qresyncResult (session.imapResponseInfo.getD mailimapResponseInfoNew) with modSequenceValue := 0 }
      let nothing := value.fetchResult = none ∨ value.fetchResult = some []
      if nothing ∧ response.errorCode ≠ .ok then .error failure session
      else { code := .noError, value := some value, session }

def fetchQresyncCommand (failure : MailimapError) (session : Session) (answer : Answer) : CommandResult QresyncResult :=
  if session.imapState ≠ .selected then .error .badState session
  else
    let session := mailimapSendCurrentTag session
    match answer with
    | .sendFailed => .error .stream session
    | .noLine => .error .stream session
    | .line parsed => fetchQresyncAnswered failure (mailimapParseResponse session parsed)

def mailimapFetchQresyncVanished (session : Session) (answer : Answer) : CommandResult QresyncResult :=
  fetchQresyncCommand .fetch session answer

def mailimapUidFetchQresyncVanished (session : Session) (answer : Answer) : CommandResult QresyncResult :=
  fetchQresyncCommand .uidFetch session answer

/-- What the other commands do with an answer. -/
def plainAnswered (failure : MailimapError) (onOk : Session → Session) :
    Except MailimapError Response × Session → MailimapError × Session
  | (.error reason, session) => (reason, session)
  | (.ok response, session) =>
      match response.errorCode with
      | .ok => (.noError, onOk session)
      | _ => (failure, session)

def plainCommand (failure : MailimapError) (onOk : Session → Session) (session : Session) (answer : Answer) :
    MailimapError × Session :=
  let session := mailimapSendCurrentTag session
  match answer with
  | .sendFailed => (.stream, session)
  | .noLine => (.stream, session)
  | .line parsed => plainAnswered failure onOk (mailimapParseResponse session parsed)

def mailimapClose (session : Session) (answer : Answer) : MailimapError × Session :=
  if session.imapState ≠ .selected then (.badState, session)
  else plainCommand .close (fun session => { session with imapSelectionInfo := none, imapState := .authenticated })
    session answer

def mailimapLogin (session : Session) (answer : Answer) : MailimapError × Session :=
  if session.imapState ≠ .nonAuthenticated then (.badState, session)
  else plainCommand .login (fun session => { session with imapState := .authenticated }) session answer

/-- The server is expected to close the stream, so that an error of it is none here. -/
def mailimapLogout (session : Session) (answer : Answer) : MailimapError × Session :=
  let result := plainCommand .logout (fun session => { session with imapConnectionInfo := none }) session answer
  let code := match answer with
    | .line (.error .stream) => .noError
    | _ => result.1
  (code, { result.2 with imapState := .disconnected })

inductive Greeting where
  | auth (preauth : Bool) (rspText : RespText)
  | bye (rspText : RespText)
deriving Repr, DecidableEq

def greetingStore (session : Session) (greeting : Greeting) : Session :=
  match greeting with
  | .auth _ rspText => respTextStore session rspText
  | .bye rspText => respCondByeStore session rspText

inductive GreetingAnswer where
  | noLine
  | line (parsed : Except ParseError Greeting)

def mailimapConnect (session : Session) (answer : GreetingAnswer) : MailimapError × Session :=
  if session.imapState ≠ .disconnected then (.badState, session)
  else
    let session := { session with imapConnectionInfo := some none }
    match answer with
    | .noLine => (.stream, session)
    | .line (.error reason) => (reason.code, session)
    | .line (.ok greeting) =>
        let session := greetingStore session greeting
        match greeting with
        | .bye _ => (.dontAcceptConnection, session)
        | .auth true _ => (.noErrorAuthenticated, { session with imapState := .authenticated })
        | .auth false _ => (.noErrorNonAuthenticated, { session with imapState := .nonAuthenticated })

end Etpan.Imap
