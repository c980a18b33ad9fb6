import Etpan.Data.CommandLine
import Etpan.Pop3.Replies
import Etpan.Stream.SendData

namespace Etpan.Pop3

open Etpan.Data Etpan.Stream Etpan.DataTypes

/-! The session of `low-level/pop3/mailpop3.c`. -/

inductive Pop3Error where
  | noError | badState | stream | badUser | badPassword | cantList | noSuchMessage | quitFailed
  deriving DecidableEq

inductive Pop3State where
  | disconnected | authorization | transaction
  deriving DecidableEq

/-- The operations on the stream that a session calls. -/
structure Transport (σ : Type) where
  write : Write σ
  flush : σ → Int × σ
  readLine : σ → Option Line × σ
  close : σ → σ

/-- `connected` is whether pop3_stream is not NULL, and `msgTab` is `none` where pop3_msg_tab is NULL. -/
structure Mailpop3 (σ : Type) where
  stream : σ
  connected : Bool
  state : Pop3State
  timestamp : Option Line
  response : Option Line
  msgTab : Option (Carray MsgInfo)
  deletedCount : UInt32

def POP3_STRING_SIZE : Nat := 513

/-- The text of `%i`. -/
def signedDecimal (number : UInt32) : List UInt8 :=
  if number.toNat < 2 ^ 31 then decimal number.toNat else ascii '-' :: decimal (2 ^ 32 - number.toNat)

def userCommand (user : CString) : List UInt8 :=
  snprintf POP3_STRING_SIZE (asciiText "USER " ++ user ++ [CR, LF])

def passCommand (password : CString) : List UInt8 :=
  snprintf POP3_STRING_SIZE (asciiText "PASS " ++ password ++ [CR, LF])

def deleCommand (indx : UInt32) : List UInt8 :=
  snprintf POP3_STRING_SIZE (asciiText "DELE " ++ signedDecimal indx ++ [CR, LF])

def listCommand : List UInt8 := asciiText "LIST" ++ [CR, LF]
def uidlCommand : List UInt8 := asciiText "UIDL" ++ [CR, LF]
def rsetCommand : List UInt8 := asciiText "RSET" ++ [CR, LF]
def quitCommand : List UInt8 := asciiText "QUIT" ++ [CR, LF]

/-- The message in the slot of an index; `none` also for an index outside the table. -/
def msgInfoTabFindMsg (msgTab : Carray MsgInfo) (indx : UInt32) : Option MsgInfo :=
  if indx = 0 then none else if indx > msgTab.len then none else Carray.carrayGet msgTab (indx - 1)

def clearMark (msg : MsgInfo) : MsgInfo := { msg with msgDeleted := false }

/-- `none` where the loop meets a slot that no message was stored in, and a NULL pointer is followed. -/
def msgInfoTabReset (msgTab : Carray MsgInfo) : Option (Carray MsgInfo) :=
  let listed := msgTab.array.take msgTab.len.toNat
  if listed.any Option.isNone then none
  else
    some { msgTab with array := listed.map (Option.map clearMark) ++ msgTab.array.drop msgTab.len.toNat }

section Operations

variable {σ : Type} (transport : Transport σ)

def sendCommand (f : Mailpop3 σ) (command : List UInt8) : Int × Mailpop3 σ :=
  let written := transport.write f.stream (cString command)
  if written.1 = -1 then (-1, { f with stream := written.2 })
  else
    let flushed := transport.flush written.2
    if flushed.1 = -1 then (-1, { f with stream := flushed.2 }) else (0, { f with stream := flushed.2 })

/-- A command is sent and the line that answers it is parsed; `none` where either fails on the stream. -/
def exchange (f : Mailpop3 σ) (command : List UInt8) : Option ResponseStatus × Mailpop3 σ :=
  let sent := sendCommand transport f command
  if sent.1 = -1 then (none, sent.2)
  else
    let read := transport.readLine sent.2.stream
    match read.1 with
    | none => (none, { sent.2 with stream := read.2 })
    | some line =>
        let parsed := parseResponse (some line)
        (some parsed.1, { sent.2 with stream := read.2, response := parsed.2 })

def mailpop3User (f : Mailpop3 σ) (user : CString) : Pop3Error × Mailpop3 σ :=
  if f.state ≠ .authorization then (.badState, f)
  else
    match exchange transport f (userCommand user) with
    | (none, f) => (.stream, f)
    | (some .err, f) => (.badUser, f)
    | (some .ok, f) => (.noError, f)

def mailpop3Pass (f : Mailpop3 σ) (password : CString) : Pop3Error × Mailpop3 σ :=
  if f.state ≠ .authorization then (.badState, f)
  else
    match exchange transport f (passCommand password) with
    | (none, f) => (.stream, f)
    | (some .err, f) => (.badPassword, f)
    | (some .ok, f) => (.noError, { f with state := .transaction })

section Listing

variable (stray : Carray.Slots MsgInfo) (rounds : Nat)

def mailpop3DoUidl (f : Mailpop3 σ) (msgTab : Carray MsgInfo) : Option (Pop3Error × Mailpop3 σ) :=
  if f.state ≠ .transaction then some (.badState, f)
  else
    match exchange transport f uidlCommand with
    | (none, f) => some (.stream, f)
    | (some .err, f) => some (.cantList, f)
    | (some .ok, f) =>
        (readUidl transport.readLine rounds f.stream msgTab).map fun (ended, stream, msgTab) =>
          (if ended then .noError else .stream, { f with stream := stream, msgTab := some msgTab })

/-- The outer `none` is a call that does not return. -/
def mailpop3DoList (f : Mailpop3 σ) : Option (Pop3Error × Mailpop3 σ) :=
  let f := { f with msgTab := none }
  if f.state ≠ .transaction then some (.badState, f)
  else
    match exchange transport f listCommand with
    | (none, f) => some (.stream, f)
    | (some .err, f) => some (.cantList, f)
    | (some .ok, f) =>
        (readList transport.readLine stray rounds f.stream).bind fun
          | (none, stream) => some (.stream, { f with stream := stream })
          | (some msgTab, stream) =>
              let f := { f with stream := stream, msgTab := some msgTab, deletedCount := 0 }
              (mailpop3DoUidl transport rounds f msgTab).map fun (_, f) => (.noError, f)

def mailpop3ListIfNeeded (f : Mailpop3 σ) : Option (Pop3Error × Mailpop3 σ) :=
  if f.msgTab.isNone then mailpop3DoList transport stray rounds f else some (.noError, f)

def mailpop3List (f : Mailpop3 σ) : Option (Pop3Error × Option (Carray MsgInfo) × Mailpop3 σ) :=
  (mailpop3ListIfNeeded transport stray rounds f).map fun (r, f) =>
    (r, if r = .noError then f.msgTab else none, f)

def findMsg (f : Mailpop3 σ) (indx : UInt32) : Option (Option MsgInfo × Mailpop3 σ) :=
  (mailpop3ListIfNeeded transport stray rounds f).map fun (_, f) =>
    (f.msgTab.bind fun msgTab => msgInfoTabFindMsg msgTab indx, f)

/-- The message found is the one in the slot of its index. -/
def markDeleted (msgTab : Carray MsgInfo) (indx : UInt32) (msg : MsgInfo) : Carray MsgInfo :=
  Carray.carraySet msgTab (indx - 1) (some { msg with msgDeleted := true })

def mailpop3Dele (f : Mailpop3 σ) (indx : UInt32) : Option (Pop3Error × Mailpop3 σ) :=
  if f.state ≠ .transaction then some (.badState, f)
  else
    (findMsg transport stray rounds f indx).map fun
      | (none, f) => (.noSuchMessage, { f with response := none })
      | (some msg, f) =>
          match exchange transport f (deleCommand indx) with
          | (none, f) => (.stream, f)
          | (some .err, f) => (.noSuchMessage, f)
          | (some .ok, f) =>
              (.noError, { f with
                msgTab := f.msgTab.map fun msgTab => markDeleted msgTab indx msg
                deletedCount := f.deletedCount + 1 })

end Listing

/-- The status that the server answered with is not looked at. -/
def mailpop3Rset (f : Mailpop3 σ) : Option (Pop3Error × Mailpop3 σ) :=
  if f.state ≠ .transaction then some (.badState, f)
  else
    match exchange transport f rsetCommand with
    | (none, f) => some (.stream, f)
    | (some _, f) =>
        match f.msgTab with
        | none => some (.noError, f)
        | some msgTab =>
            (msgInfoTabReset msgTab).map fun msgTab => (.noError, { f with msgTab := some msgTab, deletedCount := 0 })

/-- The part of mailpop3_quit after the label `close`. -/
def closeSession (f : Mailpop3 σ) : Mailpop3 σ :=
  { f with
    stream := if f.connected then transport.close f.stream else f.stream
    connected := false
    timestamp := none
    msgTab := none
    state := .disconnected }

def mailpop3Quit (f : Mailpop3 σ) : Pop3Error × Mailpop3 σ :=
  if f.state ≠ .authorization ∧ f.state ≠ .transaction then (.badState, closeSession transport f)
  else
    match exchange transport f quitCommand with
    | (none, f) => (.stream, closeSession transport f)
    | (some status, f) =>
        let _res : Pop3Error := if status = .ok then .noError else .quitFailed
        -- the assignment after the branches
        let res : Pop3Error := .noError
        (res, closeSession transport f)

end Operations

end Etpan.Pop3
