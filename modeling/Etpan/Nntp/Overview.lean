import Etpan.Data.Loop
import Etpan.Pop3.Session
import Etpan.Stream.EndOfStream

namespace Etpan.Nntp

open Etpan.Data Etpan.Stream Etpan.Pop3

/-! The overview of a range of articles, `low-level/nntp/newsnntp.c`. -/

/-- The results of the call. -/
inductive NewsnntpError where
  | noError
  | requestAuthorizationUsername
  | requestAuthorizationPassword
  | stream
  | noNewsgroupSelected
  | noArticleSelected
  | unexpectedResponse
  | noPermission
deriving Repr, DecidableEq

structure XoverRespItem where
  ovrArticle : UInt32
  ovrSubject : Line
  ovrAuthor : Line
  ovrDate : Line
  ovrMessageId : Line
  ovrReferences : Line
  ovrSize : UInt64
  ovrLineCount : UInt32
  ovrOthers : List Line
deriving Repr, DecidableEq

structure Newsnntp (σ : Type) where
  nntpStream : σ
  nntpResponse : Option Line

def NNTP_STRING_SIZE : Nat := 513

def TAB : UInt8 := 9

/-- `atoi` is `(int) strtol`, whose value is cut to 32 bits. -/
def atoi (text : Line) : Int := (strtol text).bmod (2 ^ 32)

/-- The code, and the text that is kept as the response. -/
def parseResponse (response : Line) : Int × Line :=
  let text := cString response
  let behind := match scanInteger text with
    | some (_, _, rest) => rest
    | none => text
  (atoi text, behind.dropWhile isBlank)

/-- The item of one line, if it has its eight values: the article number, the size and the number of lines are converted
by `atoi`. -/
def overviewItem (line : Line) : Option XoverRespItem :=
  match (cString line).splitOn TAB with
  | article :: subject :: author :: date :: messageId :: references :: size :: lineCount :: others =>
      some
        { ovrArticle := UInt32.ofInt (atoi article)
          ovrSubject := subject
          ovrAuthor := author
          ovrDate := date
          ovrMessageId := messageId
          ovrReferences := references
          ovrSize := UInt64.ofInt (atoi size)
          ovrLineCount := UInt32.ofInt (atoi lineCount)
          ovrOthers := others }
  | _ => none

def xoverRangeCommand (rangeinf rangesup : UInt32) : List UInt8 :=
  snprintf NNTP_STRING_SIZE (asciiText "XOVER " ++ signedDecimal rangeinf ++ ascii '-' :: signedDecimal rangesup ++ [CR, LF])

section Calls

variable {σ : Type} (write : Write σ) (flush : σ → Int × σ) (readLine : σ → Option Line × σ)

def sendCommand (s : σ) (command : List UInt8) : Int × σ :=
  let written := write s (cString command)
  if written.1 = -1 then (-1, written.2)
  else
    let flushed := flush written.2
    if flushed.1 = -1 then (-1, flushed.2) else (0, flushed.2)

def readXoverRespRound (s : σ × List XoverRespItem) : (σ × List XoverRespItem) ⊕ (Option (List XoverRespItem) × σ) :=
  match readLine s.1 with
  | (none, after) => .inr (none, after)
  | (some line, after) =>
      if mailstreamIsEndMultiline line then .inr (some s.2, after)
      else .inl (after, s.2 ++ (overviewItem line).toList)

/-- The list, or `none` for NULL; the outer `none` is a call that is not over after `rounds` lines. -/
def readXoverRespList (rounds : Nat) (s : σ) : Option (Option (List XoverRespItem) × σ) :=
  loop (readXoverRespRound readLine) rounds (s, [])

/-- What is returned, and what `* result` is set to, if it is. -/
def newsnntpXoverResp (rounds : Nat) (f : Newsnntp σ) :
    Option ((NewsnntpError × Option (Option (List XoverRespItem))) × Newsnntp σ) :=
  match readLine f.nntpStream with
  | (none, s) => some ((.stream, none), { f with nntpStream := s })
  | (some response, s) =>
      let (code, text) := parseResponse response
      let answered : Newsnntp σ := ⟨s, some text⟩
      if code = 480 then some ((.requestAuthorizationUsername, none), answered)
      else if code = 381 then some ((.requestAuthorizationPassword, none), answered)
      else if code = 224 then
        (readXoverRespList readLine rounds s).map fun (list, s) => ((.noError, some list), ⟨s, some text⟩)
      else if code = 412 then some ((.noNewsgroupSelected, none), answered)
      else if code = 420 then some ((.noArticleSelected, none), answered)
      else if code = 502 then some ((.noPermission, none), answered)
      else some ((.unexpectedResponse, none), answered)

def newsnntpXoverRange (rounds : Nat) (f : Newsnntp σ) (rangeinf rangesup : UInt32) :
    Option ((NewsnntpError × Option (Option (List XoverRespItem))) × Newsnntp σ) :=
  let sent := sendCommand write flush f.nntpStream (xoverRangeCommand rangeinf rangesup)
  if sent.1 = -1 then some ((.stream, none), { f with nntpStream := sent.2 })
  else newsnntpXoverResp readLine rounds { f with nntpStream := sent.2 }

end Calls

section Lines

variable {s : Mailstream} {bytes content rest : List UInt8} {tail : List LowRead}

theorem rawLines_line (noLF : LF ∉ content) (rest : List UInt8) : rawLines (content ++ LF :: rest) = (content ++ [LF]) :: rawLines rest := by
  induction content with
  | nil => rw [List.nil_append, rawLines, if_pos rfl]; rfl
  | cons byte content ih =>
      have different : byte ≠ LF := fun same => noLF (by rw [same]; exact List.mem_cons_self)
      rw [List.cons_append, rawLines, if_neg different, ih fun member => noLF (List.mem_cons_of_mem _ member)]
      rfl

theorem rawLines_unended (noLF : LF ∉ content) (nonempty : content ≠ []) : rawLines content = [content] := by
  induction content with
  | nil => exact absurd rfl nonempty
  | cons byte content ih =>
      have different : byte ≠ LF := fun same => noLF (by rw [same]; exact List.mem_cons_self)
      rw [rawLines, if_neg different]
      cases content with
      | nil => rfl
      | cons next content => rw [ih (fun member => noLF (List.mem_cons_of_mem _ member)) (List.cons_ne_nil _ _)]

theorem line_or_partial (bytes : List UInt8) : (∃ content rest, LF ∉ content ∧ bytes = content ++ LF :: rest) ∨ LF ∉ bytes := by
  by_cases member : LF ∈ bytes
  · obtain ⟨content, rest, spelled, first⟩ := List.eq_append_cons_of_mem member
    exact .inl ⟨content, rest, first, spelled⟩
  · exact .inr member

theorem readLine_line (noLF : LF ∉ content) (delivers : Delivers s (content ++ LF :: rest) tail) :
    ∃ after, mailstreamReadLineRemoveEol s = (some (removeTrailingEol (content ++ [LF])), after) ∧ Delivers after rest tail := by
  obtain ⟨after, read, left⟩ := mailstreamReadLineAppend_delivers noLF delivers []
  rw [List.nil_append] at read
  exact ⟨after, by rw [mailstreamReadLineRemoveEol, mailstreamReadLine, read]; rfl, left⟩

theorem readLineAppend_fails {more : List LowRead} (noLF : LF ∉ bytes) (delivers : Delivers s bytes (.error :: more)) (line : List UInt8) :
    (mailstreamReadLineAppend s line).1 = none := by
  generalize size : 2 * s.low.pending + (if s.readBuffer = [] then 0 else 1) = measure
  induction measure using Nat.strongRecOn generalizing s bytes line with
  | ind measure ih =>
      by_cases empty : s.readBuffer = []
      · by_cases nothing : bytes = []
        · -- The next answer of the stream below is the failure.
          obtain ⟨chunks, nonempty, answers, spelled⟩ := delivers
          rw [empty, List.nil_append, nothing] at spelled
          have noChunk : chunks = [] := by
            cases chunks with
            | nil => rfl
            | cons chunk chunks =>
                rw [List.flatten_cons, List.append_eq_nil_iff] at spelled
                exact absurd spelled.1 (nonempty chunk List.mem_cons_self)
          rw [noChunk, List.map_nil, List.nil_append] at answers
          have read : s.low.read s.bufferMaxSize = (none, { s.low with reads := more }) := by
            rw [MailstreamLow.read, answers]
          have fed : (mailstreamFeedReadBuffer s).1 = none := by
            rw [mailstreamFeedReadBuffer_empty empty, fillReadBuffer_none read]
            rfl
          rw [mailstreamReadLineAppend, if_neg (not_not_intro empty)]
          simp only [fed, if_true]
        · obtain ⟨answered, more_, fed⟩ := delivers.feed empty nothing
          have progress := mailstreamFeedReadBuffer_pending empty answered more_
          rw [mailstreamReadLineAppend_feed empty answered more_]
          refine ih _ ?_ noLF fed line rfl
          rw [if_pos empty] at size
          split <;> omega
      · obtain ⟨chunks, -, -, spelled⟩ := id delivers
        have bufferFree : LF ∉ s.readBuffer := fun member => noLF (by rw [← spelled]; exact List.mem_append_left _ member)
        obtain ⟨after, read, emptied, below, left⟩ := delivers.readLenAppend (List.append_nil s.readBuffer).symm line
        rw [← spelled, List.drop_left] at left
        have laterFree : LF ∉ chunks.flatten := fun member => noLF (by rw [← spelled]; exact List.mem_append_right _ member)
        have smaller : 2 * after.low.pending + (if after.readBuffer = [] then 0 else 1) < measure := by
          rw [emptied, below, if_pos rfl, ← size, if_neg empty]
          omega
        rw [mailstreamReadLineAppend_absent empty bufferFree read]
        exact ih _ smaller laterFree left _ rfl

/-- The octets that a server sends from here on, and whether the stream fails behind them or comes to its end. -/
inductive Answers (s : Mailstream) (bytes : List UInt8) : Bool → Prop
  | ends (whole : s.low.Whole) (incoming : s.incoming = bytes) : Answers s bytes false
  | fails {more : List LowRead} (delivers : Delivers s bytes (.error :: more)) : Answers s bytes true

variable {fails : Bool}

theorem takeLine_partial (noLF : LF ∉ bytes) : takeLine bytes = bytes := by
  have whole := @takeLine_append bytes [] noLF
  rwa [takeLine, List.append_nil] at whole

theorem Answers.line (answers : Answers s (content ++ LF :: rest) fails) (noLF : LF ∉ content) :
    ∃ after, mailstreamReadLineRemoveEol s = (some (removeTrailingEol (content ++ [LF])), after) ∧ Answers after rest fails := by
  cases answers with
  | ends whole incoming =>
      have taken : takeLine s.incoming = content ++ [LF] := by
        rw [incoming, takeLine_append noLF, takeLine, if_pos rfl]
      have spelled : content ++ LF :: rest = (content ++ [LF]) ++ rest := by
        rw [List.append_assoc, List.singleton_append]
      obtain ⟨after, read, wholeAfter, left⟩ := mailstreamReadLineRemoveEol_whole whole
      rw [taken] at read left
      rw [incoming, spelled, List.drop_left] at left
      exact ⟨after, read, .ends wholeAfter left⟩
  | fails delivers =>
      obtain ⟨after, read, left⟩ := readLine_line noLF delivers
      exact ⟨after, read, .fails left⟩

theorem Answers.ended (answers : Answers s bytes false) (noLF : LF ∉ bytes) :
    ∃ after, mailstreamReadLineRemoveEol s = (some (removeTrailingEol bytes), after) ∧ Answers after [] false := by
  cases answers with
  | ends whole incoming =>
      obtain ⟨after, read, wholeAfter, left⟩ := mailstreamReadLineRemoveEol_whole whole
      rw [incoming, takeLine_partial noLF] at read left
      rw [List.drop_length] at left
      exact ⟨after, read, .ends wholeAfter left⟩

theorem Answers.lost (answers : Answers s bytes true) (noLF : LF ∉ bytes) : (mailstreamReadLineRemoveEol s).1 = none := by
  cases answers with
  | fails delivers =>
      rw [mailstreamReadLineRemoveEol, mailstreamReadLine, readLineAppend_fails noLF delivers]
      rfl

theorem Answers.of_same {other : Mailstream} (answers : Answers s bytes fails) (buffer : other.readBuffer = s.readBuffer)
    (reads : other.low.reads = s.low.reads) : Answers other bytes fails := by
  cases answers with
  | ends whole incoming =>
      refine .ends ?_ ?_
      · rw [MailstreamLow.Whole, reads]
        exact whole
      · rw [Mailstream.incoming, MailstreamLow.undelivered, buffer, reads]
        exact incoming
  | fails delivers =>
      obtain ⟨chunks, nonempty, answers, spelled⟩ := delivers
      exact .fails ⟨chunks, nonempty, by rw [reads, answers], by rw [buffer, spelled]⟩

theorem writeLoop_reads (turns : Nat) (low : MailstreamLow) (buf : List UInt8) (zeroWrites : Nat) :
    (writeLoop turns low buf zeroWrites).2.2.reads = low.reads := by
  have written : ∀ (low : MailstreamLow) (buf : List UInt8), (low.write buf).2.reads = low.reads := by
    intro low buf
    rw [MailstreamLow.write]
    split
    · rfl
    · split_ifs <;> rfl
  induction turns generalizing low buf zeroWrites with
  | zero => rfl
  | succ turns ih =>
      rw [writeLoop]
      dsimp only
      split_ifs
      · rfl
      · exact written low buf
      · exact written low buf
      · exact (ih _ _ _).trans (written low buf)
      · exact written low buf
      · exact (ih _ _ _).trans (written low buf)

theorem mailstreamFlush_answers (answers : Answers s bytes fails) : Answers (mailstreamFlush s).2 bytes fails := by
  have reads := writeLoop_reads s.low.turns s.low s.writeBuffer 0
  rw [mailstreamFlush]
  split_ifs
  · exact answers.of_same rfl reads
  · exact answers.of_same rfl reads

theorem writeDirect_answers (answers : Answers s bytes fails) (buf : List UInt8) : Answers (writeDirect s buf).2 bytes fails := by
  have reads := writeLoop_reads s.low.turns s.low buf 0
  rw [writeDirect]
  split_ifs <;> exact answers.of_same rfl reads

theorem mailstreamWrite_answers (answers : Answers s bytes fails) (buf : List UInt8) : Answers (mailstreamWrite s buf).2 bytes fails := by
  have flushed := mailstreamFlush_answers answers
  rw [mailstreamWrite]
  split_ifs
  · exact answers.of_same rfl rfl
  · exact flushed.of_same rfl rfl
  · exact writeDirect_answers flushed buf
  · exact flushed

theorem sendCommand_answers (answers : Answers s bytes fails) (command : List UInt8) :
    Answers (sendCommand mailstreamWrite mailstreamFlush s command).2 bytes fails := by
  have written := mailstreamWrite_answers answers (cString command)
  have flushed := mailstreamFlush_answers written
  rw [sendCommand]
  dsimp only
  split_ifs
  · exact written
  · exact flushed
  · exact flushed

end Lines

end Etpan.Nntp
