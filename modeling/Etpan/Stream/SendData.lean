import Etpan.Stream.Buffer
import Etpan.Data.Lines

namespace Etpan.Stream

open Etpan.Data

/-! Sending message data, `data-types/mailstream_helper.c`.

The functions are written over the write operation they call, so that one result
speaks of every stream and of every sequence of write results; `mailstreamWrite`
is the operation of the library.  The progress callbacks see only counters and
are left out. -/

/-- A write operation on streams of type `σ`, with the result of the call. -/
abbrev Write (σ : Type) := σ → List UInt8 → Int × σ

/-- The scan of `send_data_line` and `get_data_size`: the length of the first line
with its line break, and whether that break has to be replaced by CRLF. -/
def scanLine : List UInt8 → Nat × Bool
  | [] => (0, false)
  | byte :: rest =>
      if byte = CR then
        match rest with
        | [] => (1, true)
        | next :: _ => if next = LF then (2, false) else (1, true)
      else if byte = LF then (1, true)
      else ((scanLine rest).1 + 1, (scanLine rest).2)

theorem scanLine_le (line : List UInt8) : (scanLine line).1 ≤ line.length := by
  induction line with
  | nil => simp [scanLine]
  | cons byte rest ih =>
      simp only [scanLine]
      repeat' split
      all_goals simp
      exact ih

theorem scanLine_pos {line : List UInt8} (nonempty : line ≠ []) : 0 < (scanLine line).1 := by
  obtain ⟨byte, rest, rfl⟩ := List.exists_cons_of_ne_nil nonempty
  simp only [scanLine]
  repeat' split
  all_goals simp

section Send

variable {σ : Type} (write : Write σ)

/-- The number of octets consumed, or -1. -/
def sendDataLine (s : σ) (line : List UInt8) : Int × σ :=
  let count := (scanLine line).1
  let fixEol := (scanLine line).2
  if fixEol then
    let content := write s (line.take (count - 1))
    if content.1 = -1 then (-1, content.2)
    else
      let eol := write content.2 [CR, LF]
      if eol.1 = -1 then (-1, eol.2) else (count, eol.2)
  else
    let whole := write s (line.take count)
    if whole.1 = -1 then (-1, whole.2) else (count, whole.2)

def sendDataCrlf (quoted : Bool) (s : σ) (message : List UInt8) : Int × σ :=
  if nonempty : message = [] then (0, s)
  else
    let escaped := if quoted ∧ message.head? = some (ascii '.') then write s [ascii '.'] else (0, s)
    if escaped.1 = -1 then (-1, escaped.2)
    else
      let sent := sendDataLine write escaped.2 message
      if sent.1 < 0 then (-1, sent.2)
      else sendDataCrlf quoted sent.2 (message.drop (scanLine message).1)
termination_by message.length
decreasing_by
  have progress := scanLine_pos nonempty
  have bound := scanLine_le message
  rw [List.length_drop]
  omega

def mailstreamSendDataCrlf (s : σ) (message : List UInt8) : Int × σ :=
  sendDataCrlf write false s message

def mailstreamSendDataProgress (flush : σ → Int × σ) (s : σ) (message : List UInt8) : Int × σ :=
  let body := sendDataCrlf write true s message
  if body.1 = -1 then (-1, body.2)
  else
    let terminator := write body.2 [CR, LF, ascii '.', CR, LF]
    if terminator.1 = -1 then (-1, terminator.2)
    else
      let flushed := flush terminator.2
      if flushed.1 = -1 then (-1, flushed.2) else (0, flushed.2)

end Send

def mailstreamSendData (s : Mailstream) (message : List UInt8) : Int × Mailstream :=
  mailstreamSendDataProgress mailstreamWrite mailstreamFlush s message

/-- The same stream with a record of every octet handed to its write operation. -/
def recording {σ : Type} (write : Write σ) : Write (σ × List UInt8) :=
  fun s buf => ((write s.1 buf).1, (write s.1 buf).2, s.2 ++ buf)

def recordingFlush {σ : Type} (flush : σ → Int × σ) (s : σ × List UInt8) : Int × σ × List UInt8 :=
  ((flush s.1).1, (flush s.1).2, s.2)

/-- The first line of a message, the break the scan found after it and the lines
of the rest. -/
theorem scanLine_spec (message : List UInt8) :
    ∃ content, BreakFree content ∧
      ((message = content ∧ scanLine message = (content.length, false)) ∨
        (∃ rest, message = content ++ CR :: LF :: rest ∧
          scanLine message = (content.length + 2, false) ∧
          splitLines message = content :: splitLines rest) ∨
        (∃ byte rest, (byte = CR ∨ byte = LF) ∧ message = content ++ byte :: rest ∧
          scanLine message = (content.length + 1, true) ∧
          splitLines message = content :: splitLines rest)) := by
  induction message with
  | nil => exact ⟨[], by simp [BreakFree], .inl ⟨rfl, rfl⟩⟩
  | cons byte rest ih =>
      have empty : BreakFree [] := by simp [BreakFree]
      by_cases isCR : byte = CR
      · subst isCR
        refine ⟨[], empty, .inr ?_⟩
        cases rest with
        | nil => exact .inr ⟨CR, [], .inl rfl, rfl, by simp [scanLine], by simp [splitLines, splitLinesFrom]⟩
        | cons next rest =>
            by_cases isLF : next = LF
            · subst isLF
              exact .inl ⟨rest, rfl, by simp [scanLine], by simp [splitLines, splitLinesFrom]⟩
            · refine .inr ⟨CR, next :: rest, .inl rfl, rfl, by simp [scanLine, isLF], ?_⟩
              have lines := splitLinesFrom_append empty false (.inl rfl) (.inr rfl) (next :: rest)
              have absorbed : splitLinesFrom true (next :: rest) = splitLinesFrom false (next :: rest) :=
                splitLinesFrom_true (by simp [isLF])
              simpa [splitLines, absorbed] using lines
      by_cases isLF : byte = LF
      · subst isLF
        exact ⟨[], empty, .inr (.inr ⟨LF, rest, .inr rfl, rfl, by simp [scanLine],
          by simp [splitLines, splitLinesFrom]⟩)⟩
      · obtain ⟨content, free, shape⟩ := ih
        have lines : splitLines (byte :: rest) = consHead byte (splitLines rest) := by
          simp [splitLines, splitLinesFrom, isCR, isLF]
        refine ⟨byte :: content, free.cons isCR isLF, ?_⟩
        rcases shape with ⟨rfl, scan⟩ | ⟨tail, rfl, scan, split⟩ | ⟨eol, tail, isBreak, rfl, scan, split⟩
        · exact .inl ⟨rfl, by simp [scanLine, isCR, isLF, scan]⟩
        · refine .inr (.inl ⟨tail, rfl, by simp [scanLine, isCR, isLF, scan], ?_⟩)
          rw [lines, split, consHead]
        · refine .inr (.inr ⟨eol, tail, isBreak, rfl, by simp [scanLine, isCR, isLF, scan], ?_⟩)
          rw [lines, split, consHead]

def stuffLine (line : List UInt8) : List UInt8 :=
  if line.head? = some (ascii '.') then ascii '.' :: line else line

theorem stuffLine_breakFree {line : List UInt8} (free : BreakFree line) : BreakFree (stuffLine line) := by
  unfold stuffLine
  split
  · exact free.cons (by decide) (by decide)
  · exact free

/-- A message as it stands on the wire: its lines, each with a `.` before a
leading `.` and CRLF after it, and the line that holds the terminating `.`. -/
def dotStuffed (message : List UInt8) : List UInt8 :=
  joinLines ((splitLines message).map stuffLine ++ [[ascii '.']])

def stuffedBody (message : List UInt8) : List UInt8 :=
  separateLines ((splitLines message).map stuffLine)

theorem stuffedBody_append (message : List UInt8) :
    stuffedBody message ++ [CR, LF, ascii '.', CR, LF] = dotStuffed message := by
  have lines : (splitLines message).map stuffLine ≠ [] := by
    simp [splitLines, splitLinesFrom_ne_nil]
  rw [dotStuffed, joinLines_append, ← separateLines_append_crlf lines, stuffedBody]
  simp

theorem stuffedBody_line {message content rest : List UInt8}
    (lines : splitLines message = content :: splitLines rest) :
    stuffedBody message = stuffLine content ++ CR :: LF :: stuffedBody rest := by
  rw [stuffedBody, lines, List.map_cons, separateLines_cons, stuffedBody]
  simp [splitLines, splitLinesFrom_ne_nil]

/-- A write operation was handed the front `sent` of what it is owed, cut between two
calls, and all of it unless the last result is -1. -/
def Handed {σ : Type} (before after : σ × List UInt8) (result : Int) (owed : List UInt8) : Prop :=
  ∃ sent rest, after.2 = before.2 ++ sent ∧ sent ++ rest = owed ∧ sent.getLast? ≠ some CR ∧
    (result ≠ -1 → rest = [])

theorem Handed.write {σ : Type} (write : Write σ) (s : σ × List UInt8) {buf : List UInt8}
    (notCR : buf.getLast? ≠ some CR) :
    Handed s (recording write s buf).2 (recording write s buf).1 buf :=
  ⟨buf, [], rfl, by simp, notCR, fun _ => rfl⟩

theorem Handed.nothing {σ : Type} (s : σ × List UInt8) (result : Int) : Handed s s result [] :=
  ⟨[], [], by simp, by simp, by simp, fun _ => rfl⟩

theorem Handed.stop {σ : Type} {before after : σ × List UInt8} {owed : List UInt8}
    (first : Handed before after (-1) owed) (more : List UInt8) :
    Handed before after (-1) (owed ++ more) := by
  obtain ⟨sent, rest, recorded, whole, notCR, -⟩ := first
  exact ⟨sent, rest ++ more, recorded, by rw [← whole, List.append_assoc], notCR, by simp⟩

theorem Handed.success {σ : Type} {before after : σ × List UInt8} {result result' : Int}
    {owed : List UInt8} (handed : Handed before after result owed) (success : result ≠ -1) :
    Handed before after result' owed := by
  obtain ⟨sent, rest, recorded, whole, notCR, complete⟩ := handed
  exact ⟨sent, rest, recorded, whole, notCR, fun _ => complete success⟩

theorem Handed.trans {σ : Type} {before middle after : σ × List UInt8} {result result' : Int}
    {owed more : List UInt8} (first : Handed before middle result owed) (success : result ≠ -1)
    (second : Handed middle after result' more) : Handed before after result' (owed ++ more) := by
  obtain ⟨sent, rest, recorded, whole, notCR, complete⟩ := first
  obtain ⟨sent', rest', recorded', whole', notCR', complete'⟩ := second
  have done := complete success
  subst done
  rw [List.append_nil] at whole
  subst whole
  refine ⟨sent ++ sent', rest', ?_, by rw [List.append_assoc, whole'], ?_, complete'⟩
  · rw [recorded', recorded, List.append_assoc]
  · rw [List.getLast?_append]
    cases last : sent'.getLast? with
    | none => simpa using notCR
    | some byte => simpa [last] using notCR'

def lineOnWire (message : List UInt8) : List UInt8 :=
  if (scanLine message).2 then message.take ((scanLine message).1 - 1) ++ [CR, LF]
  else message.take (scanLine message).1

theorem sendDataLine_handed {σ : Type} (write : Write σ) (s : σ × List UInt8) {message : List UInt8}
    (contentEnd : (message.take ((scanLine message).1 - 1)).getLast? ≠ some CR ∨
      (scanLine message).2 = false)
    (wholeEnd : (message.take (scanLine message).1).getLast? ≠ some CR ∨ (scanLine message).2 = true) :
    let run := sendDataLine (recording write) s message
    Handed s run.2 run.1 (lineOnWire message) ∧ (run.1 = -1 ∨ run.1 = (scanLine message).1) := by
  intro run
  unfold lineOnWire
  cases fix : (scanLine message).2 with
  | true =>
      have notCR := contentEnd.resolve_right (by simp [fix])
      have content := Handed.write write s notCR
      by_cases failed : (recording write s (message.take ((scanLine message).1 - 1))).1 = -1
      · have stopped : run = (-1, (recording write s (message.take ((scanLine message).1 - 1))).2) := by
          simp only [run, sendDataLine, fix, if_true, failed]
        rw [stopped]
        rw [failed] at content
        exact ⟨content.stop _, .inl rfl⟩
      · have eol := Handed.write write (recording write s (message.take ((scanLine message).1 - 1))).2
          (show ([CR, LF] : List UInt8).getLast? ≠ some CR by decide)
        have both := content.trans failed eol
        by_cases failed' : (recording write
            (recording write s (message.take ((scanLine message).1 - 1))).2 [CR, LF]).1 = -1
        · have stopped : run = (-1, (recording write
              (recording write s (message.take ((scanLine message).1 - 1))).2 [CR, LF]).2) := by
            simp only [run, sendDataLine, fix, if_true, failed, if_false, failed']
          rw [stopped]
          rw [failed'] at both
          exact ⟨both, .inl rfl⟩
        · have finished : run = (((scanLine message).1 : Int), (recording write
              (recording write s (message.take ((scanLine message).1 - 1))).2 [CR, LF]).2) := by
            simp only [run, sendDataLine, fix, if_true, failed, if_false, failed']
          rw [finished]
          exact ⟨both.success failed', .inr rfl⟩
  | false =>
      have notCR := wholeEnd.resolve_right (by simp [fix])
      have whole := Handed.write write s notCR
      by_cases failed : (recording write s (message.take (scanLine message).1)).1 = -1
      · have stopped : run = (-1, (recording write s (message.take (scanLine message).1)).2) := by
          simp only [run, sendDataLine, fix, Bool.false_eq_true, if_false, failed, if_true]
        rw [stopped]
        rw [failed] at whole
        exact ⟨whole, .inl rfl⟩
      · have finished : run = (((scanLine message).1 : Int),
            (recording write s (message.take (scanLine message).1)).2) := by
          simp only [run, sendDataLine, fix, Bool.false_eq_true, if_false, failed]
        rw [finished]
        exact ⟨whole.success failed, .inr rfl⟩

theorem head?_append_break {content rest : List UInt8} {byte : UInt8}
    (isBreak : byte = CR ∨ byte = LF) :
    (content ++ byte :: rest).head? = some (ascii '.') ↔ content.head? = some (ascii '.') := by
  cases content with
  | nil =>
      have different : byte ≠ ascii '.' := by rcases isBreak with rfl | rfl <;> decide
      simp [different]
  | cons first content => simp

/-- One line of the body loop: what it owes, where its scan leaves the message, and
that neither of its pieces ends in CR. -/
theorem line_spec {message : List UInt8} (nonempty : message ≠ []) :
    ∃ content rest, message.drop (scanLine message).1 = rest ∧ rest.length < message.length ∧
      (message.head? = some (ascii '.') ↔ content.head? = some (ascii '.')) ∧
      (lineOnWire message = content ∧ rest = [] ∧ stuffedBody message = stuffLine content ∨
        lineOnWire message = content ++ [CR, LF] ∧
          stuffedBody message = stuffLine content ++ CR :: LF :: stuffedBody rest) ∧
      ((message.take ((scanLine message).1 - 1)).getLast? ≠ some CR ∨ (scanLine message).2 = false) ∧
      ((message.take (scanLine message).1).getLast? ≠ some CR ∨ (scanLine message).2 = true) := by
  have lastFree : ∀ line : List UInt8, BreakFree line → line.getLast? ≠ some CR := by
    intro line free last
    exact (free CR (List.mem_of_getLast? last)).1 rfl
  obtain ⟨content, free, ⟨rfl, scan⟩ | ⟨rest, rfl, scan, lines⟩ | ⟨byte, rest, isBreak, rfl, scan, lines⟩⟩ :=
    scanLine_spec message
  · have one := splitLinesFrom_of_breakFree free false
    refine ⟨message, [], by simp [scan], List.length_pos_iff.mpr nonempty, Iff.rfl,
      .inl ⟨by simp [lineOnWire, scan], rfl, ?_⟩, .inr (by simp [scan]), .inl ?_⟩
    · simp [stuffedBody, splitLines, one, separateLines]
    · simpa [scan] using lastFree message free
  · refine ⟨content, rest, by simp [scan], by simp; omega, head?_append_break (.inl rfl),
      .inr ⟨?_, stuffedBody_line lines⟩, .inr (by simp [scan]), .inl ?_⟩
    · simp [lineOnWire, scan, List.take_append]
    · simp [scan, List.take_append]
  · refine ⟨content, rest, ?_, by simp; omega, head?_append_break isBreak,
      .inr ⟨?_, stuffedBody_line lines⟩, .inl ?_, .inr (by simp [scan])⟩
    · simp [scan, List.drop_append]
    · simp [lineOnWire, scan]
    · simpa [scan] using lastFree content free

theorem sendDataCrlf_handed {σ : Type} (write : Write σ) (s : σ × List UInt8) (message : List UInt8) :
    let run := sendDataCrlf (recording write) true s message
    Handed s run.2 run.1 (stuffedBody message) ∧ (run.1 = 0 ∨ run.1 = -1) := by
  generalize size : message.length = count
  induction count using Nat.strongRecOn generalizing s message with
  | ind count ih =>
      intro run
      by_cases nonempty : message = []
      · subst nonempty
        have finished : run = (0, s) := by
          simp only [run]
          rw [sendDataCrlf]
          simp
        rw [finished]
        exact ⟨Handed.nothing s 0, .inl rfl⟩
      obtain ⟨content, rest, drop, shorter, sameHead, owed, contentEnd, wholeEnd⟩ := line_spec nonempty
      -- the escaping dot
      let escaped := if (true : Bool) = true ∧ message.head? = some (ascii '.') then
        recording write s [ascii '.'] else ((0 : Int), s)
      let dot : List UInt8 := if content.head? = some (ascii '.') then [ascii '.'] else []
      have stuffed : stuffLine content = dot ++ content := by
        simp only [stuffLine, dot]
        split <;> rfl
      have escape : Handed s escaped.2 escaped.1 dot := by
        by_cases isDot : content.head? = some (ascii '.')
        · have sent : escaped = recording write s [ascii '.'] := by
            simp only [escaped, sameHead.mpr isDot, and_self, if_true]
          simp only [sent, dot, isDot, if_true]
          exact Handed.write write s (by decide)
        · have notHead : ¬ message.head? = some (ascii '.') := fun head => isDot (sameHead.mp head)
          have skipped : escaped = (0, s) := by simp [escaped, notHead]
          simp only [skipped, dot, isDot, if_false]
          exact Handed.nothing s 0
      have unfolded : run = if escaped.1 = -1 then (-1, escaped.2) else
          if (sendDataLine (recording write) escaped.2 message).1 < 0 then
            (-1, (sendDataLine (recording write) escaped.2 message).2)
          else sendDataCrlf (recording write) true
            (sendDataLine (recording write) escaped.2 message).2 rest := by
        simp only [run]
        rw [sendDataCrlf, dif_neg nonempty, drop]
      obtain ⟨lineHanded, lineResult⟩ := sendDataLine_handed write escaped.2 contentEnd wholeEnd
      -- what is owed is the escaping dot, the line and the rest of the body
      obtain ⟨more, whole, owedRest⟩ : ∃ more, stuffedBody message = dot ++ (lineOnWire message ++ more) ∧
          more = stuffedBody rest := by
        rcases owed with ⟨wire, rfl, body⟩ | ⟨wire, body⟩
        · exact ⟨stuffedBody [], by rw [body, wire, stuffed]; simp [stuffedBody, splitLines,
            splitLinesFrom, separateLines, stuffLine], rfl⟩
        · exact ⟨_, by rw [body, wire, stuffed]; simp, rfl⟩
      rw [whole]
      by_cases dotFailed : escaped.1 = -1
      · rw [if_pos dotFailed] at unfolded
        rw [unfolded]
        rw [dotFailed] at escape
        exact ⟨escape.stop _, .inr rfl⟩
      rw [if_neg dotFailed] at unfolded
      rcases lineResult with lineFailed | lineSent
      · rw [if_pos (by rw [lineFailed]; decide)] at unfolded
        rw [unfolded]
        rw [lineFailed] at lineHanded
        exact ⟨escape.trans dotFailed (lineHanded.stop _), .inr rfl⟩
      · have counted : ¬ (sendDataLine (recording write) escaped.2 message).1 < 0 := by
          rw [lineSent]
          omega
        rw [if_neg counted] at unfolded
        obtain ⟨restHanded, restResult⟩ := ih rest.length (by omega)
          (sendDataLine (recording write) escaped.2 message).2 rest rfl
        rw [unfolded, owedRest]
        exact ⟨escape.trans dotFailed (lineHanded.trans (by omega) restHanded), restResult⟩

theorem dotStuffed_breakFree (message : List UInt8) :
    ∀ line ∈ (splitLines message).map stuffLine ++ [[ascii '.']], BreakFree line := by
  intro line member
  rcases List.mem_append.mp member with stuffed | terminator
  · obtain ⟨content, isLine, rfl⟩ := List.mem_map.mp stuffed
    exact stuffLine_breakFree (splitLinesFrom_breakFree false message content isLine)
  · rw [List.mem_singleton.mp terminator]
    decide

/-- A `.` that starts a line on the wire is doubled, except the terminating one. -/
theorem dotStuffed_lineStart {message before after : List UInt8}
    (spelled : dotStuffed message = before ++ ascii '.' :: after) (start : LineStart before) :
    (∃ rest, after = ascii '.' :: rest) ∨
      before = stuffedBody message ++ [CR, LF] ∧ after = [CR, LF] := by
  obtain ⟨earlier, line, later, lines, rfl, rfl⟩ :=
    joinLines_lineStart (dotStuffed_breakFree message) (by decide) spelled start
  rcases List.append_eq_append_iff.mp lines with ⟨middle, rfl, tail⟩ | ⟨middle, stuffed, tail⟩
  · right
    have nonempty : (splitLines message).map stuffLine ≠ [] := by
      simp [splitLines, splitLinesFrom_ne_nil]
    cases middle with
    | nil =>
        simp only [List.nil_append, List.cons.injEq] at tail
        obtain ⟨⟨-, rfl⟩, rfl⟩ := tail
        rw [List.append_nil, ← separateLines_append_crlf nonempty]
        exact ⟨rfl, rfl⟩
    | cons first middle => simp at tail
  · cases middle with
    | nil =>
        right
        have nonempty : (splitLines message).map stuffLine ≠ [] := by
          simp [splitLines, splitLinesFrom_ne_nil]
        simp only [List.nil_append, List.cons.injEq, true_and] at tail
        obtain ⟨rfl, rfl⟩ := tail
        rw [List.append_nil] at stuffed
        rw [← stuffed, ← separateLines_append_crlf nonempty]
        exact ⟨rfl, rfl⟩
    | cons first middle =>
        left
        simp only [List.cons_append, List.cons.injEq] at tail
        obtain ⟨rfl, -⟩ := tail
        have member : ascii '.' :: line ∈ (splitLines message).map stuffLine := by simp [stuffed]
        obtain ⟨content, -, shape⟩ := List.mem_map.mp member
        unfold stuffLine at shape
        split at shape
        · next isDot =>
            obtain ⟨rest, rfl⟩ : ∃ rest, content = ascii '.' :: rest := by
              cases content with
              | nil => simp at isDot
              | cons first rest => exact ⟨rest, by simpa using isDot⟩
            simp only [List.cons.injEq, true_and] at shape
            exact ⟨_, by rw [← shape]; rfl⟩
        · next notDot =>
            rw [shape] at notDot
            simp at notDot

theorem dotStuffed_terminator {message before after : List UInt8}
    (spelled : dotStuffed message = before ++ [CR, LF, ascii '.', CR, LF] ++ after) :
    before = stuffedBody message ∧ after = [] := by
  have dot : dotStuffed message = (before ++ [CR, LF]) ++ ascii '.' :: CR :: LF :: after := by
    rw [spelled]
    simp
  rcases dotStuffed_lineStart dot (.inr ⟨before, rfl⟩) with ⟨rest, doubled⟩ | ⟨same, nothing⟩
  · exact absurd (List.cons.inj doubled).1 (by decide)
  · simp only [List.cons.injEq, true_and] at nothing
    exact ⟨List.append_cancel_right same, nothing⟩

theorem mailstreamSendDataProgress_handed {σ : Type} (write : Write σ) (flush : σ → Int × σ)
    (s : σ × List UInt8) (message : List UInt8) :
    let run := mailstreamSendDataProgress (recording write) (recordingFlush flush) s message
    Handed s run.2 run.1 (dotStuffed message) ∧ (run.1 = 0 ∨ run.1 = -1) := by
  intro run
  obtain ⟨body, bodyResult⟩ := sendDataCrlf_handed write s message
  generalize ran : sendDataCrlf (recording write) true s message = loop at body bodyResult
  rw [← stuffedBody_append]
  by_cases bodyFailed : loop.1 = -1
  · have stopped : run = (-1, loop.2) := by
      simp only [run, mailstreamSendDataProgress, ran, bodyFailed, if_true]
    rw [stopped]
    rw [bodyFailed] at body
    exact ⟨body.stop _, .inr rfl⟩
  have notCR : [CR, LF, ascii '.', CR, LF].getLast? ≠ some CR := by decide
  have terminator := body.trans bodyFailed (Handed.write write loop.2 notCR)
  by_cases failed : (recording write loop.2 [CR, LF, ascii '.', CR, LF]).1 = -1
  · have stopped : run = (-1, (recording write loop.2 [CR, LF, ascii '.', CR, LF]).2) := by
      simp only [run, mailstreamSendDataProgress, ran, bodyFailed, if_false, failed, if_true]
    rw [stopped]
    rw [failed] at terminator
    exact ⟨terminator, .inr rfl⟩
  · have recorded : run.2.2 = (recording write loop.2 [CR, LF, ascii '.', CR, LF]).2.2 ∧
        (run.1 = 0 ∨ run.1 = -1) := by
      simp only [run, mailstreamSendDataProgress, ran, bodyFailed, if_false, failed]
      split <;> simp [recordingFlush]
    obtain ⟨sent, rest, kept, whole, notCR, complete⟩ := terminator
    exact ⟨⟨sent, rest, by rw [recorded.1, kept], whole, notCR, fun _ => complete failed⟩, recorded.2⟩

def unrecorded {σ : Type} (result : Int × σ × List UInt8) : Int × σ := (result.1, result.2.1)

theorem sendDataLine_recording {σ : Type} (write : Write σ) (s : σ × List UInt8) (line : List UInt8) :
    unrecorded (sendDataLine (recording write) s line) = sendDataLine write s.1 line := by
  simp only [sendDataLine, apply_ite unrecorded]
  rfl

/-- Recording changes neither the results nor the stream. -/
theorem sendDataCrlf_recording {σ : Type} (write : Write σ) (quoted : Bool) (s : σ × List UInt8)
    (message : List UInt8) :
    unrecorded (sendDataCrlf (recording write) quoted s message) =
      sendDataCrlf write quoted s.1 message := by
  generalize size : message.length = count
  induction count using Nat.strongRecOn generalizing s message with
  | ind count ih =>
      by_cases nonempty : message = []
      · subst nonempty
        rw [sendDataCrlf, sendDataCrlf]
        simp [unrecorded]
      · have progress := scanLine_pos nonempty
        have bound := scanLine_le message
        have shorter : (message.drop (scanLine message).1).length < count := by
          rw [List.length_drop]
          omega
        have tail := fun s => ih _ shorter s (message.drop (scanLine message).1) rfl
        have line := fun s => sendDataLine_recording write s message
        rw [sendDataCrlf, sendDataCrlf, dif_neg nonempty, dif_neg nonempty]
        generalize escape : (if quoted = true ∧ message.head? = some (ascii '.') then
          recording write s [ascii '.'] else (0, s)) = escaped
        have escape' : (if quoted = true ∧ message.head? = some (ascii '.') then
            write s.1 [ascii '.'] else (0, s.1)) = unrecorded escaped := by
          rw [← escape, apply_ite unrecorded]
          rfl
        simp only [escape', apply_ite unrecorded, tail]
        have sent := line escaped.2
        rw [show (unrecorded escaped).2 = escaped.2.1 from rfl, ← sent]
        rfl

theorem mailstreamSendDataProgress_recording {σ : Type} (write : Write σ) (flush : σ → Int × σ)
    (s : σ × List UInt8) (message : List UInt8) :
    unrecorded (mailstreamSendDataProgress (recording write) (recordingFlush flush) s message) =
      mailstreamSendDataProgress write flush s.1 message := by
  have body := sendDataCrlf_recording write true s message
  simp only [mailstreamSendDataProgress, apply_ite unrecorded, ← body]
  rfl

/-- Nothing in a message can end the data phase: whatever the stream answers, the
octets handed to it are the stuffed message or, after an error, a front of it;
they hold no bare CR and no bare LF, a line starts with `.` only when it is
doubled or the terminator, and CRLF `.` CRLF stands at the end alone. -/
theorem mailstreamSendData_noSmuggling {σ : Type} (write : Write σ) (flush : σ → Int × σ) (s : σ)
    (message : List UInt8) :
    let run := mailstreamSendDataProgress (recording write) (recordingFlush flush) (s, []) message
    let handed := run.2.2
    unrecorded run = mailstreamSendDataProgress write flush s message ∧
      (run.1 = 0 ∧ handed = dotStuffed message ∨ run.1 = -1 ∧ handed <+: dotStuffed message) ∧
      (∀ before byte after, handed = before ++ byte :: after →
        (byte = CR → ∃ rest, after = LF :: rest) ∧
          (byte = LF → ∃ earlier, before = earlier ++ [CR])) ∧
      (∀ before after, handed = before ++ ascii '.' :: after → LineStart before →
        (∃ rest, after = ascii '.' :: rest) ∨
          (before = stuffedBody message ++ [CR, LF] ∧ after = [CR, LF]) ∨
          (run.1 = -1 ∧ after = [])) ∧
      ∀ before after, handed = before ++ [CR, LF, ascii '.', CR, LF] ++ after →
        before = stuffedBody message ∧ after = [] := by
  intro run handed
  obtain ⟨⟨sent, rest, recorded, whole, notCR, complete⟩, result⟩ :=
    mailstreamSendDataProgress_handed write flush (s, []) message
  have same : handed = sent := by simpa using recorded
  rw [← same] at whole notCR
  have cut : rest ≠ [] → run.1 = -1 := fun more => Decidable.byContradiction fun success => more (complete success)
  refine ⟨mailstreamSendDataProgress_recording write flush (s, []) message, ?_, ?_, ?_, ?_⟩
  · rcases result with success | failure
    · have nothing : rest = [] := complete (by rw [success]; decide)
      exact .inl ⟨success, by simpa [nothing] using whole⟩
    · exact .inr ⟨failure, rest, whole⟩
  · intro before byte after spelled
    have position : dotStuffed message = before ++ byte :: (after ++ rest) := by
      rw [← whole, spelled]
      simp
    obtain ⟨onCR, onLF⟩ := joinLines_noBareBreak (dotStuffed_breakFree message) position
    refine ⟨fun isCR => ?_, onLF⟩
    obtain ⟨later, follows⟩ := onCR isCR
    cases after with
    | nil =>
        rw [spelled, isCR] at notCR
        simp at notCR
    | cons next after => exact ⟨after, by rw [(List.cons.inj follows).1]⟩
  · intro before after spelled start
    have position : dotStuffed message = before ++ ascii '.' :: (after ++ rest) := by
      rw [← whole, spelled]
      simp
    rcases dotStuffed_lineStart position start with ⟨later, doubled⟩ | ⟨atEnd, crlf⟩
    · cases after with
      | nil => exact .inr (.inr ⟨cut (by rw [List.nil_append] at doubled; simp [doubled]), rfl⟩)
      | cons next after => exact .inl ⟨after, by rw [(List.cons.inj doubled).1]⟩
    · right
      match after, crlf with
      | [], crlf => exact .inr ⟨cut (by rw [List.nil_append] at crlf; simp [crlf]), rfl⟩
      | [last], crlf =>
          rw [spelled, (List.cons.inj crlf).1] at notCR
          simp at notCR
      | first :: second :: after, crlf =>
          simp only [List.cons_append, List.cons.injEq, List.append_eq_nil_iff] at crlf
          obtain ⟨rfl, rfl, rfl, -⟩ := crlf
          exact .inl ⟨atEnd, rfl⟩
  · intro before after spelled
    have position : dotStuffed message = before ++ [CR, LF, ascii '.', CR, LF] ++ (after ++ rest) := by
      rw [← whole, spelled]
      simp
    obtain ⟨atEnd, nothing⟩ := dotStuffed_terminator position
    exact ⟨atEnd, (List.append_eq_nil_iff.mp nothing).1⟩

end Etpan.Stream
