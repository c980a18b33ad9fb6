import Etpan.Stream.SendData

namespace Etpan.Stream

open Etpan.Data

/-! Reading lines and multi-line replies, `data-types/mailstream_helper.c`. -/

/-- How many more reads that deliver something the stream below can answer, at most. -/
def MailstreamLow.pending (low : MailstreamLow) : Nat :=
  (low.reads.map fun answer => match answer with
    | .error => 1
    | .bytes chunk => chunk.length + 1).sum

theorem MailstreamLow.read_pending {low low' : MailstreamLow} {count : Nat} {bytes : List UInt8}
    (positive : 0 < count) (read : low.read count = (some bytes, low')) (nonempty : bytes ≠ []) :
    low'.pending < low.pending := by
  unfold MailstreamLow.read at read
  unfold MailstreamLow.pending
  split at read
  · cases read
    contradiction
  · cases read
  · next chunk rest answers =>
      rw [answers]
      split at read
      · cases read
        simp
      · cases read
        simp only [List.map_cons, List.sum_cons, List.length_drop]
        omega

theorem fillReadBuffer_none {s : Mailstream} {low : MailstreamLow}
    (read : s.low.read s.bufferMaxSize = (none, low)) : (fillReadBuffer s).1 = false := by
  unfold fillReadBuffer
  split
  · rfl
  · next same =>
      rw [read] at same
      cases same

theorem fillReadBuffer_some {s : Mailstream} {bytes : List UInt8} {low : MailstreamLow}
    (read : s.low.read s.bufferMaxSize = (some bytes, low)) :
    (fillReadBuffer s).1 = true ∧ (fillReadBuffer s).2.readBuffer = bytes ∧
      (fillReadBuffer s).2.low = low := by
  unfold fillReadBuffer
  split
  · next same =>
      rw [read] at same
      cases same
  · next same =>
      rw [read] at same
      cases same
      exact ⟨rfl, rfl, rfl⟩

theorem fillReadBuffer_pending {s : Mailstream} (filled : (fillReadBuffer s).1 = true)
    (nonempty : (fillReadBuffer s).2.readBuffer ≠ []) :
    (fillReadBuffer s).2.low.pending < s.low.pending := by
  match read : s.low.read s.bufferMaxSize with
  | (none, low) =>
      rw [fillReadBuffer_none read] at filled
      contradiction
  | (some bytes, low) =>
      obtain ⟨-, delivered, below⟩ := fillReadBuffer_some read
      rw [delivered] at nonempty
      rw [below]
      exact MailstreamLow.read_pending s.positive read nonempty

theorem mailstreamRead_buffered {s : Mailstream} {count : Nat} (buffered : count ≤ s.readBuffer.length) :
    mailstreamRead s count = (some (s.readBuffer.take count), (readFromInternalBuffer s count).2) := by
  simp [mailstreamRead, readFromInternalBuffer, buffered]

theorem mailstreamFeedReadBuffer_empty {s : Mailstream} (empty : s.readBuffer = []) :
    mailstreamFeedReadBuffer s =
      if (fillReadBuffer s).1 then (some (fillReadBuffer s).2.readBuffer.length, (fillReadBuffer s).2)
      else (none, (fillReadBuffer s).2) := by
  rw [mailstreamFeedReadBuffer, if_pos empty]

theorem mailstreamFeedReadBuffer_pending {s : Mailstream} (empty : s.readBuffer = [])
    (answered : (mailstreamFeedReadBuffer s).1 ≠ none)
    (more : (mailstreamFeedReadBuffer s).1 ≠ some 0) :
    (mailstreamFeedReadBuffer s).2.low.pending < s.low.pending := by
  rw [mailstreamFeedReadBuffer_empty empty] at answered more ⊢
  cases filled : (fillReadBuffer s).1 with
  | false => simp [filled] at answered
  | true =>
      have nonempty : (fillReadBuffer s).2.readBuffer ≠ [] := by simpa [filled] using more
      simpa [filled] using fillReadBuffer_pending filled nonempty

/-- The string is grown by `count` before the read; every call asks for no more
than the read buffer holds, so the read fills all of it. -/
def mailstreamReadLenAppend (s : Mailstream) (line : List UInt8) (count : Nat) :
    Option (List UInt8) × Mailstream :=
  let read := mailstreamRead s count
  (read.1.map (line ++ ·), read.2)

def mailstreamReadLineAppend (s : Mailstream) (line : List UInt8) : Option (List UInt8) × Mailstream :=
  if s.readBuffer ≠ [] then
    match s.readBuffer.findIdx? (· == LF) with
    | some i => mailstreamReadLenAppend s line (i + 1)
    | none =>
        let all := mailstreamReadLenAppend s line s.readBuffer.length
        match all.1 with
        | none => (none, all.2)
        | some line => mailstreamReadLineAppend all.2 line
  else
    let fed := mailstreamFeedReadBuffer s
    if fed.1 = none then (none, fed.2)
    else if fed.1 = some 0 then (some line, fed.2)
    else mailstreamReadLineAppend fed.2 line
termination_by 2 * s.low.pending + if s.readBuffer = [] then 0 else 1
decreasing_by
  · have emptied : all.2.readBuffer = [] := by
      simp [all, mailstreamReadLenAppend, mailstreamRead_buffered, readFromInternalBuffer]
    have below : all.2.low = s.low := by
      simp [all, mailstreamReadLenAppend, mailstreamRead_buffered, readFromInternalBuffer]
    rw [emptied, below]
    simp_all
  · next nothing failed ended =>
      have empty : s.readBuffer = [] := Decidable.not_not.mp nothing
      have delivered := mailstreamFeedReadBuffer_pending empty failed ended
      rw [if_pos empty]
      split <;> omega

def mailstreamReadLine (s : Mailstream) : Option (List UInt8) × Mailstream :=
  mailstreamReadLineAppend s []

def dropLast? (byte : UInt8) (text : List UInt8) : List UInt8 :=
  if text.getLast? = some byte then text.dropLast else text

def removeTrailingEol (line : List UInt8) : List UInt8 :=
  dropLast? CR (dropLast? LF line)

def mailstreamReadLineRemoveEol (s : Mailstream) : Option (List UInt8) × Mailstream :=
  let read := mailstreamReadLine s
  (read.1.map removeTrailingEol, read.2)

/-- The line is taken as a C string. -/
def mailstreamIsEndMultiline (line : List UInt8) : Bool :=
  cString line = [ascii '.']

/-- The loop of `mailstream_read_multiline`; `none` is a run that has not ended after
`turns` turns, as at an end of file, where every line read is empty. -/
def readMultilineLoop : Nat → Mailstream → List UInt8 → Option (Option (List UInt8) × Mailstream)
  | 0, _, _ => none
  | turns + 1, s, multiline =>
      let read := mailstreamReadLineRemoveEol s
      match read.1 with
      | none => some (none, read.2)
      | some line =>
          if mailstreamIsEndMultiline line then some (some multiline, read.2)
          else
            let text := if (cString line).head? = some (ascii '.') then (cString line).tail else cString line
            readMultilineLoop turns read.2 (multiline ++ text ++ [CR, LF])

def mailstreamReadMultiline (turns : Nat) (s : Mailstream) : Option (Option (List UInt8) × Mailstream) :=
  readMultilineLoop turns s []

/-- What the buffer and the answers before `tail` deliver; no answer among them is
empty, since an empty one is an end of file. -/
def Delivers (s : Mailstream) (bytes : List UInt8) (tail : List LowRead) : Prop :=
  ∃ chunks : List (List UInt8), (∀ chunk ∈ chunks, chunk ≠ []) ∧
    s.low.reads = chunks.map LowRead.bytes ++ tail ∧ s.readBuffer ++ chunks.flatten = bytes

theorem Delivers.readLenAppend {s : Mailstream} {bytes taken rest : List UInt8} {tail : List LowRead}
    (delivers : Delivers s bytes tail) (buffered : s.readBuffer = taken ++ rest) (line : List UInt8) :
    ∃ s', mailstreamReadLenAppend s line taken.length = (some (line ++ taken), s') ∧
      s'.readBuffer = rest ∧ s'.low = s.low ∧ Delivers s' (bytes.drop taken.length) tail := by
  obtain ⟨chunks, nonempty, answers, spelled⟩ := delivers
  have fits : taken.length ≤ s.readBuffer.length := by simp [buffered]
  refine ⟨(readFromInternalBuffer s taken.length).2, ?_, ?_, rfl, chunks, nonempty, answers, ?_⟩
  · simp [mailstreamReadLenAppend, mailstreamRead_buffered fits, buffered]
  · simp [readFromInternalBuffer, buffered]
  · rw [← spelled, List.drop_append_of_le_length fits]
    rfl

theorem Delivers.feed {s : Mailstream} {bytes : List UInt8} {tail : List LowRead}
    (delivers : Delivers s bytes tail) (empty : s.readBuffer = []) (more : bytes ≠ []) :
    (mailstreamFeedReadBuffer s).1 ≠ none ∧ (mailstreamFeedReadBuffer s).1 ≠ some 0 ∧
      Delivers (mailstreamFeedReadBuffer s).2 bytes tail := by
  obtain ⟨chunks, nonempty, answers, spelled⟩ := delivers
  rw [empty, List.nil_append] at spelled
  cases chunks with
  | nil => exact absurd spelled.symm more
  | cons chunk chunks =>
      have chunkNonempty := nonempty chunk (by simp)
      have restNonempty : ∀ other ∈ chunks, other ≠ [] := fun other member => nonempty other (by simp [member])
      have positive := s.positive
      by_cases fits : chunk.length ≤ s.bufferMaxSize
      · have read : s.low.read s.bufferMaxSize =
            (some chunk, { s.low with reads := chunks.map LowRead.bytes ++ tail }) := by
          simp [MailstreamLow.read, answers, fits]
        obtain ⟨filled, buffer, below⟩ := fillReadBuffer_some read
        rw [mailstreamFeedReadBuffer_empty empty, filled, if_pos rfl]
        refine ⟨by simp, by simpa [buffer] using chunkNonempty, chunks, restNonempty, ?_, ?_⟩
        · rw [below]
        · rw [buffer, ← spelled, List.flatten_cons]
      · have read : s.low.read s.bufferMaxSize = (some (chunk.take s.bufferMaxSize),
            { s.low with reads := .bytes (chunk.drop s.bufferMaxSize) ::
                (chunks.map LowRead.bytes ++ tail) }) := by
          simp [MailstreamLow.read, answers, fits]
        obtain ⟨filled, buffer, below⟩ := fillReadBuffer_some read
        rw [mailstreamFeedReadBuffer_empty empty, filled, if_pos rfl]
        refine ⟨by simp, ?_, chunk.drop s.bufferMaxSize :: chunks, ?_, ?_, ?_⟩
        · simp [buffer, chunkNonempty]
          omega
        · intro other member
          rcases List.mem_cons.mp member with rfl | later
          · simpa using fits
          · exact restNonempty other later
        · rw [below]
          rfl
        · rw [buffer, ← spelled, List.flatten_cons, ← List.append_assoc, List.take_append_drop,
            List.flatten_cons]

theorem findIdx?_LF {content : List UInt8} (noLF : LF ∉ content) :
    content.findIdx? (· == LF) = none := by
  rw [List.findIdx?_eq_none_iff]
  intro byte member
  have different : byte ≠ LF := fun same => noLF (same ▸ member)
  simpa using different

theorem mailstreamReadLineAppend_found {s : Mailstream} {content later : List UInt8}
    (buffered : s.readBuffer = content ++ LF :: later) (noLF : LF ∉ content) (line : List UInt8) :
    mailstreamReadLineAppend s line = mailstreamReadLenAppend s line (content ++ [LF]).length := by
  have found : s.readBuffer.findIdx? (· == LF) = some content.length := by
    rw [buffered, List.findIdx?_append, findIdx?_LF noLF]
    simp [List.findIdx?_cons]
  rw [mailstreamReadLineAppend, if_pos (by simp [buffered]), found]
  simp

theorem mailstreamReadLineAppend_absent {s s' : Mailstream} {line line' : List UInt8}
    (nonempty : s.readBuffer ≠ []) (noLF : LF ∉ s.readBuffer)
    (read : mailstreamReadLenAppend s line s.readBuffer.length = (some line', s')) :
    mailstreamReadLineAppend s line = mailstreamReadLineAppend s' line' := by
  rw [mailstreamReadLineAppend, if_pos nonempty, findIdx?_LF noLF]
  simp only [read]

theorem mailstreamReadLineAppend_feed {s : Mailstream} (empty : s.readBuffer = [])
    (answered : (mailstreamFeedReadBuffer s).1 ≠ none) (more : (mailstreamFeedReadBuffer s).1 ≠ some 0)
    (line : List UInt8) :
    mailstreamReadLineAppend s line = mailstreamReadLineAppend (mailstreamFeedReadBuffer s).2 line := by
  rw [mailstreamReadLineAppend, if_neg (by simp [empty])]
  simp only [answered, more, if_false]

/-- A line is read whole, whatever the chunks it arrives in. -/
theorem mailstreamReadLineAppend_delivers {s : Mailstream} {content rest : List UInt8}
    {tail : List LowRead} (noLF : LF ∉ content) (delivers : Delivers s (content ++ LF :: rest) tail)
    (line : List UInt8) :
    ∃ s', mailstreamReadLineAppend s line = (some (line ++ content ++ [LF]), s') ∧
      Delivers s' rest tail := by
  generalize size : 2 * s.low.pending + (if s.readBuffer = [] then 0 else 1) = measure
  induction measure using Nat.strongRecOn generalizing s content line with
  | ind measure ih =>
      by_cases empty : s.readBuffer = []
      · obtain ⟨answered, more, fed⟩ := delivers.feed empty (by simp)
        have progress := mailstreamFeedReadBuffer_pending empty answered more
        rw [mailstreamReadLineAppend_feed empty answered more]
        refine ih _ ?_ noLF fed line rfl
        rw [if_pos empty] at size
        split <;> omega
      obtain ⟨chunks, -, -, spelled⟩ := id delivers
      have position : (∃ later, content = s.readBuffer ++ later) ∨
          ∃ later, s.readBuffer = content ++ LF :: later := by
        rcases List.append_eq_append_iff.mp spelled with ⟨later, whole, -⟩ | ⟨later, whole, more⟩
        · exact .inl ⟨later, whole⟩
        cases later with
        | nil => exact .inl ⟨[], by simpa using whole.symm⟩
        | cons first later =>
            rw [(List.cons.inj more).1]
            exact .inr ⟨later, whole⟩
      rcases position with ⟨later, rfl⟩ | ⟨later, whole⟩
      · -- the buffer ends inside the line: all of it is taken and the line goes on
        have bufferFree : LF ∉ s.readBuffer := fun member => noLF (by simp [member])
        have laterFree : LF ∉ later := fun member => noLF (by simp [member])
        obtain ⟨s', read, emptied, below, left⟩ :=
          delivers.readLenAppend (List.append_nil s.readBuffer).symm line
        rw [List.append_assoc, List.drop_left] at left
        have smaller : 2 * s'.low.pending + (if s'.readBuffer = [] then 0 else 1) < measure := by
          rw [emptied, below, if_pos rfl, ← size, if_neg empty]
          omega
        obtain ⟨s'', finished, delivers'⟩ := ih _ smaller laterFree left (line ++ s.readBuffer) rfl
        refine ⟨s'', ?_, delivers'⟩
        rw [mailstreamReadLineAppend_absent empty bufferFree read, finished]
        simp
      · have cut : s.readBuffer = (content ++ [LF]) ++ later := by simpa using whole
        obtain ⟨s', read, -, -, left⟩ := delivers.readLenAppend cut line
        refine ⟨s', ?_, ?_⟩
        · rw [mailstreamReadLineAppend_found whole noLF, read]
          simp
        · have remaining : (content ++ LF :: rest).drop (content ++ [LF]).length = rest := by simp
          rwa [remaining] at left

theorem removeTrailingEol_crlf (content : List UInt8) :
    removeTrailingEol (content ++ [CR, LF]) = content := by
  have withoutLF : dropLast? LF (content ++ [CR, LF]) = content ++ [CR] := by
    rw [show content ++ [CR, LF] = (content ++ [CR]) ++ [LF] by simp]
    simp [dropLast?]
  rw [removeTrailingEol, withoutLF]
  simp [dropLast?]

theorem mailstreamReadLineRemoveEol_delivers {s : Mailstream} {content rest : List UInt8}
    {tail : List LowRead} (free : BreakFree content)
    (delivers : Delivers s (content ++ CR :: LF :: rest) tail) :
    ∃ s', mailstreamReadLineRemoveEol s = (some content, s') ∧ Delivers s' rest tail := by
  have noLF : LF ∉ content ++ [CR] := by
    intro member
    rcases List.mem_append.mp member with inner | last
    · exact (free LF inner).2 rfl
    · simp at last
  have spelled : content ++ CR :: LF :: rest = (content ++ [CR]) ++ LF :: rest := by simp
  rw [spelled] at delivers
  obtain ⟨s', read, left⟩ := mailstreamReadLineAppend_delivers noLF delivers []
  refine ⟨s', ?_, left⟩
  have line : [] ++ (content ++ [CR]) ++ [LF] = content ++ [CR, LF] := by simp
  rw [mailstreamReadLineRemoveEol, mailstreamReadLine, read, line]
  simp [removeTrailingEol_crlf]

/-- A stuffed line is not the end of the data, and unstuffing gives the line. -/
theorem stuffLine_read (line : List UInt8) :
    stuffLine line ≠ [ascii '.'] ∧
      (if (stuffLine line).head? = some (ascii '.') then (stuffLine line).tail else stuffLine line) = line := by
  by_cases isDot : line.head? = some (ascii '.')
  · have nonempty : line ≠ [] := by
      rintro rfl
      simp at isDot
    simp [stuffLine, isDot, nonempty]
  · have stuffed : stuffLine line = line := by simp [stuffLine, isDot]
    rw [stuffed, if_neg isDot]
    refine ⟨?_, rfl⟩
    rintro rfl
    simp at isDot

theorem stuffLine_nulFree {line : List UInt8} (nulFree : NulFree line) : NulFree (stuffLine line) := by
  unfold stuffLine
  split
  · have dot : NulFree [ascii '.'] := by decide
    exact dot.append nulFree
  · exact nulFree

theorem readMultilineLoop_delivers {lines : List (List UInt8)} {extra : List UInt8} {tail : List LowRead}
    (free : ∀ line ∈ lines, BreakFree line ∧ NulFree line) {s : Mailstream}
    (delivers : Delivers s (joinLines (lines.map stuffLine ++ [[ascii '.']]) ++ extra) tail)
    (multiline : List UInt8) :
    ∃ s', Delivers s' extra tail ∧ ∀ turns, lines.length < turns →
      readMultilineLoop turns s multiline = some (some (multiline ++ joinLines lines), s') := by
  induction lines generalizing s multiline with
  | nil =>
      have terminator : BreakFree [ascii '.'] := by decide
      obtain ⟨s', read, left⟩ := mailstreamReadLineRemoveEol_delivers terminator delivers
      refine ⟨s', by simpa using left, ?_⟩
      rintro (_ | turns) enough
      · simp at enough
      · have ended : mailstreamIsEndMultiline [ascii '.'] = true := by decide
        simp [readMultilineLoop, read, ended]
  | cons line lines ih =>
      obtain ⟨lineFree, lineNul⟩ := free line (by simp)
      have spelled : joinLines ((line :: lines).map stuffLine ++ [[ascii '.']]) ++ extra =
          stuffLine line ++ CR :: LF :: (joinLines (lines.map stuffLine ++ [[ascii '.']]) ++ extra) := by
        simp
      rw [spelled] at delivers
      obtain ⟨s', read, left⟩ :=
        mailstreamReadLineRemoveEol_delivers (stuffLine_breakFree lineFree) delivers
      obtain ⟨s'', rest, finished⟩ := ih (fun other member => free other (by simp [member])) left
        (multiline ++ line ++ [CR, LF])
      refine ⟨s'', rest, ?_⟩
      rintro (_ | turns) enough
      · simp at enough
      · obtain ⟨goesOn, unstuffed⟩ := stuffLine_read line
        have string := cString_eq_self (stuffLine_nulFree lineNul)
        have notEnd : mailstreamIsEndMultiline (stuffLine line) = false := by
          simpa [mailstreamIsEndMultiline, string] using goesOn
        simp only [readMultilineLoop, read, notEnd, string, unstuffed, Bool.false_eq_true, if_false]
        rw [finished turns (by simpa using enough)]
        simp

/-- What `mailstream_send_data` wrote is read back with each break spelled CRLF, and
nothing behind the terminating line is consumed, however the octets arrive. -/
theorem mailstreamReadMultiline_sendData {σ : Type} (write : Write σ) (flush : σ → Int × σ) (sender : σ)
    {message : List UInt8} (nulFree : NulFree message)
    (sent : (mailstreamSendDataProgress write flush sender message).1 = 0)
    {reader : Mailstream} {extra : List UInt8} {tail : List LowRead}
    (delivers : Delivers reader ((mailstreamSendDataProgress (recording write) (recordingFlush flush)
      (sender, []) message).2.2 ++ extra) tail) :
    ∃ reader', Delivers reader' extra tail ∧ ∃ turns, ∀ more, turns ≤ more →
      mailstreamReadMultiline more reader = some (some (crlfBreaks message ++ [CR, LF]), reader') := by
  obtain ⟨⟨handed, rest, recorded, whole, -, complete⟩, -⟩ :=
    mailstreamSendDataProgress_handed write flush (sender, []) message
  have success : (mailstreamSendDataProgress (recording write) (recordingFlush flush)
      (sender, []) message).1 = 0 := by
    rw [← sent, ← mailstreamSendDataProgress_recording write flush (sender, []) message]
    rfl
  have nothing := complete (by rw [success]; decide)
  rw [nothing, List.append_nil] at whole
  rw [recorded, List.nil_append, whole] at delivers
  have lines : ∀ line ∈ splitLines message, BreakFree line ∧ NulFree line := fun line isLine =>
    ⟨splitLinesFrom_breakFree false message line isLine,
      fun byte member => nulFree byte (splitLinesFrom_subset isLine member)⟩
  obtain ⟨reader', left, finished⟩ := readMultilineLoop_delivers lines delivers []
  refine ⟨reader', left, (splitLines message).length + 1, fun more enough => ?_⟩
  have text : joinLines (splitLines message) = crlfBreaks message ++ [CR, LF] := by
    rw [splitLines, ← separateLines_append_crlf (splitLinesFrom_ne_nil false message),
      separateLines_splitLinesFrom, crlfBreaks]
  rw [mailstreamReadMultiline, finished more enough, List.nil_append, text]

/-- The message `.`, sent over a stream that takes everything and received one octet
at a time. -/
theorem mailstreamReadMultiline_sendData_dot :
    let write : Write Unit := fun s buf => (buf.length, s)
    let flush : Unit → Int × Unit := fun s => (0, s)
    let low : MailstreamLow :=
      { reads := (dotStuffed [ascii '.'] ++ [ascii '+']).map (fun byte => .bytes [byte]), writes := [] }
    let reader : Mailstream := ⟨[], [], 8192, low, by decide, by decide, by decide⟩
    (mailstreamSendDataProgress write flush () [ascii '.']).1 = 0 ∧
      ∃ reader', Delivers reader' [ascii '+'] [] ∧ ∃ turns, ∀ more, turns ≤ more →
        mailstreamReadMultiline more reader = some (some [ascii '.', CR, LF], reader') := by
  intro write flush low reader
  have scan : scanLine [ascii '.'] = (1, false) := by decide
  have sent : (mailstreamSendDataProgress write flush () [ascii '.']).1 = 0 := by
    simp [mailstreamSendDataProgress, sendDataCrlf, sendDataLine, scan, write, flush]
  refine ⟨sent, mailstreamReadMultiline_sendData write flush () (by decide) sent ?_⟩
  have record : (mailstreamSendDataProgress (recording write) (recordingFlush flush)
      ((), []) [ascii '.']).2.2 = dotStuffed [ascii '.'] := by
    simp [mailstreamSendDataProgress, sendDataCrlf, sendDataLine, scan, write, flush, recording,
      recordingFlush]
    decide
  rw [record]
  refine ⟨(dotStuffed [ascii '.'] ++ [ascii '+']).map (fun byte => [byte]), ?_, by simp [reader, low], by decide⟩
  intro chunk member
  obtain ⟨byte, -, rfl⟩ := List.mem_map.mp member
  simp

end Etpan.Stream
