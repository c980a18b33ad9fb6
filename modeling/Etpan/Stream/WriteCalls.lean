import Etpan.Stream.DataSize

namespace Etpan.Stream

open Etpan.Data

/-! Runs of `mailstream_write` and `mailstream_flush`: what the stream below has
accepted and what the write buffer still holds. -/

theorem writeLoop_turns {turns : Nat} {low : MailstreamLow} (enough : low.turns ≤ turns)
    (buf : List UInt8) (zeroWrites : Nat) :
    writeLoop turns low buf zeroWrites = writeLoop low.turns low buf zeroWrites := by
  induction turns generalizing low buf zeroWrites with
  | zero => simp [MailstreamLow.turns] at enough
  | succ turns ih =>
      rw [MailstreamLow.turns]
      cases answers : low.writes with
      | nil => simp [writeLoop, MailstreamLow.write, answers]
      | cons answer rest =>
          have used : (low.write buf).2.turns = rest.length + 1 := by
            simp only [MailstreamLow.write, answers]
            split <;> rfl
          have fewer : (low.write buf).2.turns ≤ turns := by
            rw [MailstreamLow.turns, answers, List.length_cons] at enough
            omega
          simp only [writeLoop, List.length_cons, ih fewer, used]

theorem writeLoop_split (turns : Nat) (low : MailstreamLow) (buf : List UInt8) (zeroWrites : Nat) :
    ∃ written, buf = written ++ (writeLoop turns low buf zeroWrites).1 ∧
      (writeLoop turns low buf zeroWrites).2.2.accepted = low.accepted ++ written ∧
      ((writeLoop turns low buf zeroWrites).2.1 = true → (writeLoop turns low buf zeroWrites).1 = []) := by
  induction turns generalizing low buf zeroWrites with
  | zero => exact ⟨[], by simp [writeLoop], by simp [writeLoop], by simp [writeLoop]⟩
  | succ turns ih =>
      by_cases empty : buf = []
      · exact ⟨[], by simp [writeLoop, empty], by simp [writeLoop, empty], by simp [writeLoop, empty]⟩
      have refused : ∀ answer, (low.write buf).1 = answer → ¬(0 < answer ∧ answer ≤ buf.length) →
          (low.write buf).2.accepted = low.accepted := by
        intro answer answered outside
        unfold MailstreamLow.write at answered ⊢
        split
        · rfl
        · next written rest same =>
            rw [same] at answered
            dsimp only at answered
            split at answered
            · next inside =>
                subst answered
                exact absurd inside outside
            · next => rw [if_neg (by assumption)]
      have taken : ∀ answer, (low.write buf).1 = answer → 0 < answer ∧ answer ≤ buf.length →
          (low.write buf).2.accepted = low.accepted ++ buf.take answer.toNat := by
        intro answer answered inside
        unfold MailstreamLow.write at answered ⊢
        split
        · next same =>
            rw [same] at answered
            dsimp only at answered
            omega
        · next written rest same =>
            rw [same] at answered
            dsimp only at answered
            have given : written = answer := by
              split at answered <;> exact answered
            rw [given, if_pos inside]
      simp only [writeLoop, empty, if_false]
      by_cases negative : (low.write buf).1 < 0
      · exact ⟨[], by simp [negative], by simp [negative, refused _ rfl (by omega)], by simp [negative]⟩
      by_cases zero : (low.write buf).1 = 0
      · by_cases last : maxZeroWrites ≤ zeroWrites + 1
        · exact ⟨[], by simp [zero, last], by simp [zero, last, refused _ rfl (by omega)],
            by simp [zero, last]⟩
        · obtain ⟨written, whole, accepted, ended⟩ := ih (low.write buf).2 buf (zeroWrites + 1)
          rw [refused _ rfl (by omega)] at accepted
          simp only [zero, last, if_false, if_true, lt_irrefl]
          exact ⟨written, whole, accepted, ended⟩
      by_cases long : (buf.length : Int) < (low.write buf).1
      · exact ⟨[], by simp [negative, zero, long], by simp [negative, zero, long, refused _ rfl (by omega)],
          by simp [negative, zero, long]⟩
      · obtain ⟨written, whole, accepted, ended⟩ :=
          ih (low.write buf).2 (buf.drop (low.write buf).1.toNat) 0
        rw [taken _ rfl (by omega)] at accepted
        simp only [negative, zero, long, if_false]
        refine ⟨buf.take (low.write buf).1.toNat ++ written, ?_, ?_, ended⟩
        · rw [List.append_assoc, ← whole, List.take_append_drop]
        · rw [accepted, List.append_assoc]

def Mailstream.sent (s : Mailstream) : List UInt8 := s.low.accepted ++ s.writeBuffer

theorem mailstreamFlush_sent (s : Mailstream) : (mailstreamFlush s).2.sent = s.sent := by
  obtain ⟨written, whole, accepted, ended⟩ := writeLoop_split s.low.turns s.low s.writeBuffer 0
  unfold mailstreamFlush Mailstream.sent
  dsimp only
  split
  · next complete =>
      rw [ended complete, List.append_nil] at whole
      rw [accepted, ← whole, List.append_nil]
  · rw [accepted, List.append_assoc, ← whole]

theorem writeDirect_sent (s : Mailstream) (buf : List UInt8) (emptied : s.writeBuffer = []) :
    (writeDirect s buf).2.sent = s.sent ++ buf.take (writeDirect s buf).1.toNat ∧
      (writeDirect s buf).2.bufferMaxSize = s.bufferMaxSize := by
  obtain ⟨written, whole, accepted, ended⟩ := writeLoop_split s.low.turns s.low buf 0
  have lengths := congrArg List.length whole
  rw [List.length_append] at lengths
  unfold writeDirect Mailstream.sent
  dsimp only
  split
  · next complete =>
      rw [ended complete, List.append_nil] at whole
      simp [accepted, emptied, ← whole]
  · split
    · next nothing =>
        have none : written = [] := List.length_eq_zero_iff.mp (by omega)
        simp [accepted, emptied, none]
    · have count : ((buf.length : Int) - (writeLoop s.low.turns s.low buf 0).1.length).toNat =
          written.length := by omega
      have front : buf.take written.length = written := by
        conv_lhs => rw [whole]
        simp
      simp only [count, front, accepted, emptied, List.append_nil, and_self]

theorem mailstreamWrite_sent (s : Mailstream) (buf : List UInt8) :
    (mailstreamWrite s buf).2.sent = s.sent ++ buf.take (mailstreamWrite s buf).1.toNat ∧
      (mailstreamWrite s buf).2.bufferMaxSize = s.bufferMaxSize := by
  have flushSent := mailstreamFlush_sent s
  have flushSize := mailstreamFlush_bufferMaxSize s
  unfold mailstreamWrite
  split
  · simp [Mailstream.sent]
  · split
    · next flushed =>
        split
        · refine ⟨?_, flushSize⟩
          unfold Mailstream.sent at flushSent ⊢
          simp [← flushSent]
        · obtain ⟨sent, size⟩ := writeDirect_sent (mailstreamFlush s).2 buf (mailstreamFlush_emptied flushed)
          rw [← flushSent, ← flushSize]
          exact ⟨sent, size⟩
    · refine ⟨?_, flushSize⟩
      rw [flushSent]
      simp

inductive WriteCall where
  | write (buf : List UInt8)
  | flush
deriving Repr, DecidableEq

/-- The octets a call reports as accepted, and the stream after it. -/
def WriteCall.run (s : Mailstream) : WriteCall → List UInt8 × Mailstream
  | .write buf => (buf.take (mailstreamWrite s buf).1.toNat, (mailstreamWrite s buf).2)
  | .flush => ([], (mailstreamFlush s).2)

def runWriteCalls (s : Mailstream) : List WriteCall → List UInt8 × Mailstream
  | [] => ([], s)
  | call :: rest =>
      ((call.run s).1 ++ (runWriteCalls (call.run s).2 rest).1, (runWriteCalls (call.run s).2 rest).2)

theorem WriteCall.run_sent (s : Mailstream) (call : WriteCall) :
    (call.run s).2.sent = s.sent ++ (call.run s).1 ∧ (call.run s).2.bufferMaxSize = s.bufferMaxSize := by
  cases call with
  | write buf => exact mailstreamWrite_sent s buf
  | flush => exact ⟨by simp [run, mailstreamFlush_sent], mailstreamFlush_bufferMaxSize s⟩

/-- First in, first out: after any calls, in any order and with any answers of the
stream below, the octets it accepted and those in the write buffer are what the calls
reported as accepted, and the buffer stays within its size. -/
theorem runWriteCalls_fifo (s : Mailstream) (calls : List WriteCall) :
    let after := (runWriteCalls s calls).2
    after.low.accepted ++ after.writeBuffer =
        (s.low.accepted ++ s.writeBuffer) ++ (runWriteCalls s calls).1 ∧
      after.bufferMaxSize = s.bufferMaxSize ∧ after.writeBuffer.length ≤ s.bufferMaxSize := by
  induction calls generalizing s with
  | nil => exact ⟨by simp [runWriteCalls], rfl, s.writeFits⟩
  | cons call rest ih =>
      obtain ⟨sent, size⟩ := call.run_sent s
      obtain ⟨order, kept, bound⟩ := ih (call.run s).2
      unfold Mailstream.sent at sent
      rw [size] at kept bound
      refine ⟨?_, kept, bound⟩
      simp only [runWriteCalls]
      rw [order, sent, List.append_assoc]

def reporting {σ : Type} (write : Write σ) : Write (σ × List UInt8) :=
  fun s buf => ((write s.1 buf).1, (write s.1 buf).2, s.2 ++ buf.take (write s.1 buf).1.toNat)

def dotTerminator : List UInt8 := [CR, LF, ascii '.', CR, LF]

section Pieces

variable {σ : Type} (write : Write σ)

theorem sendDataProgress_eq_writeAll (flush : σ → Int × σ) (s : σ) (message : List UInt8) :
    mailstreamSendDataProgress write flush s message =
      let sent := writeAll write s (pieces true message ++ [dotTerminator])
      if sent.1 = -1 then (-1, sent.2)
      else if (flush sent.2).1 = -1 then (-1, (flush sent.2).2) else (0, (flush sent.2).2) := by
  rw [mailstreamSendDataProgress, sendDataCrlf_eq_writeAll, writeAll_append]
  by_cases body : (writeAll write s (pieces true message)).1 = -1
  · simp [body]
  · by_cases terminator : (write (writeAll write s (pieces true message)).2 dotTerminator).1 = -1
    · simp only [body, if_false, writeAll, terminator, if_true]
      rw [dotTerminator] at terminator
      simp only [terminator, if_true, dotTerminator]
    · simp only [body, if_false, writeAll, terminator]
      rw [dotTerminator] at terminator
      have carriedOn : ¬(0 : Int) = -1 := by decide
      simp only [terminator, carriedOn, if_false, dotTerminator]
      rfl

theorem writeAll_reporting (s : σ × List UInt8) (bufs : List (List UInt8)) :
    unrecorded (writeAll (reporting write) s bufs) = writeAll write s.1 bufs := by
  induction bufs generalizing s with
  | nil => rfl
  | cons piece rest ih =>
      simp only [writeAll, apply_ite unrecorded, ih]
      rfl

theorem writeAll_reported_le (s : σ × List UInt8) (bufs : List (List UInt8)) :
    (writeAll (reporting write) s bufs).2.2.length ≤ s.2.length + bufs.flatten.length := by
  induction bufs generalizing s with
  | nil => simp [writeAll]
  | cons piece rest ih =>
      have grown : (reporting write s piece).2.2.length ≤ s.2.length + piece.length := by
        simp [reporting]
      have tail := ih (reporting write s piece).2
      rw [List.flatten_cons, List.length_append]
      simp only [writeAll]
      split
      · dsimp only
        omega
      · omega

end Pieces

/-- A write no longer than the buffer never takes the direct path: it is all or nothing. -/
theorem mailstreamWrite_small {s : Mailstream} {buf : List UInt8} (small : buf.length ≤ s.bufferMaxSize) :
    (mailstreamWrite s buf).1 = buf.length ∨ (mailstreamWrite s buf).1 = -1 := by
  unfold mailstreamWrite
  split
  · exact .inl rfl
  · split
    · exact .inl rfl
    · exact .inr rfl

theorem writeAll_small {s : Mailstream} {bufs : List (List UInt8)}
    (small : ∀ piece ∈ bufs, piece.length ≤ s.bufferMaxSize) (reported : List UInt8)
    (success : (writeAll (reporting mailstreamWrite) (s, reported) bufs).1 = 0) :
    (writeAll (reporting mailstreamWrite) (s, reported) bufs).2.2 = reported ++ bufs.flatten := by
  induction bufs generalizing s reported with
  | nil => simp [writeAll]
  | cons piece rest ih =>
      have size := (mailstreamWrite_sent s piece).2
      rw [← size] at small
      by_cases failed : (mailstreamWrite s piece).1 = -1
      · simp [writeAll, reporting, failed] at success
      have all : (mailstreamWrite s piece).1 = piece.length := by
        rcases mailstreamWrite_small (size ▸ small piece (by simp)) with all | none
        · exact all
        · exact absurd none failed
      have first : (reporting mailstreamWrite (s, reported) piece).1 ≠ -1 := failed
      have step : (reporting mailstreamWrite (s, reported) piece).2 =
          ((mailstreamWrite s piece).2, reported ++ piece) := by
        simp [reporting, all]
      rw [writeAll, if_neg first, step] at success ⊢
      rw [ih (fun other member => small other (by simp [member])) _ success]
      simp

def Mailstream.withWrites (s : Mailstream) (writes : List Int) : Mailstream :=
  { s with low := { s.low with writes } }

theorem writeLoop_ones (turns : Nat) (low : MailstreamLow) (buf : List UInt8) {rest : List Int}
    (answers : low.writes = List.replicate buf.length 1 ++ rest)
    (enough : buf.length < turns) (zeroWrites : Nat) :
    writeLoop turns low buf zeroWrites =
      ([], true, { low with writes := rest, accepted := low.accepted ++ buf }) := by
  induction buf generalizing low turns zeroWrites with
  | nil =>
      obtain ⟨turns, rfl⟩ := Nat.exists_eq_succ_of_ne_zero (Nat.ne_of_gt enough)
      rw [List.length_nil, List.replicate_zero, List.nil_append] at answers
      simp [writeLoop, ← answers]
  | cons byte buf ih =>
      obtain ⟨turns, rfl⟩ := Nat.exists_eq_succ_of_ne_zero (Nat.ne_of_gt (Nat.zero_lt_of_lt enough))
      have answer : low.write (byte :: buf) = (1, { low with
          writes := List.replicate buf.length 1 ++ rest, accepted := low.accepted ++ [byte] }) := by
        simp [MailstreamLow.write, answers, List.replicate_succ]
      have tail := ih turns { low with
          writes := List.replicate buf.length 1 ++ rest, accepted := low.accepted ++ [byte] }
        rfl (Nat.lt_of_succ_lt_succ enough) 0
      have within : ¬((byte :: buf).length : Int) < 1 := by
        rw [List.length_cons]
        omega
      simp only [writeLoop, answer, within, if_false]
      simpa using tail

def Mailstream.flushed (s : Mailstream) : Mailstream :=
  { s with writeBuffer := [], low := { s.low with accepted := s.sent }, writeFits := s.empty_fits }

theorem mailstreamFlush_ones (s : Mailstream) (rest : List Int) :
    mailstreamFlush (s.withWrites (List.replicate s.writeBuffer.length 1 ++ rest)) =
      (0, s.flushed.withWrites rest) := by
  have enough : s.writeBuffer.length <
      (s.withWrites (List.replicate s.writeBuffer.length 1 ++ rest)).low.turns := by
    simp [MailstreamLow.turns, Mailstream.withWrites]
  have loop := writeLoop_ones _ (s.withWrites (List.replicate s.writeBuffer.length 1 ++ rest)).low
    s.writeBuffer rfl enough 0
  have buffer : (s.withWrites (List.replicate s.writeBuffer.length 1 ++ rest)).writeBuffer = s.writeBuffer := rfl
  simp only [mailstreamFlush, buffer, loop, if_true]
  rfl

/-- With an octet accepted at a time, a write takes everything. -/
theorem mailstreamWrite_ones (s : Mailstream) (buf : List UInt8) :
    ∃ count after, ∀ rest, mailstreamWrite (s.withWrites (List.replicate count 1 ++ rest)) buf =
      ((buf.length : Int), Mailstream.withWrites after rest) := by
  by_cases fits : buf.length + s.writeBuffer.length ≤ s.bufferMaxSize
  · refine ⟨0, { s with
      writeBuffer := s.writeBuffer ++ buf
      writeFits := by rw [List.length_append]; omega }, fun rest => ?_⟩
    rw [List.replicate_zero, List.nil_append, mailstreamWrite, dif_pos (show _ by exact fits)]
    rfl
  by_cases small : buf.length ≤ s.bufferMaxSize
  · refine ⟨s.writeBuffer.length, { s.flushed with
      writeBuffer := buf
      writeFits := small }, fun rest => ?_⟩
    have flush := mailstreamFlush_ones s rest
    rw [mailstreamWrite, dif_neg (show _ by exact fits), dif_pos (by rw [flush])]
    rw [dif_pos (show _ by exact small)]
    simp only [flush]
    rfl
  · refine ⟨s.writeBuffer.length + buf.length, { s.flushed with
      low := { s.low with accepted := s.sent ++ buf } }, fun rest => ?_⟩
    have flush := mailstreamFlush_ones s (List.replicate buf.length 1 ++ rest)
    rw [List.replicate_add, List.append_assoc, mailstreamWrite, dif_neg (show _ by exact fits),
      dif_pos (by rw [flush]), dif_neg (show _ by exact small), flush]
    have enough : buf.length <
        (s.flushed.withWrites (List.replicate buf.length 1 ++ rest)).low.turns := by
      simp [MailstreamLow.turns, Mailstream.withWrites]
    have loop := writeLoop_ones _ (s.flushed.withWrites (List.replicate buf.length 1 ++ rest)).low
      buf rfl enough 0
    simp only [writeDirect, loop, if_true]
    rfl

theorem writeAll_ones (s : Mailstream) (bufs : List (List UInt8)) :
    ∃ count after, ∀ rest, writeAll mailstreamWrite (s.withWrites (List.replicate count 1 ++ rest)) bufs =
      (0, Mailstream.withWrites after rest) := by
  induction bufs generalizing s with
  | nil => exact ⟨0, s, fun rest => rfl⟩
  | cons piece bufs ih =>
      obtain ⟨first, middle, written⟩ := mailstreamWrite_ones s piece
      obtain ⟨second, after, finished⟩ := ih middle
      refine ⟨first + second, after, fun rest => ?_⟩
      have taken : ¬(piece.length : Int) = -1 := by omega
      rw [List.replicate_add, List.append_assoc, writeAll, written, if_neg taken, finished]

/-- The stream below takes one octet of a long write and then fails: the write reports
one octet and no error. -/
theorem mailstreamWrite_short (s : Mailstream) {buf : List UInt8} (long : s.bufferMaxSize < buf.length) :
    ∃ after, ∀ rest,
      mailstreamWrite (s.withWrites (List.replicate s.writeBuffer.length 1 ++ (1 :: -1 :: rest))) buf =
        (1, Mailstream.withWrites after rest) := by
  have positive := s.positive
  have overfull : ¬buf.length + s.writeBuffer.length ≤ s.bufferMaxSize := by omega
  have notSmall : ¬buf.length ≤ s.bufferMaxSize := by omega
  obtain ⟨byte, more, rfl⟩ := List.exists_cons_of_length_pos (Nat.zero_lt_of_lt long)
  refine ⟨{ s.flushed with low := { s.low with accepted := s.sent ++ [byte] } }, fun rest => ?_⟩
  have flush := mailstreamFlush_ones s (1 :: -1 :: rest)
  rw [mailstreamWrite, dif_neg (show _ by exact overfull), dif_pos (by rw [flush]),
    dif_neg (show _ by exact notSmall), flush]
  have nonempty : more ≠ [] := by
    intro empty
    rw [empty, List.length_singleton] at long
    omega
  have loop : writeLoop (s.flushed.withWrites (1 :: -1 :: rest)).low.turns
      (s.flushed.withWrites (1 :: -1 :: rest)).low (byte :: more) 0 =
        (more, false, { s.low with writes := rest, accepted := s.sent ++ [byte] }) := by
    have turns : (s.flushed.withWrites (1 :: -1 :: rest)).low.turns = rest.length + 1 + 1 + 1 := rfl
    have below : (s.flushed.withWrites (1 :: -1 :: rest)).low =
        { s.low with writes := 1 :: -1 :: rest, accepted := s.sent } := rfl
    rw [turns, below]
    simp [writeLoop, MailstreamLow.write, nonempty]
  have partly : ¬(byte :: more).length = more.length := by simp
  simp only [writeDirect, loop, partly, Bool.false_eq_true, if_false]
  refine Prod.ext ?_ rfl
  simp

theorem writeAll_bufferMaxSize (s : Mailstream) (bufs : List (List UInt8)) :
    (writeAll mailstreamWrite s bufs).2.bufferMaxSize = s.bufferMaxSize := by
  induction bufs generalizing s with
  | nil => rfl
  | cons piece rest ih =>
      have size := (mailstreamWrite_sent s piece).2
      simp only [writeAll]
      split
      · exact size
      · rw [ih, size]

/-- A piece longer than the buffer can be lost behind a success. -/
theorem writeAll_lost (s : Mailstream) {bufs : List (List UInt8)} {long : List UInt8}
    (member : long ∈ bufs) (tooLong : s.bufferMaxSize < long.length) :
    ∃ writes after, ∀ rest,
      writeAll mailstreamWrite (s.withWrites (writes ++ rest)) bufs = (0, Mailstream.withWrites after rest) ∧
      (writeAll (reporting mailstreamWrite) (s.withWrites (writes ++ rest), []) bufs).2.2.length <
        bufs.flatten.length := by
  obtain ⟨before, later, rfl⟩ := List.append_of_mem member
  obtain ⟨first, middle, reached⟩ := writeAll_ones s before
  have size : middle.bufferMaxSize = s.bufferMaxSize := by
    have kept := writeAll_bufferMaxSize (s.withWrites (List.replicate first 1 ++ [])) before
    rw [reached] at kept
    exact kept
  rw [← size] at tooLong
  have positive := middle.positive
  obtain ⟨cut, lost⟩ := mailstreamWrite_short middle tooLong
  generalize middle.writeBuffer.length = second at lost
  obtain ⟨third, after, finished⟩ := writeAll_ones cut later
  refine ⟨List.replicate first 1 ++ (List.replicate second 1 ++ (1 :: -1 :: List.replicate third 1)), after,
    fun rest => ?_⟩
  have answers : List.replicate first 1 ++ (List.replicate second 1 ++ (1 :: -1 :: List.replicate third 1)) ++
      rest = List.replicate first (1 : Int) ++
        (List.replicate second 1 ++ (1 :: -1 :: (List.replicate third 1 ++ rest))) := by simp
  rw [answers]
  have carriedOn : ¬(0 : Int) = -1 := by decide
  have taken : ¬(1 : Int) = -1 := by decide
  refine ⟨?_, ?_⟩
  · rw [writeAll_append, reached, if_neg carriedOn, writeAll, lost, if_neg taken, finished]
  · have front := writeAll_reporting mailstreamWrite
      (s.withWrites (List.replicate first 1 ++
        (List.replicate second 1 ++ (1 :: -1 :: (List.replicate third 1 ++ rest)))), []) before
    have bound := writeAll_reported_le mailstreamWrite
      (s.withWrites (List.replicate first 1 ++
        (List.replicate second 1 ++ (1 :: -1 :: (List.replicate third 1 ++ rest)))), []) before
    dsimp only at front
    rw [reached] at front
    rw [writeAll_append]
    generalize writeAll (reporting mailstreamWrite) (s.withWrites (List.replicate first 1 ++
      (List.replicate second 1 ++ (1 :: -1 :: (List.replicate third 1 ++ rest)))), []) before = run
      at front bound ⊢
    obtain ⟨result, state, reported⟩ := run
    obtain ⟨rfl, rfl⟩ := Prod.mk.inj front
    have step : reporting mailstreamWrite (middle.withWrites (List.replicate second 1 ++
        (1 :: -1 :: (List.replicate third 1 ++ rest))), reported) long =
          (1, cut.withWrites (List.replicate third 1 ++ rest), reported ++ long.take 1) := by
      simp [reporting, lost]
    rw [if_neg carriedOn, writeAll, step, if_neg taken]
    have tail := writeAll_reported_le mailstreamWrite
      (cut.withWrites (List.replicate third 1 ++ rest), reported ++ long.take 1) later
    simp only [List.length_append, List.length_take, List.length_nil, List.flatten_append,
      List.flatten_cons] at tail bound ⊢
    omega

theorem crlfBreaks_line {message content rest : List UInt8}
    (lines : splitLines message = content :: splitLines rest) :
    crlfBreaks message = content ++ CR :: LF :: crlfBreaks rest := by
  have nonempty : splitLinesFrom false rest ≠ [] := splitLinesFrom_ne_nil false rest
  unfold splitLines at lines
  rw [crlfBreaks, ← separateLines_splitLinesFrom, lines, separateLines_cons nonempty,
    separateLines_splitLinesFrom, crlfBreaks]

theorem pieces_plain (message : List UInt8) : (pieces false message).flatten = crlfBreaks message := by
  generalize size : message.length = count
  induction count using Nat.strongRecOn generalizing message with
  | ind count ih =>
      rw [pieces]
      by_cases nonempty : message = []
      · simp [nonempty, crlfBreaks, crlfBreaksFrom]
      rw [if_neg nonempty]
      obtain ⟨content, free, shape⟩ := scanLine_spec message
      rcases shape with ⟨whole, scan⟩ | ⟨rest, whole, scan, lines⟩ | ⟨byte, rest, -, whole, scan, lines⟩
      · have single : crlfBreaks message = content := by
          rw [crlfBreaks, ← separateLines_splitLinesFrom, whole, splitLinesFrom_of_breakFree free]
          rfl
        rw [linePieces, scan, single, whole]
        simp [pieces]
      · have tail := ih rest.length (by rw [← size, whole]; simp; omega) rest rfl
        have kept : content.take (content.length + 2) = content := List.take_of_length_le (by omega)
        have gone : content.drop (content.length + 2) = [] := List.drop_of_length_le (by omega)
        rw [linePieces, scan, crlfBreaks_line lines, ← tail, whole]
        simp [List.take_append, List.drop_append, kept, gone]
      · have tail := ih rest.length (by rw [← size, whole]; simp; omega) rest rfl
        have gone : content.drop (content.length + 1) = [] := List.drop_of_length_le (by omega)
        rw [linePieces, scan, crlfBreaks_line lines, ← tail, whole]
        simp [List.drop_append, gone]

theorem pieces_stuffed (message : List UInt8) : (pieces true message).flatten = stuffedBody message := by
  -- a stream that takes everything is handed both
  have complete : (writeAll (recording (fun (s : Unit) buf => ((buf.length : Int), s))) ((), [])
      (pieces true message)).1 = 0 :=
    writeAll_success _ (fun s buf => by simp [recording]) _ _
  obtain ⟨front, -, recorded, whole⟩ :=
    writeAll_handed (fun (s : Unit) buf => ((buf.length : Int), s)) ((), []) (pieces true message)
  obtain ⟨⟨sent, rest, handed, stuffed, -, all⟩, -⟩ :=
    sendDataCrlf_handed (fun (s : Unit) buf => ((buf.length : Int), s)) ((), []) message
  rw [sendDataCrlf_eq_writeAll] at handed all
  have nothing := all (by rw [complete]; decide)
  rw [recorded, whole complete] at handed
  simp only [List.nil_append] at handed
  rw [handed, ← stuffed, nothing, List.append_nil]

/-- The call returned 0 and `encoded` was reported as accepted, or it returned -1. -/
def SentOrFailed (run : Int × Mailstream × List UInt8) (encoded : List UInt8) : Prop :=
  run.1 = 0 ∧ run.2.2 = encoded ∨ run.1 = -1

theorem writeAll_sentOrFailed (s : Mailstream) (bufs : List (List UInt8)) :
    (∀ writes, SentOrFailed (writeAll (reporting mailstreamWrite) (s.withWrites writes, []) bufs)
        bufs.flatten) ↔
      ∀ piece ∈ bufs, piece.length ≤ s.bufferMaxSize := by
  constructor
  · intro holds piece member
    by_contra tooLong
    obtain ⟨writes, after, lost⟩ := writeAll_lost s member (Nat.lt_of_not_le tooLong)
    obtain ⟨success, short⟩ := lost []
    have same := writeAll_reporting mailstreamWrite (s.withWrites (writes ++ []), []) bufs
    dsimp only at same
    rw [success] at same
    rcases holds (writes ++ []) with ⟨-, everything⟩ | failed
    · rw [everything] at short
      exact Nat.lt_irrefl _ short
    · have result : (writeAll (reporting mailstreamWrite) (s.withWrites (writes ++ []), []) bufs).1 = 0 :=
        congrArg Prod.fst same
      rw [failed] at result
      contradiction
  · intro small writes
    rcases writeAll_result (reporting mailstreamWrite) (s.withWrites writes, []) bufs with success | failed
    · have accepted := writeAll_small (s := s.withWrites writes) small [] success
      exact .inl ⟨success, by simpa using accepted⟩
    · exact .inr failed

theorem sendDataProgress_sentOrFailed (s : Mailstream) (message : List UInt8) :
    (∀ writes, SentOrFailed (mailstreamSendDataProgress (reporting mailstreamWrite)
        (recordingFlush mailstreamFlush) (s.withWrites writes, []) message) (dotStuffed message)) ↔
      ∀ piece ∈ pieces true message ++ [dotTerminator], piece.length ≤ s.bufferMaxSize := by
  have encoded : (pieces true message ++ [dotTerminator]).flatten = dotStuffed message := by
    rw [← stuffedBody_append, ← pieces_stuffed]
    simp [dotTerminator]
  constructor
  · intro holds piece member
    by_contra tooLong
    obtain ⟨writes, after, lost⟩ := writeAll_lost s member (Nat.lt_of_not_le tooLong)
    obtain ⟨success, short⟩ := lost (List.replicate after.writeBuffer.length 1 ++ [])
    have outcome := holds (writes ++ (List.replicate after.writeBuffer.length 1 ++ []))
    have same := writeAll_reporting mailstreamWrite
      (s.withWrites (writes ++ (List.replicate after.writeBuffer.length 1 ++ [])), [])
      (pieces true message ++ [dotTerminator])
    dsimp only at same
    rw [success] at same
    rw [sendDataProgress_eq_writeAll, ← encoded] at outcome
    generalize writeAll (reporting mailstreamWrite)
      (s.withWrites (writes ++ (List.replicate after.writeBuffer.length 1 ++ [])), [])
      (pieces true message ++ [dotTerminator]) = run at same short outcome
    obtain ⟨result, state, reported⟩ := run
    obtain ⟨rfl, rfl⟩ := Prod.mk.inj same
    have flush := mailstreamFlush_ones after []
    have flushed : (recordingFlush mailstreamFlush
        (after.withWrites (List.replicate after.writeBuffer.length 1 ++ []), reported)) =
          (0, after.flushed.withWrites [], reported) := by
      simp only [recordingFlush, flush]
    have carriedOn : ¬(0 : Int) = -1 := by decide
    simp only [carriedOn, if_false, flushed] at outcome
    rcases outcome with ⟨-, everything⟩ | failed
    · dsimp only at everything short
      rw [everything] at short
      exact Nat.lt_irrefl _ short
    · contradiction
  · intro small writes
    have sent := (writeAll_sentOrFailed s (pieces true message ++ [dotTerminator])).mpr small writes
    rw [sendDataProgress_eq_writeAll, ← encoded]
    generalize writeAll (reporting mailstreamWrite) (s.withWrites writes, [])
      (pieces true message ++ [dotTerminator]) = run at sent ⊢
    rcases sent with ⟨success, everything⟩ | failed
    · have carriedOn : ¬run.1 = -1 := by
        rw [success]
        decide
      simp only [carriedOn, if_false]
      split
      · exact .inr rfl
      · exact .inl ⟨rfl, everything⟩
    · simp only [failed, if_true]
      exact .inr rfl

/-- Success means that everything was accepted, whatever the stream below answers, if and
only if no single write is longer than the buffer: a longer one goes to the stream below
directly, and its short count is taken for a success. -/
theorem mailstreamSendData_allAccepted (s : Mailstream) (message : List UInt8) :
    ((∀ writes, SentOrFailed (mailstreamSendDataProgress (reporting mailstreamWrite)
          (recordingFlush mailstreamFlush) (s.withWrites writes, []) message) (dotStuffed message)) ↔
        ∀ piece ∈ pieces true message ++ [dotTerminator], piece.length ≤ s.bufferMaxSize) ∧
      ((∀ writes, SentOrFailed (mailstreamSendDataCrlf (reporting mailstreamWrite)
          (s.withWrites writes, []) message) (crlfBreaks message)) ↔
        ∀ piece ∈ pieces false message, piece.length ≤ s.bufferMaxSize) := by
  refine ⟨sendDataProgress_sentOrFailed s message, ?_⟩
  rw [← writeAll_sentOrFailed, pieces_plain]
  simp only [mailstreamSendDataCrlf, sendDataCrlf_eq_writeAll]

theorem pieces_breakFree {content : List UInt8} (free : BreakFree content) (nonempty : content ≠ []) :
    pieces false content = [content] := by
  have scan : scanLine content = (content.length, false) := by
    clear nonempty
    induction content with
    | nil => rfl
    | cons byte rest ih =>
        obtain ⟨notCR, notLF⟩ := free byte (by simp)
        have tail := ih fun other member => free other (by simp [member])
        simp [scanLine, notCR, notLF, tail]
  rw [pieces, if_neg nonempty, linePieces, scan]
  simp [pieces]

/-- A single line longer than the buffer, on a stream with an empty buffer whose stream
below takes one octet and then fails: the call succeeds with one octet accepted. -/
theorem sendDataCrlf_shortWrite {s : Mailstream} {content : List UInt8} (empty : s.writeBuffer = [])
    (free : BreakFree content) (long : s.bufferMaxSize < content.length) :
    (mailstreamSendDataCrlf (reporting mailstreamWrite) (s.withWrites [1, -1], []) content).1 = 0 ∧
      (mailstreamSendDataCrlf (reporting mailstreamWrite) (s.withWrites [1, -1], []) content).2.2 =
        content.take 1 := by
  have nonempty : content ≠ [] := List.ne_nil_of_length_pos (Nat.zero_lt_of_lt long)
  obtain ⟨after, lost⟩ := mailstreamWrite_short s long
  have short := lost []
  rw [empty, List.length_nil, List.replicate_zero, List.nil_append] at short
  have taken : ¬(1 : Int) = -1 := by decide
  simp only [mailstreamSendDataCrlf, sendDataCrlf_eq_writeAll, pieces_breakFree free nonempty, writeAll,
    reporting, short, taken, if_false, true_and]
  rfl

/-- 8193 octets and the library's buffer size. -/
theorem mailstreamSendDataCrlf_loses :
    let low : MailstreamLow := { reads := [], writes := [1, -1] }
    let s : Mailstream := ⟨[], [], 8192, low, by decide, by decide, by decide⟩
    let message := List.replicate 8193 (ascii 'a')
    let run := mailstreamSendDataCrlf (reporting mailstreamWrite) (s, []) message
    run.1 = 0 ∧ run.2.2.length = 1 ∧ ¬SentOrFailed run (crlfBreaks message) := by
  intro low s message run
  have count : message.length = 8193 := List.length_replicate
  have long : s.bufferMaxSize < message.length := by
    rw [count]
    decide
  have free : BreakFree message := by
    intro byte member
    rw [List.eq_of_mem_replicate member]
    decide
  obtain ⟨success, reported⟩ := sendDataCrlf_shortWrite (s := s) rfl free long
  have single : run.2.2.length = 1 := by
    rw [show run.2.2 = message.take 1 from reported, List.length_take, count]
    rfl
  refine ⟨success, single, ?_⟩
  intro outcome
  rcases outcome with ⟨-, everything⟩ | failed
  · rw [everything, ← pieces_plain,
      pieces_breakFree free (List.ne_nil_of_length_pos (Nat.zero_lt_of_lt long)), List.flatten_singleton,
      count] at single
    exact absurd single (by decide)
  · rw [show run.1 = 0 from success] at failed
    exact absurd failed (by decide)

end Etpan.Stream
