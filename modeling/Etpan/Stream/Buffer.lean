import Etpan.Data.Bytes

namespace Etpan.Stream

open Etpan.Data

/-! Buffered streams, `data-types/mailstream.c`.

The low-level stream is code outside the library.  It is modelled by the answers
it will give: what each `mailstream_low_read` finds ready and what each
`mailstream_low_write` returns.  Once the read answers are used up every further
read returns 0, and once the write answers are used up every further write
returns -1, so a list of answers is one whole run of an arbitrary low-level
stream. -/

inductive LowRead where
  | error
  | bytes (chunk : List UInt8)
deriving Repr, DecidableEq

structure MailstreamLow where
  reads : List LowRead
  writes : List Int
  /-- What the peer has received so far. -/
  accepted : List UInt8 := []
deriving Repr, DecidableEq

/-- A read of at most `count` octets; `none` is the result -1.  A longer chunk
stays ready for the next read. -/
def MailstreamLow.read (low : MailstreamLow) (count : Nat) : Option (List UInt8) × MailstreamLow :=
  match low.reads with
  | [] => (some [], low)
  | .error :: rest => (none, { low with reads := rest })
  | .bytes chunk :: rest =>
      if chunk.length ≤ count then (some chunk, { low with reads := rest })
      else (some (chunk.take count), { low with reads := .bytes (chunk.drop count) :: rest })

/-- A write returns its next answer; a count in range is that many octets accepted. -/
def MailstreamLow.write (low : MailstreamLow) (buf : List UInt8) : Int × MailstreamLow :=
  match low.writes with
  | [] => (-1, low)
  | written :: rest =>
      if 0 < written ∧ written ≤ buf.length then
        (written, { low with writes := rest, accepted := low.accepted ++ buf.take written.toNat })
      else (written, { low with writes := rest })

theorem MailstreamLow.read_length {low low' : MailstreamLow} {count : Nat} {bytes : List UInt8}
    (read : low.read count = (some bytes, low')) : bytes.length ≤ count := by
  unfold MailstreamLow.read at read
  split at read
  · cases read
    simp
  · cases read
  · split at read <;> cases read
    · assumption
    · exact List.length_take_le _ _

/-- `mailstream`: the filled parts of its two buffers, their common capacity
(every caller of `mailstream_new` passes 8192) and the stream below. -/
structure Mailstream where
  readBuffer : List UInt8
  writeBuffer : List UInt8
  bufferMaxSize : Nat
  low : MailstreamLow
  positive : 0 < bufferMaxSize
  readFits : readBuffer.length ≤ bufferMaxSize
  writeFits : writeBuffer.length ≤ bufferMaxSize

theorem bufferSize_pos : 0 < 8192 := by decide

theorem nothing_fits : ([] : List UInt8).length ≤ 8192 := by decide

theorem Mailstream.empty_fits (s : Mailstream) : ([] : List UInt8).length ≤ s.bufferMaxSize := Nat.zero_le _

def maxZeroWrites : Nat := 16

/-- The loop shared by `mailstream_flush` and `write_direct`: the octets that were
not written, and whether the loop ran to its end.  The answers of the stream
below bound the number of turns. -/
def writeLoop : Nat → MailstreamLow → List UInt8 → Nat → List UInt8 × Bool × MailstreamLow
  | 0, low, buf, _ => (buf, buf = [], low)
  | turns + 1, low, buf, zeroWrites =>
      if buf = [] then ([], true, low)
      else
        let result := low.write buf
        if result.1 < 0 then (buf, false, result.2)
        else if result.1 = 0 then
          if maxZeroWrites ≤ zeroWrites + 1 then (buf, false, result.2)
          else writeLoop turns result.2 buf (zeroWrites + 1)
        else if buf.length < result.1 then (buf, false, result.2)
        else writeLoop turns result.2 (buf.drop result.1.toNat) 0

/-- One turn uses one answer, and a turn without an answer left is the last. -/
def MailstreamLow.turns (low : MailstreamLow) : Nat := low.writes.length + 1

theorem writeLoop_left_le (turns : Nat) (low : MailstreamLow) (buf : List UInt8) (zeroWrites : Nat) :
    (writeLoop turns low buf zeroWrites).1.length ≤ buf.length := by
  induction turns generalizing low buf zeroWrites with
  | zero => simp [writeLoop]
  | succ turns ih =>
      simp only [writeLoop]
      repeat' split
      all_goals first
        | exact Nat.le_refl _
        | simp
        | exact ih _ _ _
        | exact (ih _ _ _).trans (by simp)

def mailstreamFlush (s : Mailstream) : Int × Mailstream :=
  let loop := writeLoop s.low.turns s.low s.writeBuffer 0
  if loop.2.1 then
    (0, { s with writeBuffer := [], low := loop.2.2, writeFits := by simp })
  else
    (-1, { s with
      writeBuffer := loop.1
      low := loop.2.2
      writeFits := (writeLoop_left_le _ _ _ _).trans s.writeFits })

def writeDirect (s : Mailstream) (buf : List UInt8) : Int × Mailstream :=
  let loop := writeLoop s.low.turns s.low buf 0
  let s := { s with low := loop.2.2 }
  if loop.2.1 then (buf.length, s)
  else if buf.length = loop.1.length then (-1, s)
  else (buf.length - loop.1.length, s)

theorem mailstreamFlush_emptied {s : Mailstream} (flushed : (mailstreamFlush s).1 = 0) :
    (mailstreamFlush s).2.writeBuffer = [] := by
  unfold mailstreamFlush at flushed ⊢
  dsimp only at flushed ⊢
  split at flushed
  · next whole => rw [if_pos whole]
  · contradiction

theorem mailstreamFlush_bufferMaxSize (s : Mailstream) :
    (mailstreamFlush s).2.bufferMaxSize = s.bufferMaxSize := by
  unfold mailstreamFlush
  dsimp only
  split <;> rfl

def mailstreamWrite (s : Mailstream) (buf : List UInt8) : Int × Mailstream :=
  if fits : buf.length + s.writeBuffer.length ≤ s.bufferMaxSize then
    (buf.length, { s with
      writeBuffer := s.writeBuffer ++ buf
      writeFits := by rw [List.length_append]; omega })
  else if flushed : (mailstreamFlush s).1 = 0 then
    if small : buf.length ≤ s.bufferMaxSize then
      (buf.length, { (mailstreamFlush s).2 with
        writeBuffer := (mailstreamFlush s).2.writeBuffer ++ buf
        writeFits := by
          rw [mailstreamFlush_emptied flushed, mailstreamFlush_bufferMaxSize]
          simpa using small })
    else writeDirect (mailstreamFlush s).2 buf
  else (-1, (mailstreamFlush s).2)

def readFromInternalBuffer (s : Mailstream) (count : Nat) : List UInt8 × Mailstream :=
  (s.readBuffer.take count, { s with
    readBuffer := s.readBuffer.drop count
    readFits := by rw [List.length_drop]; exact (Nat.sub_le _ _).trans s.readFits })

/-- Refills the read buffer, which is empty at each of its two calls; `false` is an
error of the stream below. -/
def fillReadBuffer (s : Mailstream) : Bool × Mailstream :=
  match read : s.low.read s.bufferMaxSize with
  | (none, low) => (false, { s with low })
  | (some bytes, low) =>
      (true, { s with readBuffer := bytes, low, readFits := MailstreamLow.read_length read })

/-- `none` is the result -1; otherwise the octets stored at `buf`. -/
def mailstreamRead (s : Mailstream) (count : Nat) : Option (List UInt8) × Mailstream :=
  let buffered := readFromInternalBuffer s count
  let left := count - buffered.1.length
  let failed := if left = count then none else some buffered.1
  if left = 0 then (some buffered.1, buffered.2)
  else if s.bufferMaxSize < left then
    match buffered.2.low.read left with
    | (none, low) => (failed, { buffered.2 with low })
    | (some bytes, low) => (some (buffered.1 ++ bytes), { buffered.2 with low })
  else
    let filled := fillReadBuffer buffered.2
    if filled.1 then
      let more := readFromInternalBuffer filled.2 left
      (some (buffered.1 ++ more.1), more.2)
    else (failed, filled.2)

/-- `none` is the result -1; otherwise the length of the read buffer. -/
def mailstreamFeedReadBuffer (s : Mailstream) : Option Nat × Mailstream :=
  if s.readBuffer = [] then
    let filled := fillReadBuffer s
    if filled.1 then (some filled.2.readBuffer.length, filled.2) else (none, filled.2)
  else (some s.readBuffer.length, s)

end Etpan.Stream
