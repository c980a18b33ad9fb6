import Etpan.Stream.ReadLine

namespace Etpan.Stream

open Etpan.Data

/-! Runs of `mailstream_read`, the line readers and `mailstream_feed_read_buffer` over
one buffer, however the stream below cuts what it delivers. -/

def MailstreamLow.undelivered (low : MailstreamLow) : List UInt8 :=
  (low.reads.map fun answer => match answer with
    | .error => []
    | .bytes chunk => chunk).flatten

def MailstreamLow.Steady (low : MailstreamLow) : Prop :=
  ∀ answer ∈ low.reads, answer ≠ .error

def MailstreamLow.Whole (low : MailstreamLow) : Prop :=
  ∀ answer ∈ low.reads, answer ≠ .error ∧ answer ≠ .bytes []

theorem MailstreamLow.Whole.steady {low : MailstreamLow} (whole : low.Whole) : low.Steady :=
  fun answer member => (whole answer member).1

def Mailstream.incoming (s : Mailstream) : List UInt8 := s.readBuffer ++ s.low.undelivered

/-- One answer of the stream below moves a front of the undelivered octets; between two
ends of file it is not empty. -/
theorem MailstreamLow.read_delivers {low : MailstreamLow} (steady : low.Steady) (count : Nat) :
    ∃ bytes low', low.read count = (some bytes, low') ∧ bytes ++ low'.undelivered = low.undelivered ∧
      low'.Steady ∧
      (low.Whole → low'.Whole ∧ (0 < count → low.undelivered ≠ [] → bytes ≠ [])) := by
  unfold MailstreamLow.read
  split
  · next answers => exact ⟨[], low, rfl, rfl, steady, fun whole => ⟨whole, by simp [undelivered, answers]⟩⟩
  · next rest answers => exact absurd rfl (steady .error (by simp [answers]))
  · next chunk rest answers =>
      have restSteady : ∀ answer ∈ rest, answer ≠ .error := fun answer member =>
        steady answer (by simp [answers, member])
      by_cases fits : chunk.length ≤ count
      · rw [if_pos fits]
        refine ⟨chunk, _, rfl, by simp [undelivered, answers], restSteady, fun whole => ⟨?_, ?_⟩⟩
        · exact fun answer member => whole answer (by simp [answers, member])
        · rintro - - rfl
          exact (whole (.bytes []) (by simp [answers])).2 rfl
      · rw [if_neg fits]
        refine ⟨chunk.take count, _, rfl, by simp [undelivered, answers, ← List.append_assoc], ?_,
          fun whole => ⟨?_, ?_⟩⟩
        · intro answer member
          rcases List.mem_cons.mp member with rfl | later
          · simp
          · exact restSteady answer later
        · intro answer member
          rcases List.mem_cons.mp member with rfl | later
          · simpa using fits
          · exact whole answer (by simp [answers, later])
        · intro positive _ nothing
          rw [List.take_eq_nil_iff] at nothing
          rcases nothing with zero | empty
          · omega
          · simp [empty] at fits

/-- What every reader keeps: it takes `bytes` off the front of what is to come. -/
structure Reads (s : Mailstream) (bytes : List UInt8) (after : Mailstream) : Prop where
  order : bytes ++ after.incoming = s.incoming
  steady : after.low.Steady
  whole : s.low.Whole → after.low.Whole

theorem Reads.trans {s middle after : Mailstream} {first second : List UInt8}
    (before : Reads s first middle) (later : Reads middle second after) :
    Reads s (first ++ second) after :=
  ⟨by rw [List.append_assoc, later.order, before.order], later.steady,
    fun whole => later.whole (before.whole whole)⟩

theorem readFromInternalBuffer_reads {s : Mailstream} (steady : s.low.Steady) (count : Nat) :
    Reads s (readFromInternalBuffer s count).1 (readFromInternalBuffer s count).2 :=
  ⟨by simp [readFromInternalBuffer, Mailstream.incoming, ← List.append_assoc], steady, id⟩

theorem fillReadBuffer_reads {s : Mailstream} (steady : s.low.Steady) (empty : s.readBuffer = []) :
    (fillReadBuffer s).1 = true ∧ Reads s [] (fillReadBuffer s).2 ∧
      (s.low.Whole → s.incoming ≠ [] → (fillReadBuffer s).2.readBuffer ≠ []) := by
  obtain ⟨bytes, low, read, order, stillSteady, onWhole⟩ := MailstreamLow.read_delivers steady s.bufferMaxSize
  obtain ⟨filled, buffer, below⟩ := fillReadBuffer_some read
  have incoming : s.incoming = s.low.undelivered := by rw [Mailstream.incoming, empty, List.nil_append]
  refine ⟨filled, ⟨?_, ?_, ?_⟩, ?_⟩
  · rw [incoming, ← order, Mailstream.incoming, buffer, below, List.nil_append]
  · rw [below]
    exact stillSteady
  · rw [below]
    exact fun whole => (onWhole whole).1
  · rw [incoming, buffer]
    exact fun whole => (onWhole whole).2 s.positive

theorem readFromInternalBuffer_short {s : Mailstream} {count : Nat}
    (short : count - (readFromInternalBuffer s count).1.length ≠ 0) :
    (readFromInternalBuffer s count).2.readBuffer = [] ∧
      (readFromInternalBuffer s count).1 = s.readBuffer := by
  simp only [readFromInternalBuffer, List.length_take] at short ⊢
  have less : s.readBuffer.length ≤ count := by omega
  exact ⟨List.drop_of_length_le less, List.take_of_length_le less⟩

/-- A read gives at most `count` octets, and some of them unless there are none. -/
theorem mailstreamRead_reads {s : Mailstream} (steady : s.low.Steady) (count : Nat) :
    ∃ bytes, (mailstreamRead s count).1 = some bytes ∧ Reads s bytes (mailstreamRead s count).2 ∧
      bytes.length ≤ count ∧ (s.low.Whole → 0 < count → s.incoming ≠ [] → bytes ≠ []) := by
  have buffered := readFromInternalBuffer_reads steady count
  have length : (readFromInternalBuffer s count).1.length ≤ count := by simp [readFromInternalBuffer]
  unfold mailstreamRead
  dsimp only
  by_cases enough : count - (readFromInternalBuffer s count).1.length = 0
  · rw [if_pos enough]
    refine ⟨_, rfl, buffered, length, fun _ positive _ nothing => ?_⟩
    rw [nothing, List.length_nil] at enough
    omega
  rw [if_neg enough]
  obtain ⟨emptied, all⟩ := readFromInternalBuffer_short enough
  have remaining : s.incoming ≠ [] → (readFromInternalBuffer s count).1 = [] →
      (readFromInternalBuffer s count).2.incoming ≠ [] := by
    intro more nothing
    rw [← buffered.order, nothing, List.nil_append] at more
    exact more
  by_cases direct : s.bufferMaxSize < count - (readFromInternalBuffer s count).1.length
  · rw [if_pos direct]
    obtain ⟨bytes, low, read, order, stillSteady, onWhole⟩ :=
      MailstreamLow.read_delivers buffered.steady (count - (readFromInternalBuffer s count).1.length)
    have bound := MailstreamLow.read_length read
    rw [read]
    refine ⟨_, rfl, buffered.trans ⟨?_, stillSteady, fun whole => (onWhole whole).1⟩, ?_, ?_⟩
    · simp only [Mailstream.incoming, emptied, List.nil_append]
      exact order
    · rw [List.length_append]
      omega
    · intro whole positive more nothing
      rw [List.append_eq_nil_iff] at nothing
      have left := remaining more nothing.1
      rw [Mailstream.incoming, emptied, List.nil_append] at left
      exact (onWhole (buffered.whole whole)).2 (by omega) left nothing.2
  · rw [if_neg direct]
    obtain ⟨filled, fed, onWhole⟩ := fillReadBuffer_reads buffered.steady emptied
    rw [filled, if_pos rfl]
    have taken := readFromInternalBuffer_reads fed.steady
      (count - (readFromInternalBuffer s count).1.length)
    refine ⟨_, rfl, buffered.trans (fed.trans taken), ?_, ?_⟩
    · simp only [List.length_append, readFromInternalBuffer, List.length_take]
      omega
    · intro whole positive more nothing
      rw [List.append_eq_nil_iff] at nothing
      have left := onWhole (buffered.whole whole) (remaining more nothing.1)
      have none := nothing.2
      simp only [readFromInternalBuffer, List.take_eq_nil_iff] at none
      rcases none with zero | empty
      · exact enough zero
      · exact left empty

theorem mailstreamFeedReadBuffer_reads {s : Mailstream} (steady : s.low.Steady) :
    (mailstreamFeedReadBuffer s).1 = some (mailstreamFeedReadBuffer s).2.readBuffer.length ∧
      Reads s [] (mailstreamFeedReadBuffer s).2 ∧
      (s.low.Whole → s.incoming ≠ [] → (mailstreamFeedReadBuffer s).2.readBuffer ≠ []) := by
  unfold mailstreamFeedReadBuffer
  split
  · next empty =>
      obtain ⟨filled, fed, onWhole⟩ := fillReadBuffer_reads steady empty
      dsimp only
      rw [filled, if_pos rfl]
      exact ⟨rfl, fed, onWhole⟩
  · next nonempty => exact ⟨rfl, ⟨rfl, steady, id⟩, fun _ _ => nonempty⟩

def takeLine : List UInt8 → List UInt8
  | [] => []
  | byte :: rest => if byte = LF then [LF] else byte :: takeLine rest

theorem takeLine_append {content rest : List UInt8} (noLF : LF ∉ content) :
    takeLine (content ++ rest) = content ++ takeLine rest := by
  induction content with
  | nil => rfl
  | cons byte content ih =>
      have different : byte ≠ LF := fun same => noLF (by simp [same])
      have tail := ih fun member => noLF (by simp [member])
      simp [takeLine, different, tail]

theorem mailstreamReadLenAppend_reads {s : Mailstream} (steady : s.low.Steady) {taken rest : List UInt8}
    (buffered : s.readBuffer = taken ++ rest) (line : List UInt8) :
    ∃ after, mailstreamReadLenAppend s line taken.length = (some (line ++ taken), after) ∧
      Reads s taken after ∧ after.readBuffer = rest ∧ after.low = s.low := by
  have fits : taken.length ≤ s.readBuffer.length := by simp [buffered]
  have front : (readFromInternalBuffer s taken.length).1 = taken := by
    simp [readFromInternalBuffer, buffered]
  refine ⟨(readFromInternalBuffer s taken.length).2, ?_, ?_, ?_, rfl⟩
  · simp [mailstreamReadLenAppend, mailstreamRead_buffered fits, buffered]
  · have reads := readFromInternalBuffer_reads steady taken.length
    rwa [front] at reads
  · simp [readFromInternalBuffer, buffered]

/-- A line reader gives the first line of what is to come, however it is cut; where an
answer may be empty, it gives a front of it. -/
theorem mailstreamReadLineAppend_reads {s : Mailstream} (steady : s.low.Steady) (line : List UInt8) :
    ∃ bytes, (mailstreamReadLineAppend s line).1 = some (line ++ bytes) ∧
      Reads s bytes (mailstreamReadLineAppend s line).2 ∧
      (s.low.Whole → bytes = takeLine s.incoming) := by
  generalize size : 2 * s.low.pending + (if s.readBuffer = [] then 0 else 1) = measure
  induction measure using Nat.strongRecOn generalizing s line with
  | ind measure ih =>
      by_cases empty : s.readBuffer = []
      · obtain ⟨answered, fed, onWhole⟩ := mailstreamFeedReadBuffer_reads steady
        have notFailed : (mailstreamFeedReadBuffer s).1 ≠ none := by simp [answered]
        by_cases ended : (mailstreamFeedReadBuffer s).1 = some 0
        · have stopped : mailstreamReadLineAppend s line = (some line, (mailstreamFeedReadBuffer s).2) := by
            rw [mailstreamReadLineAppend, if_neg (by simp [empty])]
            simp [ended]
          rw [stopped]
          refine ⟨[], by simp, fed, fun whole => ?_⟩
          have nothing : (mailstreamFeedReadBuffer s).2.readBuffer = [] := by
            rw [answered, Option.some.injEq] at ended
            exact List.length_eq_zero_iff.mp ended
          have atEnd : s.incoming = [] := by
            by_contra more
            exact onWhole whole more nothing
          rw [atEnd, takeLine]
        · have progress := mailstreamFeedReadBuffer_pending empty notFailed ended
          have smaller : 2 * (mailstreamFeedReadBuffer s).2.low.pending +
              (if (mailstreamFeedReadBuffer s).2.readBuffer = [] then 0 else 1) < measure := by
            rw [if_pos empty] at size
            split <;> omega
          obtain ⟨bytes, result, reads, onLine⟩ := ih _ smaller fed.steady line rfl
          rw [mailstreamReadLineAppend_feed empty notFailed ended]
          refine ⟨bytes, result, fed.trans reads, fun whole => ?_⟩
          rw [onLine (fed.whole whole), ← fed.order, List.nil_append]
      by_cases noLF : LF ∈ s.readBuffer
      · obtain ⟨content, later, buffered, contentFree⟩ : ∃ content later,
            s.readBuffer = content ++ LF :: later ∧ LF ∉ content :=
          List.eq_append_cons_of_mem noLF
        have cut : s.readBuffer = (content ++ [LF]) ++ later := by simpa using buffered
        obtain ⟨after, read, reads, -, -⟩ := mailstreamReadLenAppend_reads steady cut line
        rw [mailstreamReadLineAppend_found buffered contentFree, read]
        refine ⟨content ++ [LF], rfl, reads, fun _ => ?_⟩
        rw [Mailstream.incoming, buffered, List.append_assoc, takeLine_append contentFree, List.cons_append,
          takeLine, if_pos rfl]
      · -- the buffer ends inside the line: all of it is taken and the line goes on
        obtain ⟨after, read, reads, emptied, below⟩ :=
          mailstreamReadLenAppend_reads steady (List.append_nil s.readBuffer).symm line
        have smaller : 2 * after.low.pending + (if after.readBuffer = [] then 0 else 1) < measure := by
          rw [emptied, below, if_pos rfl, ← size, if_neg empty]
          omega
        obtain ⟨bytes, result, more, onLine⟩ := ih _ smaller reads.steady (line ++ s.readBuffer) rfl
        rw [mailstreamReadLineAppend_absent empty noLF read]
        refine ⟨s.readBuffer ++ bytes, by rw [result, List.append_assoc], reads.trans more, fun whole => ?_⟩
        rw [onLine (reads.whole whole), ← reads.order, takeLine_append noLF]

inductive ReadCall where
  | read (count : Nat)
  | readLine
  | readLineAppend (line : List UInt8)
  | feedReadBuffer
deriving Repr, DecidableEq

def ReadCall.given : ReadCall → List UInt8
  | .readLineAppend line => line
  | _ => []

/-- The octets a call returns, `none` for an error, and the stream after it. -/
def ReadCall.run (s : Mailstream) : ReadCall → Option (List UInt8) × Mailstream
  | .read count => mailstreamRead s count
  | .readLine => mailstreamReadLine s
  | .readLineAppend line => mailstreamReadLineAppend s line
  | .feedReadBuffer => ((mailstreamFeedReadBuffer s).1.map fun _ => [], (mailstreamFeedReadBuffer s).2)

def runReadCalls (s : Mailstream) : List ReadCall → List (Option (List UInt8)) × Mailstream
  | [] => ([], s)
  | call :: rest =>
      ((call.run s).1 :: (runReadCalls (call.run s).2 rest).1, (runReadCalls (call.run s).2 rest).2)

/-- What a call may return of the octets to come, with no word on how they are cut. -/
def ReadCall.Returns (call : ReadCall) (incoming bytes : List UInt8) : Prop :=
  match call with
  | .read count => bytes <+: incoming ∧ bytes.length ≤ count ∧ (0 < count → incoming ≠ [] → bytes ≠ [])
  | .readLine => bytes = takeLine incoming
  | .readLineAppend _ => bytes = takeLine incoming
  | .feedReadBuffer => bytes = []

/-- The calls serve themselves from the octets to come, one after the other. -/
def Serves : List ReadCall → List UInt8 → List (List UInt8) → Prop
  | [], _, [] => True
  | call :: calls, incoming, bytes :: rest =>
      call.Returns incoming bytes ∧ Serves calls (incoming.drop bytes.length) rest
  | _, _, _ => False

theorem ReadCall.run_reads {s : Mailstream} (steady : s.low.Steady) (call : ReadCall) :
    ∃ bytes, (call.run s).1 = some (call.given ++ bytes) ∧ Reads s bytes (call.run s).2 ∧
      (s.low.Whole → call.Returns s.incoming bytes) := by
  cases call with
  | read count =>
      obtain ⟨bytes, result, reads, bound, nonempty⟩ := mailstreamRead_reads steady count
      exact ⟨bytes, result, reads, fun whole => ⟨⟨_, reads.order⟩, bound, nonempty whole⟩⟩
  | readLine => exact mailstreamReadLineAppend_reads steady []
  | readLineAppend line => exact mailstreamReadLineAppend_reads steady line
  | feedReadBuffer =>
      obtain ⟨answered, fed, -⟩ := mailstreamFeedReadBuffer_reads steady
      exact ⟨[], by simp [run, given, answered], fed, fun _ => rfl⟩

theorem runReadCalls_reads {s : Mailstream} (steady : s.low.Steady) (calls : List ReadCall) :
    ∃ news : List (List UInt8), news.length = calls.length ∧
      (runReadCalls s calls).1 = List.zipWith (fun call new => some (call.given ++ new)) calls news ∧
      Reads s news.flatten (runReadCalls s calls).2 ∧
      (s.low.Whole → Serves calls s.incoming news) := by
  induction calls generalizing s with
  | nil => exact ⟨[], rfl, rfl, ⟨rfl, steady, id⟩, fun _ => trivial⟩
  | cons call calls ih =>
      obtain ⟨bytes, result, reads, returns⟩ := call.run_reads steady
      obtain ⟨news, length, results, later, serves⟩ := ih reads.steady
      refine ⟨bytes :: news, by simp [length], ?_, reads.trans later, fun whole => ⟨returns whole, ?_⟩⟩
      · simp only [runReadCalls, result, results, List.zipWith_cons_cons]
      · have left : s.incoming.drop bytes.length = (call.run s).2.incoming := by
          rw [← reads.order, List.drop_left]
        rw [left]
        exact serves (reads.whole whole)

theorem Serves.unique {calls : List ReadCall} (lines : ∀ call ∈ calls, ∀ count, call ≠ .read count)
    {incoming : List UInt8} {left right : List (List UInt8)} (first : Serves calls incoming left)
    (second : Serves calls incoming right) : left = right := by
  induction calls generalizing incoming left right with
  | nil =>
      cases left with
      | nil =>
          cases right with
          | nil => rfl
          | cons bytes rest => exact second.elim
      | cons bytes rest => exact first.elim
  | cons call calls ih =>
      cases left with
      | nil => exact first.elim
      | cons leftBytes leftRest =>
          cases right with
          | nil => exact second.elim
          | cons rightBytes rightRest =>
              obtain ⟨leftReturns, leftServes⟩ := first
              obtain ⟨rightReturns, rightServes⟩ := second
              have same : leftBytes = rightBytes := by
                cases call with
                | read count => exact absurd rfl (lines (.read count) (by simp) count)
                | readLine => exact leftReturns.trans rightReturns.symm
                | readLineAppend line => exact leftReturns.trans rightReturns.symm
                | feedReadBuffer => exact leftReturns.trans rightReturns.symm
              subst same
              have tails := ih (fun call member => lines call (by simp [member])) leftServes rightServes
              rw [tails]

/-- Reading is transparent: whatever the calls, and however the stream below cuts what it
delivers, the octets returned and those still buffered or undelivered are the octets
delivered, in order.  Every line is the first line of what is still to come, so it does
not depend on the cutting, and the results of line calls are the same for every cutting. -/
theorem runReadCalls_transparent {s : Mailstream} (steady : s.low.Steady) (calls : List ReadCall) :
    let after := (runReadCalls s calls).2
    ∃ news : List (List UInt8), news.length = calls.length ∧
      (runReadCalls s calls).1 = List.zipWith (fun call new => some (call.given ++ new)) calls news ∧
      news.flatten ++ (after.readBuffer ++ after.low.undelivered) = s.readBuffer ++ s.low.undelivered ∧
      (s.low.Whole → Serves calls (s.readBuffer ++ s.low.undelivered) news) ∧
      (s.low.Whole → (∀ call ∈ calls, ∀ count, call ≠ .read count) →
        ∀ other : Mailstream, other.low.Whole →
          other.readBuffer ++ other.low.undelivered = s.readBuffer ++ s.low.undelivered →
          (runReadCalls other calls).1 = (runReadCalls s calls).1) := by
  intro after
  obtain ⟨news, length, results, reads, serves⟩ := runReadCalls_reads steady calls
  refine ⟨news, length, results, reads.order, serves, ?_⟩
  intro whole lines other otherWhole same
  obtain ⟨otherNews, -, otherResults, -, otherServes⟩ := runReadCalls_reads otherWhole.steady calls
  have served : Serves calls s.incoming otherNews := by
    have fromOther := otherServes otherWhole
    rwa [Mailstream.incoming, same] at fromOther
  rw [otherResults, results, Serves.unique lines served (serves whole)]

/-- Two lines delivered in three cuts, with a raw read in between. -/
theorem runReadCalls_transparent_cut :
    let low : MailstreamLow :=
      { reads := [.bytes [ascii 'a', LF, ascii 'b'], .bytes [ascii 'c'], .bytes [LF, ascii 'd']], writes := [] }
    let s : Mailstream := ⟨[], [], 8192, low, by decide, by decide, by decide⟩
    s.low.Steady ∧ ∃ news : List (List UInt8), news.length = 3 ∧
      news.flatten ++ ((runReadCalls s [.readLine, .read 1, .readLine]).2.readBuffer ++
        (runReadCalls s [.readLine, .read 1, .readLine]).2.low.undelivered) =
          [ascii 'a', LF, ascii 'b', ascii 'c', LF, ascii 'd'] := by
  intro low s
  have steady : s.low.Steady := by simp [MailstreamLow.Steady, s, low]
  obtain ⟨news, length, -, order, -⟩ := runReadCalls_transparent steady [.readLine, .read 1, .readLine]
  exact ⟨steady, news, length, order⟩

end Etpan.Stream
