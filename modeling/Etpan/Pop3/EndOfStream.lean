import Etpan.Pop3.Replies
import Etpan.Stream.EndOfStream

namespace Etpan.Pop3

open Etpan.Data Etpan.Stream Etpan.DataTypes Carray

/-! The readers of several lines at the end of a stream. -/

variable {stray : Slots MsgInfo}

theorem readListRound_takes (stray : Slots MsgInfo) :
    TakesLines (readListRound mailstreamReadLineRemoveEol stray) (listLine stray) (fun result => result.1.isSome) := by
  refine ⟨fun s msgTab line after read => ?_, fun msgTab => rfl⟩
  split
  · next isEnd => exact ⟨(some msgTab, after), by simp [readListRound, read, isEnd], rfl⟩
  · next notEnd =>
      cases taken : listLine stray msgTab line with
      | none => exact ⟨(none, after), by simp [readListRound, read, notEnd, taken], rfl⟩
      | some more => simp [readListRound, read, notEnd, taken]

theorem readUidlRound_takes :
    TakesLines (readUidlRound mailstreamReadLineRemoveEol) (fun msgTab line => some (uidlLine msgTab line))
      (fun result => result.1) := by
  refine ⟨fun s msgTab line after read => ?_, fun msgTab => rfl⟩
  split
  · next isEnd => exact ⟨(true, after, msgTab), by simp [readUidlRound, read, isEnd], rfl⟩
  · next notEnd => simp [readUidlRound, read, notEnd]

theorem readCapaRespRound_takes :
    TakesLines (readCapaRespRound mailstreamReadLineRemoveEol) (fun list line => some (list ++ [capaLine line]))
      (fun result => result.1.isSome) := by
  refine ⟨fun s list line after read => ?_, fun list => rfl⟩
  split
  · next isEnd => exact ⟨(some list, after), by simp [readCapaRespRound, read, isEnd], rfl⟩
  · next notEnd => simp [readCapaRespRound, read, notEnd]

/-- The lines before any that is taken for the end of the listing name an index that no table has room for. -/
def Overfull (stray : Slots MsgInfo) (msgTab : Carray MsgInfo) (lines : List Line) : Prop :=
  ∃ earlier, earlier <+: lines ∧ (∀ line ∈ earlier, mailstreamIsEndMultiline line = false) ∧
    earlier.foldlM (listLine stray) msgTab = none

theorem ending_refused (stray : Slots MsgInfo) (msgTab : Carray MsgInfo) (lines : List Line) :
    ending (listLine stray) msgTab lines = some false ↔ Overfull stray msgTab lines := by
  induction lines generalizing msgTab with
  | nil =>
      constructor
      · rintro ⟨⟩
      · rintro ⟨earlier, front, -, refused⟩
        rw [List.prefix_nil.mp front] at refused
        cases refused
  | cons line lines ih =>
      rw [ending]
      split
      · next isEnd =>
          constructor
          · rintro ⟨⟩
          · rintro ⟨earlier, front, none_ends, refused⟩
            cases earlier with
            | nil => cases refused
            | cons first earlier =>
                obtain ⟨rfl, -⟩ := List.cons_prefix_cons.mp front
                rw [none_ends first List.mem_cons_self] at isEnd
                cases isEnd
      · next notEnd =>
          rw [Bool.not_eq_true] at notEnd
          cases taken : listLine stray msgTab line with
          | none =>
              refine ⟨fun _ => ⟨[line], ⟨lines, rfl⟩, by simpa using notEnd, by simp [taken]⟩, fun _ => rfl⟩
          | some more =>
              rw [ih more]
              constructor
              · rintro ⟨earlier, front, none_ends, refused⟩
                refine ⟨line :: earlier, List.cons_prefix_cons.mpr ⟨rfl, front⟩, ?_, by simpa [taken] using refused⟩
                intro other member
                rcases List.mem_cons.mp member with rfl | later
                · exact notEnd
                · exact none_ends other later
              · rintro ⟨earlier, front, none_ends, refused⟩
                cases earlier with
                | nil => cases refused
                | cons first earlier =>
                    obtain ⟨rfl, tail⟩ := List.cons_prefix_cons.mp front
                    exact ⟨earlier, tail, fun other later => none_ends other (List.mem_cons_of_mem _ later),
                      by simpa [taken] using refused⟩

def newTable (stray : Slots MsgInfo) : Carray MsgInfo := ⟨realloc [] stray 128, 0, 128⟩

theorem carrayNew_newTable (stray : Slots MsgInfo) : carrayNew 128 true (some stray) = some (newTable stray) := rfl

/-- Each reader of several lines is over, and successful only after the end of the listing, exactly when that end
arrives; LIST also where it gives up before. -/
theorem readers_endHonestly_iff {s : Mailstream} (whole : s.low.Whole) (stray : Slots MsgInfo) (msgTab : Carray MsgInfo) :
    (EndsHonestly (fun turns => mailstreamReadMultiline turns s) (fun result => result.1.isSome) s.incoming ↔
        EndArrives s.incoming) ∧
      (EndsHonestly (fun rounds => readList mailstreamReadLineRemoveEol stray rounds s) (fun result => result.1.isSome) s.incoming ↔
        EndArrives s.incoming ∨ Overfull stray (newTable stray) (linesOf s.incoming)) ∧
      (EndsHonestly (fun rounds => readUidl mailstreamReadLineRemoveEol rounds s msgTab) (fun result => result.1) s.incoming ↔
        EndArrives s.incoming) ∧
      (EndsHonestly (fun rounds => readCapaResp mailstreamReadLineRemoveEol rounds s) (fun result => result.1.isSome) s.incoming ↔
        EndArrives s.incoming) := by
  refine ⟨readMultiline_endsHonestly_iff whole, ?_, ?_, ?_⟩
  · simp only [readList, carrayNew_newTable]
    rw [(readListRound_takes stray).endsHonestly_iff whole, ending_refused]
  · simp only [readUidl]
    rw [readUidlRound_takes.endsHonestly_iff whole, or_iff_left (ending_ne_false (fun _ _ => rfl) _)]
  · simp only [readCapaResp]
    rw [readCapaRespRound_takes.endsHonestly_iff whole, or_iff_left (ending_ne_false (fun _ _ => rfl) _)]

def endingStream (text : List UInt8) : Mailstream where
  readBuffer := []
  writeBuffer := []
  bufferMaxSize := 8192
  low := ⟨if text = [] then [] else [.bytes text], [], []⟩
  positive := bufferSize_pos
  readFits := nothing_fits
  writeFits := nothing_fits

theorem endingStream_whole (text : List UInt8) : (endingStream text).low.Whole := by
  intro answer member
  by_cases empty : text = []
  · simp [endingStream, empty] at member
  · have same : answer = .bytes text := by simpa [endingStream, empty] using member
    subst same
    simpa using empty

theorem endingStream_incoming (text : List UInt8) : (endingStream text).incoming = text := by
  by_cases empty : text = [] <;> simp [endingStream, Mailstream.incoming, MailstreamLow.undelivered, empty]

theorem readers_endHonestly_iff_cut :
    let s := endingStream (asciiText "1 100" ++ [CR, LF])
    let stray : Slots MsgInfo := fun _ => none
    (EndsHonestly (fun turns => mailstreamReadMultiline turns s) (fun result => result.1.isSome) s.incoming ↔
        EndArrives s.incoming) ∧
      (EndsHonestly (fun rounds => readList mailstreamReadLineRemoveEol stray rounds s) (fun result => result.1.isSome) s.incoming ↔
        EndArrives s.incoming ∨ Overfull stray (newTable stray) (linesOf s.incoming)) ∧
      (EndsHonestly (fun rounds => readUidl mailstreamReadLineRemoveEol rounds s (newTable stray)) (fun result => result.1) s.incoming ↔
        EndArrives s.incoming) ∧
      (EndsHonestly (fun rounds => readCapaResp mailstreamReadLineRemoveEol rounds s) (fun result => result.1.isSome) s.incoming ↔
        EndArrives s.incoming) :=
  readers_endHonestly_iff (endingStream_whole _) _ _

/-- A message that is cut goes on for ever, and a dot at the very end of the stream passes for the end of the message. -/
theorem readers_not_endHonestly :
    (∀ turns, mailstreamReadMultiline turns (endingStream (asciiText "Subject: cut" ++ [CR, LF])) = none) ∧
      ¬ EndsHonestly (fun turns => mailstreamReadMultiline turns (endingStream (asciiText ".")))
        (fun result => result.1.isSome) (endingStream (asciiText ".")).incoming := by
  constructor
  · intro turns
    rw [mailstreamReadMultiline, readMultilineLoop_loop]
    by_contra ended
    obtain ⟨result, ended⟩ := Option.ne_none_iff_exists'.mp ended
    have ends := readMultilineRound_takes.ending_of_loop (endingStream_whole _) ended
    rw [endingStream_incoming] at ends
    have goesOn : ending (fun multiline line => some (appendLine multiline line)) []
        (linesOf (asciiText "Subject: cut" ++ [CR, LF])) = none := by decide
    rw [goesOn] at ends
    cases ends
  · rw [readMultiline_endsHonestly_iff (endingStream_whole _), endingStream_incoming]
    decide

end Etpan.Pop3
