import Etpan.Stream.SendData

namespace Etpan.Stream

open Etpan.Data

/-! The size announced for a message, `mailstream_get_data_crlf_size`, against what
`mailstream_send_data_crlf` writes. -/

/-- `get_data_size`: the octets of the first line, and the same after its line break
has been replaced by CRLF. -/
def getDataSize : List UInt8 → Nat × Nat
  | [] => (0, 0)
  | byte :: rest =>
      if byte = CR then
        match rest with
        | [] => (1, 2)
        | next :: _ => if next = LF then (2, 2) else (1, 2)
      else if byte = LF then (1, 2)
      else ((getDataSize rest).1 + 1, (getDataSize rest).2 + 1)

theorem getDataSize_eq (line : List UInt8) :
    getDataSize line =
      ((scanLine line).1, if (scanLine line).2 then (scanLine line).1 + 1 else (scanLine line).1) := by
  induction line with
  | nil => simp [getDataSize, scanLine]
  | cons byte rest ih =>
      by_cases isCR : byte = CR
      · cases rest with
        | nil => simp [getDataSize, scanLine, isCR]
        | cons next rest =>
            by_cases isLF : next = LF
            · simp [getDataSize, scanLine, isCR, isLF]
            · simp [getDataSize, scanLine, isCR, isLF]
      by_cases isLF : byte = LF
      · simp [getDataSize, scanLine, isLF]
      · simp only [getDataSize, scanLine, isCR, isLF, if_false, ih, Prod.mk.injEq, true_and]
        split <;> rfl

theorem getDataSize_pos {line : List UInt8} (nonempty : line ≠ []) : 0 < (getDataSize line).1 := by
  rw [getDataSize_eq]
  exact scanLine_pos nonempty

def mailstreamGetDataCrlfSize (message : List UInt8) : Nat :=
  if message = [] then 0
  else (getDataSize message).2 + mailstreamGetDataCrlfSize (message.drop (getDataSize message).1)
termination_by message.length
decreasing_by
  next nonempty =>
  have progress := getDataSize_pos nonempty
  have total := List.length_pos_iff.mpr nonempty
  rw [List.length_drop]
  omega

/-- The octets `send_data_line` hands to each of its writes. -/
def linePieces (line : List UInt8) : List (List UInt8) :=
  if (scanLine line).2 then [line.take ((scanLine line).1 - 1), [CR, LF]]
  else [line.take (scanLine line).1]

/-- The octets `send_data_crlf_progress` hands to each write of a run without an error. -/
def pieces (quoted : Bool) (message : List UInt8) : List (List UInt8) :=
  if message = [] then []
  else
    (if quoted ∧ message.head? = some (ascii '.') then [[ascii '.']] else []) ++
      (linePieces message ++ pieces quoted (message.drop (scanLine message).1))
termination_by message.length
decreasing_by
  next nonempty =>
  have progress := scanLine_pos nonempty
  have total := List.length_pos_iff.mpr nonempty
  rw [List.length_drop]
  omega

section WriteAll

variable {σ : Type} (write : Write σ)

def writeAll (s : σ) : List (List UInt8) → Int × σ
  | [] => (0, s)
  | piece :: rest =>
      if (write s piece).1 = -1 then (-1, (write s piece).2) else writeAll (write s piece).2 rest

theorem writeAll_result (s : σ) (bufs : List (List UInt8)) :
    (writeAll write s bufs).1 = 0 ∨ (writeAll write s bufs).1 = -1 := by
  induction bufs generalizing s with
  | nil => exact .inl rfl
  | cons piece rest ih =>
      simp only [writeAll]
      split
      · exact .inr rfl
      · exact ih _

theorem writeAll_append (s : σ) (first second : List (List UInt8)) :
    writeAll write s (first ++ second) =
      if (writeAll write s first).1 = -1 then writeAll write s first
      else writeAll write (writeAll write s first).2 second := by
  induction first generalizing s with
  | nil => simp [writeAll]
  | cons piece rest ih =>
      simp only [List.cons_append, writeAll]
      split
      · simp
      · exact ih _

theorem sendDataLine_eq_writeAll (s : σ) (line : List UInt8) :
    (sendDataLine write s line).2 = (writeAll write s (linePieces line)).2 ∧
      (sendDataLine write s line).1 =
        if (writeAll write s (linePieces line)).1 = -1 then -1 else ((scanLine line).1 : Int) := by
  unfold sendDataLine linePieces
  cases fixEol : (scanLine line).2 with
  | true =>
      simp only [if_true, writeAll]
      repeat' split
      all_goals simp_all
  | false =>
      simp only [Bool.false_eq_true, if_false, writeAll]
      repeat' split
      all_goals simp_all

theorem sendDataCrlf_eq_writeAll (quoted : Bool) (s : σ) (message : List UInt8) :
    sendDataCrlf write quoted s message = writeAll write s (pieces quoted message) := by
  generalize size : message.length = count
  induction count using Nat.strongRecOn generalizing s message with
  | ind count ih =>
      rw [sendDataCrlf, pieces]
      by_cases nonempty : message = []
      · simp [nonempty, writeAll]
      have progress := scanLine_pos nonempty
      have total := List.length_pos_iff.mpr nonempty
      have shorter : (message.drop (scanLine message).1).length < count := by
        rw [List.length_drop]
        omega
      have tail := fun s => ih _ shorter s (message.drop (scanLine message).1) rfl
      rw [dif_neg nonempty, if_neg nonempty]
      have escape : ∀ s : σ, writeAll write s
          (if quoted ∧ message.head? = some (ascii '.') then [[ascii '.']] else []) =
            (if (if quoted ∧ message.head? = some (ascii '.') then write s [ascii '.'] else (0, s)).1 = -1
              then -1 else 0,
            (if quoted ∧ message.head? = some (ascii '.') then write s [ascii '.'] else (0, s)).2) := by
        intro s
        by_cases dot : quoted = true ∧ message.head? = some (ascii '.')
        · simp only [dot, and_self, if_true, writeAll]
          split <;> simp_all
        · simp only [dot, if_false, writeAll]
          simp
      rw [writeAll_append, escape]
      generalize (if quoted ∧ message.head? = some (ascii '.') then write s [ascii '.'] else (0, s)) = escaped
      dsimp only
      by_cases failed : escaped.1 = -1
      · simp [failed]
      obtain ⟨state, result⟩ := sendDataLine_eq_writeAll write escaped.2 message
      have carriedOn : ¬(0 : Int) = -1 := by decide
      rw [if_neg failed, if_neg failed, if_neg carriedOn, writeAll_append, ← tail, ← state]
      by_cases lineFailed : (writeAll write escaped.2 (linePieces message)).1 = -1
      · rw [if_pos lineFailed] at result
        rw [if_pos lineFailed, if_pos (by rw [result]; decide), state, ← lineFailed]
      · rw [if_neg lineFailed] at result
        rw [if_neg lineFailed, if_neg (by rw [result]; omega)]

theorem writeAll_handed (s : σ × List UInt8) (bufs : List (List UInt8)) :
    ∃ front, front <+: bufs.flatten ∧ (writeAll (recording write) s bufs).2.2 = s.2 ++ front ∧
      ((writeAll (recording write) s bufs).1 = 0 → front = bufs.flatten) := by
  induction bufs generalizing s with
  | nil => exact ⟨[], by simp, by simp [writeAll], by simp⟩
  | cons piece rest ih =>
      simp only [writeAll]
      split
      · exact ⟨piece, by simp, rfl, by simp⟩
      · obtain ⟨front, isFront, recorded, complete⟩ := ih (recording write s piece).2
        refine ⟨piece ++ front, ?_, ?_, ?_⟩
        · simpa using isFront
        · rw [recorded]
          simp [recording]
        · intro success
          simp [complete success]

theorem writeAll_success (accepts : ∀ s buf, (write s buf).1 ≠ -1) (s : σ) (bufs : List (List UInt8)) :
    (writeAll write s bufs).1 = 0 := by
  induction bufs generalizing s with
  | nil => rfl
  | cons piece rest ih => rw [writeAll, if_neg (accepts s piece), ih]

end WriteAll

theorem linePieces_length (line : List UInt8) :
    (linePieces line).flatten.length = (getDataSize line).2 := by
  have bound := scanLine_le line
  rw [getDataSize_eq, linePieces]
  by_cases fixEol : (scanLine line).2 = true
  · have nonempty : line ≠ [] := by
      intro empty
      simp [empty, scanLine] at fixEol
    have progress := scanLine_pos nonempty
    simp [fixEol]
    omega
  · simp [fixEol, bound]

theorem pieces_length (message : List UInt8) :
    (pieces false message).flatten.length = mailstreamGetDataCrlfSize message := by
  generalize size : message.length = count
  induction count using Nat.strongRecOn generalizing message with
  | ind count ih =>
      rw [pieces, mailstreamGetDataCrlfSize]
      by_cases nonempty : message = []
      · simp [nonempty]
      have progress := scanLine_pos nonempty
      have total := List.length_pos_iff.mpr nonempty
      have shorter : (message.drop (scanLine message).1).length < count := by
        rw [List.length_drop]
        omega
      have tail := ih _ shorter _ rfl
      have same : (getDataSize message).1 = (scanLine message).1 := by rw [getDataSize_eq]
      rw [if_neg nonempty, if_neg nonempty, same, ← tail, ← linePieces_length]
      simp

/-- The announced size is the number of octets a successful `mailstream_send_data_crlf`
hands to its stream, whatever the stream; a run cut short by an error hands over no
more than that, and without an error from the stream there is none. -/
theorem mailstreamGetDataCrlfSize_sent {σ : Type} (write : Write σ) (s : σ) (message : List UInt8) :
    let run := mailstreamSendDataCrlf (recording write) (s, []) message
    unrecorded run = mailstreamSendDataCrlf write s message ∧
      (run.1 = 0 ∧ run.2.2.length = mailstreamGetDataCrlfSize message ∨
        run.1 = -1 ∧ run.2.2.length ≤ mailstreamGetDataCrlfSize message) ∧
      ((∀ s buf, (write s buf).1 ≠ -1) → run.1 = 0) := by
  intro run
  have pieced : run = writeAll (recording write) (s, []) (pieces false message) :=
    sendDataCrlf_eq_writeAll (recording write) false (s, []) message
  refine ⟨sendDataCrlf_recording write false (s, []) message, ?_, ?_⟩
  · obtain ⟨front, isFront, recorded, complete⟩ := writeAll_handed write (s, []) (pieces false message)
    have handed : run.2.2 = front := by rw [pieced, recorded, List.nil_append]
    rw [handed, ← pieces_length]
    rcases writeAll_result (recording write) (s, []) (pieces false message) with success | failure
    · exact .inl ⟨by rw [pieced, success], by rw [complete success]⟩
    · exact .inr ⟨by rw [pieced, failure], isFront.length_le⟩
  · intro accepts
    rw [pieced]
    exact writeAll_success (recording write) (fun s buf => accepts s.1 buf) _ _

end Etpan.Stream
