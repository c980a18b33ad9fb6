import Etpan.Data.Loop
import Etpan.Stream.ReadCalls

namespace Etpan.Stream

open Etpan.Data

/-! Loops over the lines of a stream that comes to its end. -/

def rawLines : List UInt8 → List (List UInt8)
  | [] => []
  | byte :: rest => if byte = LF then [LF] :: rawLines rest
      else
        match rawLines rest with
        | [] => [[byte]]
        | line :: lines => (byte :: line) :: lines

def linesOf (bytes : List UInt8) : List (List UInt8) := (rawLines bytes).map removeTrailingEol

def EndArrives (bytes : List UInt8) : Prop :=
  [ascii '.', CR, LF] ∈ rawLines bytes ∨ [ascii '.', LF] ∈ rawLines bytes

instance (bytes : List UInt8) : Decidable (EndArrives bytes) := inferInstanceAs (Decidable (_ ∨ _))

theorem rawLines_cons {bytes : List UInt8} (nonempty : bytes ≠ []) :
    rawLines bytes = takeLine bytes :: rawLines (bytes.drop (takeLine bytes).length) := by
  induction bytes with
  | nil => exact absurd rfl nonempty
  | cons byte rest ih =>
      by_cases isLF : byte = LF
      · simp [rawLines, takeLine, isLF]
      · cases rest with
        | nil => simp [rawLines, takeLine, isLF]
        | cons next rest =>
            have tail := ih (by simp)
            simp only [rawLines, if_neg isLF, takeLine] at tail ⊢
            simp [tail]

theorem linesOf_cons {bytes : List UInt8} (nonempty : bytes ≠ []) :
    linesOf bytes = removeTrailingEol (takeLine bytes) :: linesOf (bytes.drop (takeLine bytes).length) := by
  rw [linesOf, rawLines_cons nonempty]
  rfl

theorem EndArrives.mem_linesOf {bytes : List UInt8} (arrives : EndArrives bytes) : [ascii '.'] ∈ linesOf bytes := by
  rcases arrives with crlf | lf
  · exact List.mem_map.mpr ⟨_, crlf, by decide⟩
  · exact List.mem_map.mpr ⟨_, lf, by decide⟩

theorem mailstreamReadLineRemoveEol_whole {s : Mailstream} (whole : s.low.Whole) :
    ∃ after, mailstreamReadLineRemoveEol s = (some (removeTrailingEol (takeLine s.incoming)), after) ∧ after.low.Whole ∧
      after.incoming = s.incoming.drop (takeLine s.incoming).length := by
  obtain ⟨bytes, answered, reads, line⟩ := mailstreamReadLineAppend_reads whole.steady []
  refine ⟨(mailstreamReadLineAppend s []).2, ?_, reads.whole whole, ?_⟩
  · rw [mailstreamReadLineRemoveEol, mailstreamReadLine, answered, line whole]
    rfl
  · rw [← line whole, ← reads.order, List.drop_left]

/-! ### Loops that end with a line or on a line -/

section Loops

variable {α ρ : Type}

/-- A round takes one line: the end of the listing, a line that is refused, or one to go on from. -/
structure TakesLines (body : Mailstream × α → (Mailstream × α) ⊕ ρ) (take : α → List UInt8 → Option α)
    (success : ρ → Bool) : Prop where
  round : ∀ s collected line after, mailstreamReadLineRemoveEol s = (some line, after) →
    if mailstreamIsEndMultiline line then ∃ result, body (s, collected) = .inr result ∧ success result = true
    else
      match take collected line with
      | none => ∃ result, body (s, collected) = .inr result ∧ success result = false
      | some more => body (s, collected) = .inl (after, more)
  idle : ∀ collected, (take collected []).isSome

/-- How a loop over the lines ends: with the end of the listing or on a refused line; `none` is not at all. -/
def ending (take : α → List UInt8 → Option α) : α → List (List UInt8) → Option Bool
  | _, [] => none
  | collected, line :: lines =>
      if mailstreamIsEndMultiline line then some true
      else
        match take collected line with
        | none => some false
        | some more => ending take more lines

variable {body : Mailstream × α → (Mailstream × α) ⊕ ρ} {take : α → List UInt8 → Option α} {success : ρ → Bool}

theorem TakesLines.ending_of_loop (takes : TakesLines body take success) {turns : Nat} {s : Mailstream} {collected : α}
    {result : ρ} (whole : s.low.Whole) (ended : loop body turns (s, collected) = some result) :
    ending take collected (linesOf s.incoming) = some (success result) := by
  induction turns generalizing s collected with
  | zero => cases ended
  | succ turns ih =>
      obtain ⟨after, read, wholeAfter, rest⟩ := mailstreamReadLineRemoveEol_whole whole
      have round := takes.round s collected _ after read
      by_cases nothing : s.incoming = []
      · exfalso
        have emptyLine : removeTrailingEol (takeLine s.incoming) = [] := by rw [nothing]; decide
        rw [emptyLine, if_neg (by decide)] at round
        obtain ⟨more, goesOn⟩ := Option.isSome_iff_exists.mp (takes.idle collected)
        rw [goesOn] at round
        simp only [loop, round] at ended
        have later := ih wholeAfter ended
        rw [rest, nothing] at later
        cases later
      · rw [linesOf_cons nothing, ending]
        split at round
        · next isEnd =>
          obtain ⟨result', left, succeeded⟩ := round
          simp only [loop, left, Option.some.injEq] at ended
          rw [if_pos isEnd, ← ended, succeeded]
        · next notEnd =>
          rw [if_neg notEnd]
          cases taken : take collected (removeTrailingEol (takeLine s.incoming)) with
          | none =>
              rw [taken] at round
              obtain ⟨result', left, failed⟩ := round
              simp only [loop, left, Option.some.injEq] at ended
              rw [← ended, failed]
          | some more =>
              rw [taken] at round
              simp only [loop, round] at ended
              rw [← rest]
              exact ih wholeAfter ended

theorem TakesLines.loop_of_ending (takes : TakesLines body take success) {s : Mailstream} {collected : α} (whole : s.low.Whole)
    (ends : ending take collected (linesOf s.incoming) ≠ none) : ∃ turns result, loop body turns (s, collected) = some result := by
  generalize size : s.incoming.length = length
  induction length using Nat.strongRecOn generalizing s collected with
  | ind length ih =>
      obtain ⟨after, read, wholeAfter, rest⟩ := mailstreamReadLineRemoveEol_whole whole
      have round := takes.round s collected _ after read
      by_cases nothing : s.incoming = []
      · rw [nothing] at ends
        exact absurd rfl ends
      · rw [linesOf_cons nothing, ending] at ends
        split at round
        · obtain ⟨result, left, -⟩ := round
          exact ⟨1, result, by simp only [loop, left]⟩
        · next notEnd =>
          rw [if_neg notEnd] at ends
          cases taken : take collected (removeTrailingEol (takeLine s.incoming)) with
          | none =>
              rw [taken] at round
              obtain ⟨result, left, -⟩ := round
              exact ⟨1, result, by simp only [loop, left]⟩
          | some more =>
              rw [taken] at round ends
              have progress : 0 < (takeLine s.incoming).length := by
                obtain ⟨byte, bytes, spelled⟩ := List.exists_cons_of_ne_nil nothing
                rw [spelled, takeLine]
                split <;> simp
              have shorter : after.incoming.length < length := by
                rw [rest, List.length_drop, ← size]
                have positive := List.length_pos_iff.mpr nothing
                omega
              obtain ⟨turns, result, ended⟩ := ih _ shorter wholeAfter (rest ▸ ends) rfl
              exact ⟨turns + 1, result, by simpa only [loop, round] using ended⟩

theorem ending_of_mem {lines : List (List UInt8)} (isEnd : [ascii '.'] ∈ lines) (collected : α) :
    ending take collected lines ≠ none := by
  induction lines generalizing collected with
  | nil => cases isEnd
  | cons line lines ih =>
      rw [ending]
      split
      · simp
      · next notEnd =>
        split
        · simp
        · next more taken =>
          rcases List.mem_cons.mp isEnd with rfl | later
          · exact absurd (by decide) notEnd
          · exact ih later more

/-- A reader of several lines is over after some number of turns, and succeeds only when the end of the listing has arrived. -/
def EndsHonestly (reader : Nat → Option ρ) (success : ρ → Bool) (bytes : List UInt8) : Prop :=
  (∃ turns result, reader turns = some result) ∧
    ∀ turns result, reader turns = some result → success result = true → EndArrives bytes

/-- A loop over the lines ends as it should exactly when the end of the listing arrives or a line is refused before. -/
theorem TakesLines.endsHonestly_iff (takes : TakesLines body take success) {s : Mailstream} (whole : s.low.Whole) (collected : α) :
    EndsHonestly (fun turns => loop body turns (s, collected)) success s.incoming ↔
      EndArrives s.incoming ∨ ending take collected (linesOf s.incoming) = some false := by
  constructor
  · rintro ⟨⟨turns, result, ended⟩, honest⟩
    cases succeeded : success result with
    | true => exact .inl (honest turns result ended succeeded)
    | false => exact .inr (succeeded ▸ takes.ending_of_loop whole ended)
  · rintro (arrives | refused)
    · exact ⟨takes.loop_of_ending whole (ending_of_mem arrives.mem_linesOf collected), fun _ _ _ _ => arrives⟩
    · refine ⟨takes.loop_of_ending whole (by simp [refused]), fun turns result ended succeeded => ?_⟩
      have same := takes.ending_of_loop whole ended
      rw [refused, succeeded] at same
      cases same

theorem ending_ne_false {lines : List (List UInt8)} (takesAll : ∀ collected line, (take collected line).isSome) (collected : α) :
    ending take collected lines ≠ some false := by
  induction lines generalizing collected with
  | nil => simp [ending]
  | cons line lines ih =>
      obtain ⟨more, taken⟩ := Option.isSome_iff_exists.mp (takesAll collected line)
      rw [ending, taken]
      split
      · simp
      · exact ih more

end Loops

/-- One turn of `mailstream_read_multiline`. -/
def readMultilineRound (s : Mailstream × List UInt8) : (Mailstream × List UInt8) ⊕ (Option (List UInt8) × Mailstream) :=
  let read := mailstreamReadLineRemoveEol s.1
  match read.1 with
  | none => .inr (none, read.2)
  | some line =>
      if mailstreamIsEndMultiline line then .inr (some s.2, read.2)
      else
        let text := if (cString line).head? = some (ascii '.') then (cString line).tail else cString line
        .inl (read.2, s.2 ++ text ++ [CR, LF])

theorem readMultilineLoop_loop (turns : Nat) (s : Mailstream) (multiline : List UInt8) :
    readMultilineLoop turns s multiline = loop readMultilineRound turns (s, multiline) := by
  induction turns generalizing s multiline with
  | zero => rfl
  | succ turns ih =>
      simp only [readMultilineLoop, loop, readMultilineRound]
      cases (mailstreamReadLineRemoveEol s).1 with
      | none => rfl
      | some line =>
          by_cases isEnd : mailstreamIsEndMultiline line
          · simp only [isEnd, if_true]
          · simp only [isEnd, Bool.false_eq_true, if_false, ih]

def appendLine (multiline line : List UInt8) : List UInt8 :=
  multiline ++ (if (cString line).head? = some (ascii '.') then (cString line).tail else cString line) ++ [CR, LF]

theorem readMultilineRound_takes :
    TakesLines readMultilineRound (fun multiline line => some (appendLine multiline line)) (fun result => result.1.isSome) := by
  refine ⟨fun s multiline line after read => ?_, fun _ => rfl⟩
  split
  · next isEnd => exact ⟨(some multiline, after), by simp [readMultilineRound, read, isEnd], rfl⟩
  · next notEnd => simp [readMultilineRound, read, notEnd, appendLine]

theorem readMultiline_endsHonestly_iff {s : Mailstream} (whole : s.low.Whole) :
    EndsHonestly (fun turns => mailstreamReadMultiline turns s) (fun result => result.1.isSome) s.incoming ↔
      EndArrives s.incoming := by
  simp only [mailstreamReadMultiline, readMultilineLoop_loop]
  rw [readMultilineRound_takes.endsHonestly_iff whole, or_iff_left (ending_ne_false (fun _ _ => rfl) _)]

end Etpan.Stream
