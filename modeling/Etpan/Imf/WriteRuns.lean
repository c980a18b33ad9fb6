import Etpan.Imf.TextWrite

namespace Etpan.Imf

open Etpan.Data

/-! Runs of calls of `mailimf_string_write_driver` on one output.

The length a line is cut at is counted from the beginning of the string, so what the calls before have left on the line
is not counted. -/

inductive WriteItem where
  | octet (ch : UInt8)
  | lineEnd
  | inserted
deriving Repr, DecidableEq

def WriteItem.octets : WriteItem → List UInt8
  | .octet ch => [ch]
  | .lineEnd => [CR, LF]
  | .inserted => [CR, LF]

/-- The loop of `mailimf_string_write_driver` with what it inserts told apart; `count` is the variable of the source. -/
def writeItems : Nat → List UInt8 → List WriteItem
  | _, [] => []
  | count, byte :: rest =>
      (if maxImfLine ≤ count then [.inserted] else []) ++
        if byte = LF then .lineEnd :: writeItems 0 rest
        else if byte = CR then
          .lineEnd ::
            match rest with
            | [] => []
            | next :: after => if next = LF then writeItems 0 after else writeItems 0 (next :: after)
        else .octet byte :: writeItems ((if maxImfLine ≤ count then 0 else count) + 1) rest

def runCalls (calls : List (List UInt8)) : Output (List UInt8) :=
  calls.foldl (fun out str => (mailimfStringWriteDriver memory out str).getD out) { data := [], col := 0 }

def callItems (calls : List (List UInt8)) : List WriteItem := calls.flatMap (writeItems 0)

def keptOctets (items : List WriteItem) : List UInt8 := (items.filter (· ≠ .inserted)).flatMap WriteItem.octets

/-- The column counts the octets behind the last CRLF, every CR and LF of the output is one of a CRLF, no line is longer
than 998 octets, and without the inserted line ends the output is the concatenated input with its breaks spelled CRLF. -/
structure TracksLines (calls : List (List UInt8)) : Prop where
  written : (runCalls calls).data = (callItems calls).flatMap WriteItem.octets
  column : (runCalls calls).col = ((splitLines (runCalls calls).data).getLastD []).length
  noBare : crlfBreaks (runCalls calls).data = (runCalls calls).data
  bounded : ∀ line ∈ splitLines (runCalls calls).data, line.length ≤ maxImfLine
  kept : keptOctets (callItems calls) = crlfBreaks calls.flatten

def openingLine (str : List UInt8) : List UInt8 := str.takeWhile fun ch => ch ≠ CR ∧ ch ≠ LF

/-- What the string begins with still fits on the line, and it does not begin inside of a CRLF. -/
def CallFits (calls : List (List UInt8)) (str : List UInt8) : Prop :=
  (runCalls calls).col + min (openingLine str).length maxImfLine ≤ maxImfLine ∧
    ¬ (calls.flatten.getLast? = some CR ∧ str.head? = some LF)

theorem break_induction {motive : List UInt8 → Prop} (nil : motive [])
    (octet : ∀ byte rest, byte ≠ CR → byte ≠ LF → motive rest → motive (byte :: rest))
    (lineEnd : ∀ byte rest, byte = CR ∨ byte = LF → motive (afterBreak byte rest) → motive (byte :: rest)) (str : List UInt8) : motive str := by
  generalize size : str.length = count
  induction count using Nat.strongRecOn generalizing str with
  | ind count ih =>
      cases str with
      | nil => exact nil
      | cons byte rest =>
          rw [List.length_cons] at size
          by_cases isBreak : byte = CR ∨ byte = LF
          · have shorter := afterBreak_length byte rest
            exact lineEnd byte rest isBreak (ih _ (by omega) _ rfl)
          · have notBreak := not_or.mp isBreak
            exact octet byte rest notBreak.1 notBreak.2 (ih _ (by omega) _ rfl)

section Items

variable {byte : UInt8} {count : Nat}

theorem writeItems_octet (notCR : byte ≠ CR) (notLF : byte ≠ LF) (rest : List UInt8) :
    writeItems count (byte :: rest) =
      (if maxImfLine ≤ count then [.inserted] else []) ++ .octet byte :: writeItems ((if maxImfLine ≤ count then 0 else count) + 1) rest := by
  rw [writeItems.eq_def]
  dsimp only
  rw [if_neg notLF, if_neg notCR]

theorem writeItems_break (isBreak : byte = CR ∨ byte = LF) (rest : List UInt8) :
    writeItems count (byte :: rest) = (if maxImfLine ≤ count then [.inserted] else []) ++ .lineEnd :: writeItems 0 (afterBreak byte rest) := by
  rw [writeItems.eq_def]
  dsimp only
  by_cases isLF : byte = LF
  · have whole : afterBreak byte rest = rest := by
      rw [afterBreak, if_neg fun both => CR_ne_LF (both.1.symm.trans isLF)]
    rw [if_pos isLF, whole]
  · have isCR := isBreak.resolve_right isLF
    rw [if_neg isLF, if_pos isCR]
    cases rest with
    | nil =>
        have whole : afterBreak byte [] = [] := by simp [afterBreak]
        rw [whole, writeItems.eq_def]
    | cons next after =>
        dsimp only
        by_cases paired : next = LF
        · have tail : afterBreak byte (next :: after) = after := by
            rw [afterBreak, if_pos ⟨isCR, congrArg some paired⟩, List.tail_cons]
          rw [if_pos paired, tail]
        · have whole : afterBreak byte (next :: after) = next :: after := by
            rw [afterBreak, if_neg fun both => paired (Option.some.inj both.2)]
          rw [if_neg paired, whole]

end Items

def writeItem (out : Output (List UInt8)) (item : WriteItem) : Output (List UInt8) :=
  { data := out.data ++ item.octets, col := match item with | .octet _ => out.col + 1 | _ => 0 }

theorem writeItem_data (out : Output (List UInt8)) (item : WriteItem) : (writeItem out item).data = out.data ++ item.octets := rfl

theorem foldl_writeItem_data (items : List WriteItem) (out : Output (List UInt8)) :
    (items.foldl writeItem out).data = out.data ++ items.flatMap WriteItem.octets := by
  induction items generalizing out with
  | nil => exact (List.append_nil _).symm
  | cons item items ih => rw [List.foldl_cons, ih, writeItem_data, List.flatMap_cons, List.append_assoc]

theorem cutLine_items (out : Output (List UInt8)) (block : List UInt8) :
    ∃ out' block', cutLine memory out block = some (out', block') ∧
      (if maxImfLine ≤ block.length then [WriteItem.inserted] else []).foldl writeItem
          { data := out.data ++ block, col := out.col + block.length } =
        { data := out'.data ++ block', col := out'.col + block'.length } ∧
      block'.length = if maxImfLine ≤ block.length then 0 else block.length := by
  rw [cutLine]
  split_ifs with full
  · rw [flushLine_memory]
    exact ⟨_, _, rfl, by rw [List.append_nil]; rfl, rfl⟩
  · exact ⟨out, block, rfl, rfl, rfl⟩

theorem stringWriteLoop_items (str : List UInt8) (out : Output (List UInt8)) (block : List UInt8) :
    stringWriteLoop memory out block str =
      some ((writeItems block.length str).foldl writeItem { data := out.data ++ block, col := out.col + block.length }) := by
  induction str using break_induction generalizing out block with
  | nil =>
      rw [stringWriteLoop, flushBuf_memory]
      rfl
  | octet byte rest notCR notLF ih =>
      obtain ⟨out', block', isCut, state, length⟩ := cutLine_items out block
      rw [stringWriteLoop, isCut, Option.bind_some]
      dsimp only
      rw [if_neg notLF, if_neg notCR, ih, writeItems_octet notCR notLF, List.foldl_append, state, List.foldl_cons, List.length_append,
        List.length_singleton, length, writeItem, ← List.append_assoc]
      rfl
  | lineEnd byte rest isBreak ih =>
      obtain ⟨out', block', isCut, state, length⟩ := cutLine_items out block
      have behind := ih { data := out'.data ++ block' ++ [CR, LF], col := 0 } []
      rw [List.append_nil] at behind
      rw [writeItems_break isBreak, List.foldl_append, state, List.foldl_cons]
      refine Eq.trans ?_ behind
      rw [stringWriteLoop, isCut, Option.bind_some]
      simp only [flushLine_memory, Option.bind_some]
      by_cases isLF : byte = LF
      · rw [if_pos isLF, afterBreak, if_neg fun both => CR_ne_LF (both.1.symm.trans isLF)]
      · have isCR := isBreak.resolve_right isLF
        rw [if_neg isLF, if_pos isCR]
        cases rest with
        | nil => simp [afterBreak]
        | cons next after =>
            by_cases paired : next = LF
            · simp [afterBreak, paired, isCR]
            · simp [afterBreak, paired]

theorem mailimfStringWriteDriver_items (out : Output (List UInt8)) (str : List UInt8) :
    mailimfStringWriteDriver memory out str = some ((writeItems 0 str).foldl writeItem out) := by
  have loop := stringWriteLoop_items str out []
  rw [List.append_nil] at loop
  exact loop

theorem runCalls_snoc (calls : List (List UInt8)) (str : List UInt8) :
    runCalls (calls ++ [str]) = (writeItems 0 str).foldl writeItem (runCalls calls) := by
  rw [runCalls, List.foldl_append, List.foldl_cons, List.foldl_nil, mailimfStringWriteDriver_items]
  rfl

theorem runCalls_items (calls : List (List UInt8)) : runCalls calls = (callItems calls).foldl writeItem { data := [], col := 0 } := by
  induction calls using List.reverseRecOn with
  | nil => rfl
  | append_singleton calls str ih =>
      rw [runCalls_snoc, ih, callItems, callItems, List.flatMap_append, List.foldl_append, List.flatMap_singleton]

def WriteItem.Solid : WriteItem → Prop
  | .octet ch => ch ≠ CR ∧ ch ≠ LF
  | _ => True

theorem eq_inserted {item : WriteItem} {count : Nat} (member : item ∈ if maxImfLine ≤ count then [WriteItem.inserted] else []) : item = .inserted := by
  split_ifs at member
  · exact List.mem_singleton.mp member
  · cases member

theorem writeItems_solid (str : List UInt8) (count : Nat) : ∀ item ∈ writeItems count str, item.Solid := by
  induction str using break_induction generalizing count with
  | nil => exact List.forall_mem_nil _
  | octet byte rest notCR notLF ih =>
      intro item member
      rw [writeItems_octet notCR notLF] at member
      rcases List.mem_append.mp member with cut | later
      · rw [eq_inserted cut]
        exact trivial
      · rcases List.mem_cons.mp later with rfl | behind
        · exact ⟨notCR, notLF⟩
        · exact ih _ item behind
  | lineEnd byte rest isBreak ih =>
      intro item member
      rw [writeItems_break isBreak] at member
      rcases List.mem_append.mp member with cut | later
      · rw [eq_inserted cut]
        exact trivial
      · rcases List.mem_cons.mp later with rfl | behind
        · exact trivial
        · exact ih 0 item behind

structure Ruled (out : Output (List UInt8)) (front : List (List UInt8)) (last : List UInt8) : Prop where
  data : out.data = joinLines front ++ last
  frontFree : ∀ line ∈ front, BreakFree line
  lastFree : BreakFree last
  column : last.length = out.col

section Ruled

variable {out : Output (List UInt8)} {front : List (List UInt8)} {last : List UInt8} (ruled : Ruled out front last)

include ruled

theorem Ruled.lines : splitLines out.data = front ++ [last] := by
  rw [ruled.data]
  exact splitLines_joinLines_append ruled.frontFree ruled.lastFree

theorem Ruled.octet {ch : UInt8} (notCR : ch ≠ CR) (notLF : ch ≠ LF) : Ruled (writeItem out (.octet ch)) front (last ++ [ch]) := by
  constructor
  · rw [writeItem_data, ruled.data, List.append_assoc]
    rfl
  · exact ruled.frontFree
  · intro other member
    rcases List.mem_append.mp member with early | late
    · exact ruled.lastFree other early
    · obtain rfl := List.mem_singleton.mp late
      exact ⟨notCR, notLF⟩
  · rw [List.length_append, ruled.column]
    rfl

theorem Ruled.lineEnd {item : WriteItem} (isEnd : item = .lineEnd ∨ item = .inserted) : Ruled (writeItem out item) (front ++ [last]) [] := by
  have octets : item.octets = [CR, LF] := by
    rcases isEnd with rfl | rfl
    · rfl
    · rfl
  constructor
  · rw [writeItem_data, ruled.data, octets, joinLines_append, joinLines_cons, joinLines_nil, List.append_nil, List.append_assoc]
  · intro line member
    rcases List.mem_append.mp member with early | late
    · exact ruled.frontFree line early
    · obtain rfl := List.mem_singleton.mp late
      exact ruled.lastFree
  · exact List.forall_mem_nil _
  · rcases isEnd with rfl | rfl
    · rfl
    · rfl

theorem Ruled.items {items : List WriteItem} (solid : ∀ item ∈ items, item.Solid) : ∃ front last, Ruled (items.foldl writeItem out) front last := by
  induction items generalizing out front last with
  | nil => exact ⟨front, last, ruled⟩
  | cons item items ih =>
      have later := fun other member => solid other (List.mem_cons_of_mem item member)
      cases item with
      | octet ch =>
          have isSolid : ch ≠ CR ∧ ch ≠ LF := solid _ List.mem_cons_self
          exact ih (ruled.octet isSolid.1 isSolid.2) later
      | lineEnd => exact ih (ruled.lineEnd (.inl rfl)) later
      | inserted => exact ih (ruled.lineEnd (.inr rfl)) later

end Ruled

theorem runCalls_ruled (calls : List (List UInt8)) : ∃ front last, Ruled (runCalls calls) front last := by
  have start : Ruled { data := [], col := 0 } [] [] := ⟨rfl, List.forall_mem_nil _, List.forall_mem_nil _, rfl⟩
  rw [runCalls_items]
  apply start.items
  intro item member
  obtain ⟨str, -, inCall⟩ := List.mem_flatMap.mp member
  exact writeItems_solid str 0 item inCall

def BoundedLines (data : List UInt8) : Prop := ∀ line ∈ splitLines data, line.length ≤ maxImfLine

section Bounded

variable {out : Output (List UInt8)} {front : List (List UInt8)} {last : List UInt8} (ruled : Ruled out front last)

include ruled

theorem Ruled.bounded_iff : BoundedLines out.data ↔ (∀ line ∈ front, line.length ≤ maxImfLine) ∧ out.col ≤ maxImfLine := by
  rw [BoundedLines, ruled.lines, List.forall_mem_append, List.forall_mem_singleton, ruled.column]

theorem Ruled.bounded_octet {ch : UInt8} (notCR : ch ≠ CR) (notLF : ch ≠ LF) :
    BoundedLines (writeItem out (.octet ch)).data ↔ BoundedLines out.data ∧ out.col < maxImfLine := by
  rw [(ruled.octet notCR notLF).bounded_iff, ruled.bounded_iff]
  constructor
  · intro ⟨early, fits⟩
    exact ⟨⟨early, Nat.le_of_succ_le fits⟩, fits⟩
  · intro ⟨before, fits⟩
    exact ⟨before.1, fits⟩

theorem Ruled.bounded_lineEnd {item : WriteItem} (isEnd : item = .lineEnd ∨ item = .inserted) :
    BoundedLines (writeItem out item).data ↔ BoundedLines out.data := by
  have next := ruled.lineEnd isEnd
  rw [next.bounded_iff, ruled.bounded_iff, List.forall_mem_append, List.forall_mem_singleton, ruled.column, ← next.column]
  exact and_iff_left (Nat.zero_le _)

end Bounded

theorem openingLine_break {byte : UInt8} (isBreak : byte = CR ∨ byte = LF) (rest : List UInt8) : openingLine (byte :: rest) = [] := by
  rcases isBreak with rfl | rfl
  · rfl
  · rfl

theorem openingLine_octet {byte : UInt8} (notCR : byte ≠ CR) (notLF : byte ≠ LF) (rest : List UInt8) :
    (openingLine (byte :: rest)).length = (openingLine rest).length + 1 := by
  rw [openingLine, List.takeWhile_cons_of_pos (by simp [notCR, notLF])]
  rfl

/-- The line a string begins on gets as long as the string makes it before it is cut. -/
theorem bounded_items {str : List UInt8} {count : Nat} (few : count ≤ maxImfLine) {out : Output (List UInt8)} {front : List (List UInt8)}
    {last : List UInt8} (ruled : Ruled out front last) :
    BoundedLines ((writeItems count str).foldl writeItem out).data ↔
      BoundedLines out.data ∧ out.col + min (openingLine str).length (maxImfLine - count) ≤ maxImfLine := by
  induction str using break_induction generalizing count out front last with
  | nil =>
      rw [writeItems, List.foldl_nil, openingLine, List.takeWhile_nil, List.length_nil, Nat.zero_min, Nat.add_zero]
      exact ⟨fun bounded => ⟨bounded, (ruled.bounded_iff.mp bounded).2⟩, And.left⟩
  | octet byte rest notCR notLF ih =>
      rw [writeItems_octet notCR notLF, List.foldl_append, List.foldl_cons, openingLine_octet notCR notLF]
      split_ifs with full
      · have cut := @Ruled.lineEnd _ _ _ ruled .inserted (.inr rfl)
        have written := cut.octet notCR notLF
        have isCut : (writeItem out .inserted).col = 0 := rfl
        have behind : (writeItem (writeItem out .inserted) (.octet byte)).col = 1 := rfl
        rw [List.foldl_cons, List.foldl_nil, ih (by decide) written, cut.bounded_octet notCR notLF, ruled.bounded_lineEnd (.inr rfl), isCut,
          behind]
        constructor
        · intro holds
          have within := (ruled.bounded_iff.mp holds.1.1).2
          exact ⟨holds.1.1, by omega⟩
        · intro holds
          exact ⟨⟨holds.1, by decide⟩, by rw [maxImfLine]; omega⟩
      · have written := ruled.octet notCR notLF
        have behind : (writeItem out (.octet byte)).col = out.col + 1 := rfl
        rw [List.foldl_nil, ih (by omega) written, ruled.bounded_octet notCR notLF, behind]
        constructor
        · intro holds
          exact ⟨holds.1.1, by omega⟩
        · intro holds
          exact ⟨⟨holds.1, by omega⟩, by omega⟩
  | lineEnd byte rest isBreak ih =>
      have within : BoundedLines out.data → out.col ≤ maxImfLine := fun bounded => (ruled.bounded_iff.mp bounded).2
      have room : ∀ length, 0 + min length (maxImfLine - 0) ≤ maxImfLine := by
        intro length
        omega
      rw [writeItems_break isBreak, List.foldl_append, List.foldl_cons, openingLine_break isBreak, List.length_nil, Nat.zero_min, Nat.add_zero,
        and_iff_left_of_imp within]
      split_ifs with full
      · have cut := @Ruled.lineEnd _ _ _ ruled .inserted (.inr rfl)
        have ended := @Ruled.lineEnd _ _ _ cut .lineEnd (.inl rfl)
        rw [List.foldl_cons, List.foldl_nil, ih (Nat.zero_le _) ended, cut.bounded_lineEnd (.inl rfl), ruled.bounded_lineEnd (.inr rfl)]
        exact and_iff_left (room _)
      · have ended := @Ruled.lineEnd _ _ _ ruled .lineEnd (.inl rfl)
        rw [List.foldl_nil, ih (Nat.zero_le _) ended, ruled.bounded_lineEnd (.inl rfl)]
        exact and_iff_left (room _)

theorem crlfBreaks_break {byte : UInt8} (isBreak : byte = CR ∨ byte = LF) (rest : List UInt8) :
    crlfBreaks (byte :: rest) = CR :: LF :: crlfBreaks (afterBreak byte rest) := by
  rw [crlfBreaks, crlfBreaksFrom, crlfBreaks]
  by_cases isLF : byte = LF
  · rw [if_pos isLF, if_neg Bool.false_ne_true, afterBreak, if_neg fun both => CR_ne_LF (both.1.symm.trans isLF)]
  · have isCR := isBreak.resolve_right isLF
    rw [if_neg isLF, if_pos isCR, afterBreak]
    cases rest with
    | nil => simp [crlfBreaksFrom]
    | cons next after =>
        by_cases paired : next = LF
        · simp [crlfBreaksFrom, paired, isCR]
        · simp [crlfBreaksFrom, paired]

theorem crlfBreaks_octet {byte : UInt8} (notCR : byte ≠ CR) (notLF : byte ≠ LF) (rest : List UInt8) :
    crlfBreaks (byte :: rest) = byte :: crlfBreaks rest := by
  rw [crlfBreaks, crlfBreaksFrom, if_neg notLF, if_neg notCR, crlfBreaks]

theorem keptOctets_append (items more : List WriteItem) : keptOctets (items ++ more) = keptOctets items ++ keptOctets more := by
  rw [keptOctets, List.filter_append, List.flatMap_append, keptOctets, keptOctets]

theorem keptOctets_cut (count : Nat) : keptOctets (if maxImfLine ≤ count then [.inserted] else []) = [] := by
  split_ifs
  · rfl
  · rfl

theorem keptOctets_writeItems (str : List UInt8) (count : Nat) : keptOctets (writeItems count str) = crlfBreaks str := by
  induction str using break_induction generalizing count with
  | nil => rfl
  | octet byte rest notCR notLF ih =>
      rw [writeItems_octet notCR notLF, crlfBreaks_octet notCR notLF, keptOctets_append, keptOctets_cut, List.nil_append, ← ih]
      rfl
  | lineEnd byte rest isBreak ih =>
      rw [writeItems_break isBreak, crlfBreaks_break isBreak, keptOctets_append, keptOctets_cut, List.nil_append, ← ih 0]
      rfl

theorem crlfBreaksFrom_append (afterCR : Bool) (text more : List UInt8) :
    crlfBreaksFrom afterCR (text ++ more) =
      crlfBreaksFrom afterCR text ++ crlfBreaksFrom (if text = [] then afterCR else text.getLast? = some CR) more := by
  induction text generalizing afterCR with
  | nil => rfl
  | cons byte text ih =>
      have last : ∀ after : Bool, (after = decide (byte = CR)) →
          (if text = [] then after else decide (text.getLast? = some CR)) = decide ((byte :: text).getLast? = some CR) := by
        intro after isAfter
        cases text with
        | nil => simp [isAfter]
        | cons other text => simp
      rw [List.cons_append, if_neg (List.cons_ne_nil _ _), crlfBreaksFrom, crlfBreaksFrom]
      split_ifs with isLF after isCR
      · rw [ih, last false (by simp [isLF])]
      · rw [ih, last false (by simp [isLF]), List.cons_append, List.cons_append]
      · rw [ih, last true (by simp [isCR]), List.cons_append, List.cons_append]
      · rw [ih, last false (by simp [isCR]), List.cons_append]

theorem crlfBreaksFrom_true (str : List UInt8) : crlfBreaks str = crlfBreaksFrom true str ↔ str.head? ≠ some LF := by
  cases str with
  | nil => exact iff_of_true rfl (by simp)
  | cons byte rest =>
      rw [crlfBreaks, crlfBreaksFrom, crlfBreaksFrom, List.head?_cons]
      by_cases isLF : byte = LF
      · rw [if_pos isLF, if_pos isLF, if_neg Bool.false_ne_true, if_pos rfl]
        refine iff_of_false (fun same => ?_) (by simp [isLF])
        have longer := congrArg List.length same
        rw [List.length_cons, List.length_cons] at longer
        omega
      · rw [if_neg isLF, if_neg isLF]
        exact iff_of_true rfl fun same => isLF (Option.some.inj same)

theorem kept_snoc {calls : List (List UInt8)} (kept : keptOctets (callItems calls) = crlfBreaks calls.flatten) (str : List UInt8) :
    keptOctets (callItems (calls ++ [str])) = crlfBreaks (calls ++ [str]).flatten ↔
      ¬ (calls.flatten.getLast? = some CR ∧ str.head? = some LF) := by
  have flag : (if calls.flatten = [] then false else decide (calls.flatten.getLast? = some CR)) = decide (calls.flatten.getLast? = some CR) := by
    split_ifs with isEmpty
    · simp [isEmpty]
    · rfl
  have joined : crlfBreaks (calls.flatten ++ str) = crlfBreaks calls.flatten ++ crlfBreaksFrom (calls.flatten.getLast? = some CR) str := by
    rw [crlfBreaks, crlfBreaksFrom_append, flag, crlfBreaks]
  rw [callItems, List.flatMap_append, List.flatMap_singleton, ← callItems, keptOctets_append, kept, keptOctets_writeItems, List.flatten_append,
    List.flatten_singleton, joined, List.append_cancel_left_eq]
  by_cases endsCR : calls.flatten.getLast? = some CR
  · rw [decide_eq_true endsCR, crlfBreaksFrom_true]
    simp only [endsCR, true_and, ne_eq]
  · rw [decide_eq_false endsCR]
    exact iff_of_true rfl fun both => endsCR both.1

/-- The column, the breaks and the items are right in every run. -/
theorem tracksLines_iff (calls : List (List UInt8)) :
    TracksLines calls ↔ BoundedLines (runCalls calls).data ∧ keptOctets (callItems calls) = crlfBreaks calls.flatten := by
  constructor
  · intro tracks
    exact ⟨tracks.bounded, tracks.kept⟩
  · intro ⟨bounded, kept⟩
    obtain ⟨front, last, ruled⟩ := runCalls_ruled calls
    constructor
    · rw [runCalls_items, foldl_writeItem_data, List.nil_append]
    · rw [ruled.lines, List.getLastD_concat, ruled.column]
    · rw [crlfBreaks, ← separateLines_splitLinesFrom, ← splitLines, ruled.lines, separateLines_append (List.cons_ne_nil _ _), ruled.data]
      rfl
    · exact bounded
    · exact kept

theorem tracksLines_snoc {calls : List (List UInt8)} (tracks : TracksLines calls) (str : List UInt8) :
    TracksLines (calls ++ [str]) ↔ CallFits calls str := by
  obtain ⟨front, last, ruled⟩ := runCalls_ruled calls
  rw [tracksLines_iff, kept_snoc tracks.kept, runCalls_snoc, bounded_items (Nat.zero_le _) ruled, CallFits, Nat.sub_zero]
  exact and_congr_left fun _ => and_iff_right tracks.bounded

theorem tracksLines_nil : TracksLines [] := by
  rw [tracksLines_iff]
  refine ⟨fun line member => ?_, rfl⟩
  obtain rfl := List.mem_singleton.mp member
  exact Nat.zero_le _

/-- The lines are tracked after every call of a run exactly if every call fits. -/
theorem mailimfStringWriteDriver_tracks (calls : List (List UInt8)) :
    (∀ front, front <+: calls → TracksLines front) ↔ ∀ front str, front ++ [str] <+: calls → CallFits front str := by
  constructor
  · intro tracks front str isPrefix
    have earlier := tracks front ((List.prefix_append front [str]).trans isPrefix)
    exact (tracksLines_snoc earlier str).mp (tracks _ isPrefix)
  · intro fits front
    induction front using List.reverseRecOn with
    | nil => exact fun _ => tracksLines_nil
    | append_singleton front str ih =>
        intro isPrefix
        have earlier := ih ((List.prefix_append front [str]).trans isPrefix)
        exact (tracksLines_snoc earlier str).mpr (fits front str isPrefix)

/-- A line that two calls write is not cut, and a CRLF that is parted by two calls becomes two. -/
theorem mailimfStringWriteDriver_loses :
    ¬ TracksLines [List.replicate 600 (ascii 'x'), List.replicate 600 (ascii 'x')] ∧ ¬ TracksLines [[CR], [LF]] := by
  constructor
  · intro tracks
    have notBreak : ascii 'x' ≠ CR ∧ ascii 'x' ≠ LF := by decide
    have free : BreakFree (List.replicate 600 (ascii 'x')) := by
      intro ch member
      rw [List.eq_of_mem_replicate member]
      exact notBreak
    have first : runCalls [List.replicate 600 (ascii 'x')] = { data := List.replicate 600 (ascii 'x'), col := 600 } := by
      rw [runCalls, List.foldl_cons, List.foldl_nil, mailimfStringWriteDriver_breakFree free (List.length_replicate.trans_le (by decide)),
        Option.getD_some, List.length_replicate, List.nil_append]
    have opening : (openingLine (List.replicate 600 (ascii 'x'))).length = 600 := by
      rw [openingLine, List.takeWhile_replicate, if_pos (by simp [notBreak]), List.length_replicate]
    obtain ⟨front, last, ruled⟩ := runCalls_ruled [List.replicate 600 (ascii 'x')]
    have bounded := tracks.bounded
    rw [← BoundedLines, ← List.singleton_append, runCalls_snoc, bounded_items (Nat.zero_le _) ruled, first, opening] at bounded
    exact absurd bounded.2 (by decide)
  · intro tracks
    have kept : keptOctets (callItems [[CR]]) = crlfBreaks [[CR]].flatten := rfl
    exact (kept_snoc kept [LF]).mp tracks.kept ⟨rfl, rfl⟩

end Etpan.Imf
