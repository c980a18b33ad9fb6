import Etpan.Imf.StringWrite

namespace Etpan.Imf

open Etpan.Data

/-! What `mailimf_string_write_driver` writes of a text of any kind: its lines, ended
by CRLF and cut where they get too long. -/

def cutFrom (block : List UInt8) : List UInt8 → List (List UInt8)
  | [] => [block]
  | byte :: rest =>
      if maxImfLine ≤ block.length then block :: cutFrom [byte] rest else cutFrom (block ++ [byte]) rest

/-- The break after a full line cuts it too, so that an empty line follows. -/
def endLine (pieces : List (List UInt8)) : List (List UInt8) :=
  if maxImfLine ≤ (pieces.getLastD []).length then pieces ++ [[]] else pieces

def brokenLines : List (List UInt8) → List (List UInt8)
  | [] => []
  | [last] => cutFrom [] last
  | line :: lines => endLine (cutFrom [] line) ++ brokenLines lines

def writtenText (text : List UInt8) : List UInt8 :=
  separateLines (brokenLines (splitLines text))

theorem cutFrom_ne_nil (block line : List UInt8) : cutFrom block line ≠ [] := by
  induction line generalizing block with
  | nil => simp [cutFrom]
  | cons byte line ih =>
      rw [cutFrom]
      split
      · simp
      · exact ih (block ++ [byte])

theorem cutFrom_short {block line : List UInt8} (short : block.length + line.length ≤ maxImfLine) :
    cutFrom block line = [block ++ line] := by
  induction line generalizing block with
  | nil => simp [cutFrom]
  | cons byte line ih =>
      rw [List.length_cons] at short
      have open' : ¬ maxImfLine ≤ block.length := by omega
      rw [cutFrom, if_neg open', ih (by simp; omega)]
      simp

theorem cutFrom_length {block line : List UInt8} (started : block.length ≤ maxImfLine) :
    ∀ piece ∈ cutFrom block line, piece.length ≤ maxImfLine := by
  induction line generalizing block with
  | nil => simpa [cutFrom] using started
  | cons byte line ih =>
      rw [cutFrom]
      split
      · intro piece member
        rcases List.mem_cons.mp member with rfl | later
        · exact started
        · exact ih (by simp [maxImfLine]) piece later
      · exact ih (by simp; omega)

theorem cutFrom_breakFree {block line : List UInt8} (blockFree : BreakFree block) (free : BreakFree line) :
    ∀ piece ∈ cutFrom block line, BreakFree piece := by
  induction line generalizing block with
  | nil => simpa [cutFrom] using blockFree
  | cons byte line ih =>
      have this := free byte (by simp)
      have tailFree : BreakFree line := fun other member => free other (by simp [member])
      have single : BreakFree [byte] := BreakFree.cons this.1 this.2 (by simp [BreakFree])
      rw [cutFrom]
      split
      · intro piece member
        rcases List.mem_cons.mp member with rfl | later
        · exact blockFree
        · exact ih single tailFree piece later
      · apply ih _ tailFree
        intro other member
        rcases List.mem_append.mp member with early | late
        · exact blockFree other early
        · exact single other late

theorem endLine_ne_nil {pieces : List (List UInt8)} (nonempty : pieces ≠ []) : endLine pieces ≠ [] := by
  rw [endLine]
  split
  · simp
  · exact nonempty

theorem mem_endLine {pieces : List (List UInt8)} {piece : List UInt8} (member : piece ∈ endLine pieces) :
    piece ∈ pieces ∨ piece = [] := by
  rw [endLine] at member
  split at member
  · simpa using member
  · exact .inl member

theorem endLine_short {line : List UInt8} (short : line.length < maxImfLine) : endLine [line] = [line] := by
  rw [endLine, if_neg]
  simpa using short

theorem brokenLines_cons {lines : List (List UInt8)} (nonempty : lines ≠ []) (line : List UInt8) :
    brokenLines (line :: lines) = endLine (cutFrom [] line) ++ brokenLines lines := by
  obtain ⟨next, lines, rfl⟩ := List.exists_cons_of_ne_nil nonempty
  rfl

theorem brokenLines_ne_nil {lines : List (List UInt8)} (nonempty : lines ≠ []) : brokenLines lines ≠ [] := by
  cases lines with
  | nil => contradiction
  | cons line lines =>
      cases lines with
      | nil => exact cutFrom_ne_nil [] line
      | cons next lines =>
          rw [brokenLines_cons (by simp)]
          intro empty
          exact endLine_ne_nil (cutFrom_ne_nil [] line) (List.append_eq_nil_iff.mp empty).1

theorem mem_brokenLines {lines : List (List UInt8)} {piece : List UInt8} (member : piece ∈ brokenLines lines) :
    (∃ line ∈ lines, piece ∈ cutFrom [] line) ∨ piece = [] := by
  induction lines with
  | nil => simp [brokenLines] at member
  | cons line lines ih =>
      cases lines with
      | nil => exact .inl ⟨line, by simp, member⟩
      | cons next lines =>
          rw [brokenLines_cons (by simp)] at member
          rcases List.mem_append.mp member with early | late
          · rcases mem_endLine early with inside | empty
            · exact .inl ⟨line, by simp, inside⟩
            · exact .inr empty
          · rcases ih late with ⟨other, isLine, inside⟩ | empty
            · exact .inl ⟨other, List.mem_cons_of_mem _ isLine, inside⟩
            · exact .inr empty

theorem brokenLines_breakFree {lines : List (List UInt8)} (free : ∀ line ∈ lines, BreakFree line) :
    ∀ piece ∈ brokenLines lines, BreakFree piece := by
  have empty : BreakFree [] := by simp [BreakFree]
  intro piece member
  rcases mem_brokenLines member with ⟨line, isLine, inside⟩ | rfl
  · exact cutFrom_breakFree empty (free line isLine) piece inside
  · exact empty

theorem brokenLines_bounded (lines : List (List UInt8)) : ∀ piece ∈ brokenLines lines, piece.length ≤ maxImfLine := by
  intro piece member
  rcases mem_brokenLines member with ⟨line, -, inside⟩ | rfl
  · exact cutFrom_length (by simp) piece inside
  · simp

theorem endLine_cons {pieces : List (List UInt8)} (nonempty : pieces ≠ []) (block : List UInt8) :
    endLine (block :: pieces) = block :: endLine pieces := by
  obtain ⟨front, last, rfl⟩ : ∃ (front : List (List UInt8)) (last : List UInt8), pieces = front.concat last := by
    rcases List.eq_nil_or_concat pieces with empty | ⟨front, last, spelled⟩
    · contradiction
    · exact ⟨front, last, spelled⟩
  have lastOf : (block :: front.concat last).getLastD [] = (front.concat last).getLastD [] := by
    simp [List.getLastD_eq_getLast?, List.getLast?_cons]
  rw [endLine, endLine, lastOf]
  split <;> rfl

theorem stringWriteLoop_open {line : List UInt8} (free : BreakFree line) (out : Output (List UInt8))
    (block : List UInt8) :
    ∃ col, stringWriteLoop memory out block line =
      some { data := out.data ++ separateLines (cutFrom block line), col } := by
  induction line generalizing out block with
  | nil => exact ⟨_, by simp [stringWriteLoop, cutFrom, separateLines]; rfl⟩
  | cons byte line ih =>
      obtain ⟨notCR, notLF⟩ := free byte (by simp)
      have tailFree : BreakFree line := fun other member => free other (by simp [member])
      rw [stringWriteLoop, cutFrom, cutLine]
      split
      · obtain ⟨col, ran⟩ := ih tailFree { data := out.data ++ block ++ [CR, LF], col := 0 } [byte]
        refine ⟨col, ?_⟩
        rw [separateLines_cons (cutFrom_ne_nil _ _)]
        simpa [notCR, notLF] using ran
      · obtain ⟨col, ran⟩ := ih tailFree out (block ++ [byte])
        refine ⟨col, ?_⟩
        simpa [notCR, notLF] using ran

def afterBreak (byte : UInt8) (rest : List UInt8) : List UInt8 :=
  if byte = CR ∧ rest.head? = some LF then rest.tail else rest

theorem stringWriteLoop_break {line : List UInt8} (free : BreakFree line) {byte : UInt8}
    (isBreak : byte = CR ∨ byte = LF) (out : Output (List UInt8)) (block rest : List UInt8) :
    stringWriteLoop memory out block (line ++ byte :: rest) =
      stringWriteLoop memory { data := out.data ++ joinLines (endLine (cutFrom block line)), col := 0 } []
        (afterBreak byte rest) := by
  induction line generalizing out block with
  | nil =>
      have written : ∀ out' block', cutLine memory out block = some (out', block') →
          out'.data ++ block' ++ [CR, LF] = out.data ++ joinLines (endLine (cutFrom block [])) := by
        intro out' block' cut
        rw [cutLine] at cut
        rw [cutFrom, endLine]
        split at cut
        · next full =>
            simp only [flushLine_memory, Option.map_some, Option.some.injEq, Prod.mk.injEq] at cut
            obtain ⟨rfl, rfl⟩ := cut
            simp [full]
        · next short =>
            simp only [Option.some.injEq, Prod.mk.injEq] at cut
            obtain ⟨rfl, rfl⟩ := cut
            simp [short]
      obtain ⟨out', block', cut⟩ : ∃ out' block', cutLine memory out block = some (out', block') := by
        rw [cutLine]
        split
        · exact ⟨_, _, by rw [flushLine_memory]; rfl⟩
        · exact ⟨_, _, rfl⟩
      rw [List.nil_append, stringWriteLoop, cut, Option.bind_some, ← written out' block' cut]
      simp only [flushLine_memory, Option.bind_some]
      rcases isBreak with rfl | rfl
      · rw [if_neg (by decide), if_pos rfl]
        cases rest with
        | nil => simp [afterBreak]
        | cons next rest =>
            by_cases paired : next = LF
            · simp [afterBreak, paired]
            · simp [afterBreak, paired]
      · simp [afterBreak]
  | cons first line ih =>
      obtain ⟨notCR, notLF⟩ := free first (by simp)
      have tailFree : BreakFree line := fun other member => free other (by simp [member])
      rw [List.cons_append, stringWriteLoop, cutFrom, cutLine]
      split
      · rw [endLine_cons (cutFrom_ne_nil _ _)]
        have tail := ih tailFree { data := out.data ++ block ++ [CR, LF], col := 0 } [first]
        simpa [notCR, notLF] using tail
      · have tail := ih tailFree out (block ++ [first])
        simpa [notCR, notLF] using tail

theorem splitLines_cases (text : List UInt8) :
    BreakFree text ∧ splitLines text = [text] ∨
    ∃ line byte rest, BreakFree line ∧ (byte = CR ∨ byte = LF) ∧ text = line ++ byte :: rest ∧
      splitLines text = line :: splitLines (afterBreak byte rest) := by
  have parted : BreakFree text ∨
      ∃ line byte rest, BreakFree line ∧ (byte = CR ∨ byte = LF) ∧ text = line ++ byte :: rest := by
    induction text with
    | nil => exact .inl (by simp [BreakFree])
    | cons first text ih =>
        by_cases isBreak : first = CR ∨ first = LF
        · exact .inr ⟨[], first, text, by simp [BreakFree], isBreak, rfl⟩
        · have notBreak := not_or.mp isBreak
          rcases ih with free | ⟨line, byte, rest, free, isBreak, rfl⟩
          · exact .inl (free.cons notBreak.1 notBreak.2)
          · exact .inr ⟨first :: line, byte, rest, free.cons notBreak.1 notBreak.2, isBreak, rfl⟩
  rcases parted with free | ⟨line, byte, rest, free, isBreak, rfl⟩
  · exact .inl ⟨free, splitLinesFrom_of_breakFree free false⟩
  · refine .inr ⟨line, byte, rest, free, isBreak, rfl, ?_⟩
    rw [splitLines, splitLinesFrom_append free false isBreak (.inr rfl), splitLines, afterBreak]
    rcases isBreak with rfl | rfl
    · by_cases paired : rest.head? = some LF
      · obtain ⟨rest, rfl⟩ := List.head?_eq_some_iff.mp paired
        simp [splitLinesFrom_afterCR]
      · simp [paired, splitLinesFrom_true paired]
    · simp

theorem afterBreak_length (byte : UInt8) (rest : List UInt8) : (afterBreak byte rest).length ≤ rest.length := by
  rw [afterBreak]
  split
  · simp
  · exact Nat.le_refl _

theorem separateLines_append {left right : List (List UInt8)} (nonempty : right ≠ []) :
    separateLines (left ++ right) = joinLines left ++ separateLines right := by
  induction left with
  | nil => rfl
  | cons line left ih =>
      rw [List.cons_append, separateLines_cons (by simp [nonempty]), ih, joinLines_cons]
      simp

theorem stringWriteLoop_written (out : Output (List UInt8)) (text : List UInt8) :
    ∃ col, stringWriteLoop memory out [] text = some { data := out.data ++ writtenText text, col } := by
  generalize size : text.length = count
  induction count using Nat.strongRecOn generalizing out text with
  | ind count ih =>
      rcases splitLines_cases text with ⟨free, single⟩ | ⟨line, byte, rest, free, isBreak, rfl, lines⟩
      · rw [writtenText, single]
        exact stringWriteLoop_open free out []
      · have shorter : (afterBreak byte rest).length < count := by
          have bound := afterBreak_length byte rest
          rw [← size, List.length_append, List.length_cons]
          omega
        obtain ⟨col, ran⟩ := ih _ shorter
          { data := out.data ++ joinLines (endLine (cutFrom [] line)), col := 0 } (afterBreak byte rest) rfl
        have more := splitLines_ne_nil (afterBreak byte rest)
        refine ⟨col, ?_⟩
        rw [stringWriteLoop_break free isBreak, ran, writtenText, writtenText, lines, brokenLines_cons more,
          separateLines_append (brokenLines_ne_nil more), List.append_assoc]

/-- In memory, the driver writes the lines of the text. -/
theorem mailimfStringWriteDriver_written (out : Output (List UInt8)) (text : List UInt8) :
    ∃ col, mailimfStringWriteDriver memory out text = some { data := out.data ++ writtenText text, col } :=
  stringWriteLoop_written out text

def ShortLines : List (List UInt8) → Prop
  | [] => True
  | [last] => last.length ≤ maxImfLine
  | line :: lines => line.length < maxImfLine ∧ ShortLines lines

theorem shortLines_cons {lines : List (List UInt8)} (nonempty : lines ≠ []) (line : List UInt8) :
    ShortLines (line :: lines) ↔ line.length < maxImfLine ∧ ShortLines lines := by
  obtain ⟨next, lines, rfl⟩ := List.exists_cons_of_ne_nil nonempty
  rfl

theorem brokenLines_short {lines : List (List UInt8)} (short : ShortLines lines) : brokenLines lines = lines := by
  induction lines with
  | nil => rfl
  | cons line lines ih =>
      cases lines with
      | nil =>
          have fits : line.length ≤ maxImfLine := short
          exact cutFrom_short (by simpa using fits)
      | cons next lines =>
          rw [shortLines_cons (by simp)] at short
          rw [brokenLines_cons (by simp), ih short.2, cutFrom_short (by simpa using short.1.le), List.nil_append,
            endLine_short short.1, List.singleton_append]

theorem endLine_cutFrom_cases (line : List UInt8) :
    line.length < maxImfLine ∧ endLine (cutFrom [] line) = [line] ∨
    line.length = maxImfLine ∧ endLine (cutFrom [] line) = [line, []] ∨
    maxImfLine < line.length ∧ line ∉ endLine (cutFrom [] line) := by
  rcases Nat.lt_trichotomy line.length maxImfLine with short | full | long
  · left
    rw [cutFrom_short (by simpa using short.le), List.nil_append, endLine_short short]
    exact ⟨short, rfl⟩
  · right; left
    rw [cutFrom_short (by simpa using full.le), List.nil_append, endLine]
    simp [full]
  · right; right
    refine ⟨long, fun member => ?_⟩
    rcases mem_endLine member with piece | empty
    · have bound := cutFrom_length (by simp) line piece
      omega
    · simp [empty] at long

theorem brokenLines_length (lines : List (List UInt8)) : lines.length ≤ (brokenLines lines).length := by
  induction lines with
  | nil => simp
  | cons line lines ih =>
      cases lines with
      | nil => exact List.length_pos_iff.mpr (cutFrom_ne_nil [] line)
      | cons next lines =>
          have some := List.length_pos_iff.mpr (endLine_ne_nil (cutFrom_ne_nil [] line))
          rw [brokenLines_cons (by simp), List.length_append, List.length_cons]
          omega

theorem shortLines_of_fixed {lines : List (List UInt8)} (fixed : brokenLines lines = lines) : ShortLines lines := by
  induction lines with
  | nil => trivial
  | cons line lines ih =>
      cases lines with
      | nil =>
          have member : line ∈ cutFrom [] line := by
            rw [show cutFrom [] line = [line] from fixed]
            simp
          exact cutFrom_length (by simp) line member
      | cons next lines =>
          rw [brokenLines_cons (by simp)] at fixed
          have many := brokenLines_length (next :: lines)
          have total := congrArg List.length fixed
          rw [List.length_append, List.length_cons] at total
          rw [shortLines_cons (by simp)]
          rcases endLine_cutFrom_cases line with ⟨short, one⟩ | ⟨-, two⟩ | ⟨-, absent⟩
          · rw [one, List.singleton_append, List.cons.injEq] at fixed
            exact ⟨short, ih fixed.2⟩
          · rw [two] at total
            simp only [List.length_cons, List.length_nil] at total many
            omega
          · obtain ⟨first, pieces, spelled⟩ :=
              List.exists_cons_of_ne_nil (endLine_ne_nil (cutFrom_ne_nil [] line))
            rw [spelled, List.cons_append, List.cons.injEq] at fixed
            rw [spelled, fixed.1] at absent
            simp at absent

/-- Cutting moves no line of a text to a later place. -/
theorem brokenLines_front {lines front : List (List UInt8)} (nonempty : lines ≠ [])
    (shifted : brokenLines lines = front ++ lines) : front = [] := by
  induction lines generalizing front with
  | nil => contradiction
  | cons line lines ih =>
      cases front with
      | nil => rfl
      | cons first front =>
          exfalso
          have member : line ∈ brokenLines (line :: lines) := by simp [shifted]
          cases lines with
          | nil =>
              have short := cutFrom_length (by simp) line member
              rw [brokenLines, cutFrom_short (by simpa using short)] at shifted
              simp at shifted
          | cons next lines =>
              -- one line of the text is passed, and with it one line of the front
              have passed : ∀ front', brokenLines (next :: lines) = front' ++ line :: next :: lines → False := by
                intro front' rest
                have joined : brokenLines (next :: lines) = (front' ++ [line]) ++ next :: lines := by simp [rest]
                simpa using ih (by simp) joined
              rw [brokenLines_cons (by simp)] at shifted
              rcases endLine_cutFrom_cases line with ⟨-, one⟩ | ⟨full, two⟩ | ⟨long, -⟩
              · rw [one] at shifted
                simp only [List.cons_append, List.nil_append, List.cons.injEq] at shifted
                exact passed front shifted.2
              · rw [two] at shifted
                simp only [List.cons_append, List.nil_append, List.cons.injEq] at shifted
                cases front with
                | nil =>
                    have empty := (List.cons.inj shifted.2).1
                    simp [← empty, maxImfLine] at full
                | cons second front =>
                    simp only [List.cons_append, List.cons.injEq] at shifted
                    exact passed front shifted.2.2
              · have short := brokenLines_bounded _ line member
                omega

theorem brokenLines_filter {lines : List (List UInt8)} (bounded : ∀ line ∈ lines, line.length ≤ maxImfLine) :
    (brokenLines lines).filter (· ≠ []) = lines.filter (· ≠ []) := by
  induction lines with
  | nil => rfl
  | cons line lines ih =>
      have fits := bounded line (by simp)
      have rest := ih (fun other member => bounded other (by simp [member]))
      cases lines with
      | nil => rw [brokenLines, cutFrom_short (by simpa using fits), List.nil_append]
      | cons next lines =>
          rw [brokenLines_cons (by simp), List.filter_append, rest]
          rcases endLine_cutFrom_cases line with ⟨-, one⟩ | ⟨-, two⟩ | ⟨long, -⟩
          · rw [one, ← List.filter_append, List.singleton_append]
          · rw [two, ← List.singleton_append (l := next :: lines), List.filter_append]
            simp [List.filter_cons]
          · omega

theorem brokenLines_leftover {earlier later : List (List UInt8)} {line : List UInt8} (notEmpty : line ≠ [])
    {rest : List (List UInt8)} (few : rest = [] ∨ ∃ other, rest = [other] ∧ other.length ≤ maxImfLine ∧ other ≠ line)
    (broken : brokenLines (earlier ++ rest) = earlier ++ line :: later) : False := by
  have fits : ∀ other ∈ earlier ++ rest, other.length ≤ maxImfLine := by
    intro other member
    rcases List.mem_append.mp member with early | late
    · exact brokenLines_bounded _ other (broken ▸ List.mem_append_left _ early)
    · rcases few with rfl | ⟨single, rfl, short, -⟩
      · simp at late
      · have same : other = single := by simpa using late
        exact same ▸ short
  have same := brokenLines_filter fits
  rw [broken, List.filter_append, List.filter_append, List.append_cancel_left_eq,
    List.filter_cons, if_pos (by simp [notEmpty])] at same
  rcases few with rfl | ⟨other, rfl, -, different⟩
  · simp at same
  · by_cases blank : other = []
    · simp [blank] at same
    · rw [List.filter_cons, if_pos (by simp [blank])] at same
      exact different (List.cons.inj same).1.symm

def KeptText (text : List UInt8) : Prop :=
  crlfBreaks text = text ∧ ShortLines (splitLines text)

theorem splitLines_separateLines {lines : List (List UInt8)} (nonempty : lines ≠ [])
    (free : ∀ line ∈ lines, BreakFree line) : splitLines (separateLines lines) = lines := by
  rcases List.eq_nil_or_concat lines with rfl | ⟨front, last, rfl⟩
  · contradiction
  · rw [List.concat_eq_append] at free ⊢
    rw [separateLines_append (by simp)]
    exact splitLines_joinLines_append (fun line member => free line (by simp [member])) (free last (by simp))

theorem splitLines_writtenText (text : List UInt8) :
    splitLines (writtenText text) = brokenLines (splitLines text) :=
  splitLines_separateLines (brokenLines_ne_nil (splitLines_ne_nil text))
    (brokenLines_breakFree (splitLines_breakFree text))

theorem writtenText_eq_self_iff (text : List UInt8) : writtenText text = text ↔ KeptText text := by
  have spelled : separateLines (splitLines text) = crlfBreaks text := separateLines_splitLinesFrom false text
  constructor
  · intro kept
    have fixed : brokenLines (splitLines text) = splitLines text := by
      rw [← splitLines_writtenText, kept]
    constructor
    · rw [← spelled, ← fixed]
      exact kept
    · exact shortLines_of_fixed fixed
  · rintro ⟨breaks, short⟩
    rw [writtenText, brokenLines_short short, spelled, breaks]

theorem crlfBreaksFrom_length (afterCR : Bool) (text : List UInt8) :
    text.length ≤ (crlfBreaksFrom afterCR text).length + (if afterCR then 1 else 0) := by
  induction text generalizing afterCR with
  | nil => simp
  | cons byte text ih =>
      have plain := ih false
      have pending := ih true
      simp only [Bool.false_eq_true, if_false, if_true] at plain pending
      rw [crlfBreaksFrom, List.length_cons]
      split
      · cases afterCR with
        | true => simp; omega
        | false => simp; omega
      split
      · simp; omega
      · simp; omega

theorem cutFrom_size (block line : List UInt8) :
    block.length + line.length ≤ (separateLines (cutFrom block line)).length := by
  induction line generalizing block with
  | nil => simp [cutFrom, separateLines]
  | cons byte line ih =>
      rw [cutFrom]
      split
      · have rest := ih [byte]
        rw [separateLines_cons (cutFrom_ne_nil _ _)]
        simp only [List.length_append, List.length_cons, List.length_nil] at rest ⊢
        omega
      · have rest := ih (block ++ [byte])
        simp only [List.length_append, List.length_cons, List.length_nil] at rest ⊢
        omega

theorem endLine_size (line : List UInt8) : line.length + 2 ≤ (joinLines (endLine (cutFrom [] line))).length := by
  have pieces := cutFrom_size [] line
  have joined := congrArg List.length (separateLines_append_crlf (cutFrom_ne_nil [] line))
  rw [List.length_append] at joined
  simp only [List.length_nil, List.length_cons] at pieces joined
  rw [endLine]
  split
  · rw [joinLines_append, List.length_append]
    omega
  · omega

theorem brokenLines_size (lines : List (List UInt8)) :
    (separateLines lines).length ≤ (separateLines (brokenLines lines)).length := by
  induction lines with
  | nil => simp [brokenLines]
  | cons line lines ih =>
      cases lines with
      | nil =>
          have size := cutFrom_size [] line
          rw [List.length_nil, Nat.zero_add] at size
          exact size
      | cons next lines =>
          have ended := endLine_size line
          rw [separateLines_cons (by simp), brokenLines_cons (by simp),
            separateLines_append (brokenLines_ne_nil (by simp))]
          simp only [List.length_append, List.length_cons] at ended ⊢
          omega

theorem writtenText_length (text : List UInt8) : text.length ≤ (writtenText text).length := by
  have breaks := crlfBreaksFrom_length false text
  have cut := brokenLines_size (splitLines text)
  rw [splitLines, separateLines_splitLinesFrom] at cut
  simp only [Bool.false_eq_true, if_false] at breaks
  exact breaks.trans cut

end Etpan.Imf
