import Etpan.Data.Bytes

namespace Etpan.Data

/-! Text as lines.

A break is CRLF, a lone CR or a lone LF; a text with `n` breaks has `n + 1`
lines, the last of which may be empty.  `joinLines` is the canonical spelling:
each line followed by CRLF. -/

def BreakFree (line : List UInt8) : Prop :=
  ∀ byte ∈ line, byte ≠ CR ∧ byte ≠ LF

instance (line : List UInt8) : Decidable (BreakFree line) :=
  List.decidableBAll (fun byte => byte ≠ CR ∧ byte ≠ LF) line

def joinLines (lines : List (List UInt8)) : List UInt8 :=
  lines.flatMap (fun line => line ++ [CR, LF])

def consHead (byte : UInt8) : List (List UInt8) → List (List UInt8)
  | [] => [[byte]]
  | line :: lines => (byte :: line) :: lines

/-- The lines of a text; `afterCR` says that a CR was just read, so that an LF
belongs to its break. -/
def splitLinesFrom (afterCR : Bool) : List UInt8 → List (List UInt8)
  | [] => [[]]
  | byte :: rest =>
      if byte = LF then
        if afterCR then splitLinesFrom false rest else [] :: splitLinesFrom false rest
      else if byte = CR then [] :: splitLinesFrom true rest
      else consHead byte (splitLinesFrom false rest)

def splitLines (text : List UInt8) : List (List UInt8) :=
  splitLinesFrom false text

@[simp] theorem joinLines_nil : joinLines [] = [] := rfl

@[simp] theorem joinLines_cons (line : List UInt8) (lines : List (List UInt8)) :
    joinLines (line :: lines) = line ++ CR :: LF :: joinLines lines := by
  simp [joinLines]

@[simp] theorem joinLines_append (left right : List (List UInt8)) :
    joinLines (left ++ right) = joinLines left ++ joinLines right := by
  simp [joinLines]

theorem joinLines_getLast? {lines : List (List UInt8)} {byte : UInt8}
    (last : (joinLines lines).getLast? = some byte) : byte = LF := by
  rcases List.eq_nil_or_concat lines with rfl | ⟨others, line, rfl⟩
  · simp at last
  · have spelled : joinLines (others.concat line) = (joinLines others ++ line ++ [CR]) ++ [LF] := by simp
    rw [spelled, List.getLast?_concat] at last
    cases last
    rfl

theorem BreakFree.cons {byte : UInt8} {line : List UInt8} (notCR : byte ≠ CR) (notLF : byte ≠ LF)
    (free : BreakFree line) : BreakFree (byte :: line) := by
  intro other member
  rcases List.mem_cons.mp member with rfl | later
  · exact ⟨notCR, notLF⟩
  · exact free other later

theorem splitLinesFrom_ne_nil (afterCR : Bool) (text : List UInt8) :
    splitLinesFrom afterCR text ≠ [] := by
  induction text generalizing afterCR with
  | nil => simp [splitLinesFrom]
  | cons byte rest ih =>
      simp only [splitLinesFrom]
      repeat' split
      · exact ih false
      · simp
      · simp
      · obtain ⟨line, lines, spelled⟩ := List.exists_cons_of_ne_nil (ih false)
        simp [spelled, consHead]

theorem splitLinesFrom_breakFree (afterCR : Bool) (text : List UInt8) :
    ∀ line ∈ splitLinesFrom afterCR text, BreakFree line := by
  induction text generalizing afterCR with
  | nil => simp [splitLinesFrom, BreakFree]
  | cons byte rest ih =>
      have empty : BreakFree [] := by simp [BreakFree]
      intro line member
      simp only [splitLinesFrom] at member
      split at member
      · split at member
        · exact ih false line member
        · rcases List.mem_cons.mp member with rfl | later
          · exact empty
          · exact ih false line later
      split at member
      · rcases List.mem_cons.mp member with rfl | later
        · exact empty
        · exact ih true line later
      · next notLF notCR =>
          obtain ⟨first, lines, spelled⟩ := List.exists_cons_of_ne_nil (splitLinesFrom_ne_nil false rest)
          have tails := ih false
          rw [spelled] at member tails
          rcases List.mem_cons.mp member with rfl | later
          · exact (tails first (by simp)).cons notCR notLF
          · exact tails line (by simp [later])

theorem splitLines_ne_nil (text : List UInt8) : splitLines text ≠ [] :=
  splitLinesFrom_ne_nil false text

theorem splitLines_breakFree (text : List UInt8) : ∀ line ∈ splitLines text, BreakFree line :=
  splitLinesFrom_breakFree false text

theorem splitLinesFrom_of_breakFree {line : List UInt8} (free : BreakFree line) (afterCR : Bool) :
    splitLinesFrom afterCR line = [line] := by
  induction line generalizing afterCR with
  | nil => rfl
  | cons byte rest ih =>
      have this := free byte (by simp)
      have tail := ih (fun other member => free other (by simp [member])) false
      simp [splitLinesFrom, this.1, this.2, tail, consHead]

theorem splitLinesFrom_append {line : List UInt8} (free : BreakFree line) (afterCR : Bool)
    {byte : UInt8} (isBreak : byte = CR ∨ byte = LF) (nonempty : line ≠ [] ∨ afterCR = false)
    (rest : List UInt8) :
    splitLinesFrom afterCR (line ++ byte :: rest) = line :: splitLinesFrom (byte = CR) rest := by
  induction line generalizing afterCR with
  | nil =>
      have fresh : afterCR = false := by simpa using nonempty
      subst fresh
      rcases isBreak with rfl | rfl <;> simp [splitLinesFrom]
  | cons first line ih =>
      have this := free first (by simp)
      have tail := ih (fun other member => free other (by simp [member])) false (.inr rfl)
      simp [splitLinesFrom, this.1, this.2, tail, consHead]

theorem splitLinesFrom_afterCR (rest : List UInt8) :
    splitLinesFrom true (LF :: rest) = splitLinesFrom false rest := by
  simp [splitLinesFrom]

theorem splitLinesFrom_true {rest : List UInt8} (notLF : rest.head? ≠ some LF) :
    splitLinesFrom true rest = splitLinesFrom false rest := by
  cases rest with
  | nil => rfl
  | cons byte rest =>
      have this : byte ≠ LF := by simpa using notLF
      simp [splitLinesFrom, this]

/-- Joined lines and an unended last one split into themselves. -/
theorem splitLines_joinLines_append {lines : List (List UInt8)} (free : ∀ line ∈ lines, BreakFree line)
    {last : List UInt8} (lastFree : BreakFree last) :
    splitLines (joinLines lines ++ last) = lines ++ [last] := by
  induction lines with
  | nil => simpa [splitLines] using splitLinesFrom_of_breakFree lastFree false
  | cons line lines ih =>
      have tail := ih (fun other member => free other (by simp [member]))
      have first := splitLinesFrom_append (free line (by simp)) false (.inl rfl) (.inr rfl)
        (LF :: (joinLines lines ++ last))
      rw [joinLines_cons, List.append_assoc, splitLines]
      simp only [List.cons_append]
      rw [first]
      simp only [decide_true, splitLinesFrom_afterCR, List.cons.injEq, true_and]
      exact tail

def separateLines : List (List UInt8) → List UInt8
  | [] => []
  | [line] => line
  | line :: lines => line ++ CR :: LF :: separateLines lines

theorem separateLines_cons {lines : List (List UInt8)} (nonempty : lines ≠ []) (line : List UInt8) :
    separateLines (line :: lines) = line ++ CR :: LF :: separateLines lines := by
  obtain ⟨next, lines, rfl⟩ := List.exists_cons_of_ne_nil nonempty
  rfl

theorem separateLines_append_crlf {lines : List (List UInt8)} (nonempty : lines ≠ []) :
    separateLines lines ++ [CR, LF] = joinLines lines := by
  induction lines with
  | nil => contradiction
  | cons line lines ih =>
      cases lines with
      | nil => simp [separateLines]
      | cons next lines =>
          rw [separateLines_cons (by simp), joinLines_cons, ← ih (by simp)]
          simp

/-- A text with each of its breaks spelled CRLF; `afterCR` as in `splitLinesFrom`. -/
def crlfBreaksFrom (afterCR : Bool) : List UInt8 → List UInt8
  | [] => []
  | byte :: rest =>
      if byte = LF then
        if afterCR then crlfBreaksFrom false rest else CR :: LF :: crlfBreaksFrom false rest
      else if byte = CR then CR :: LF :: crlfBreaksFrom true rest
      else byte :: crlfBreaksFrom false rest

def crlfBreaks (text : List UInt8) : List UInt8 :=
  crlfBreaksFrom false text

theorem separateLines_splitLinesFrom (afterCR : Bool) (text : List UInt8) :
    separateLines (splitLinesFrom afterCR text) = crlfBreaksFrom afterCR text := by
  induction text generalizing afterCR with
  | nil => rfl
  | cons byte rest ih =>
      have nonempty := fun afterCR => splitLinesFrom_ne_nil afterCR rest
      simp only [splitLinesFrom, crlfBreaksFrom]
      split
      · split
        · exact ih false
        · rw [separateLines_cons (nonempty false), ih false, List.nil_append]
      split
      · rw [separateLines_cons (nonempty true), ih true, List.nil_append]
      · obtain ⟨line, lines, spelled⟩ := List.exists_cons_of_ne_nil (nonempty false)
        rw [← ih false, spelled, consHead]
        cases lines with
        | nil => rfl
        | cons next lines => rfl

theorem splitLinesFrom_subset {afterCR : Bool} {text line : List UInt8} {byte : UInt8}
    (isLine : line ∈ splitLinesFrom afterCR text) (member : byte ∈ line) : byte ∈ text := by
  induction text generalizing afterCR line with
  | nil => simp_all [splitLinesFrom]
  | cons first rest ih =>
      simp only [splitLinesFrom] at isLine
      split at isLine
      · split at isLine
        · exact List.mem_cons_of_mem _ (ih isLine member)
        · rcases List.mem_cons.mp isLine with rfl | later
          · simp at member
          · exact List.mem_cons_of_mem _ (ih later member)
      split at isLine
      · rcases List.mem_cons.mp isLine with rfl | later
        · simp at member
        · exact List.mem_cons_of_mem _ (ih later member)
      · obtain ⟨next, lines, spelled⟩ := List.exists_cons_of_ne_nil (splitLinesFrom_ne_nil false rest)
        rw [spelled, consHead] at isLine
        rcases List.mem_cons.mp isLine with rfl | later
        · rcases List.mem_cons.mp member with rfl | inner
          · simp
          · exact List.mem_cons_of_mem _ (ih (spelled ▸ List.mem_cons_self) inner)
        · exact List.mem_cons_of_mem _ (ih (spelled ▸ List.mem_cons_of_mem _ later) member)

def LineStart (before : List UInt8) : Prop :=
  before = [] ∨ ∃ earlier, before = earlier ++ [CR, LF]

theorem joinLines_place {lines : List (List UInt8)} {before after : List UInt8} {byte : UInt8}
    (spelled : joinLines lines = before ++ byte :: after) :
    ∃ earlier line later, lines = earlier ++ line :: later ∧
      ((∃ front back, line = front ++ byte :: back ∧ before = joinLines earlier ++ front ∧ after = back ++ CR :: LF :: joinLines later) ∨
        (byte = CR ∧ before = joinLines earlier ++ line ∧ after = LF :: joinLines later) ∨
        (byte = LF ∧ before = joinLines earlier ++ line ++ [CR] ∧ after = joinLines later)) := by
  induction lines generalizing before with
  | nil => simp at spelled
  | cons line lines ih =>
      rw [joinLines_cons] at spelled
      -- either the octet stands in the first line or its break, or in the later lines
      rcases List.append_eq_append_iff.mp spelled with ⟨middle, rfl, tail⟩ | ⟨middle, rfl, tail⟩
      · match middle, tail with
        | [], tail =>
            obtain ⟨rfl, rfl⟩ := List.cons.inj tail
            exact ⟨[], line, lines, rfl, .inr (.inl ⟨rfl, by simp, rfl⟩)⟩
        | [first], tail =>
            obtain ⟨rfl, later⟩ := List.cons.inj tail
            obtain ⟨rfl, rfl⟩ := List.cons.inj later
            exact ⟨[], line, lines, rfl, .inr (.inr ⟨rfl, by simp, rfl⟩)⟩
        | first :: second :: middle, tail =>
            simp only [List.cons_append, List.cons.injEq] at tail
            obtain ⟨rfl, rfl, tail⟩ := tail
            obtain ⟨earlier, found, later, rfl, place⟩ := ih tail
            refine ⟨line :: earlier, found, later, rfl, ?_⟩
            rcases place with ⟨front, back, split, rfl, rest⟩ | ⟨isCR, rfl, rest⟩ | ⟨isLF, rfl, rest⟩
            · exact .inl ⟨front, back, split, by simp, rest⟩
            · exact .inr (.inl ⟨isCR, by simp, rest⟩)
            · exact .inr (.inr ⟨isLF, by simp, rest⟩)
      · cases middle with
        | nil =>
            obtain ⟨rfl, rfl⟩ := List.cons.inj tail
            exact ⟨[], before, lines, by simp, .inr (.inl ⟨rfl, rfl, rfl⟩)⟩
        | cons first middle =>
            obtain ⟨rfl, rfl⟩ := List.cons.inj tail
            exact ⟨[], _, lines, rfl, .inl ⟨before, middle, rfl, rfl, rfl⟩⟩

/-- In a joined text, an octet at the start of a line is the first octet of one of the
lines, or the CR that ends an empty one. -/
theorem joinLines_lineStart {lines : List (List UInt8)} (free : ∀ line ∈ lines, BreakFree line)
    {before after : List UInt8} {byte : UInt8} (notCR : byte ≠ CR)
    (spelled : joinLines lines = before ++ byte :: after) (start : LineStart before) :
    ∃ earlier line later, lines = earlier ++ (byte :: line) :: later ∧
      before = joinLines earlier ∧ after = line ++ CR :: LF :: joinLines later := by
  have lastLF : before = [] ∨ before.getLast? = some LF := by
    rcases start with nothing | ⟨earlier, rfl⟩
    · exact .inl nothing
    · exact .inr (by simp)
  obtain ⟨earlier, line, later, rfl, place⟩ := joinLines_place spelled
  rcases place with ⟨front, back, rfl, rfl, rest⟩ | ⟨isCR, -⟩ | ⟨-, rfl, -⟩
  · rcases List.eq_nil_or_concat front with rfl | ⟨front, last, rfl⟩
    · exact ⟨earlier, back, later, rfl, by simp, rest⟩
    · have isLF : last = LF := by simpa using lastLF
      have lineFree := free (front.concat last ++ byte :: back) (by simp)
      exact absurd isLF (lineFree last (by simp)).2
  · exact absurd isCR notCR
  · simp at lastLF

theorem joinLines_noBareBreak {lines : List (List UInt8)} (free : ∀ line ∈ lines, BreakFree line)
    {before after : List UInt8} {byte : UInt8} (spelled : joinLines lines = before ++ byte :: after) :
    (byte = CR → ∃ rest, after = LF :: rest) ∧ (byte = LF → ∃ earlier, before = earlier ++ [CR]) := by
  obtain ⟨earlier, line, later, rfl, place⟩ := joinLines_place spelled
  rcases place with ⟨front, back, rfl, -, -⟩ | ⟨rfl, -, rest⟩ | ⟨rfl, rfl, -⟩
  · have this := free (front ++ byte :: back) (by simp) byte (by simp)
    exact ⟨fun wrong => absurd wrong this.1, fun wrong => absurd wrong this.2⟩
  · exact ⟨fun _ => ⟨_, rest⟩, fun wrong => absurd wrong (by decide)⟩
  · exact ⟨fun wrong => absurd wrong (by decide), fun _ => ⟨_, rfl⟩⟩

end Etpan.Data
