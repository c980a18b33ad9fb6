import Etpan.Data.Abnf

namespace Etpan.Data

/-! Words and lines in a text that is scanned by prefixes. -/

section Prefix

/-- `strncasecmp` of a text and a literal is 0 for the length of the literal. -/
def startsWith (literal text : List UInt8) : Bool :=
  decide ((text.take literal.length).map tolower = literal.map tolower)

structure Stops (literal : List UInt8) (stop : UInt8) : Prop where
  unchanged : tolower stop = stop
  absent : stop ∉ literal.map tolower

variable {literal before after : List UInt8} {stop : UInt8}

theorem startsWith_length {text : List UInt8} (starts : startsWith literal text = true) :
    literal.length ≤ text.length := by
  have lengths := congrArg List.length (of_decide_eq_true starts)
  simp only [List.length_map, List.length_take] at lengths
  omega

theorem startsWith_append_of_le (within : literal.length ≤ before.length) :
    startsWith literal (before ++ after) = startsWith literal before := by
  simp only [startsWith, List.take_append_of_le_length within]

theorem startsWith_stop (stops : Stops literal stop) :
    startsWith literal (before ++ stop :: after) = startsWith literal before := by
  by_cases within : literal.length ≤ before.length
  · exact startsWith_append_of_le within
  · have short : startsWith literal before = false :=
      Bool.eq_false_iff.mpr fun starts => within (startsWith_length starts)
    rw [short, Bool.eq_false_iff]
    intro starts
    have same := of_decide_eq_true starts
    obtain ⟨more, longer⟩ : ∃ more, literal.length = before.length + (more + 1) :=
      ⟨literal.length - before.length - 1, by omega⟩
    apply stops.absent
    rw [← same, longer, List.take_append, List.map_append]
    simp [stops.unchanged]

theorem startsWith_nil (nonempty : literal ≠ []) : startsWith literal [] = false :=
  Bool.eq_false_iff.mpr fun starts => nonempty (List.length_eq_zero_iff.mp (Nat.le_zero.mp (startsWith_length starts)))

end Prefix

section Fields

variable {α : Type} {separator : α → Bool} {before after : List α}

theorem splitOnP_append (free : ∀ item ∈ before, separator item = false) :
    (before ++ after).splitOnP separator = (after.splitOnP separator).modifyHead (before ++ ·) := by
  induction before with
  | nil =>
      rw [List.nil_append]
      cases after.splitOnP separator <;> simp
  | cons item before ih =>
      have notItem := free item (by simp)
      rw [List.cons_append, List.splitOnP_cons_eq_if_modifyHead, if_neg (by simp [notItem]),
        ih fun other member => free other (by simp [member])]
      cases after.splitOnP separator <;> simp

theorem splitOnP_cons_separator {item : α} (separates : separator item = true) :
    (item :: after).splitOnP separator = [] :: after.splitOnP separator := by
  rw [List.splitOnP_cons_eq_if_modifyHead, if_pos separates]

theorem splitOnP_eq (list : List α) :
    list.splitOnP separator = list.takeWhile (!separator ·) ::
      match list.dropWhile (!separator ·) with
      | [] => []
      | _ :: rest => rest.splitOnP separator := by
  have field : ∀ item ∈ list.takeWhile (!separator ·), separator item = false := fun item member => by
    simpa using List.mem_takeWhile_imp member
  have whole : list.takeWhile (!separator ·) ++ list.dropWhile (!separator ·) = list := List.takeWhile_append_dropWhile
  have stopped := List.head?_dropWhile_not (!separator ·) list
  cases left : list.dropWhile (!separator ·) with
  | nil =>
      rw [left, List.append_nil] at whole
      rw [whole] at field ⊢
      exact List.splitOnP_eq_singleton field
  | cons item rest =>
      rw [left] at stopped whole
      have separates : separator item = true := by simpa using stopped
      conv_lhs => rw [← whole]
      rw [splitOnP_append field, splitOnP_cons_separator separates]
      simp

end Fields

section Lines

def nextLine (text : List UInt8) : Option (List UInt8) :=
  match text.dropWhile (· ≠ LF) with
  | [] => none
  | _ :: rest => some rest

theorem nextLine_length {text rest : List UInt8} (next : nextLine text = some rest) : rest.length < text.length := by
  have shorter := (List.dropWhile_suffix (· ≠ LF) (l := text)).length_le
  rw [nextLine] at next
  cases left : text.dropWhile (· ≠ LF) with
  | nil =>
      rw [left] at next
      cases next
  | cons _ behind =>
      rw [left] at next
      cases next
      rw [left, List.length_cons] at shorter
      omega

def lineStarts (text : List UInt8) : List (List UInt8) :=
  text :: match next : nextLine text with
    | none => []
    | some rest =>
        have := nextLine_length next
        lineStarts rest
termination_by text.length

def firstLine (text : List UInt8) : List UInt8 := text.takeWhile (· ≠ LF)

def withoutCR (line : List UInt8) : List UInt8 := if line.getLast? = some CR then line.dropLast else line

def LineEnd (tail : List UInt8) : Prop := tail = [] ∨ ∃ rest, tail = LF :: rest

theorem firstLine_split (text : List UInt8) :
    ∃ tail, text = firstLine text ++ tail ∧ LineEnd tail ∧ LF ∉ firstLine text := by
  refine ⟨text.dropWhile (· ≠ LF), List.takeWhile_append_dropWhile.symm, ?_, ?_⟩
  · cases left : text.dropWhile (· ≠ LF) with
    | nil => exact Or.inl rfl
    | cons first rest =>
        have stopped := List.head?_dropWhile_not (· ≠ LF) text
        rw [left] at stopped
        exact Or.inr ⟨rest, by simpa using stopped⟩
  · intro member
    have kept := List.mem_takeWhile_imp member
    simp at kept

theorem nextLine_append {before tail : List UInt8} (noFeed : LF ∉ before) : nextLine (before ++ tail) = nextLine tail := by
  have passed : (before ++ tail).dropWhile (· ≠ LF) = tail.dropWhile (· ≠ LF) := by
    rw [List.dropWhile_append_of_pos]
    intro byte member
    simpa using fun same : byte = LF => noFeed (same ▸ member)
  rw [nextLine, nextLine, passed]

theorem withoutCR_spec (line : List UInt8) : withoutCR line = line ∨ line = withoutCR line ++ [CR] := by
  rw [withoutCR]
  split_ifs with last
  · right
    obtain ⟨before, rfl⟩ := List.getLast?_eq_some_iff.mp last
    rw [List.dropLast_concat]
  · exact Or.inl rfl

end Lines

end Etpan.Data
