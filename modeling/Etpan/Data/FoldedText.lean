import Etpan.Data.BlankWords
import Etpan.Data.CommandLine

namespace Etpan.Data

/-! Texts that are folded between their words, and the words of what is left when they are unfolded
and trimmed. -/

section Trim

variable {α : Type} (blank : α → Bool)

def trimBlanks (text : List α) : List α := ((text.dropWhile blank).reverse.dropWhile blank).reverse

variable {blank} {gap : α} {word text more : List α} {words : List (List α)}

theorem wordsFrom_append_blank {ch : α} (isBlank : blank ch = true) :
    wordsFrom blank word (text ++ ch :: more) = wordsFrom blank word text ++ wordsFrom blank [] more := by
  induction text generalizing word with
  | nil =>
      rw [List.nil_append]
      by_cases nonempty : word = []
      · rw [nonempty, wordsFrom_blank isBlank]
        rfl
      · rw [wordsFrom_ends nonempty isBlank, wordsFrom_nil nonempty, List.singleton_append]
  | cons other text ih =>
      rw [List.cons_append]
      by_cases otherBlank : blank other = true
      · by_cases nonempty : word = []
        · rw [nonempty, wordsFrom_blank otherBlank, wordsFrom_blank otherBlank]
          exact ih
        · rw [wordsFrom_ends nonempty otherBlank, wordsFrom_ends nonempty otherBlank, ih, List.cons_append]
      · have solid := Bool.eq_false_iff.mpr otherBlank
        rw [wordsFrom_step solid, wordsFrom_step solid]
        exact ih

theorem wordsOf_append_blank {ch : α} (isBlank : blank ch = true) (text more : List α) :
    wordsOf blank (text ++ ch :: more) = wordsOf blank text ++ wordsOf blank more :=
  wordsFrom_append_blank isBlank

theorem wordsOf_blanks_append (blanks : ∀ ch ∈ more, blank ch = true) : wordsOf blank (more ++ text) = wordsOf blank text := by
  induction more with
  | nil => rfl
  | cons ch more ih =>
      have rest := ih fun other member => blanks other (List.mem_cons_of_mem ch member)
      rw [List.cons_append, wordsOf, wordsFrom_blank (blanks ch List.mem_cons_self)]
      exact rest

theorem wordsOf_append_blanks (blanks : ∀ ch ∈ more, blank ch = true) : wordsOf blank (text ++ more) = wordsOf blank text := by
  cases more with
  | nil => rw [List.append_nil]
  | cons ch more =>
      have rest := @wordsOf_blanks_append _ blank [] more fun other member => blanks other (List.mem_cons_of_mem ch member)
      rw [List.append_nil] at rest
      rw [wordsOf_append_blank (blanks ch List.mem_cons_self), rest]
      exact List.append_nil _

theorem mem_takeWhile_blank {ch : α} (member : ch ∈ text.takeWhile blank) : blank ch = true := by
  have all := List.all_takeWhile (p := blank) (l := text)
  exact List.all_eq_true.mp all ch member

theorem wordsOf_trimBlanks (text : List α) : wordsOf blank (trimBlanks blank text) = wordsOf blank text := by
  have front : wordsOf blank (text.dropWhile blank) = wordsOf blank text := by
    have whole := @wordsOf_blanks_append _ blank (text.dropWhile blank) (text.takeWhile blank) fun _ member => mem_takeWhile_blank member
    rw [List.takeWhile_append_dropWhile] at whole
    exact whole.symm
  have back := @wordsOf_append_blanks _ blank (trimBlanks blank text) ((text.dropWhile blank).reverse.takeWhile blank).reverse
    fun _ member => mem_takeWhile_blank (List.mem_reverse.mp member)
  rw [trimBlanks, ← List.reverse_append, List.takeWhile_append_dropWhile, List.reverse_reverse, front] at back
  exact back.symm

/-- A text between two octets that are no blanks has nothing to trim but what stands before it. -/
theorem trimBlanks_solid {first last : α} {front : List α} (blanks : ∀ ch ∈ more, blank ch = true) (isFirst : text = first :: word)
    (isLast : text = front ++ [last]) (firstSolid : blank first = false) (lastSolid : blank last = false) :
    trimBlanks blank (more ++ text) = text := by
  have dropped : (more ++ text).dropWhile blank = text := by
    rw [List.dropWhile_append_of_pos blanks, isFirst, List.dropWhile_cons_of_neg (by simp [firstSolid])]
  have kept : text.reverse.dropWhile blank = text.reverse := by
    rw [isLast, List.reverse_append, List.reverse_singleton, List.singleton_append, List.dropWhile_cons_of_neg (by simp [lastSolid])]
  rw [trimBlanks, dropped, kept, List.reverse_reverse]

theorem joinWords_last (areWords : ∀ word ∈ words, word ≠ [] ∧ ∀ ch ∈ word, blank ch = false) (nonempty : words ≠ []) :
    ∃ front last, joinWords gap words = front ++ [last] ∧ blank last = false := by
  obtain ⟨first, words, rfl⟩ := List.exists_cons_of_ne_nil nonempty
  induction words generalizing first with
  | nil =>
      obtain ⟨isWord, solid⟩ := areWords first List.mem_cons_self
      refine ⟨first.dropLast, first.getLast isWord, ?_, solid _ (List.getLast_mem isWord)⟩
      rw [joinWords, List.flatMap_nil, List.append_nil, List.dropLast_append_getLast]
  | cons next words ih =>
      obtain ⟨front, last, isLast, lastSolid⟩ := ih next (fun word member => areWords word (List.mem_cons_of_mem first member)) (List.cons_ne_nil _ _)
      refine ⟨first ++ gap :: front, last, ?_, lastSolid⟩
      rw [joinWords] at isLast
      rw [joinWords, List.flatMap_cons, List.cons_append, isLast, List.append_assoc, List.cons_append]

theorem joinWords_snoc_append (words : List (List α)) (last more : List α) :
    joinWords gap (words ++ [last ++ more]) = joinWords gap (words ++ [last]) ++ more := by
  cases words with
  | nil => simp only [List.nil_append, joinWords, List.flatMap_nil, List.append_nil]
  | cons first words =>
      rw [List.cons_append, List.cons_append, joinWords, joinWords, List.flatMap_append, List.flatMap_append]
      simp only [List.flatMap_cons, List.flatMap_nil, List.append_nil, List.cons_append, List.append_assoc]

theorem trimBlanks_joinWords (areWords : ∀ word ∈ words, word ≠ [] ∧ ∀ ch ∈ word, blank ch = false) (nonempty : words ≠ [])
    (blanks : ∀ ch ∈ more, blank ch = true) : trimBlanks blank (more ++ joinWords gap words) = joinWords gap words := by
  obtain ⟨front, last, isLast, lastSolid⟩ := @joinWords_last _ blank gap words areWords nonempty
  obtain ⟨first, words, rfl⟩ := List.exists_cons_of_ne_nil nonempty
  obtain ⟨isWord, solid⟩ := areWords first List.mem_cons_self
  obtain ⟨ch, first, rfl⟩ := List.exists_cons_of_ne_nil isWord
  exact trimBlanks_solid blanks rfl isLast (solid ch List.mem_cons_self) lastSolid

end Trim

section Fold

variable (white : UInt8 → Bool)

def unfoldText : List UInt8 → List UInt8
  | ch :: next :: after :: rest =>
      if ch = CR ∧ next = LF ∧ white after = true then unfoldText (after :: rest) else ch :: unfoldText (next :: after :: rest)
  | short => short

def FoldsOnly (text : List UInt8) : Prop :=
  ∀ back, CR :: LF :: back <:+ text → ∃ after rest, back = after :: rest ∧ white after = true

variable {white} {ch : UInt8} {line text : List UInt8}

theorem unfoldText_nil : unfoldText white [] = [] := rfl

theorem unfoldText_cons (notCR : ch ≠ CR) (text : List UInt8) : unfoldText white (ch :: text) = ch :: unfoldText white text := by
  match text with
  | [] => rfl
  | [next] => rfl
  | next :: after :: rest => rw [unfoldText, if_neg fun both => notCR both.1]

theorem unfoldText_append (free : BreakFree line) (text : List UInt8) : unfoldText white (line ++ text) = line ++ unfoldText white text := by
  induction line with
  | nil => rfl
  | cons ch line ih =>
      have rest := ih fun other member => free other (List.mem_cons_of_mem ch member)
      rw [List.cons_append, unfoldText_cons (free ch List.mem_cons_self).1, rest, List.cons_append]

theorem unfoldText_fold (isWhite : white ch = true) (text : List UInt8) :
    unfoldText white (CR :: LF :: ch :: text) = unfoldText white (ch :: text) := by
  rw [unfoldText, if_pos ⟨rfl, rfl, isWhite⟩]

theorem foldsOnly_nil : FoldsOnly white [] := fun _ isSuffix => by cases List.suffix_nil.mp isSuffix

theorem foldsOnly_cons (notCR : ch ≠ CR) (folds : FoldsOnly white text) : FoldsOnly white (ch :: text) := by
  intro back isSuffix
  rcases List.suffix_cons_iff.mp isSuffix with whole | inside
  · cases whole
    contradiction
  · exact folds back inside

theorem foldsOnly_append (free : BreakFree line) (folds : FoldsOnly white text) : FoldsOnly white (line ++ text) := by
  induction line with
  | nil => exact folds
  | cons ch line ih =>
      have rest := ih fun other member => free other (List.mem_cons_of_mem ch member)
      exact foldsOnly_cons (free ch List.mem_cons_self).1 rest

theorem foldsOnly_fold (isWhite : white ch = true) (folds : FoldsOnly white (ch :: text)) : FoldsOnly white (CR :: LF :: ch :: text) := by
  intro back isSuffix
  rcases List.suffix_cons_iff.mp isSuffix with whole | inside
  · cases whole
    exact ⟨ch, text, rfl, isWhite⟩
  · have notCR : LF ≠ CR := by decide
    exact foldsOnly_cons notCR folds back inside

end Fold

end Etpan.Data
