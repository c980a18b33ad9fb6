import Etpan.Data.FoldedText
import Etpan.Imf.Address

namespace Etpan.Imf

open Etpan.Data Etpan.Mime

/-! The folding of header texts, `mailimf_header_string_write_driver`.

A word is written late, behind a fold where it would pass column 72.  Before that, the loop compares the part of the
word it has read with the column behind the word before, and cuts the word where the two would not fit on one line. -/

def isWhite (ch : UInt8) : Bool := ch = ascii ' ' ∨ ch = ascii '\t'

/-- What is written of a string behind the octets of a line: the words of the string are kept, every line break is a fold,
and no line is longer than 998 octets. -/
def FoldsHeader (before str : List UInt8) : Prop :=
  ∃ added, (mailimfHeaderStringWriteDriver { data := before, col := before.length } str).data = before ++ added ∧
    trimBlanks isBlankOctet (unfoldText isWhite added) = joinWords (ascii ' ') (wordsOf isBlankOctet str) ∧
    FoldsOnly isWhite added ∧ ∀ line ∈ splitLines (before ++ added), line.length ≤ maxImfLine

theorem breakFree_of_solid {word : List UInt8} (solid : ∀ ch ∈ word, isBlankOctet ch = false) : BreakFree word := by
  intro ch member
  have notBreak := mt (isBreak_iff ch).mp (by simp [solid ch member])
  exact ⟨fun isCR => notBreak (.inl isCR), fun isLF => notBreak (.inr (.inl isLF))⟩

theorem writeWord_written {word : List UInt8} (free : BreakFree word) (short : word.length ≤ 900) (out : Written) (first : Bool) :
    ∃ gap, (writeWord out first word).data = out.data ++ (gap ++ word) ∧
      (gap = headerFold ∧ maxMailCol ≤ word.length + out.col ∧ (writeWord out first word).col = 1 + word.length ∨
        gap = (if first then [] else [ascii ' ']) ∧ word.length + out.col < maxMailCol ∧
          (writeWord out first word).col = out.col + gap.length + word.length) := by
  have within : word.length ≤ maxImfLine := Nat.le_trans short (by decide)
  rw [writeWord]
  by_cases long : maxMailCol ≤ word.length + out.col
  · rw [if_pos long, writeString_fold, writeString_breakFree free within]
    exact ⟨headerFold, List.append_assoc _ _ _, .inl ⟨rfl, long, rfl⟩⟩
  · rw [if_neg long]
    have fits := Nat.not_le.mp long
    cases first with
    | true =>
        rw [if_pos rfl, writeString_breakFree free within]
        exact ⟨[], rfl, .inr ⟨rfl, fits, rfl⟩⟩
    | false =>
        rw [if_neg Bool.false_ne_true, writeString_breakFree breakFree_blank (by decide), writeString_breakFree free within]
        exact ⟨[ascii ' '], List.append_assoc _ _ _, .inr ⟨rfl, fits, rfl⟩⟩

theorem gap_length {gap : List UInt8} {first : Bool} (isGap : gap = if first then [] else [ascii ' ']) : BreakFree gap ∧ gap.length ≤ 1 := by
  rw [isGap]
  cases first with
  | true => exact ⟨List.forall_mem_nil _, Nat.zero_le 1⟩
  | false => exact ⟨breakFree_blank, Nat.le_refl 1⟩

theorem writeWord_col {word : List UInt8} (free : BreakFree word) (short : word.length ≤ 900) (out : Written) (first : Bool) :
    (writeWord out first word).col ≤ 901 := by
  obtain ⟨gap, -, ⟨-, -, col⟩ | ⟨isGap, few, col⟩⟩ := writeWord_written free short out first
  · omega
  · have gapShort := (gap_length isGap).2
    rw [maxMailCol] at few
    omega

structure Lined (out : Written) : Prop where
  lines : ∃ front last, out.data = joinLines front ++ last ∧ (∀ line ∈ front, BreakFree line ∧ line.length ≤ maxImfLine) ∧
    BreakFree last ∧ last.length = out.col
  within : out.col ≤ maxImfLine

theorem Lined.bounded {out : Written} (lined : Lined out) : ∀ line ∈ splitLines out.data, line.length ≤ maxImfLine := by
  obtain ⟨front, last, data, areLines, lastFree, isCol⟩ := lined.lines
  intro line member
  rw [data, splitLines_joinLines_append (fun line member => (areLines line member).1) lastFree] at member
  rcases List.mem_append.mp member with early | late
  · exact (areLines line early).2
  · obtain rfl := List.mem_singleton.mp late
    rw [isCol]
    exact lined.within

theorem Lined.word {out : Written} (lined : Lined out) {word : List UInt8} (free : BreakFree word) (short : word.length ≤ 900) (first : Bool) :
    Lined (writeWord out first word) := by
  have within : (writeWord out first word).col ≤ maxImfLine := Nat.le_trans (writeWord_col free short out first) (by decide)
  obtain ⟨front, last, data, areLines, lastFree, isCol⟩ := lined.lines
  obtain ⟨gap, written, ⟨rfl, -, col⟩ | ⟨isGap, few, col⟩⟩ := writeWord_written free short out first
  · have wordLine : BreakFree (ascii ' ' :: word) := BreakFree.append breakFree_blank free
    constructor
    · refine ⟨front ++ [last], ascii ' ' :: word, ?_, ?_, wordLine, ?_⟩
      · rw [written, data, joinLines_append, joinLines_cons, joinLines_nil]
        simp only [headerFold, List.append_assoc, List.cons_append, List.nil_append]
      · intro line member
        rcases List.mem_append.mp member with early | late
        · exact areLines line early
        · obtain rfl := List.mem_singleton.mp late
          exact ⟨lastFree, isCol ▸ lined.within⟩
      · rw [col, List.length_cons, Nat.add_comm]
    · exact within
  · have gapFree := (gap_length isGap).1
    constructor
    · refine ⟨front, last ++ (gap ++ word), ?_, areLines, BreakFree.append lastFree (BreakFree.append gapFree free), ?_⟩
      · rw [written, data, List.append_assoc]
      · rw [List.length_append, List.length_append, isCol, col, Nat.add_assoc]
    · exact within

def Fits : Written → Bool → List (List UInt8) → Prop
  | _, _, [] => True
  | out, first, word :: words => word.length + out.col ≤ maxImfLine ∧ Fits (writeWord out first word) false words

def ShortWords (words : List (List UInt8)) : Prop := ∀ word ∈ words, (∀ ch ∈ word, isBlankOctet ch = false) ∧ word.length ≤ 900

theorem ShortWords.head {word : List UInt8} {words : List (List UInt8)} (areShort : ShortWords (word :: words)) :
    BreakFree word ∧ word.length ≤ 900 :=
  have isShort := areShort word List.mem_cons_self
  ⟨breakFree_of_solid isShort.1, isShort.2⟩

theorem ShortWords.tail {word : List UInt8} {words : List (List UInt8)} (areShort : ShortWords (word :: words)) : ShortWords words :=
  fun other member => areShort other (List.mem_cons_of_mem word member)

/-- Two words next to each other fit on one line with the blank before the first. -/
def Pairs (word next : List UInt8) : Prop := word.length + next.length < maxImfLine

theorem fits_behind {word next : List UInt8} (wordFree : BreakFree word) (wordShort : word.length ≤ 900) (nextShort : next.length ≤ 900)
    (out : Written) (first : Bool) : next.length + (writeWord out first word).col ≤ maxImfLine ↔ Pairs word next := by
  obtain ⟨gap, -, ⟨-, -, col⟩ | ⟨isGap, few, col⟩⟩ := writeWord_written wordFree wordShort out first
  · rw [col, Pairs]
    omega
  · have gapShort := (gap_length isGap).2
    rw [maxMailCol] at few
    rw [col, Pairs, maxImfLine]
    omega

theorem fits_iff_from {word : List UInt8} {words : List (List UInt8)} (areShort : ShortWords (word :: words)) (out : Written) (first : Bool) :
    Fits (writeWord out first word) false words ↔ (word :: words).IsChain Pairs := by
  induction words generalizing word out first with
  | nil => exact ⟨fun _ => List.isChain_singleton word, fun _ => trivial⟩
  | cons next words ih =>
      have wordShort := areShort.head
      have nextShort := areShort.tail.head
      rw [Fits, fits_behind wordShort.1 wordShort.2 nextShort.2, ih areShort.tail, List.isChain_cons_cons]

theorem fits_iff {words : List (List UInt8)} (areShort : ShortWords words) {out : Written} (start : out.col ≤ maxMailCol) (first : Bool) :
    Fits out first words ↔ words.IsChain Pairs := by
  cases words with
  | nil => exact ⟨fun _ => List.isChain_nil, fun _ => trivial⟩
  | cons word words =>
      have short := areShort.head.2
      have within : word.length + out.col ≤ maxImfLine := Nat.le_trans (Nat.add_le_add short start) (by decide)
      rw [Fits, fits_iff_from areShort]
      exact and_iff_right within

theorem writeWords_written {words : List (List UInt8)} (areShort : ShortWords words) {out : Written} (lined : Lined out) :
    ∃ text, (writeWords out false words).data = out.data ++ text ∧ FoldedWords words text ∧ Lined (writeWords out false words) := by
  induction words generalizing out with
  | nil => exact ⟨[], (List.append_nil _).symm, .nil, lined⟩
  | cons word words ih =>
      have short := areShort.head
      obtain ⟨gap, data, isGap⟩ := writeWord_written short.1 short.2 out false
      obtain ⟨text, later, folded, bounded⟩ := ih areShort.tail (lined.word short.1 short.2 false)
      have either : gap = [ascii ' '] ∨ gap = headerFold := by
        rcases isGap with fold | blank
        · exact .inr fold.1
        · exact .inl blank.1
      refine ⟨gap ++ (word ++ text), ?_, .cons either folded, bounded⟩
      rw [writeWords, later, data]
      simp only [List.append_assoc]

theorem unfoldText_gap {gap text : List UInt8} (isGap : gap = [ascii ' '] ∨ gap = headerFold) :
    unfoldText isWhite (gap ++ text) = ascii ' ' :: unfoldText isWhite text := by
  have notCR : ascii ' ' ≠ CR := by decide
  rcases isGap with rfl | rfl
  · exact unfoldText_cons notCR text
  · rw [headerFold]
    simp only [List.cons_append, List.nil_append]
    rw [unfoldText_fold rfl, unfoldText_cons notCR]

theorem foldsOnly_gap {gap text : List UInt8} (isGap : gap = [ascii ' '] ∨ gap = headerFold) (folds : FoldsOnly isWhite text) :
    FoldsOnly isWhite (gap ++ text) := by
  have notCR : ascii ' ' ≠ CR := by decide
  have behind := foldsOnly_cons notCR folds
  rcases isGap with rfl | rfl
  · exact behind
  · exact foldsOnly_fold rfl behind

theorem FoldedWords.unfolds {words : List (List UInt8)} {text : List UInt8} (areFree : ∀ word ∈ words, BreakFree word)
    (folded : FoldedWords words text) (more : List UInt8) :
    unfoldText isWhite (text ++ more) = words.flatMap (ascii ' ' :: ·) ++ unfoldText isWhite more := by
  induction folded with
  | nil => rfl
  | @cons gap word words text isGap rest ih =>
      have unfolded := ih fun other member => areFree other (List.mem_cons_of_mem word member)
      have free := areFree word List.mem_cons_self
      rw [List.append_assoc, unfoldText_gap isGap, List.append_assoc, unfoldText_append free, unfolded, List.flatMap_cons]
      simp only [List.cons_append, List.append_assoc]

theorem FoldedWords.folds {words : List (List UInt8)} {text : List UInt8} (areFree : ∀ word ∈ words, BreakFree word)
    (folded : FoldedWords words text) : FoldsOnly isWhite text := by
  induction folded with
  | nil => exact foldsOnly_nil
  | @cons gap word words text isGap rest ih =>
      have folds := ih fun other member => areFree other (List.mem_cons_of_mem word member)
      exact foldsOnly_gap isGap (foldsOnly_append (areFree word List.mem_cons_self) folds)

structure Unfolds (text : List UInt8) (words : List (List UInt8)) : Prop where
  unfolded : ∃ lead, (lead = [] ∨ lead = [ascii ' ']) ∧
    ∀ more, unfoldText isWhite (text ++ more) = lead ++ joinWords (ascii ' ') words ++ unfoldText isWhite more
  folds : FoldsOnly isWhite text

theorem writeWords_unfolds {words : List (List UInt8)} (areShort : ShortWords words) {out : Written} (lined : Lined out) :
    ∃ text, (writeWords out true words).data = out.data ++ text ∧ Unfolds text words ∧ Lined (writeWords out true words) := by
  cases words with
  | nil => exact ⟨[], (List.append_nil _).symm, ⟨⟨[], .inl rfl, fun _ => rfl⟩, foldsOnly_nil⟩, lined⟩
  | cons word words =>
      have short := areShort.head
      obtain ⟨gap, data, isGap⟩ := writeWord_written short.1 short.2 out true
      obtain ⟨text, later, folded, bounded⟩ := writeWords_written areShort.tail (lined.word short.1 short.2 true)
      have areFree : ∀ other ∈ words, BreakFree other := fun other member => breakFree_of_solid (areShort.tail other member).1
      have wordUnfolds : ∀ more, unfoldText isWhite (word ++ (text ++ more)) = joinWords (ascii ' ') (word :: words) ++ unfoldText isWhite more := by
        intro more
        rw [unfoldText_append short.1, folded.unfolds areFree, joinWords, List.append_assoc]
      have wordFolds := foldsOnly_append short.1 (folded.folds areFree)
      rw [writeWords, later, data, List.append_assoc, List.append_assoc]
      rcases isGap with ⟨rfl, -⟩ | ⟨rfl, -⟩
      · have leads : ∀ more, unfoldText isWhite ((headerFold ++ (word ++ text)) ++ more) =
            [ascii ' '] ++ joinWords (ascii ' ') (word :: words) ++ unfoldText isWhite more := by
          intro more
          rw [List.append_assoc, unfoldText_gap (.inr rfl), List.append_assoc, wordUnfolds, List.append_assoc, List.singleton_append]
        exact ⟨_, rfl, ⟨⟨[ascii ' '], .inr rfl, leads⟩, foldsOnly_gap (.inr rfl) wordFolds⟩, bounded⟩
      · have plain : ∀ more, unfoldText isWhite ((word ++ text) ++ more) =
            [] ++ joinWords (ascii ' ') (word :: words) ++ unfoldText isWhite more := by
          intro more
          rw [List.append_assoc, wordUnfolds, List.nil_append]
        exact ⟨_, rfl, ⟨⟨[], .inl rfl, plain⟩, wordFolds⟩, bounded⟩

theorem writeString_extends (out : Written) (str : List UInt8) : ∃ more, (writeString out str).data = out.data ++ more := by
  obtain ⟨out', written, more, data⟩ := mailimfStringWriteDriver_extends out str
  rw [writeString, written, Option.getD_some, ← data]
  exact ⟨more, rfl⟩

theorem writeString_extends_after {out out' : Written} (earlier : ∃ more, out'.data = out.data ++ more) (str : List UInt8) :
    ∃ more, (writeString out' str).data = out.data ++ more := by
  obtain ⟨first, data⟩ := earlier
  obtain ⟨second, later⟩ := writeString_extends out' str
  rw [later, data, List.append_assoc]
  exact ⟨_, rfl⟩

theorem writeWord_extends (out : Written) (first : Bool) (word : List UInt8) : ∃ more, (writeWord out first word).data = out.data ++ more := by
  have same : ∃ more, out.data = out.data ++ more := ⟨[], (List.append_nil _).symm⟩
  rw [writeWord]
  split_ifs
  · exact writeString_extends_after (writeString_extends out headerFold) word
  · exact writeString_extends_after same word
  · exact writeString_extends_after (writeString_extends out [ascii ' ']) word

theorem headerStringLoop_extends (out : Written) (first : Bool) (word str : List UInt8) :
    ∃ more, (headerStringLoop out first word str).data = out.data ++ more := by
  induction str generalizing out first word with
  | nil =>
      rw [headerStringLoop]
      split_ifs
      · exact ⟨[], (List.append_nil _).symm⟩
      · exact writeWord_extends out first word
  | cons ch str ih =>
      have behind : ∀ {out' : Written} {first word}, (∃ more, out'.data = out.data ++ more) →
          ∃ more, (headerStringLoop out' first word str).data = out.data ++ more := by
        intro out' first word earlier
        obtain ⟨front, data⟩ := earlier
        obtain ⟨more, later⟩ := ih out' first word
        rw [later, data, List.append_assoc]
        exact ⟨_, rfl⟩
      rw [headerStringLoop]
      split_ifs
      · exact ih out first []
      · exact behind (writeWord_extends out first word)
      · exact behind (writeString_extends_after (writeString_extends out word) headerFold)
      · exact ih out first (word ++ [ch])

/-- A word that is cut: its first part is written right behind the words before it. -/
def CutWord (out : Written) (first : Bool) (words : List (List UInt8)) (data : List UInt8) : Prop :=
  ∃ early long later more, words = early ++ long :: later ∧ Fits out first early ∧
    maxImfLine < long.length + (writeWords out first early).col ∧ (writeWords out first early).col ≤ maxImfLine ∧
    data = (writeString (writeString (writeWords out first early) (long.take (maxImfLine - (writeWords out first early).col))) headerFold).data ++ more

theorem wordsFrom_starts {word : List UInt8} (nonempty : word ≠ []) (str : List UInt8) :
    ∃ more later, wordsFrom isBlankOctet word str = (word ++ more) :: later := by
  induction str generalizing word with
  | nil => exact ⟨[], [], by rw [wordsFrom_nil nonempty, List.append_nil]⟩
  | cons ch str ih =>
      by_cases isBlank : isBlankOctet ch = true
      · exact ⟨[], _, by rw [wordsFrom_ends nonempty isBlank, List.append_nil]⟩
      · obtain ⟨more, later, starts⟩ := @ih (word ++ [ch]) (by simp)
        refine ⟨ch :: more, later, ?_⟩
        rw [wordsFrom_step (Bool.eq_false_iff.mpr isBlank), starts, List.append_assoc, List.singleton_append]

theorem headerStringLoop_reads {word str : List UInt8} (solid : ∀ ch ∈ word, isBlankOctet ch = false)
    (areShort : ShortWords (wordsFrom isBlankOctet word str)) (out : Written) (first : Bool) (within : word.length + out.col ≤ maxImfLine) :
    Fits out first (wordsFrom isBlankOctet word str) ∧ headerStringLoop out first word str = writeWords out first (wordsFrom isBlankOctet word str) ∨
      CutWord out first (wordsFrom isBlankOctet word str) (headerStringLoop out first word str).data := by
  induction str generalizing out first word with
  | nil =>
      rw [headerStringLoop]
      left
      split_ifs with isEmpty
      · rw [isEmpty]
        exact ⟨trivial, rfl⟩
      · rw [wordsFrom_nil isEmpty]
        exact ⟨⟨within, trivial⟩, rfl⟩
  | cons ch str ih =>
      rw [headerStringLoop]
      simp only [isBreak_iff]
      by_cases isBlank : isBlankOctet ch = true
      · rw [if_pos isBlank]
        split_ifs with isEmpty
        · subst isEmpty
          rw [wordsFrom_blank isBlank] at areShort ⊢
          exact ih solid areShort out first within
        · rw [wordsFrom_ends isEmpty isBlank] at areShort ⊢
          have short := areShort.head
          have behind : ([] : List UInt8).length + (writeWord out first word).col ≤ maxImfLine := by
            rw [List.length_nil, Nat.zero_add]
            exact Nat.le_trans (writeWord_col short.1 short.2 out first) (by decide)
          rcases ih (List.forall_mem_nil _) areShort.tail (writeWord out first word) false behind with ⟨fits, whole⟩ | cut
          · left
            exact ⟨⟨within, fits⟩, whole⟩
          · right
            obtain ⟨early, long, later, more, split, fits, tooLong, bounded, data⟩ := cut
            exact ⟨word :: early, long, later, more, by rw [split, List.cons_append], ⟨within, fits⟩, tooLong, bounded, data⟩
      · have chSolid := Bool.eq_false_iff.mpr isBlank
        rw [if_neg isBlank]
        rw [wordsFrom_step chSolid] at areShort ⊢
        by_cases full : maxImfLine ≤ word.length + out.col
        · rw [if_pos full]
          right
          obtain ⟨rest, later, starts⟩ := @wordsFrom_starts (word ++ [ch]) (by simp) str
          obtain ⟨more, data⟩ := headerStringLoop_extends (writeString (writeString out word) headerFold) first [ch] str
          have room : maxImfLine - out.col = word.length := by omega
          refine ⟨[], word ++ [ch] ++ rest, later, more, starts, trivial, ?_, ?_, ?_⟩
          · show maxImfLine < _ + out.col
            simp only [List.length_append, List.length_singleton]
            omega
          · show out.col ≤ maxImfLine
            omega
          · show _ = (writeString (writeString out ((word ++ [ch] ++ rest).take (maxImfLine - out.col))) headerFold).data ++ more
            rw [room, List.append_assoc, List.take_left, data]
        · rw [if_neg full]
          have grown : (word ++ [ch]).length + out.col ≤ maxImfLine := by
            rw [List.length_append, List.length_singleton]
            omega
          exact ih (solid_snoc solid chSolid) areShort out first grown

theorem shortWords_wordsOf {str : List UInt8} (short : ∀ word ∈ wordsOf isBlankOctet str, word.length ≤ 900) :
    ShortWords (wordsOf isBlankOctet str) :=
  fun word member => ⟨(mem_wordsOf member).2.1, short word member⟩

theorem lined_start {before : List UInt8} (free : BreakFree before) (start : before.length ≤ maxMailCol) :
    Lined { data := before, col := before.length } :=
  ⟨⟨[], before, rfl, List.forall_mem_nil _, free, rfl⟩, Nat.le_trans start (by decide)⟩

theorem writeWords_snoc (out : Written) (first : Bool) (words : List (List UInt8)) (last : List UInt8) :
    ∃ out' first', writeWords out first (words ++ [last]) = writeWord out' first' last := by
  induction words generalizing out first with
  | nil => exact ⟨out, first, rfl⟩
  | cons word words ih => exact ih (writeWord out first word) false

/-- A word is cut only behind another word, and the two make no pair. -/
theorem CutWord.behind {out : Written} {words : List (List UInt8)} {data : List UInt8} (cut : CutWord out true words data)
    (areShort : ShortWords words) (start : out.col ≤ maxMailCol) :
    ∃ front last long later size more, words = front ++ last :: long :: later ∧ ¬ Pairs last long ∧ 0 < size ∧ size < long.length ∧
      data = (writeString (writeString (writeWords out true (front ++ [last])) (long.take size)) headerFold).data ++ more := by
  obtain ⟨early, long, later, more, split, -, tooLong, -, data⟩ := cut
  have longShort : long.length ≤ 900 := (areShort long (split ▸ List.mem_append_right early List.mem_cons_self)).2
  rcases List.eq_nil_or_concat early with rfl | ⟨front, last, rfl⟩
  · exfalso
    have atStart : maxImfLine < long.length + out.col := tooLong
    rw [maxImfLine] at atStart
    rw [maxMailCol] at start
    omega
  · rw [List.concat_eq_append] at *
    have isLast : last ∈ words := by
      rw [split]
      exact List.mem_append_left _ (List.mem_append_right front List.mem_cons_self)
    have lastShort := areShort last isLast
    have lastFree := breakFree_of_solid lastShort.1
    obtain ⟨out', first', isWord⟩ := writeWords_snoc out true front last
    have bounded := writeWord_col lastFree lastShort.2 out' first'
    rw [isWord] at tooLong
    have notPair := mt (fits_behind lastFree lastShort.2 longShort out' first').mpr (Nat.not_le.mpr tooLong)
    rw [maxImfLine] at tooLong
    refine ⟨front, last, long, later, _, more, ?_, notPair, ?_, ?_, data⟩
    · rw [split, List.append_assoc, List.singleton_append]
    · rw [isWord, maxImfLine]
      omega
    · rw [isWord, maxImfLine]
      omega

theorem lead_blanks {lead : List UInt8} (isLead : lead = [] ∨ lead = [ascii ' ']) : ∀ ch ∈ lead, isBlankOctet ch = true := by
  rcases isLead with rfl | rfl
  · exact List.forall_mem_nil _
  · intro ch member
    obtain rfl := List.mem_singleton.mp member
    rfl

section Header

variable {before str : List UInt8} (free : BreakFree before) (start : before.length ≤ maxMailCol)
  (short : ∀ word ∈ wordsOf isBlankOctet str, word.length ≤ 900)

include free start short

theorem foldsHeader_of_pairs (pairs : (wordsOf isBlankOctet str).IsChain Pairs) : FoldsHeader before str := by
  have areShort := shortWords_wordsOf short
  have within : ([] : List UInt8).length + before.length ≤ maxImfLine := by
    rw [List.length_nil, Nat.zero_add]
    exact Nat.le_trans start (by decide)
  rcases headerStringLoop_reads (List.forall_mem_nil _) areShort { data := before, col := before.length } true within with ⟨-, whole⟩ | cut
  · obtain ⟨text, data, ⟨⟨lead, isLead, unfolded⟩, folds⟩, lined⟩ := writeWords_unfolds areShort (lined_start free start)
    have all := unfolded []
    rw [List.append_nil, unfoldText_nil, List.append_nil] at all
    rw [← wordsOf] at whole
    refine ⟨text, ?_, ?_, folds, ?_⟩
    · rw [mailimfHeaderStringWriteDriver, whole, data]
    · rw [all]
      cases isWords : wordsOf isBlankOctet str with
      | nil =>
          rcases isLead with rfl | rfl
          · rfl
          · rfl
      | cons word words =>
          rw [isWords] at areShort
          exact trimBlanks_joinWords (isWords ▸ fun word member => ⟨(mem_wordsOf member).1, (mem_wordsOf member).2.1⟩) (List.cons_ne_nil _ _) (lead_blanks isLead)
    · intro line member
      rw [← data] at member
      exact lined.bounded line member
  · obtain ⟨front, last, long, later, -, -, split, notPair, -⟩ := cut.behind areShort start
    rw [← wordsOf] at split
    rw [split, List.isChain_split] at pairs
    exact absurd (List.isChain_cons_cons.mp pairs.2).1 notPair

theorem not_foldsHeader (notPairs : ¬ (wordsOf isBlankOctet str).IsChain Pairs) : ¬ FoldsHeader before str := by
  have areShort := shortWords_wordsOf short
  have areWords : ∀ word ∈ wordsOf isBlankOctet str, word ≠ [] ∧ ∀ ch ∈ word, isBlankOctet ch = false :=
    fun word member => ⟨(mem_wordsOf member).1, (mem_wordsOf member).2.1⟩
  have within : ([] : List UInt8).length + before.length ≤ maxImfLine := by
    rw [List.length_nil, Nat.zero_add]
    exact Nat.le_trans start (by decide)
  intro folded
  obtain ⟨added, isAdded, words, -⟩ := folded
  rcases headerStringLoop_reads (List.forall_mem_nil _) areShort { data := before, col := before.length } true within with ⟨fits, -⟩ | cut
  · exact notPairs ((fits_iff areShort start true).mp fits)
  obtain ⟨front, last, long, later, size, more, split, -, positive, inLong, data⟩ := cut.behind areShort start
  rw [← wordsOf] at split
  have member : ∀ word ∈ front ++ [last], word ∈ wordsOf isBlankOctet str := by
    intro word isEarly
    rw [split, List.append_cons]
    exact List.mem_append_left _ isEarly
  have isLong : long ∈ wordsOf isBlankOctet str := by
    rw [split]
    exact List.mem_append_right front (List.mem_cons_of_mem last List.mem_cons_self)
  obtain ⟨text, early, ⟨⟨lead, isLead, unfolded⟩, -⟩, -⟩ :=
    writeWords_unfolds (fun word isEarly => areShort word (member word isEarly)) (lined_start free start)
  -- the first part of the cut word stands behind the last one of the words before it
  have longShort := areShort long isLong
  have partFree : BreakFree (long.take size) := fun ch inPart => breakFree_of_solid longShort.1 ch (List.mem_of_mem_take inPart)
  have partShort : (long.take size).length ≤ maxImfLine := by
    rw [List.length_take, maxImfLine]
    omega
  rw [← mailimfHeaderStringWriteDriver, isAdded, writeString_fold, writeString_breakFree partFree partShort, early] at data
  simp only [List.append_assoc, List.append_cancel_left_eq] at data
  have joined : unfoldText isWhite added =
      lead ++ (joinWords (ascii ' ') (front ++ [last ++ long.take size]) ++ ascii ' ' :: unfoldText isWhite more) := by
    rw [data, unfolded, unfoldText_append partFree, unfoldText_gap (.inr rfl), joinWords_snoc_append]
    simp only [List.append_assoc]
  have found : ∀ word ∈ front ++ [last ++ long.take size], word ≠ [] ∧ ∀ ch ∈ word, isBlankOctet ch = false := by
    intro word isFound
    rcases List.mem_append.mp isFound with isFront | isLast
    · exact areWords word (member word (List.mem_append_left _ isFront))
    · obtain rfl := List.mem_singleton.mp isLast
      obtain ⟨nonempty, solid⟩ := areWords last (member last (List.mem_append_right front List.mem_cons_self))
      refine ⟨by simp [nonempty], fun ch inWord => ?_⟩
      rcases List.mem_append.mp inWord with inLast | inPart
      · exact solid ch inLast
      · exact longShort.1 ch (List.mem_of_mem_take inPart)
  have kept := congrArg (wordsOf isBlankOctet) words
  rw [wordsOf_trimBlanks, joined, wordsOf_blanks_append (lead_blanks isLead), wordsOf_append_blank rfl, wordsOf_joinWords rfl found,
    wordsOf_joinWords rfl areWords, split, List.append_assoc, List.append_cancel_left_eq, List.singleton_append, List.cons.injEq] at kept
  have sizes := congrArg List.length kept.1
  rw [List.length_append, List.length_take] at sizes
  omega

end Header

/-- The words are kept exactly if no two of them that stand next to each other are too long for one line. -/
theorem mailimfHeaderStringWriteDriver_folds {before str : List UInt8} (free : BreakFree before) (start : before.length ≤ 72)
    (short : ∀ word ∈ wordsOf isBlankOctet str, word.length ≤ 900) :
    FoldsHeader before str ↔ (wordsOf isBlankOctet str).IsChain fun word next => word.length + next.length ≤ 997 := by
  have same : (fun word next : List UInt8 => word.length + next.length ≤ 997) = Pairs := by
    funext word next
    exact propext Nat.lt_succ_iff.symm
  rw [same]
  constructor
  · intro folds
    by_contra notPairs
    exact not_foldsHeader free start short notPairs folds
  · exact foldsHeader_of_pairs free start short

theorem mailimfHeaderStringWriteDriver_folds_two : FoldsHeader (asciiText "Subject: ") (asciiText "two words") :=
  (mailimfHeaderStringWriteDriver_folds (by decide) (by decide) (by decide)).mpr (by decide)

/-- A word of 900 octets and one of 100 are run together. -/
theorem mailimfHeaderStringWriteDriver_joins :
    ¬ ∀ before str, BreakFree before → before.length ≤ 72 → (∀ word ∈ wordsOf isBlankOctet str, word.length ≤ 900) → FoldsHeader before str := by
  intro claim
  have areWords : ∀ word ∈ [List.replicate 900 (ascii 'a'), List.replicate 100 (ascii 'b')], word ≠ [] ∧ ∀ ch ∈ word, isBlankOctet ch = false := by
    intro word member
    rcases List.mem_pair.mp member with rfl | rfl
    · exact ⟨List.cons_ne_nil _ _, fun ch inWord => by rw [List.eq_of_mem_replicate inWord]; rfl⟩
    · exact ⟨List.cons_ne_nil _ _, fun ch inWord => by rw [List.eq_of_mem_replicate inWord]; rfl⟩
  have isWords := @wordsOf_joinWords _ isBlankOctet (ascii ' ') _ rfl areWords
  have short : ∀ word ∈ wordsOf isBlankOctet (joinWords (ascii ' ') [List.replicate 900 (ascii 'a'), List.replicate 100 (ascii 'b')]),
      word.length ≤ 900 := by
    intro word member
    rw [isWords] at member
    rcases List.mem_pair.mp member with rfl | rfl
    · exact List.length_replicate.le
    · exact List.length_replicate.trans_le (by decide)
  have free : BreakFree (asciiText "Subject: ") := by decide
  refine not_foldsHeader free (by decide) short ?_ (claim _ _ free (by decide) short)
  intro pairs
  rw [isWords] at pairs
  have tooLong := (List.isChain_cons_cons.mp pairs).1
  rw [Pairs, List.length_replicate, List.length_replicate] at tooLong
  exact absurd tooLong (by decide)

end Etpan.Imf
