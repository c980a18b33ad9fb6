import Etpan.Smtp.EhloScan

namespace Etpan.Smtp

open Etpan.Data

/-! `mailesmtp_parse_ehlo` line by line. -/

/-- The text from which the size of a SIZE line is read: what follows the keyword, to the
end of the reply. -/
def sizeText (start : List UInt8) : Option (List UInt8) :=
  if KeywordIs (asciiText "SIZE") (firstLine start) ∧ isBlank (start.getD 4 0) = true then some (start.drop 4) else none

def lastSizeText (reply : List UInt8) : Option (List UInt8) := ((lineStarts reply).filterMap sizeText).getLast?

theorem takeWhile_delim_stop {before after : List UInt8} {stop : UInt8} (delim : isdelim stop = true) :
    (before ++ stop :: after).takeWhile (!isdelim ·) = before.takeWhile (!isdelim ·) := by
  rw [List.takeWhile_append]
  split
  · next full =>
      have same := (List.takeWhile_prefix (!isdelim ·)).eq_of_length full
      rw [List.takeWhile_cons, delim]
      exact (List.append_nil before).trans same.symm
  · rfl

theorem keyword_firstLine (start : List UInt8) :
    (firstLine start).takeWhile (!isdelim ·) = start.takeWhile (!isdelim ·) := by
  obtain ⟨tail, split, lineEnd, _⟩ := firstLine_split start
  rcases lineEnd with rfl | ⟨rest, rfl⟩
  · rw [List.append_nil] at split
    rw [← split]
  · conv_rhs => rw [split]
    exact (takeWhile_delim_stop (by decide)).symm

theorem keyword_withoutCR (line : List UInt8) :
    (withoutCR line).takeWhile (!isdelim ·) = line.takeWhile (!isdelim ·) := by
  rcases withoutCR_spec line with same | split
  · rw [same]
  · conv_rhs => rw [split]
    exact (takeWhile_delim_stop (by decide)).symm

theorem isKeyword_iff {name : List UInt8} (free : ∀ byte ∈ name.map tolower, isdelim byte = false) (text : List UInt8) :
    isKeyword name text = true ↔ KeywordIs name text := by
  rw [isKeyword, KeywordIs, Bool.and_eq_true]
  constructor
  · rintro ⟨starts, delim⟩
    have same := of_decide_eq_true starts
    have length : (text.take name.length).length = name.length := List.length_take_of_le (startsWith_length starts)
    have word : ∀ byte ∈ text.take name.length, (!isdelim byte) = true := by
      intro byte member
      rw [Bool.not_eq_true', ← Bool.not_eq_true]
      intro isDelim
      have notDelim := free (tolower byte) (same ▸ List.mem_map_of_mem member)
      rw [isdelim_unchanged isDelim, isDelim] at notDelim
      cases notDelim
    have rest : (text.drop name.length).takeWhile (!isdelim ·) = [] := by
      rw [List.getD_eq_getElem?_getD, ← Nat.add_zero name.length, ← List.getElem?_drop] at delim
      cases left : text.drop name.length with
      | nil => rfl
      | cons byte others =>
          have isDelim : isdelim byte = true := by simpa [left] using delim
          simp [isDelim]
    have keyword : text.takeWhile (!isdelim ·) = text.take name.length := by
      conv_lhs => rw [← List.take_append_drop name.length text]
      rw [List.takeWhile_append_of_pos word, rest, List.append_nil]
    rw [keyword, same]
  · intro same
    have whole : text.takeWhile (!isdelim ·) ++ text.dropWhile (!isdelim ·) = text := List.takeWhile_append_dropWhile
    have length : (text.takeWhile (!isdelim ·)).length = name.length := by
      simpa only [List.length_map] using congrArg List.length same
    have stopped := List.head?_dropWhile_not (!isdelim ·) text
    have starts : startsWith name text = true := by
      rw [← whole, startsWith_append_of_le length.ge]
      exact decide_eq_true (by rw [← length, List.take_length, same])
    refine ⟨starts, ?_⟩
    rw [← whole, List.getD_eq_getElem?_getD, List.getElem?_append_right length.le, length, Nat.sub_self]
    cases left : text.dropWhile (!isdelim ·) with
    | nil => rfl
    | cons byte others =>
        rw [left] at stopped
        simpa using stopped

theorem extensions_free : ∀ extension ∈ extensions, ∀ byte ∈ extension.name.map tolower, isdelim byte = false := by
  decide +kernel

theorem extensions_distinct :
    ∀ extension ∈ extensions, ∀ other ∈ extensions,
      extension.name.map tolower = other.name.map tolower → extension = other := by
  decide

theorem extension_flags :
    ∀ extension ∈ extensions, ∀ other ∈ extensions, extension.flag &&& other.flag ≠ 0 ↔ extension = other := by
  decide

theorem mechanism_flags :
    ∀ mechanism ∈ authMechanisms, ∀ other ∈ authMechanisms, mechanism.flag &&& other.flag ≠ 0 ↔ mechanism = other := by
  decide

theorem hasFlag_or (flags more flag : UInt32) : (flags ||| more) &&& flag ≠ 0 ↔ flags &&& flag ≠ 0 ∨ more &&& flag ≠ 0 := by
  have distributes : (flags ||| more) &&& flag = flags &&& flag ||| more &&& flag := by
    apply UInt32.toBitVec_inj.mp
    simp only [UInt32.toBitVec_and, UInt32.toBitVec_or]
    ext bit
    simp only [BitVec.getElem_and, BitVec.getElem_or, Bool.and_or_distrib_right]
  rw [distributes, Ne, UInt32.or_eq_zero_iff, not_and_or]

theorem find_extension {start : List UInt8} {extension : Named} (member : extension ∈ extensions) :
    (extensions.find? fun extension => isKeyword extension.name start) = some extension ↔
      KeywordIs extension.name start := by
  constructor
  · intro found
    exact (isKeyword_iff (extensions_free extension member) start).mp (by simpa using List.find?_some found)
  · intro keyword
    have isKey := (isKeyword_iff (extensions_free extension member) start).mpr keyword
    cases found : extensions.find? fun extension => isKeyword extension.name start with
    | none => exact absurd isKey (by simpa using List.find?_eq_none.mp found extension member)
    | some other =>
        have otherMember := List.mem_of_find?_eq_some found
        have otherKey : isKeyword other.name start = true := by simpa using List.find?_some found
        have otherKeyword := (isKeyword_iff (extensions_free other otherMember) start).mp otherKey
        rw [extensions_distinct other otherMember extension member (otherKeyword.symm.trans keyword)]

structure Scanned (before after : Capabilities) (starts : List (List UInt8)) : Prop where
  extensions : ∀ extension ∈ extensions, after.esmtp &&& extension.flag ≠ 0 ↔
    before.esmtp &&& extension.flag ≠ 0 ∨ ∃ start ∈ starts, KeywordIs extension.name (firstLine start)
  mechanisms : ∀ mechanism ∈ authMechanisms, after.auth &&& mechanism.flag ≠ 0 ↔
    before.auth &&& mechanism.flag ≠ 0 ∨
      ∃ start ∈ starts, ∃ list, scannedList (firstLine start) = some list ∧ mechanism ∈ begunMechanisms list
  size : after.smtpMaxMsgSize = (((starts.filterMap sizeText).getLast?).map Mbox.strtoul).getD before.smtpMaxMsgSize

theorem Scanned.append {first second third : Capabilities} {starts more : List (List UInt8)}
    (scanned : Scanned first second starts) (then_ : Scanned second third more) :
    Scanned first third (starts ++ more) where
  extensions extension member := by
    rw [then_.extensions extension member, scanned.extensions extension member]
    simp only [List.mem_append, or_and_right, exists_or, or_assoc]
  mechanisms mechanism member := by
    rw [then_.mechanisms mechanism member, scanned.mechanisms mechanism member]
    simp only [List.mem_append, or_and_right, exists_or, or_assoc]
  size := by
    rw [then_.size, scanned.size, List.filterMap_append, List.getLast?_append]
    cases (more.filterMap sizeText).getLast? <;> rfl

theorem foldl_flags {mechanism : Named} (member : mechanism ∈ authMechanisms) {found : List Named}
    (known : ∀ other ∈ found, other ∈ authMechanisms) (auth : UInt32) :
    found.foldl (fun auth mechanism => auth ||| mechanism.flag) auth &&& mechanism.flag ≠ 0 ↔
      auth &&& mechanism.flag ≠ 0 ∨ mechanism ∈ found := by
  induction found generalizing auth with
  | nil => simp
  | cons first rest ih =>
      have flags := mechanism_flags first (known first (by simp)) mechanism member
      rw [List.foldl_cons, ih (fun other later => known other (by simp [later])), hasFlag_or, flags, List.mem_cons,
        or_assoc, eq_comm (a := first)]

theorem leadingMechanisms_subset (word : List UInt8) : ∀ mechanism ∈ leadingMechanisms word, mechanism ∈ authMechanisms := by
  intro mechanism member
  fun_induction leadingMechanisms word with
  | case1 => cases member
  | case2 word first found _ ih =>
      rcases List.mem_cons.mp member with rfl | later
      · exact (mechanismAt_spec found).1
      · exact ih later

theorem begunMechanisms_subset (list : List UInt8) : ∀ mechanism ∈ begunMechanisms list, mechanism ∈ authMechanisms := by
  intro mechanism member
  obtain ⟨word, _, inWord⟩ := List.mem_flatMap.mp member
  exact leadingMechanisms_subset word mechanism inWord

theorem auth_free :
    LF ∉ (asciiText "AUTH ").map tolower ∧ LF ∉ (asciiText "AUTH=").map tolower := by
  decide

theorem scannedList_start {start tail : List UInt8} (split : start = firstLine start ++ tail) (lineEnd : LineEnd tail) :
    scannedList start = (scannedList (firstLine start)).map (· ++ tail) := by
  have same : ∀ literal, LF ∉ literal.map tolower → startsWith literal start = startsWith literal (firstLine start) := by
    intro literal free
    rcases lineEnd with rfl | ⟨rest, rfl⟩
    · rw [List.append_nil] at split
      rw [← split]
    · conv_lhs => rw [split]
      exact startsWith_stop ⟨by decide, free⟩
  rw [scannedList, scannedList, same _ auth_free.1, same _ auth_free.2]
  split_ifs with auth
  · have long : 5 ≤ (firstLine start).length := auth.elim startsWith_length startsWith_length
    rw [Option.map_some, ← List.drop_append_of_le_length long, ← split]
  · rfl

theorem auth_not_extension {start list : List UInt8} (scanned : scannedList start = some list) :
    (extensions.find? fun extension => isKeyword extension.name start) = none := by
  rw [List.find?_eq_none]
  intro extension member isKey
  have starts : startsWith extension.name start = true := (Bool.and_eq_true_iff.mp isKey).1
  have letter : ∀ literal, startsWith literal start = true → literal ≠ [] →
      (start.head?).map tolower = (literal.map tolower).head? := by
    intro literal literalStarts nonempty
    have same := congrArg List.head? (of_decide_eq_true literalStarts)
    have positive : literal.length ≠ 0 := fun empty => nonempty (List.length_eq_zero_iff.mp empty)
    rw [← same, List.head?_map, List.head?_take, if_neg positive]
  have first : (start.head?).map tolower = some (ascii 'a') := by
    rw [scannedList] at scanned
    split at scanned
    · next auth =>
        rcases auth with auth | auth
        · exact letter _ auth (by decide)
        · exact letter _ auth (by decide)
    · cases scanned
  have others : ∀ extension ∈ extensions, extension.name ≠ [] ∧ (extension.name.map tolower).head? ≠ some (ascii 'a') := by
    decide
  exact (others extension member).2 ((letter _ starts (others extension member).1).symm.trans first)

/-- The list that a tab makes the scan hang on is not there. -/
def TabFree (start : List UInt8) : Prop := ∀ list, scannedList (firstLine start) = some list → TAB ∉ list

theorem scannedList_suffix {line list : List UInt8} (scanned : scannedList line = some list) : list <:+ line := by
  rw [scannedList] at scanned
  split at scanned
  · cases scanned
    exact List.drop_suffix _ _
  · cases scanned

theorem ehloLine_extension {session : Capabilities} {start : List UInt8} {extension : Named} (rounds : Nat)
    (found : (extensions.find? fun extension => isKeyword extension.name start) = some extension) :
    ∃ after, ehloLine rounds session start = some (after, start) ∧ Scanned session after [start] := by
  have member := List.mem_of_find?_eq_some found
  have keyword := (find_extension member).mp found
  have keywordLine : KeywordIs extension.name (firstLine start) := by
    rw [KeywordIs, keyword_firstLine]
    exact keyword
  have only : ∀ other ∈ extensions, KeywordIs other.name (firstLine start) ↔ extension = other := fun other otherMember =>
    ⟨fun otherKeyword => extensions_distinct extension member other otherMember (keywordLine.symm.trans otherKeyword),
      fun same => same ▸ keywordLine⟩
  obtain ⟨tail, split, lineEnd, _⟩ := firstLine_split start
  refine ⟨_, by rw [ehloLine, found], ⟨fun other otherMember => ?_, fun mechanism _ => ?_, ?_⟩⟩
  · simp only [hasFlag_or, extension_flags extension member other otherMember, List.mem_singleton, exists_eq_left,
      only other otherMember]
  · have noList : ∀ list, scannedList (firstLine start) ≠ some list := by
      intro list scanned
      have whole := scannedList_start split lineEnd
      rw [scanned, Option.map_some] at whole
      rw [auth_not_extension whole] at found
      cases found
    simp only [List.mem_singleton, exists_eq_left, noList, false_and, exists_false, or_false]
  · have size := only sizeExtension (by decide)
    by_cases here : extension = sizeExtension ∧ isBlank (start.getD 4 0) = true
    · have text : sizeText start = some (start.drop 4) := if_pos ⟨size.mpr here.1, here.2⟩
      simp only [if_pos here, List.filterMap_cons, text, List.filterMap_nil, List.getLast?_singleton, Option.map_some,
        Option.getD_some]
    · have text : sizeText start = none := if_neg fun both => here ⟨size.mp both.1, both.2⟩
      simp only [if_neg here, List.filterMap_cons, text, List.filterMap_nil, List.getLast?_nil, Option.map_none,
        Option.getD_none]

theorem ehloLine_scanned {session : Capabilities} {start : List UInt8} {rounds : Nat} (nulFree : NulFree start)
    (tabFree : TabFree start) (enough : start.length < rounds) :
    ∃ after rest, ehloLine rounds session start = some (after, rest) ∧ nextLine rest = nextLine start ∧
      Scanned session after [start] := by
  cases found : extensions.find? fun extension => isKeyword extension.name start with
  | some extension =>
      obtain ⟨after, ended, scanned⟩ := @ehloLine_extension session start extension rounds found
      exact ⟨after, start, ended, rfl, scanned⟩
  | none =>
      have noKeyword : ∀ extension ∈ extensions, ¬ KeywordIs extension.name (firstLine start) := by
        intro extension member keyword
        rw [KeywordIs, keyword_firstLine] at keyword
        rw [(find_extension member).mpr keyword] at found
        cases found
      have noSize : sizeText start = none := if_neg fun both => noKeyword sizeExtension (by decide) both.1
      obtain ⟨tail, split, lineEnd, noFeed⟩ := firstLine_split start
      have whole := scannedList_start split lineEnd
      cases scanned : scannedList (firstLine start) with
      | none =>
          rw [scanned, Option.map_none, scannedList] at whole
          have noList : ¬ (startsWith (asciiText "AUTH ") start = true ∨ startsWith (asciiText "AUTH=") start = true) := by
            intro starts
            rw [if_pos starts] at whole
            cases whole
          refine ⟨session, start, by rw [ehloLine, found]; exact if_neg noList, rfl, ⟨fun extension member => ?_, fun mechanism _ => ?_, ?_⟩⟩
          · simp [noKeyword extension member]
          · simp [scanned]
          · simp [noSize]
      | some list =>
          rw [scanned, Option.map_some] at whole
          have starts : startsWith (asciiText "AUTH ") start = true ∨ startsWith (asciiText "AUTH=") start = true := by
            by_contra noList
            rw [scannedList, if_neg noList] at whole
            cases whole
          have text : start.drop 5 = list ++ tail := by
            rw [scannedList, if_pos starts] at whole
            exact Option.some.inj whole
          have inLine := scannedList_suffix scanned
          have inText : ∀ byte ∈ list, byte ∈ start := fun byte member => by
            rw [split]
            exact List.mem_append_left _ (inLine.subset member)
          have plain : Plain list := {
            noFeed := fun member => noFeed (inLine.subset member)
            noNul := fun member => nulFree 0 (inText 0 member) rfl
            noTab := tabFree list scanned }
          have short : list.length < rounds := by
            have lengths := congrArg List.length text
            rw [List.length_drop, List.length_append] at lengths
            omega
          have ended := authLoop_plain lineEnd rounds list session.auth plain short
          have line : ehloLine rounds session start = some ({ session with
              auth := (begunMechanisms list).foldl (fun auth mechanism => auth ||| mechanism.flag) session.auth }, tail) := by
            rw [ehloLine, found]
            simp only [if_pos starts, text, ended, Option.map_some]
          refine ⟨_, tail, line, ?_, ⟨fun extension member => ?_, fun mechanism member => ?_, ?_⟩⟩
          · conv_rhs => rw [split]
            exact (nextLine_append noFeed).symm
          · simp [noKeyword extension member]
          · rw [foldl_flags member (begunMechanisms_subset list)]
            simp [scanned]
          · simp [noSize]

theorem lineStarts_cons (text : List UInt8) :
    lineStarts text = text :: match nextLine text with
      | none => []
      | some rest => lineStarts rest := by
  rw [lineStarts]
  congr 1
  split
  · next last => rw [last]
  · next rest next => simp only [next]

theorem nextLine_suffix {text rest : List UInt8} (next : nextLine text = some rest) : rest <:+ text := by
  rw [nextLine] at next
  cases left : text.dropWhile (· ≠ LF) with
  | nil =>
      rw [left] at next
      cases next
  | cons feed behind =>
      rw [left] at next
      cases next
      exact (List.suffix_cons feed rest).trans (left ▸ List.dropWhile_suffix _)

theorem ehloLoop_scanned :
    ∀ (rounds : Nat) (session : Capabilities) (text : List UInt8), NulFree text → (∀ start ∈ lineStarts text, TabFree start) →
      text.length + 1 < rounds →
        ∃ after, ehloLoop rounds session text = some after ∧ Scanned session after (lineStarts text) := by
  intro rounds
  induction rounds with
  | zero => intro session text _ _ enough; omega
  | succ rounds ih =>
      intro session text nulFree tabFree enough
      rw [lineStarts_cons] at tabFree ⊢
      obtain ⟨middle, rest, ended, next, scanned⟩ :=
        @ehloLine_scanned session text rounds nulFree (tabFree text (by simp)) (show text.length < rounds by omega)
      rw [ehloLoop, ended]
      cases following : nextLine text with
      | none => exact ⟨middle, by simp only [next, following], by simpa only [following] using scanned⟩
      | some more =>
          simp only [following, List.mem_cons, forall_eq_or_imp] at tabFree
          have shorter := nextLine_length following
          have moreFree : NulFree more := fun byte member => nulFree byte ((nextLine_suffix following).subset member)
          obtain ⟨after, finished, others⟩ := ih middle more moreFree tabFree.2 (by omega)
          exact ⟨after, by simpa only [next, following] using finished, scanned.append others⟩

end Etpan.Smtp
