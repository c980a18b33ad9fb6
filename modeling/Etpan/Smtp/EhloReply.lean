import Etpan.Data.CommandLine
import Etpan.Smtp.EhloExact

namespace Etpan.Smtp

open Etpan.Data

/-! When the capabilities are those that the reply announces. -/

/-- What a reply must be like for `mailesmtp_parse_ehlo` to read it right, after an earlier
reply with the given size. -/
structure Readable (smtpMaxMsgSize : Nat) (reply : List UInt8) : Prop where
  noTab : ∀ start ∈ lineStarts reply, TabFree start
  whole : ∀ mechanism ∈ authMechanisms, Begun mechanism reply → Listed mechanism.name reply
  recognized : ∀ mechanism ∈ authMechanisms, ∀ line ∈ replyLines reply, ∀ list,
    authList line = some list → scannedList line = none → HasWord mechanism.name list → Begun mechanism reply
  size : match lastSizeText reply with
    | none => smtpMaxMsgSize = 0
    | some text => Mbox.strtoul text = announcedSize reply

theorem authLoop_mono {rounds : Nat} {text : List UInt8} {auth : UInt32} {result : List UInt8 × UInt32}
    (ended : authLoop rounds text auth = some result) : authLoop (rounds + 1) text auth = some result := by
  induction rounds generalizing text auth with
  | zero => cases ended
  | succ rounds ih =>
      rw [authLoop] at ended ⊢
      split at ended
      · next goesOn =>
          rw [if_pos goesOn]
          dsimp only at ended ⊢
          split at ended
          · exact ih ended
          · exact ih ended
      · next stopped =>
          rw [if_neg stopped]
          exact ended

theorem ehloLine_mono {rounds : Nat} {session : Capabilities} {text : List UInt8} {result : Capabilities × List UInt8}
    (ended : ehloLine rounds session text = some result) : ehloLine (rounds + 1) session text = some result := by
  rw [ehloLine] at ended ⊢
  split at ended
  · exact ended
  · split at ended
    · next starts =>
        obtain ⟨scanned, authEnded, same⟩ := Option.map_eq_some_iff.mp ended
        rw [if_pos starts, authLoop_mono authEnded, Option.map_some, ← same]
    · next others =>
        rw [if_neg others]
        exact ended

theorem ehloLoop_mono {rounds : Nat} {session after : Capabilities} {text : List UInt8}
    (ended : ehloLoop rounds session text = some after) : ehloLoop (rounds + 1) session text = some after := by
  induction rounds generalizing session text with
  | zero => cases ended
  | succ rounds ih =>
      rw [ehloLoop] at ended ⊢
      cases line : ehloLine rounds session text with
      | none =>
          rw [line] at ended
          cases ended
      | some result =>
          rw [line] at ended
          rw [ehloLine_mono line]
          simp only at ended ⊢
          cases next : nextLine result.2 with
          | none => simpa only [next] using ended
          | some rest =>
              simp only [next] at ended ⊢
              exact ih ended

theorem ehloLoop_le {rounds more : Nat} {session after : Capabilities} {text : List UInt8} (le : rounds ≤ more)
    (ended : ehloLoop rounds session text = some after) : ehloLoop more session text = some after := by
  induction le with
  | refl => exact ended
  | step _ ih => exact ehloLoop_mono ih

theorem nextLine_dropWhile {skipped : UInt8 → Bool} (stops : skipped LF = false) (text : List UInt8) :
    nextLine (text.dropWhile skipped) = nextLine text := by
  conv_rhs => rw [← List.takeWhile_append_dropWhile (p := skipped) (l := text)]
  refine (nextLine_append fun member => ?_).symm
  have kept := List.mem_takeWhile_imp member
  rw [stops] at kept
  cases kept

theorem authLoop_nextLine {rounds : Nat} {text rest : List UInt8} {auth flags : UInt32}
    (ended : authLoop rounds text auth = some (rest, flags)) : nextLine rest = nextLine text := by
  induction rounds generalizing text auth with
  | zero => cases ended
  | succ rounds ih =>
      rw [authLoop] at ended
      split at ended
      · dsimp only at ended
        split at ended
        · next mechanism found =>
            obtain ⟨member, starts⟩ := mechanismAt_spec found
            rw [ih ended, ← @nextLine_dropWhile (· = SP) (by decide) text]
            generalize text.dropWhile (· = SP) = spaced at starts
            conv_rhs => rw [← List.take_append_drop mechanism.name.length spaced]
            refine (nextLine_append fun inName => ?_).symm
            have feed : LF ∈ mechanism.name.map tolower := of_decide_eq_true starts ▸ List.mem_map_of_mem inName
            have notDelim := authMechanisms_free mechanism member LF feed
            cases notDelim
        · rw [ih ended, nextLine_dropWhile (by decide), nextLine_dropWhile (by decide)]
      · cases ended
        rfl

theorem ehloLine_nextLine {rounds : Nat} {session after : Capabilities} {text rest : List UInt8}
    (ended : ehloLine rounds session text = some (after, rest)) : nextLine rest = nextLine text := by
  rw [ehloLine] at ended
  split at ended
  · cases ended
    rfl
  · next found =>
      split at ended
      · next starts =>
          obtain ⟨⟨scanned, flags⟩, authEnded, same⟩ := Option.map_eq_some_iff.mp ended
          cases same
          rw [authLoop_nextLine authEnded]
          conv_rhs => rw [← List.take_append_drop 5 text]
          refine (nextLine_append fun inName => ?_).symm
          rcases starts with starts | starts
          · exact auth_free.1 (of_decide_eq_true starts ▸ List.mem_map_of_mem inName)
          · exact auth_free.2 (of_decide_eq_true starts ▸ List.mem_map_of_mem inName)
      · cases ended
        rfl

theorem ehloLine_tab {session : Capabilities} {start : List UInt8} (rounds : Nat) (tab : ¬ TabFree start) :
    ehloLine rounds session start = none := by
  simp only [TabFree, not_forall, not_not] at tab
  obtain ⟨list, scanned, member⟩ := tab
  obtain ⟨tail, split, lineEnd, noFeed⟩ := firstLine_split start
  have whole := scannedList_start split lineEnd
  rw [scanned, Option.map_some] at whole
  have noKeyword := auth_not_extension whole
  obtain ⟨before, after, rfl⟩ := List.append_of_mem member
  have free : LF ∉ before := fun inBefore => noFeed ((scannedList_suffix scanned).subset (List.mem_append_left _ inBefore))
  rw [scannedList] at whole
  split at whole
  · next starts =>
      have text : start.drop 5 = before ++ TAB :: (after ++ tail) := by
        rw [Option.some.inj whole, List.append_assoc, List.cons_append]
      rw [ehloLine, noKeyword]
      simp only [if_pos starts, text, authLoop_tab rounds before session.auth free, Option.map_none]
  · cases whole

theorem ehloLoop_tab :
    ∀ (rounds : Nat) (session : Capabilities) (text : List UInt8), (∃ start ∈ lineStarts text, ¬ TabFree start) →
      ehloLoop rounds session text = none := by
  intro rounds
  induction rounds with
  | zero => intro session text _; rfl
  | succ rounds ih =>
      rintro session text ⟨start, member, tab⟩
      rw [lineStarts_cons, List.mem_cons] at member
      rw [ehloLoop]
      rcases member with rfl | later
      · rw [ehloLine_tab rounds tab]
      · cases line : ehloLine rounds session text with
        | none => rfl
        | some result =>
            have next := ehloLine_nextLine line
            cases following : nextLine text with
            | none => simp [following] at later
            | some rest =>
                simp only [following] at later
                simp only [next, following]
                exact ih result.1 rest ⟨start, later, tab⟩

theorem authMechanisms_prefixFree :
    ∀ mechanism ∈ authMechanisms, ∀ other ∈ authMechanisms,
      mechanism.name.map tolower <+: other.name.map tolower → mechanism = other := by
  decide

theorem prefix_of_startsWith {literal text : List UInt8} (starts : startsWith literal text = true) :
    literal.map tolower <+: text.map tolower := by
  rw [← of_decide_eq_true starts, List.map_take]
  exact List.take_prefix _ _

/-- A word that begins with the name of a mechanism is found as that mechanism. -/
theorem mechanismAt_name {mechanism : Named} (member : mechanism ∈ authMechanisms) {name more : List UInt8}
    (same : name.map tolower = mechanism.name.map tolower) : mechanismAt (name ++ more) = some mechanism := by
  have length : name.length = mechanism.name.length := by simpa only [List.length_map] using congrArg List.length same
  have starts : startsWith mechanism.name (name ++ more) = true := by
    rw [startsWith_append_of_le length.ge]
    exact decide_eq_true (by rw [← length, List.take_length, same])
  cases found : mechanismAt (name ++ more) with
  | none => exact absurd starts (by simpa using List.find?_eq_none.mp found mechanism member)
  | some other =>
      obtain ⟨otherMember, otherStarts⟩ := mechanismAt_spec found
      rcases List.prefix_or_prefix_of_prefix (prefix_of_startsWith starts) (prefix_of_startsWith otherStarts) with shorter | longer
      · rw [authMechanisms_prefixFree mechanism member other otherMember shorter]
      · rw [authMechanisms_prefixFree other otherMember mechanism member longer]

theorem begunMechanisms_word {mechanism : Named} (member : mechanism ∈ authMechanisms) {list : List UInt8} (more : List UInt8)
    (hasWord : HasWord mechanism.name list) : mechanism ∈ begunMechanisms (list ++ more) := by
  have lead : ∀ {name text}, name.map tolower = mechanism.name.map tolower →
      mechanism ∈ leadingMechanisms (name ++ text) := fun same => by
    rw [leadingMechanisms_some (mechanismAt_name member same)]
    exact List.mem_cons_self
  induction length : list.length using Nat.strong_induction_on generalizing list with
  | _ size ih =>
      obtain ⟨word, inList, same⟩ := hasWord
      have whole : list.takeWhile (!isBlank ·) ++ list.dropWhile (!isBlank ·) = list := List.takeWhile_append_dropWhile
      have first : ∀ byte ∈ list.takeWhile (!isBlank ·), (!isBlank byte) = true := by
        intro byte inFirst
        have kept := List.mem_takeWhile_imp inFirst
        exact kept
      have split : (list ++ more).takeWhile (!isBlank ·) =
          list.takeWhile (!isBlank ·) ++ (list.dropWhile (!isBlank ·) ++ more).takeWhile (!isBlank ·) := by
        conv_lhs => rw [← whole, List.append_assoc]
        exact List.takeWhile_append_of_pos first
      have behind : (list ++ more).dropWhile (!isBlank ·) =
          (list.dropWhile (!isBlank ·) ++ more).dropWhile (!isBlank ·) := by
        conv_lhs => rw [← whole, List.append_assoc]
        exact List.dropWhile_append_of_pos first
      rw [splitOnP_eq, List.mem_cons] at inList
      rw [begunMechanisms_eq, split, behind, List.mem_append]
      rcases inList with rfl | later
      · exact Or.inl (lead same)
      · right
        have stopped := List.head?_dropWhile_not (!isBlank ·) list
        cases left : list.dropWhile (!isBlank ·) with
        | nil => simp [left] at later
        | cons blank rest =>
            rw [left] at later stopped whole
            have separates : isBlank blank = true := by simpa using stopped
            have shorter : rest.length < size := by
              rw [← length, ← whole, List.length_append, List.length_cons]
              omega
            simp only [List.cons_append, List.dropWhile_cons, separates, Bool.not_true, Bool.false_eq_true, if_false]
            exact ih rest.length shorter ⟨word, later, same⟩ rfl

theorem auth_keyword {line : List UInt8} (keyword : KeywordIs (asciiText "AUTH") line) :
    startsWith (asciiText "AUTH=") line = false := by
  rw [Bool.eq_false_iff]
  intro starts
  have length : (line.takeWhile (!isdelim ·)).length = (asciiText "AUTH").length := by
    simpa only [List.length_map] using congrArg List.length keyword
  have whole : line.takeWhile (!isdelim ·) ++ line.dropWhile (!isdelim ·) = line := List.takeWhile_append_dropWhile
  have stopped := List.head?_dropWhile_not (!isdelim ·) line
  have long := startsWith_length starts
  cases left : line.dropWhile (!isdelim ·) with
  | nil =>
      rw [left, List.append_nil] at whole
      rw [← whole, length] at long
      exact absurd long (by decide)
  | cons delim rest =>
      rw [left] at stopped whole
      have isDelim : isdelim delim = true := by simpa using stopped
      have stop := @startsWith_stop (asciiText "AUTH=") (line.takeWhile (!isdelim ·)) rest delim
        ⟨isdelim_unchanged isDelim, fun member => by
          have notDelim : ∀ byte ∈ (asciiText "AUTH=").map tolower, isdelim byte = false := by
            decide +kernel
          rw [notDelim delim member] at isDelim
          cases isDelim⟩
      rw [whole, starts] at stop
      have tooLong := startsWith_length stop.symm
      rw [length] at tooLong
      exact absurd tooLong (by decide)

theorem begun_of_listed {reply start list : List UInt8} {mechanism : Named} (member : mechanism ∈ authMechanisms)
    (isStart : start ∈ lineStarts reply) (listed : authList (withoutCR (firstLine start)) = some list)
    (scanned : scannedList (withoutCR (firstLine start)) ≠ none) (hasWord : HasWord mechanism.name list) :
    Begun mechanism reply := by
  obtain ⟨found, here⟩ := Option.ne_none_iff_exists'.mp scanned
  have sameWords : HasWord mechanism.name found := by
    obtain ⟨word, inList, same⟩ := hasWord
    rw [authList] at listed
    rw [scannedList] at here
    split at here
    · next starts =>
        cases here
        split at listed
        · next keyword =>
            cases listed
            -- the list begins with the space that ends the keyword
            rcases starts with space | equals
            · have long := startsWith_length space
              have fifth : (withoutCR (firstLine start)).drop 4 = SP :: (withoutCR (firstLine start)).drop 5 := by
                have same := of_decide_eq_true space
                have at4 := congrArg (·[4]?) same
                rw [List.drop_eq_getElem_cons (show 4 < (withoutCR (firstLine start)).length from long)]
                congr 1
                simp only [List.getElem?_map, List.getElem?_take] at at4
                have octet : tolower ((withoutCR (firstLine start))[4]) = SP := by
                  rw [List.getElem?_eq_getElem (show 4 < (withoutCR (firstLine start)).length from long)] at at4
                  exact Option.some.inj at4
                have onlySpace : ∀ byte, tolower byte = SP → byte = SP := forall_octet (by decide +kernel)
                exact onlySpace _ octet
              rw [fifth, splitOnP_cons_separator (by decide), List.mem_cons] at inList
              rcases inList with rfl | later
              · have empty := congrArg List.length same
                have positive := authMechanisms_pos mechanism member
                simp only [List.map_nil, List.length_nil, List.length_map] at empty
                omega
              · exact ⟨word, later, same⟩
            · rw [auth_keyword keyword] at equals
              cases equals
        · split at listed
          · cases listed
            exact ⟨word, inList, same⟩
          · cases listed
    · cases here
  rcases withoutCR_spec (firstLine start) with same | split
  · rw [same] at here
    refine ⟨start, isStart, found, here, ?_⟩
    simpa using begunMechanisms_word member [] sameWords
  · have raw : scannedList (firstLine start) = some (found ++ [CR]) := by
      have stops : ∀ literal, CR ∉ literal.map tolower →
          startsWith literal (firstLine start) = startsWith literal (withoutCR (firstLine start)) := by
        intro literal free
        conv_lhs => rw [split]
        exact startsWith_stop ⟨by decide, free⟩
      rw [scannedList] at here ⊢
      rw [stops _ (by decide), stops _ (by decide)]
      split at here
      · next starts =>
          have long : 5 ≤ (withoutCR (firstLine start)).length := starts.elim startsWith_length startsWith_length
          rw [if_pos starts, ← Option.some.inj here, ← List.drop_append_of_le_length long, ← split]
      · cases here
    exact ⟨start, isStart, found ++ [CR], raw, begunMechanisms_word member [CR] sameWords⟩

theorem delim_not_digit : ∀ byte, isdelim byte = true → isDigit byte = false := forall_octet (by decide +kernel)

theorem sizeText_of_sizeOf {start : List UInt8} {number : Nat} (announced : sizeOf (withoutCR (firstLine start)) = some number) :
    sizeText start ≠ none := by
  rw [sizeOf] at announced
  split at announced
  · next keyword =>
      dsimp only at announced
      split at announced
      · next parameter =>
          have keywordLine : KeywordIs (asciiText "SIZE") (firstLine start) := by
            rw [KeywordIs, ← keyword_withoutCR]
            exact keyword
          have word : ((withoutCR (firstLine start)).takeWhile (!isdelim ·)).length = (asciiText "SIZE").length := by
            simpa only [List.length_map] using congrArg List.length keyword
          have stopped := List.head?_dropWhile_not (!isdelim ·) (withoutCR (firstLine start))
          have behind : (withoutCR (firstLine start)).drop 4 = (withoutCR (firstLine start)).dropWhile (!isdelim ·) := by
            conv_lhs => rw [← List.takeWhile_append_dropWhile (p := (!isdelim ·)) (l := withoutCR (firstLine start))]
            exact List.drop_left' word
          rw [behind] at parameter
          cases left : (withoutCR (firstLine start)).dropWhile (!isdelim ·) with
          | nil => simp [left] at parameter
          | cons delim rest =>
              rw [left] at parameter stopped behind
              have isDelim : isdelim delim = true := by simpa using stopped
              -- were it no blank, the parameter would begin with it
              have blank : isBlank delim = true := by
                by_contra notBlank
                have notDigit := delim_not_digit delim isDelim
                have first : delim ∈ ((delim :: rest).dropWhile isBlank).takeWhile (!isBlank ·) := by
                  simp [Bool.eq_false_iff.mpr notBlank]
                have digit := List.all_eq_true.mp parameter.2 delim first
                rw [notDigit] at digit
                cases digit
              have at4 : start.getD 4 0 = delim := by
                obtain ⟨tail, split, _, _⟩ := firstLine_split start
                have long : 4 < (withoutCR (firstLine start)).length := by
                  have lengths := congrArg List.length behind
                  rw [List.length_drop, List.length_cons] at lengths
                  omega
                have here : (withoutCR (firstLine start))[4]? = some delim := by
                  have first := congrArg (·[0]?) behind
                  simpa using first
                have inLine : (firstLine start)[4]? = some delim := by
                  rcases withoutCR_spec (firstLine start) with same | ended
                  · rwa [same] at here
                  · rw [ended, List.getElem?_append_left long]
                    exact here
                have lineLong : 4 < (firstLine start).length := (List.getElem?_eq_some_iff.mp inLine).1
                rw [List.getD_eq_getElem?_getD, split, List.getElem?_append_left lineLong, inLine]
                rfl
              rw [sizeText, if_pos ⟨keywordLine, by rw [at4]; exact blank⟩]
              exact Option.some_ne_none _
      · cases announced
  · cases announced

theorem announcedSize_none {reply : List UInt8} (none : lastSizeText reply = none) : announcedSize reply = 0 := by
  have noText := List.getLast?_eq_none_iff.mp none
  have silent : (replyLines reply).filterMap sizeOf = [] := by
    rw [List.filterMap_eq_nil_iff]
    intro line member
    obtain ⟨start, isStart, rfl⟩ := List.mem_map.mp member
    cases announced : sizeOf (withoutCR (firstLine start)) with
    | none => rfl
    | some number => exact absurd (List.filterMap_eq_nil_iff.mp noText start isStart) (sizeText_of_sizeOf announced)
  rw [announcedSize, silent]
  rfl

theorem esmtp_unset : ∀ extension ∈ extensions, ¬ MAILSMTP_ESMTP &&& extension.flag ≠ 0 := by decide

theorem auth_unset : ∀ mechanism ∈ authMechanisms, ¬ MAILSMTP_AUTH_CHECKED &&& mechanism.flag ≠ 0 := by decide

theorem describes_iff {session after : Capabilities} {reply : List UInt8} (tabFree : ∀ start ∈ lineStarts reply, TabFree start)
    (scanned : Scanned { session with esmtp := MAILSMTP_ESMTP, auth := MAILSMTP_AUTH_CHECKED } after (lineStarts reply)) :
    Describes after reply ↔ Readable session.smtpMaxMsgSize reply := by
  have begun : ∀ mechanism ∈ authMechanisms, after.auth &&& mechanism.flag ≠ 0 ↔ Begun mechanism reply := fun mechanism member => by
    rw [scanned.mechanisms mechanism member, or_iff_right (auth_unset mechanism member), Begun]
  have size : after.smtpMaxMsgSize = announcedSize reply ↔
      match lastSizeText reply with
      | none => session.smtpMaxMsgSize = 0
      | some text => Mbox.strtoul text = announcedSize reply := by
    have kept : after.smtpMaxMsgSize = ((lastSizeText reply).map Mbox.strtoul).getD session.smtpMaxMsgSize := scanned.size
    rw [kept]
    cases last : lastSizeText reply with
    | none => rw [announcedSize_none last]; rfl
    | some text => rfl
  constructor
  · intro describes
    exact { noTab := tabFree
            whole := fun mechanism member found =>
              (describes.mechanisms mechanism member).mp ((begun mechanism member).mpr found)
            recognized := fun mechanism member line inReply list listed _ hasWord =>
              (begun mechanism member).mp ((describes.mechanisms mechanism member).mpr ⟨line, inReply, list, listed, hasWord⟩)
            size := size.mp describes.size }
  · intro readable
    refine ⟨fun extension member => ?_, fun mechanism member => ?_, size.mpr readable.size⟩
    · rw [scanned.extensions extension member, or_iff_right (esmtp_unset extension member), replyLines]
      simp only [List.mem_map, exists_exists_and_eq_and, KeywordIs, keyword_withoutCR]
    · rw [begun mechanism member]
      constructor
      · exact readable.whole mechanism member
      · rintro ⟨line, inReply, list, listed, hasWord⟩
        by_cases unscanned : scannedList line = none
        · exact readable.recognized mechanism member line inReply list listed unscanned hasWord
        · obtain ⟨start, isStart, rfl⟩ := List.mem_map.mp inReply
          exact begun_of_listed member isStart listed unscanned hasWord

end Etpan.Smtp
