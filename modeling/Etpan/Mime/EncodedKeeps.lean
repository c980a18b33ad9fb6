import Etpan.Mime.EncodedFront

namespace Etpan.Mime

open Etpan.Data Etpan.Imf

/-! When the phrase parser keeps the text. -/

def wordSpace (phrase : EncodedPhrase) (gap : List UInt8) : List UInt8 := if ¬ phrase.first ∧ gap ≠ [] then [ascii ' '] else []

def encodedSpace (phrase : EncodedPhrase) (gap : List UInt8) : List UInt8 :=
  if ¬ phrase.first ∧ gap ≠ [] ∧ phrase.type ≠ .encodedWord then [ascii ' '] else []

def EncodedPhrase.addWord (phrase : EncodedPhrase) (gap octets : List UInt8) : EncodedPhrase :=
  { gphrase := phrase.gphrase ++ (wordSpace phrase gap ++ octets), first := false, type := .word }

def EncodedPhrase.addEncoded (phrase : EncodedPhrase) (gap shown : List UInt8) : EncodedPhrase :=
  { gphrase := phrase.gphrase ++ (encodedSpace phrase gap ++ shown), first := false, type := .encodedWord }

theorem pieces_of_startsEncodedWord {text : List UInt8} {pieces : List Piece} (cut : CutPieces text pieces) (starts : StartsEncodedWord text) :
    ∃ word after, pieces = .encoded word :: after := by
  obtain ⟨word, rest, same, isWord⟩ := starts
  have solid := isWord.solid rest
  rw [← same] at solid
  cases cut with
  | nil =>
      obtain ⟨_, spelled⟩ := isWord.mark rest
      rw [← same] at spelled
      cases spelled
  | encoded => exact ⟨_, _, rfl⟩
  | @raw octets text pieces nonempty notBlank noWord => exact absurd ⟨word, rest, same, isWord⟩ (noWord [] octets rfl nonempty)
  | @blank octets text pieces nonempty areBlank =>
      obtain ⟨first, others, rfl⟩ := List.exists_cons_of_ne_nil nonempty
      rw [List.cons_append, solid_cons, areBlank first List.mem_cons_self] at solid
      cases solid

section Turns

variable {charconv : List UInt8 → List UInt8 → Except CharconvError (List UInt8)} {defaultFromcode : List UInt8}

theorem encodedPhraseTurn_raw (identity : ∀ text, charconv defaultFromcode text = .ok text) {phrase : EncodedPhrase} {gap octets text : List UInt8}
    (isGap : IsGap gap) (nonempty : octets ≠ []) (notBlank : ∀ octet ∈ octets, isBlankOctet octet = false) (noMark : ¬ asciiText "=?" <:+: octets)
    (stops : StopsWord text) (unquoted : octets = [ascii '"'] → encodedStartParse text = .error .parse) (nulFree : NulFree octets) :
    encodedPhraseTurn charconv defaultFromcode phrase (gap ++ (octets ++ text)) = .ok (.goesOn (phrase.addWord gap octets) text) := by
  have notEncoded := mailmimeEncodedWordParse_raw isGap nonempty notBlank noMark stops unquoted
  have isWord := mailmimeNonEncodedWordParse_raw isGap nonempty notBlank noMark stops
  have isText : cString octets = octets := cString_eq_self nulFree
  have added : addNonEncodedWord charconv defaultFromcode phrase { text := octets, hasFwd := decide (gap ≠ []), rest := text } =
      .ok (phrase.addWord gap octets) := by
    simp only [addNonEncodedWord, isText, identity, EncodedPhrase.addWord, wordSpace, decide_eq_true_eq]
    split_ifs
    · rw [List.append_assoc]
    · rw [List.nil_append]
  simp only [encodedPhraseTurn, notEncoded, nonEncodedTurn, isWord, added]

theorem encodedPhraseTurn_blanks {phrase : EncodedPhrase} {octets text : List UInt8} (nonempty : octets ≠ [])
    (areBlank : ∀ octet ∈ octets, isBlankOctet octet = true) (solid : Solid text) (stuck : text = [] ∨ ¬ IsFws octets) :
    ∃ phrase' rest, encodedPhraseTurn charconv defaultFromcode phrase (octets ++ text) = .ok (.ends phrase' (rest ++ text)) ∧ rest <:+ octets ∧
      (phrase' = phrase ∨ phrase' = { phrase with gphrase := phrase.gphrase ++ [ascii ' '], first := false }) := by
  have ends : skipFws (octets ++ text) = [] ∨ ∃ octet others, skipFws (octets ++ text) = octet :: others ∧ isBlankOctet octet = true := by
    rcases skipFws_blanks nonempty areBlank solid with ⟨isFws, skipped⟩ | ⟨-, octet, others, skipped, isBlank⟩
    · rw [skipped]
      exact .inl (stuck.resolve_right (not_not_intro isFws))
    · exact .inr ⟨octet, others ++ text, skipped, isBlank⟩
  have solidFor : ∀ octet : UInt8, isBlankOctet octet = true → octet ≠ ascii '"' ∧ octet ≠ ascii '=' ∧
      (octet = ascii ' ' ∨ octet = ascii '\t' ∨ octet = CR ∨ octet = LF) := forall_octet (by decide +kernel)
  have notEncoded : mailmimeEncodedWordParse (octets ++ text) = .error .parse := by
    rw [mailmimeEncodedWordParse]
    rcases ends with isNil | ⟨octet, others, skipped, isBlank⟩
    · rw [isNil]
      rfl
    · obtain ⟨notQuote, notEqual, -⟩ := solidFor octet isBlank
      have noQuote : mailimfCharParse (ascii '"') (octet :: others) = none := by
        rw [mailimfCharParse, if_neg notQuote]
      have noMark : ¬ asciiText "=?" <+: octet :: others := by
        rintro ⟨rest, spelled⟩
        exact notEqual (List.cons.inj spelled).1.symm
      rw [skipped, noQuote, Option.getD_none, encodedStartParse_noMark noMark]
  have noWord : mailmimeNonEncodedWordParse (octets ++ text) = none := by
    have atOnce : nonEncodedEnd (skipFws (octets ++ text)) false 0 = 0 := by
      rcases ends with isNil | ⟨octet, others, skipped, isBlank⟩
      · rw [isNil, nonEncodedEnd]
      · rw [skipped, nonEncodedEnd, if_pos (solidFor octet isBlank).2.2]
    rw [mailmimeNonEncodedWordParse, if_pos atOnce]
  have skipped := @skipFws_append octets text solid
  cases fws : mailimfFwsParse (octets ++ text) with
  | none =>
      refine ⟨phrase, octets, ?_, List.suffix_refl octets, .inl rfl⟩
      simp only [encodedPhraseTurn, notEncoded, nonEncodedTurn, noWord, fws]
  | some rest =>
      have isRest : rest = skipFws octets ++ text := by
        rw [mailimfFwsParse] at fws
        split_ifs at fws
        rw [← Option.some.inj fws, skipped]
      refine ⟨_, skipFws octets, ?_, skipFws_suffix octets, .inr rfl⟩
      simp only [encodedPhraseTurn, notEncoded, nonEncodedTurn, noWord, fws, isRest]

theorem encodedPhraseTurn_encoded (stands : ∀ text, charconv (asciiText "iso-8859-1") text ≠ .error .unknownCharset) {phrase : EncodedPhrase}
    {gap text : List UInt8} {read : EncodedWordRead} (parsed : mailmimeEncodedWordParse text = .ok read) (hasFwd : read.hasFwd = decide (gap ≠ [])) :
    (∃ shown, encodedPhraseTurn charconv defaultFromcode phrase text = .ok (.goesOn (phrase.addEncoded gap shown) read.rest)) ∨
      ∃ error, encodedPhraseTurn charconv defaultFromcode phrase text = .error error ∧
        ¬ ∀ charset text, ∃ converted, charconv charset text = .ok converted := by
  have spaced : (if ¬ phrase.first ∧ read.hasFwd ∧ phrase.type ≠ .encodedWord then phrase.gphrase ++ [ascii ' '] else phrase.gphrase) =
      phrase.gphrase ++ encodedSpace phrase gap := by
    simp only [hasFwd, decide_eq_true_eq, encodedSpace]
    split_ifs
    · rfl
    · rw [List.append_nil]
  have fails : ∀ {charset text error}, charconv charset text = .error error →
      ¬ ∀ charset text, ∃ converted, charconv charset text = .ok converted := by
    intro charset text error failed never
    obtain ⟨converted, isOk⟩ := never charset text
    rw [failed] at isOk
    cases isOk
  have added : (∃ shown, addEncodedWord charconv phrase read = .ok (phrase.addEncoded gap shown, false)) ∨
      ∃ error, addEncodedWord charconv phrase read = .error error ∧ ¬ ∀ charset text, ∃ converted, charconv charset text = .ok converted := by
    simp only [addEncodedWord, spaced, EncodedPhrase.addEncoded, ← List.append_assoc]
    cases first : charconv read.word.wdCharset read.word.wdText with
    | ok converted => exact .inl ⟨cString converted, rfl⟩
    | error error =>
        cases error with
        | memory => exact .inr ⟨_, rfl, fails first⟩
        | conv => exact .inr ⟨_, rfl, fails first⟩
        | unknownCharset =>
            cases second : charconv (asciiText "iso-8859-1") read.word.wdText with
            | ok converted => exact .inl ⟨cString converted, rfl⟩
            | error error =>
                cases error with
                | memory => exact .inr ⟨_, rfl, fails first⟩
                | conv => exact .inr ⟨_, rfl, fails first⟩
                | unknownCharset => exact absurd second (stands _)
  rcases added with ⟨shown, added⟩ | ⟨error, failed, isFailure⟩
  · exact .inl ⟨shown, by simp only [encodedPhraseTurn, parsed, added]⟩
  · exact .inr ⟨error, by simp only [encodedPhraseTurn, parsed, failed], isFailure⟩

end Turns

def EncodedPhrase.Behind (phrase : EncodedPhrase) : PieceBefore → Prop
  | .start => phrase.first = true
  | .encoded => phrase.first = false ∧ phrase.type = .encodedWord
  | .raw => phrase.first = false ∧ phrase.type = .word

theorem Shows.afterGap_encoded {before : PieceBefore} {phrase : EncodedPhrase} {gap word shown result : List UInt8} {pieces : List Piece}
    (behind : phrase.Behind before) (rest : Shows .encoded pieces result) :
    Shows before (gapPieces gap ++ .encoded word :: pieces) (encodedSpace phrase gap ++ (shown ++ result)) := by
  cases gap with
  | nil =>
      have noSpace : encodedSpace phrase [] = [] := if_neg fun space => space.2.1 rfl
      rw [noSpace]
      exact .encoded shown rest
  | cons octet octets =>
      cases before with
      | start =>
          have noSpace : encodedSpace phrase (octet :: octets) = [] := if_neg fun space => space.1 behind
          rw [noSpace]
          exact .leading (List.cons_ne_nil _ _) (.encoded shown rest)
      | encoded =>
          have noSpace : encodedSpace phrase (octet :: octets) = [] := if_neg fun space => space.2.2 behind.2
          rw [noSpace]
          exact .between (.encoded shown rest)
      | raw =>
          have space : encodedSpace phrase (octet :: octets) = [ascii ' '] :=
            if_pos ⟨by simp [behind.1], List.cons_ne_nil _ _, by simp [behind.2]⟩
          rw [space]
          exact .spaceAfter (List.cons_ne_nil _ _) (.encoded shown rest)

theorem Shows.afterGap_raw {before : PieceBefore} {phrase : EncodedPhrase} {gap octets result : List UInt8} {pieces : List Piece}
    (behind : phrase.Behind before) (rest : Shows .raw pieces result) :
    Shows before (gapPieces gap ++ .raw octets :: pieces) (wordSpace phrase gap ++ (octets ++ result)) := by
  cases gap with
  | nil =>
      have noSpace : wordSpace phrase [] = [] := if_neg fun space => space.2 rfl
      rw [noSpace]
      exact .raw rest
  | cons first others =>
      cases before with
      | start =>
          have noSpace : wordSpace phrase (first :: others) = [] := if_neg fun space => space.1 behind
          rw [noSpace]
          exact .leading (List.cons_ne_nil _ _) (.raw rest)
      | encoded =>
          have space : wordSpace phrase (first :: others) = [ascii ' '] := if_pos ⟨by simp [behind.1], List.cons_ne_nil _ _⟩
          rw [space]
          exact .spaceBefore (.raw rest)
      | raw =>
          have space : wordSpace phrase (first :: others) = [ascii ' '] := if_pos ⟨by simp [behind.1], List.cons_ne_nil _ _⟩
          rw [space]
          exact .spaceAfter (List.cons_ne_nil _ _) (.raw rest)

theorem Group.shows {pieces pieces' : List Piece} {result : List UInt8} (group : Group pieces pieces') (shows' : Shows .encoded pieces' result) :
    Shows .encoded pieces result := by
  induction group with
  | refl pieces => exact shows'
  | encoded _ ih => exact .encoded [] (ih shows')
  | folded _ _ ih => exact .between (.encoded [] (ih shows'))

theorem encodedStartParse_stops {tail : List UInt8} {pieces : List Piece} (cut : CutPieces tail pieces)
    (stops : tail = [] ∨ tail.head?.any isBlankOctet = true ∨ StartsEncodedWord tail) (noWord : ∀ word after, pieces ≠ .encoded word :: after) :
    encodedStartParse tail = .error .parse := by
  refine encodedStartParse_noMark ?_
  rintro ⟨rest, rfl⟩
  rcases stops with isNil | isBlank | starts
  · cases isNil
  · cases isBlank
  · obtain ⟨word, after, same⟩ := pieces_of_startsEncodedWord cut starts
    exact noWord word after same

inductive LoopShows (charconv : List UInt8 → List UInt8 → Except CharconvError (List UInt8)) (phrase : EncodedPhrase) (before : PieceBefore)
    (text : List UInt8) (pieces : List Piece) : Except MailimfError (EncodedPhrase × List UInt8) → Prop
  | ok {out rest shown} (areBlank : ∀ octet ∈ rest, isBlankOctet octet = true) (isResult : out.gphrase = phrase.gphrase ++ shown)
      (isShown : Shows before pieces shown) (atFirst : out.first = true → phrase.first = true ∧ ∀ octet ∈ text, isBlankOctet octet = true) :
      LoopShows charconv phrase before text pieces (.ok (out, rest))
  | error {error} (fails : ¬ ∀ charset text, ∃ converted, charconv charset text = .ok converted) :
      LoopShows charconv phrase before text pieces (.error error)

section Keeps

variable {charconv : List UInt8 → List UInt8 → Except CharconvError (List UInt8)} {defaultFromcode : List UInt8}
  {result : Except MailimfError (EncodedPhrase × List UInt8)} {phrase : EncodedPhrase} {before : PieceBefore} {gap text rest : List UInt8}
  {pieces : List Piece}

theorem LoopShows.encoded {word shown : List UInt8} {pieces' : List Piece} (behind : phrase.Behind before) (group : Group pieces pieces')
    (later : LoopShows charconv (phrase.addEncoded gap shown) .encoded rest pieces' result) :
    LoopShows charconv phrase before text (gapPieces gap ++ .encoded word :: pieces) result := by
  cases later with
  | @ok out rest shown' areBlank isResult isShown atFirst =>
      refine .ok areBlank ?_ (@Shows.afterGap_encoded before phrase gap word shown shown' pieces behind (group.shows isShown)) fun isFirst => ?_
      · rw [isResult, EncodedPhrase.addEncoded]
        simp only [List.append_assoc]
      · cases (atFirst isFirst).1
  | error fails => exact .error fails

theorem LoopShows.raw {octets : List UInt8} (behind : phrase.Behind before)
    (later : LoopShows charconv (phrase.addWord gap octets) .raw rest pieces result) :
    LoopShows charconv phrase before text (gapPieces gap ++ .raw octets :: pieces) result := by
  cases later with
  | @ok out rest shown areBlank isResult isShown atFirst =>
      refine .ok areBlank ?_ (@Shows.afterGap_raw before phrase gap octets shown pieces behind isShown) fun isFirst => ?_
      · rw [isResult, EncodedPhrase.addWord]
        simp only [List.append_assoc]
      · cases (atFirst isFirst).1
  | error fails => exact .error fails

theorem encodedPhraseLoop_shows (identity : ∀ text, charconv defaultFromcode text = .ok text)
    (stands : ∀ text, charconv (asciiText "iso-8859-1") text ≠ .error .unknownCharset) (behind : phrase.Behind before) (cut : CutPieces text pieces)
    (plain : PlainPieces pieces) (nulFree : NulFree text) :
    LoopShows charconv phrase before text pieces (encodedPhraseLoop charconv defaultFromcode phrase text) := by
  induction length : text.length using Nat.strong_induction_on generalizing phrase before text pieces with
  | _ count ih =>
      cases front_of_cut cut with
      | nothing =>
          rw [encodedPhraseLoop_ends (encodedPhraseTurn_nil charconv defaultFromcode)]
          exact .ok (fun _ member => absurd member List.not_mem_nil) (List.append_nil _).symm .nil fun isFirst =>
            ⟨isFirst, fun _ member => absurd member List.not_mem_nil⟩
      | @blanks octets nonempty areBlank =>
          obtain ⟨phrase', rest, turned, suffix, isPhrase⟩ := @encodedPhraseTurn_blanks charconv defaultFromcode phrase text [] nonempty areBlank
            solid_nil (.inl rfl)
          rw [List.append_nil, List.append_nil] at turned
          rw [encodedPhraseLoop_ends turned]
          have restBlank : ∀ octet ∈ rest, isBlankOctet octet = true := fun octet member => areBlank octet (suffix.subset member)
          rcases isPhrase with rfl | rfl
          · exact .ok restBlank (List.append_nil _).symm (.trailing (.inl rfl)) fun isFirst => ⟨isFirst, areBlank⟩
          · refine .ok restBlank rfl (.trailing (.inr rfl)) fun isFirst => ?_
            cases isFirst
      | @unfolded octets tail pieces nonempty areBlank noFws solid more piecesMore =>
          exact absurd (plain.folded [] octets pieces rfl piecesMore) noFws
      | @encoded gap word tail pieces isGap isWord cutTail =>
          obtain ⟨start, body, started, -, ends⟩ := isWord.start tail
          obtain ⟨read, parsed, hasFwd, -, isRest⟩ := @mailmimeEncodedWordParse_start gap (word ++ tail) isGap [] start (.inl rfl) started
          rw [List.nil_append] at parsed
          have isRest : (encodedBodyLoop start.charset start.encoding [] start.rest).2 = read.rest :=
            isRest.resolve_right fun quoted => List.cons_ne_nil _ _ quoted.1.symm
          have plainTail := (plainPieces_cons.mp ((plainPieces_gap isGap).mp plain)).2
          have leaves := @encodedBodyLoop_pieces start.charset start.encoding [] start.rest tail body pieces ends cutTail
          rw [isRest] at leaves
          rcases leaves with ⟨pieces', group, cut'⟩ | ⟨-, marked⟩
          · rcases @encodedPhraseTurn_encoded charconv defaultFromcode stands phrase gap _ read parsed hasFwd with ⟨shown, turned⟩ | ⟨error, turned, fails⟩
            · rw [encodedPhraseLoop_goesOn turned]
              have shorter := mailmimeEncodedWordParse_shorter parsed
              have behind' : (phrase.addEncoded gap shown).Behind .encoded := ⟨rfl, rfl⟩
              have nulFree' : NulFree read.rest := fun octet member => nulFree octet ((mailmimeEncodedWordParse_suffix parsed).subset member)
              exact (ih read.rest.length (length ▸ shorter) behind' cut' (group.plain.mp plainTail) nulFree' rfl).encoded behind group
            · rw [encodedPhraseLoop_error turned]
              exact .error fails
          · exact absurd plainTail marked.not_plain
      | @raw gap octets tail pieces isGap nonempty notBlank noWord stops cutTail =>
          obtain ⟨⟨noMark, unquoted⟩, plainTail⟩ := plainPieces_cons.mp ((plainPieces_gap isGap).mp plain)
          have nulFreeTail : NulFree tail := nulFree.of_append_right.of_append_right
          have noStart : octets = [ascii '"'] → encodedStartParse tail = .error .parse :=
            fun isQuote => encodedStartParse_stops cutTail stops fun word after => unquoted word after isQuote
          have turned := @encodedPhraseTurn_raw charconv defaultFromcode identity phrase gap octets tail isGap nonempty notBlank noMark (.of_word stops)
            noStart nulFree.of_append_right.of_append_left
          rw [encodedPhraseLoop_goesOn turned]
          have shorter := encodedPhraseTurn_shorter charconv defaultFromcode turned
          have behind' : (phrase.addWord gap octets).Behind .raw := ⟨rfl, rfl⟩
          exact (ih tail.length (length ▸ shorter) behind' cutTail plainTail nulFreeTail rfl).raw behind

theorem keepsText_of_plain {message : List UInt8} (nulFree : NulFree message) (plain : ∀ pieces, CutPieces message pieces → PlainPieces pieces) :
    KeepsText message := by
  intro charconv defaultFromcode identity stands
  have shows : ∀ pieces, CutPieces message pieces → LoopShows charconv { gphrase := [], first := true, type := .error } .start message pieces
      (encodedPhraseLoop charconv defaultFromcode { gphrase := [], first := true, type := .error } message) := by
    intro pieces cut
    have behind : EncodedPhrase.Behind { gphrase := [], first := true, type := .error } .start := rfl
    exact encodedPhraseLoop_shows identity stands behind cut (plain pieces cut) nulFree
  obtain ⟨pieces, cut⟩ := exists_cutPieces message
  rw [mailmimeEncodedPhraseParse]
  cases looped : encodedPhraseLoop charconv defaultFromcode { gphrase := [], first := true, type := .error } message with
  | error error =>
      refine ⟨fun result rest parsed => ?_, fun _ never => ?_⟩
      · cases parsed
      · have shown := shows pieces cut
        rw [looped] at shown
        cases shown with
        | error fails => exact absurd never fails
  | ok read =>
      obtain ⟨out, rest⟩ := read
      rw [looped] at shows
      dsimp only
      constructor
      · intro result rest' parsed
        split_ifs at parsed
        cases parsed
        constructor
        · cases shows pieces cut with
          | ok areBlank => exact areBlank
        · intro pieces' cut'
          cases shows pieces' cut' with
          | ok areBlank isResult isShown =>
              rw [isResult]
              exact isShown
      · rintro ⟨octet, member, notBlank⟩ -
        have notFirst : ¬ (out.first = true ∧ rest ≠ []) := by
          rintro ⟨isFirst, -⟩
          cases shows pieces cut with
          | ok _ _ _ atFirst =>
              rw [(atFirst isFirst).2 octet member] at notBlank
              cases notBlank
        rw [if_neg notFirst]
        exact ⟨_, _, rfl⟩

end Keeps

end Etpan.Mime
