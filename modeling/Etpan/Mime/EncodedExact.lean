import Etpan.Mime.EncodedKeeps

namespace Etpan.Mime

open Etpan.Data Etpan.Imf

/-! Pieces that are not plain are not kept. -/

def solidCount (text : List UInt8) : Nat := text.countP fun octet => !isBlankOctet octet

def rawCount : List Piece → Nat
  | [] => 0
  | .raw octets :: pieces => solidCount octets + rawCount pieces
  | .encoded _ :: pieces => rawCount pieces
  | .blank _ :: pieces => rawCount pieces

theorem solidCount_append (left right : List UInt8) : solidCount (left ++ right) = solidCount left + solidCount right := List.countP_append

theorem rawCount_gap (gap : List UInt8) (pieces : List Piece) : rawCount (gapPieces gap ++ pieces) = rawCount pieces := by
  cases gap <;> rfl

theorem Group.rawCount_eq {pieces pieces' : List Piece} (group : Group pieces pieces') : rawCount pieces' = rawCount pieces := by
  induction group with
  | refl pieces => rfl
  | encoded _ ih => exact ih
  | folded _ _ ih => exact ih

theorem Marked.rawCount_pos {pieces : List Piece} (marked : Marked pieces) : 0 < rawCount pieces := by
  obtain ⟨octets, member, before, after, same⟩ := marked
  have positive : 0 < solidCount octets := by
    have mark : 0 < solidCount (asciiText "=?") := by decide
    rw [← same, solidCount_append, solidCount_append]
    omega
  induction pieces with
  | nil => exact absurd member List.not_mem_nil
  | cons piece pieces ih =>
      rcases List.mem_cons.mp member with rfl | later
      · exact Nat.lt_of_lt_of_le positive (Nat.le_add_right _ _)
      · cases piece with
        | raw => exact Nat.lt_of_lt_of_le (ih later) (Nat.le_add_left _ _)
        | encoded | blank => exact ih later

theorem Shows.rawCount_le {before : PieceBefore} {pieces : List Piece} {result : List UInt8} (shown : Shows before pieces result) :
    rawCount pieces ≤ solidCount result := by
  induction shown with
  | nil => exact Nat.le_refl _
  | encoded text _ ih =>
      rw [solidCount_append]
      exact Nat.le_add_left_of_le ih
  | raw _ ih =>
      rw [solidCount_append]
      exact Nat.add_le_add_left ih _
  | leading _ _ ih => exact ih
  | between _ ih => exact ih
  | spaceAfter _ _ ih => exact ih
  | spaceBefore _ ih => exact ih
  | trailing _ => exact Nat.zero_le _

/-- A conversion that leaves out what encoded words stand for. -/
def dropEncoded (charset text : List UInt8) : Except CharconvError (List UInt8) := if charset = [] then .ok text else .ok []

/-- Then the result has at most the octets of the raw pieces, and fewer if the pieces are not plain. -/
def Loses (phrase : EncodedPhrase) (text : List UInt8) (pieces : List Piece) : Prop :=
  ∀ out rest, encodedPhraseLoop dropEncoded [] phrase text = .ok (out, rest) → (∀ octet ∈ rest, isBlankOctet octet = true) →
    solidCount out.gphrase ≤ solidCount phrase.gphrase + rawCount pieces ∧
      (¬ PlainPieces pieces → solidCount out.gphrase < solidCount phrase.gphrase + rawCount pieces)

theorem solidCount_addWord (phrase : EncodedPhrase) (gap octets : List UInt8) :
    solidCount (phrase.addWord gap octets).gphrase = solidCount phrase.gphrase + solidCount octets := by
  have space : solidCount (wordSpace phrase gap) = 0 := by
    rw [wordSpace]
    split_ifs <;> rfl
  rw [EncodedPhrase.addWord, solidCount_append, solidCount_append, space, Nat.zero_add]

theorem solidCount_addEncoded (phrase : EncodedPhrase) (gap : List UInt8) :
    solidCount (phrase.addEncoded gap []).gphrase = solidCount phrase.gphrase := by
  have space : solidCount (encodedSpace phrase gap) = 0 := by
    rw [encodedSpace]
    split_ifs <;> rfl
  rw [EncodedPhrase.addEncoded, solidCount_append, List.append_nil, space, Nat.add_zero]

theorem encodedPhraseTurn_drops {phrase : EncodedPhrase} {gap text : List UInt8} {read : EncodedWordRead}
    (parsed : mailmimeEncodedWordParse text = .ok read) (hasFwd : read.hasFwd = decide (gap ≠ [])) (named : read.word.wdCharset ≠ []) :
    encodedPhraseTurn dropEncoded [] phrase text = .ok (.goesOn (phrase.addEncoded gap []) read.rest) := by
  have dropped : dropEncoded read.word.wdCharset read.word.wdText = .ok [] := if_neg named
  have added : addEncodedWord dropEncoded phrase read = .ok (phrase.addEncoded gap [], false) := by
    have nothing : cString [] = [] := rfl
    simp only [addEncodedWord, dropped, hasFwd, decide_eq_true_eq, EncodedPhrase.addEncoded, encodedSpace, nothing, List.append_nil]
    split_ifs
    · rfl
    · rw [List.append_nil]
  simp only [encodedPhraseTurn, parsed, added]

section Loses

variable {phrase phrase' : EncodedPhrase} {gap text rest : List UInt8} {pieces pieces' : List Piece}

theorem loses_nothing : Loses phrase [] [] := by
  intro out rest looped _
  rw [encodedPhraseLoop_ends (encodedPhraseTurn_nil dropEncoded [])] at looped
  cases looped
  exact ⟨Nat.le_refl _, fun notPlain => absurd plainPieces_nil notPlain⟩

theorem Loses.of_turn (later : Loses phrase' rest pieces') (turned : encodedPhraseTurn dropEncoded [] phrase text = .ok (.goesOn phrase' rest))
    (count : solidCount phrase'.gphrase + rawCount pieces' ≤ solidCount phrase.gphrase + rawCount pieces)
    (fewer : ¬ PlainPieces pieces → ¬ PlainPieces pieces' ∨
      solidCount phrase'.gphrase + rawCount pieces' < solidCount phrase.gphrase + rawCount pieces) : Loses phrase text pieces := by
  intro out rest' looped areBlank
  rw [encodedPhraseLoop_goesOn turned] at looped
  obtain ⟨most, less⟩ := later out rest' looped areBlank
  refine ⟨most.trans count, fun notPlain => ?_⟩
  rcases fewer notPlain with notPlain' | fewer
  · exact Nat.lt_of_lt_of_le (less notPlain') count
  · exact Nat.lt_of_le_of_lt most fewer

theorem loses_rest (turned : encodedPhraseTurn dropEncoded [] phrase text = .ok (.goesOn (phrase.addEncoded gap []) []))
    (positive : 0 < rawCount pieces) : Loses phrase text pieces := by
  refine (loses_nothing : Loses (phrase.addEncoded gap []) [] []).of_turn turned ?_ fun _ => .inr ?_
  · rw [solidCount_addEncoded, rawCount]
    omega
  · rw [solidCount_addEncoded, rawCount]
    omega

theorem loses_error {error : MailimfError} (turned : encodedPhraseTurn dropEncoded [] phrase text = .error error) : Loses phrase text pieces := by
  intro out rest looped _
  rw [encodedPhraseLoop_error turned] at looped
  cases looped

theorem loses_stuck {octet : UInt8} (turned : encodedPhraseTurn dropEncoded [] phrase text = .ok (.ends phrase' rest)) (member : octet ∈ rest)
    (notBlank : isBlankOctet octet = false) : Loses phrase text pieces := by
  intro out rest' looped areBlank
  rw [encodedPhraseLoop_ends turned] at looped
  cases looped
  rw [areBlank octet member] at notBlank
  cases notBlank

theorem cutPieces_behindQuote (cut : CutPieces (ascii '"' :: rest) pieces) : ∃ pieces', CutPieces rest pieces' ∧ rawCount pieces' ≤ rawCount pieces := by
  generalize isText : ascii '"' :: rest = text at cut
  cases cut with
  | nil => cases isText
  | @encoded word tail pieces isWord cutTail =>
      obtain ⟨others, spelled⟩ := isWord.mark tail
      rw [← spelled] at isText
      cases isText
  | @raw octets tail pieces nonempty notBlank noWord stops cutTail =>
      obtain ⟨first, others, rfl⟩ := List.exists_cons_of_ne_nil nonempty
      obtain ⟨-, rfl⟩ := List.cons.inj isText
      rcases others with _ | ⟨second, others⟩
      · exact ⟨pieces, cutTail, Nat.le_add_left _ _⟩
      · refine ⟨.raw (second :: others) :: pieces, .raw (List.cons_ne_nil _ _) ?_ ?_ stops cutTail, ?_⟩
        · exact fun octet member => notBlank octet (List.mem_cons_of_mem _ member)
        · exact fun before after same more => noWord (first :: before) after (congrArg (first :: ·) same) more
        · exact Nat.add_le_add_right ((List.sublist_cons_self _ _).countP_le) _
  | @blank octets tail pieces nonempty areBlank stops cutTail =>
      obtain ⟨first, others, rfl⟩ := List.exists_cons_of_ne_nil nonempty
      obtain ⟨rfl, -⟩ := List.cons.inj isText
      cases areBlank _ List.mem_cons_self

theorem loses_mark (isGap : IsGap gap) (isMark : asciiText "=?" <+: text) (failed : encodedStartParse text = .error .parse) :
    Loses phrase (gap ++ text) pieces := by
  obtain ⟨after, rfl⟩ := isMark
  have solid : Solid (asciiText "=?" ++ after) := rfl
  have inText : ascii '=' ∈ asciiText "=?" ++ after := List.mem_cons_self
  have unquoted : (asciiText "=?" ++ after).head? ≠ some (ascii '"') := by
    have differs : some (ascii '=') ≠ some (ascii '"') := by decide
    exact differs
  have notEncoded : mailmimeEncodedWordParse (gap ++ (asciiText "=?" ++ after)) = .error .parse :=
    @mailmimeEncodedWordParse_error gap _ isGap [] .parse solid (.inl ⟨rfl, unquoted⟩) failed
  have noWord : mailmimeNonEncodedWordParse (gap ++ (asciiText "=?" ++ after)) = none := by
    have atOnce : nonEncodedEnd (asciiText "=?" ++ after) false 0 = 0 := rfl
    simp only [mailmimeNonEncodedWordParse, (isGap.skip solid).1, if_pos atOnce]
  have noBlank : isBlankOctet (ascii '=') = false := rfl
  cases fws : mailimfFwsParse (gap ++ (asciiText "=?" ++ after)) with
  | none =>
      have turned : encodedPhraseTurn dropEncoded [] phrase (gap ++ (asciiText "=?" ++ after)) =
          .ok (.ends phrase (gap ++ (asciiText "=?" ++ after))) := by
        simp only [encodedPhraseTurn, notEncoded, nonEncodedTurn, noWord, fws]
      exact loses_stuck turned (List.mem_append_right gap inText) noBlank
  | some rest =>
      have isRest : rest = asciiText "=?" ++ after := by
        rw [mailimfFwsParse, (isGap.skip solid).1] at fws
        split_ifs at fws
        exact (Option.some.inj fws).symm
      have turned : encodedPhraseTurn dropEncoded [] phrase (gap ++ (asciiText "=?" ++ after)) =
          .ok (.ends { phrase with gphrase := phrase.gphrase ++ [ascii ' '], first := false } rest) := by
        simp only [encodedPhraseTurn, notEncoded, nonEncodedTurn, noWord, fws]
      exact loses_stuck turned (isRest ▸ inText) noBlank

theorem loses_marked {before : List UInt8} (isGap : IsGap gap) (notBlank : ∀ octet ∈ before, isBlankOctet octet = false)
    (clean : ¬ asciiText "=?" <:+: before) (nulFree : NulFree before) (isMark : asciiText "=?" <+: text) (noWord : ¬ StartsEncodedWord text)
    (counts : rawCount pieces = solidCount before + rawCount pieces') (notPlain : ¬ PlainPieces pieces') (positive : 0 < rawCount pieces')
    (later : ∀ phrase', before ≠ [] → Loses phrase' text pieces') : Loses phrase (gap ++ (before ++ text)) pieces := by
  have identity : ∀ text, dropEncoded [] text = .ok text := fun _ => rfl
  by_cases goes : before ≠ [] ∧ (before = [ascii '"'] → encodedStartParse text = .error .parse)
  · have turned := @encodedPhraseTurn_raw dropEncoded [] identity phrase gap before text isGap goes.1 notBlank clean (.inr (.inr isMark)) goes.2 nulFree
    refine (later _ goes.1).of_turn turned ?_ fun _ => .inl notPlain
    rw [solidCount_addWord, counts, Nat.add_assoc]
  have atMark : before = [] ∨ before = [ascii '"'] ∧ encodedStartParse text ≠ .error .parse := by
    by_cases isNil : before = []
    · exact .inl isNil
    · exact .inr (Classical.not_imp.mp fun unquoted => goes ⟨isNil, unquoted⟩)
  cases started : encodedStartParse text with
  | error error =>
      have solid : Solid (before ++ text) := by
        obtain ⟨after, rfl⟩ := isMark
        rcases atMark with rfl | ⟨rfl, -⟩
        · rfl
        · rfl
      have isQuote : before = [] ∧ text.head? ≠ some (ascii '"') ∨ before = [ascii '"'] := by
        refine atMark.imp (fun isNil => ⟨isNil, ?_⟩) And.left
        obtain ⟨after, rfl⟩ := isMark
        have differs : some (ascii '=') ≠ some (ascii '"') := by decide
        exact differs
      have notEncoded := mailmimeEncodedWordParse_error isGap solid isQuote started
      rcases encodedStartParse_error started with rfl | rfl
      · obtain rfl := atMark.resolve_right fun quoted => quoted.2 started
        exact loses_mark isGap isMark started
      · have turned : encodedPhraseTurn dropEncoded [] phrase (gap ++ (before ++ text)) = .error .inval := by
          simp only [encodedPhraseTurn, notEncoded]
        exact loses_error turned
  | ok start =>
      obtain ⟨read, parsed, hasFwd, named, isRest⟩ := mailmimeEncodedWordParse_start isGap (atMark.imp id And.left) started
      rw [encodedBodyLoop_open (endEncoding_of_noWord started noWord)] at isRest
      have isEnd : read.rest = [] := by
        rcases isRest with isRest | ⟨-, isRest⟩
        · exact isRest.symm
        · cases isRest
      have turned := @encodedPhraseTurn_drops phrase gap _ read parsed hasFwd named
      rw [isEnd] at turned
      exact loses_rest turned (counts ▸ Nat.lt_of_lt_of_le positive (Nat.le_add_left _ _))

theorem loses_of_cut (cut : CutPieces text pieces) (nulFree : NulFree text) : Loses phrase text pieces := by
  induction length : text.length using Nat.strong_induction_on generalizing phrase text pieces with
  | _ count ih =>
      cases front_of_cut cut with
      | nothing => exact loses_nothing
      | @blanks octets nonempty areBlank =>
          obtain ⟨phrase', rest, turned, -, isPhrase⟩ := @encodedPhraseTurn_blanks dropEncoded [] phrase text [] nonempty areBlank solid_nil (.inl rfl)
          rw [List.append_nil, List.append_nil] at turned
          have plain : PlainPieces [.blank text] := plainPieces_cons.mpr ⟨fun more => absurd rfl more, plainPieces_nil⟩
          intro out rest' looped _
          rw [encodedPhraseLoop_ends turned] at looped
          cases looped
          refine ⟨Nat.le_of_eq ?_, absurd plain⟩
          rcases isPhrase with rfl | rfl
          · rfl
          · exact solidCount_append _ _
      | @unfolded octets tail pieces nonempty areBlank noFws solid more piecesMore =>
          obtain ⟨phrase', rest, turned, -⟩ := @encodedPhraseTurn_blanks dropEncoded [] phrase octets tail nonempty areBlank solid (.inr noFws)
          obtain ⟨first, others, rfl⟩ := List.exists_cons_of_ne_nil more
          exact loses_stuck turned (List.mem_append_right rest List.mem_cons_self) solid
      | @encoded gap word tail pieces isGap isWord cutTail =>
          obtain ⟨start, body, started, -, ends⟩ := isWord.start tail
          obtain ⟨read, parsed, hasFwd, named, isRest⟩ := @mailmimeEncodedWordParse_start gap (word ++ tail) isGap [] start (.inl rfl) started
          rw [List.nil_append] at parsed
          have isRest : (encodedBodyLoop start.charset start.encoding [] start.rest).2 = read.rest :=
            isRest.resolve_right fun quoted => List.cons_ne_nil _ _ quoted.1.symm
          have turned := @encodedPhraseTurn_drops phrase gap _ read parsed hasFwd named
          have leaves := @encodedBodyLoop_pieces start.charset start.encoding [] start.rest tail body pieces ends cutTail
          rw [isRest] at leaves
          rcases leaves with ⟨pieces', group, cut'⟩ | ⟨atEnd, marked⟩
          · have shorter := mailmimeEncodedWordParse_shorter parsed
            have nulFree' : NulFree read.rest := fun octet member => nulFree octet ((mailmimeEncodedWordParse_suffix parsed).subset member)
            refine (ih read.rest.length (length ▸ shorter) cut' nulFree' rfl).of_turn turned ?_ fun notPlain => .inl ?_
            · rw [solidCount_addEncoded, rawCount_gap, rawCount, group.rawCount_eq]
            · rw [plainPieces_gap isGap, plainPieces_cons, group.plain] at notPlain
              exact fun plain => notPlain ⟨trivial, plain⟩
          · rw [atEnd] at turned
            refine loses_rest turned ?_
            rw [rawCount_gap, rawCount]
            exact marked.rawCount_pos
      | @raw gap octets tail pieces isGap nonempty notBlank noWord stops cutTail =>
          have nulFreeOctets : NulFree octets := nulFree.of_append_right.of_append_left
          have nulFreeTail : NulFree tail := nulFree.of_append_right.of_append_right
          by_cases marked : asciiText "=?" <:+: octets
          · obtain ⟨before, after, rfl, clean⟩ := @exists_infix_first (asciiText "=?") _ (List.cons_ne_nil _ _) marked
            have noWordRest : ¬ StartsEncodedWord (asciiText "=?" ++ after ++ tail) :=
              noWord before (asciiText "=?" ++ after) (List.append_assoc _ _ _) (List.cons_ne_nil _ _)
            have markedRest : asciiText "=?" <:+: asciiText "=?" ++ after := (List.prefix_append _ after).isInfix
            have cutRest : CutPieces (asciiText "=?" ++ after ++ tail) (.raw (asciiText "=?" ++ after) :: pieces) := by
              refine .raw (List.cons_ne_nil _ _) (fun octet member => ?_) (fun early late same more => ?_) stops cutTail
              · rw [List.append_assoc] at notBlank
                exact notBlank octet (List.mem_append_right _ member)
              · refine noWord (before ++ early) late ?_ more
                rw [List.append_assoc, List.append_assoc, same]
            have counts : rawCount (gapPieces gap ++ .raw (before ++ asciiText "=?" ++ after) :: pieces) =
                solidCount before + rawCount (.raw (asciiText "=?" ++ after) :: pieces) := by
              rw [rawCount_gap, rawCount, rawCount, List.append_assoc, solidCount_append, Nat.add_assoc]
            have isText : gap ++ (before ++ asciiText "=?" ++ after ++ tail) = gap ++ (before ++ (asciiText "=?" ++ after ++ tail)) := by
              simp only [List.append_assoc]
            have isMark : asciiText "=?" <+: asciiText "=?" ++ after ++ tail := by
              rw [List.append_assoc]
              exact List.prefix_append _ _
            rw [isText] at length ⊢
            refine loses_marked isGap (fun octet member => notBlank octet ?_) clean nulFreeOctets.of_append_left.of_append_left isMark noWordRest
              counts (plainPieces_cons.not.mpr fun plain => plain.1.1 markedRest) ?_ fun phrase' some => ?_
            · rw [List.append_assoc]
              exact List.mem_append_left _ member
            · exact Marked.rawCount_pos ⟨_, List.mem_cons_self, markedRest⟩
            · have positive := List.length_pos_iff.mpr some
              have nulFreeRest : NulFree (asciiText "=?" ++ after ++ tail) := by
                rw [isText] at nulFree
                exact nulFree.of_append_right.of_append_right
              refine ih _ ?_ cutRest nulFreeRest rfl
              simp only [← length, List.length_append]
              omega
          by_cases quoted : octets = [ascii '"'] ∧ ∃ word after, pieces = .encoded word :: after
          · obtain ⟨rfl, word, after, rfl⟩ := quoted
            cases cutTail with
            | @encoded _ tail _ isWord cutAfter =>
                obtain ⟨start, body, started, -, ends⟩ := isWord.start tail
                obtain ⟨read, parsed, hasFwd, named, isRest⟩ := @mailmimeEncodedWordParse_start gap (word ++ tail) isGap [ascii '"'] start (.inr rfl) started
                have turned := @encodedPhraseTurn_drops phrase gap _ read parsed hasFwd named
                have shorter := mailmimeEncodedWordParse_shorter parsed
                have nulFree' : NulFree read.rest := fun octet member => nulFree octet ((mailmimeEncodedWordParse_suffix parsed).subset member)
                have counts : rawCount (gapPieces gap ++ .raw [ascii '"'] :: .encoded word :: after) = 1 + rawCount after := by
                  rw [rawCount_gap]
                  rfl
                have leaves := @encodedBodyLoop_pieces start.charset start.encoding [] start.rest tail body after ends cutAfter
                rcases leaves with ⟨pieces', group, cut'⟩ | ⟨atEnd, marked⟩
                · obtain ⟨pieces'', cut'', fewer⟩ : ∃ pieces'', CutPieces read.rest pieces'' ∧ rawCount pieces'' ≤ rawCount pieces' := by
                    rcases isRest with isRest | ⟨-, isRest⟩
                    · exact ⟨pieces', isRest ▸ cut', Nat.le_refl _⟩
                    · rw [isRest] at cut'
                      exact cutPieces_behindQuote cut'
                  rw [group.rawCount_eq] at fewer
                  have count : solidCount (phrase.addEncoded gap []).gphrase + rawCount pieces'' <
                      solidCount phrase.gphrase + rawCount (gapPieces gap ++ .raw [ascii '"'] :: .encoded word :: after) := by
                    rw [counts, solidCount_addEncoded]
                    omega
                  exact (ih read.rest.length (length ▸ shorter) cut'' nulFree' rfl).of_turn turned (Nat.le_of_lt count) fun _ => .inr count
                · have isEnd : read.rest = [] := by
                    rw [atEnd] at isRest
                    rcases isRest with isRest | ⟨-, isRest⟩
                    · exact isRest.symm
                    · cases isRest
                  rw [isEnd] at turned
                  refine loses_rest turned ?_
                  rw [counts]
                  omega
          · have noStart : octets = [ascii '"'] → encodedStartParse tail = .error .parse := by
              intro isQuote
              refine encodedStartParse_stops cutTail stops fun word after same => ?_
              exact quoted ⟨isQuote, word, after, same⟩
            have identity : ∀ text, dropEncoded [] text = .ok text := fun _ => rfl
            have turned := @encodedPhraseTurn_raw dropEncoded [] identity phrase gap octets tail isGap nonempty notBlank marked (.of_word stops)
              noStart nulFreeOctets
            have shorter := encodedPhraseTurn_shorter dropEncoded [] turned
            refine (ih tail.length (length ▸ shorter) cutTail nulFreeTail rfl).of_turn turned ?_ fun notPlain => .inl ?_
            · rw [solidCount_addWord, rawCount_gap, rawCount, Nat.add_assoc]
            · rw [plainPieces_gap isGap, plainPieces_cons] at notPlain
              exact fun plain => notPlain ⟨⟨marked, fun word after isQuote same => quoted ⟨isQuote, word, after, same⟩⟩, plain⟩

end Loses

theorem plainPieces_of_blank {text : List UInt8} {pieces : List Piece} (cut : CutPieces text pieces)
    (areBlank : ∀ octet ∈ text, isBlankOctet octet = true) : PlainPieces pieces := by
  cases front_of_cut cut with
  | nothing => exact plainPieces_nil
  | blanks => exact plainPieces_cons.mpr ⟨fun more => absurd rfl more, plainPieces_nil⟩
  | @unfolded octets tail pieces _ _ _ solid more =>
      obtain ⟨first, others, rfl⟩ := List.exists_cons_of_ne_nil more
      rw [solid_cons, areBlank first (List.mem_append_right octets List.mem_cons_self)] at solid
      cases solid
  | @encoded gap word tail pieces _ isWord =>
      obtain ⟨others, spelled⟩ := isWord.mark tail
      have isBlank := areBlank (ascii '=') (List.mem_append_right gap (spelled ▸ List.mem_cons_self))
      cases isBlank
  | @raw gap octets tail pieces _ nonempty notBlank =>
      obtain ⟨first, others, rfl⟩ := List.exists_cons_of_ne_nil nonempty
      have solid := notBlank first List.mem_cons_self
      rw [areBlank first (List.mem_append_right gap List.mem_cons_self)] at solid
      cases solid

theorem plain_of_keepsText {message : List UInt8} (nulFree : NulFree message) (keeps : KeepsText message) {pieces : List Piece}
    (cut : CutPieces message pieces) : PlainPieces pieces := by
  by_contra notPlain
  have identity : ∀ text, dropEncoded [] text = .ok text := fun _ => rfl
  have never : ∀ charset text, ∃ converted, dropEncoded charset text = .ok converted := by
    intro charset text
    rw [dropEncoded]
    split_ifs
    · exact ⟨text, rfl⟩
    · exact ⟨[], rfl⟩
  have stands : ∀ text, dropEncoded (asciiText "iso-8859-1") text ≠ .error .unknownCharset := by
    intro text failed
    obtain ⟨converted, isOk⟩ := never (asciiText "iso-8859-1") text
    rw [isOk] at failed
    cases failed
  obtain ⟨shows, succeeds⟩ := keeps dropEncoded [] identity stands
  have solid : ∃ octet ∈ message, isBlankOctet octet = false := by
    by_contra none
    push Not at none
    refine notPlain (plainPieces_of_blank cut fun octet member => ?_)
    simpa using none octet member
  obtain ⟨result, rest, parsed⟩ := succeeds solid never
  obtain ⟨areBlank, shown⟩ := shows result rest parsed
  rw [mailmimeEncodedPhraseParse] at parsed
  split at parsed
  · cases parsed
  next out rest' looped =>
  split_ifs at parsed
  cases parsed
  have fewer := (loses_of_cut cut nulFree out _ looped areBlank).2 notPlain
  have most := (shown pieces cut).rawCount_le
  rw [show solidCount [] = 0 from rfl, Nat.zero_add] at fewer
  omega

/-- The parser keeps the text exactly when its pieces are plain. -/
theorem mailmimeEncodedPhraseParse_keeps {message : List UInt8} (nulFree : NulFree message) :
    KeepsText message ↔ ∀ pieces, CutPieces message pieces → PlainPieces pieces :=
  ⟨fun keeps _ cut => plain_of_keepsText nulFree keeps cut, keepsText_of_plain nulFree⟩

theorem mailmimeEncodedPhraseParse_keeps_menu :
    KeepsText (asciiText "Menu =?utf-8?q?caf=C3=A9?=") ↔ ∀ pieces, CutPieces (asciiText "Menu =?utf-8?q?caf=C3=A9?=") pieces → PlainPieces pieces :=
  mailmimeEncodedPhraseParse_keeps (by decide)

theorem cutPieces_mark : CutPieces (asciiText "a=?b") [.raw (asciiText "a=?b")] := by
  have noWord : ∀ before after, asciiText "a=?b" = before ++ after → after ≠ [] → ¬ StartsEncodedWord (after ++ []) := by
    rintro before after same - ⟨word, rest, split, charset, letter, body, rfl, -⟩
    have lengths := congrArg List.length same
    have start : (asciiText "=?").length = 2 := rfl
    have ends : (asciiText "?=").length = 2 := rfl
    have four : (asciiText "a=?b").length = 4 := rfl
    rw [List.append_nil] at split
    rw [split] at lengths
    simp only [encodedWordText, List.length_append, List.length_cons, start, ends, four] at lengths
    omega
  have notBlank : ∀ octet ∈ asciiText "a=?b", isBlankOctet octet = false := by decide +kernel
  exact .raw (List.cons_ne_nil _ _) notBlank noWord (.inl rfl) .nil

/-- The parser reads the first letter, leaves the mark with what stands behind it, and succeeds. -/
theorem mailmimeEncodedPhraseParse_drops : ¬ KeepsText (asciiText "a=?b") := by
  intro keeps
  have nulFree : NulFree (asciiText "a=?b") := by decide
  have plain := plain_of_keepsText nulFree keeps cutPieces_mark
  exact plain.noMark _ List.mem_cons_self ⟨asciiText "a", asciiText "b", rfl⟩

end Etpan.Mime
