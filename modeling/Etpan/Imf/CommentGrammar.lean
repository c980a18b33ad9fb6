import Etpan.Imf.Gaps

namespace Etpan.Imf

open Etpan.Data Etpan.Mime

/-! `mailimf_comment_parse` against the grammar of comments. -/

/-- The position is passed by reference: it is set where the parser succeeds. -/
def atIndx (parser : List UInt8 → Option (List UInt8)) (message : List UInt8) (indx : Nat) : Except MailimfError Unit × Nat :=
  match parser (message.drop indx) with
  | none => (.error .parse, indx)
  | some rest => (.ok (), message.length - rest.length)

inductive CommentSymbol where
  | comment
  | contents
  | ccontent

/-- The rules of the grammar: a comment is "(", any number of [FWS] ccontent, [FWS] and ")".  Any octet may be
quoted, as in the sources. -/
inductive Derives : CommentSymbol → List UInt8 → Prop
  | comment {contents gap : List UInt8} (inside : Derives .contents contents) (isGap : IsGap gap) :
      Derives .comment (ascii '(' :: (contents ++ (gap ++ [ascii ')'])))
  | none : Derives .contents []
  | more {gap content contents : List UInt8} (isGap : IsGap gap) (first : Derives .ccontent content) (others : Derives .contents contents) :
      Derives .contents (gap ++ (content ++ contents))
  | ctext {ch : UInt8} (isChar : isCtext ch = true) : Derives .ccontent [ch]
  | quotedPair (ch : UInt8) : Derives .ccontent [ascii '\\', ch]
  | nested {comment : List UInt8} (inner : Derives .comment comment) : Derives .ccontent comment

theorem commentLoop_skipFws (depth : Nat) (text : List UInt8) : commentLoop (depth + 1) (skipFws text) = commentLoop (depth + 1) text := by
  induction text with
  | nil => rfl
  | cons ch rest ih =>
      rw [skipFws]
      split_ifs with starts
      · rw [ih, commentLoop_fws depth starts]
      · rfl

theorem commentLoop_gap {gap : List UInt8} (isGap : IsGap gap) (depth : Nat) (rest : List UInt8) :
    commentLoop (depth + 1) (gap ++ rest) = commentLoop (depth + 1) rest := by
  rcases isGap with rfl | isFws
  · rfl
  · rw [← commentLoop_skipFws, isFws.skip, commentLoop_skipFws]

theorem commentLoop_char (depth : Nat) {ch : UInt8} (isChar : isCtext ch = true) (rest : List UInt8) :
    commentLoop (depth + 1) (ch :: rest) = commentLoop (depth + 1) rest := by
  rw [commentLoop_step depth rest (isCtext_octets ch isChar).2, if_pos isChar, ite_self]

theorem commentLoop_opens (depth : Nat) (rest : List UInt8) : commentLoop (depth + 1) (ascii '(' :: rest) = commentLoop (depth + 2) rest :=
  commentLoop_step depth rest (by decide)

theorem commentLoop_closes (depth : Nat) (rest : List UInt8) : commentLoop (depth + 1) (ascii ')' :: rest) = commentLoop depth rest :=
  commentLoop_step depth rest (by decide)

theorem commentLoop_pair (depth : Nat) (ch : UInt8) (rest : List UInt8) :
    commentLoop (depth + 1) (ascii '\\' :: ch :: rest) = commentLoop (depth + 1) rest := rfl

theorem commentLoop_outside (rest : List UInt8) : commentLoop 0 rest = some rest := by rw [commentLoop]

theorem Derives.reads {symbol : CommentSymbol} {text : List UInt8} (derived : Derives symbol text) (depth : Nat) (rest : List UInt8) :
    commentLoop (depth + 1) (text ++ rest) = commentLoop (depth + 1) rest := by
  induction derived generalizing depth rest with
  | comment inside isGap ih =>
      rw [List.cons_append, List.append_assoc, List.append_assoc, List.singleton_append, commentLoop_opens, ih (depth + 1),
        commentLoop_gap isGap (depth + 1), commentLoop_closes]
  | none => rfl
  | more isGap first others firstIH othersIH =>
      rw [List.append_assoc, List.append_assoc, commentLoop_gap isGap, firstIH, othersIH]
  | ctext isChar => exact commentLoop_char depth isChar rest
  | quotedPair ch => exact commentLoop_pair depth ch rest
  | nested inner ih => exact ih depth rest

theorem Derives.parse {comment : List UInt8} (derived : Derives .comment comment) (rest : List UInt8) :
    mailimfCommentParse (comment ++ rest) = some rest := by
  cases derived with
  | @comment contents gap inside isGap =>
      have opened : mailimfCharParse (ascii '(') (ascii '(' :: (contents ++ (gap ++ [ascii ')'])) ++ rest) =
          some (contents ++ (gap ++ ascii ')' :: rest)) := by
        rw [mailimfCharParse_some, List.cons_append, List.append_assoc, List.append_assoc, List.singleton_append]
      rw [mailimfCommentParse, opened, Option.bind_some, inside.reads 0, commentLoop_gap isGap 0, commentLoop_closes, commentLoop_outside]

theorem startsFws_split {text : List UInt8} (starts : startsFws text = true) :
    ∃ lineEnd wsp rest, lineEnd ∈ [[], [LF], [CR, LF]] ∧ isWspChar wsp = true ∧ text = lineEnd ++ wsp :: rest := by
  cases text with
  | nil => cases starts
  | cons ch rest =>
      simp only [startsFws, Bool.or_eq_true, Bool.and_eq_true, decide_eq_true_eq] at starts
      rcases starts with (isWsp | ⟨isLF, next⟩) | ⟨⟨isCR, isLF⟩, next⟩
      · exact ⟨[], ch, rest, by decide, isWsp, rfl⟩
      · rcases rest with _ | ⟨wsp, rest⟩
        · cases next
        · exact ⟨[LF], wsp, rest, by decide, next, by rw [isLF]; rfl⟩
      · rcases rest with _ | ⟨second, _ | ⟨wsp, rest⟩⟩
        · cases next
        · cases next
        · obtain rfl := Option.some.inj isLF
          exact ⟨[CR, LF], wsp, rest, by decide, next, by rw [isCR]; rfl⟩

theorem isGap_more {gap lineEnd : List UInt8} {wsp : UInt8} (isGap : IsGap gap) (isEnd : lineEnd ∈ [[], [LF], [CR, LF]])
    (isWsp : isWspChar wsp = true) : IsGap (lineEnd ++ wsp :: gap) := by
  rcases isGap with rfl | isFws
  · exact .inr (.one isEnd isWsp)
  · exact .inr (.more isEnd isWsp isFws)

theorem skipFws_gap (text : List UInt8) : ∃ gap, text = gap ++ skipFws text ∧ IsGap gap := by
  induction length : text.length using Nat.strong_induction_on generalizing text with
  | _ count ih =>
      by_cases starts : startsFws text = true
      · obtain ⟨lineEnd, wsp, rest, isEnd, isWsp, rfl⟩ := startsFws_split starts
        rw [List.length_append, List.length_cons] at length
        obtain ⟨gap, same, isGap⟩ := ih rest.length (by omega) rest rfl
        refine ⟨lineEnd ++ wsp :: gap, ?_, isGap_more isGap isEnd isWsp⟩
        rw [(startsFws_lineEnd isEnd isWsp).2, List.append_assoc, List.cons_append, ← same]
      · refine ⟨[], ?_, .inl rfl⟩
        cases text with
        | nil => rfl
        | cons ch rest => rw [skipFws, if_neg starts, List.nil_append]

theorem startsFws_skipFws (text : List UInt8) : startsFws (skipFws text) = false := by
  induction text with
  | nil => rfl
  | cons ch rest ih =>
      rw [skipFws]
      split_ifs with starts
      · exact ih
      · exact Bool.eq_false_iff.mpr starts

theorem commentLoop_derives {depth : Nat} {text rest : List UInt8} (parsed : commentLoop (depth + 1) text = some rest) :
    ∃ contents gap later, text = contents ++ (gap ++ ascii ')' :: later) ∧ Derives .contents contents ∧ IsGap gap ∧
      commentLoop depth later = some rest := by
  induction length : text.length using Nat.strong_induction_on generalizing depth text with
  | _ count ih =>
      obtain ⟨gap, split, isGap⟩ := skipFws_gap text
      have stops := startsFws_skipFws text
      have lengths := congrArg List.length split
      rw [← commentLoop_skipFws] at parsed
      generalize skipFws text = found at split stops parsed lengths
      rw [List.length_append] at lengths
      subst split
      -- One turn behind the white space: what it takes is a ccontent, and the others follow by the induction.
      have goesOn : ∀ {content after : List UInt8}, Derives .ccontent content → found = content ++ after → after.length < found.length →
          commentLoop (depth + 1) after = some rest → ∃ contents gap' later, gap ++ found = contents ++ (gap' ++ ascii ')' :: later) ∧
            Derives .contents contents ∧ IsGap gap' ∧ commentLoop depth later = some rest := by
        intro content after derived same shorter loop
        obtain ⟨contents, gap', later, isAfter, inside, isGap', ends⟩ := ih after.length (by omega) loop rfl
        refine ⟨gap ++ (content ++ contents), gap', later, ?_, .more isGap derived inside, isGap', ends⟩
        rw [same, isAfter]
        simp only [List.append_assoc]
      cases found with
      | nil => cases parsed
      | cons ch after =>
          by_cases isPair : ch = ascii '\\'
          · subst isPair
            cases after with
            | nil => cases parsed
            | cons quoted after =>
                exact goesOn (.quotedPair quoted) rfl (by simp only [List.length_cons]; omega) parsed
          · rw [commentLoop_step depth after isPair, if_neg (Bool.eq_false_iff.mp stops)] at parsed
            split_ifs at parsed with isChar isOpen isClose
            · exact goesOn (.ctext isChar) rfl (Nat.lt_succ_self _) parsed
            · subst isOpen
              rw [List.length_cons] at lengths
              obtain ⟨contents, gap', later, rfl, inside, isGap', ends⟩ := ih after.length (by omega) parsed rfl
              refine goesOn (.nested (.comment inside isGap')) ?_ ?_ ends
              · simp only [List.cons_append, List.append_assoc, List.nil_append]
              · simp only [List.length_cons, List.length_append]
                omega
            · subst isClose
              exact ⟨[], gap, after, rfl, .none, isGap, parsed⟩

theorem mailimfCommentParse_derives {text rest : List UInt8} (parsed : mailimfCommentParse text = some rest) :
    ∃ comment, Derives .comment comment ∧ text = comment ++ rest := by
  obtain ⟨opened, isOpen, loop⟩ := Option.bind_eq_some_iff.mp parsed
  obtain ⟨contents, gap, later, rfl, inside, isGap, ends⟩ := commentLoop_derives loop
  rw [commentLoop_outside, Option.some.injEq] at ends
  refine ⟨_, .comment inside isGap, ?_⟩
  rw [mailimfCharParse_some.mp isOpen, ends]
  simp only [List.cons_append, List.append_assoc, List.nil_append]

/-- The index is moved behind the comment that starts there, which is the only one, and stays where none does. -/
theorem mailimfCommentParse_atIndx (message : List UInt8) (indx : Nat) :
    (∀ comment, Derives .comment comment → comment <+: message.drop indx →
        atIndx mailimfCommentParse message indx = (.ok (), indx + comment.length)) ∧
      (∀ comment other, Derives .comment comment → comment <+: message.drop indx → Derives .comment other → other <+: message.drop indx →
        comment = other) ∧
      ((∀ comment, Derives .comment comment → ¬ comment <+: message.drop indx) →
        atIndx mailimfCommentParse message indx = (.error .parse, indx)) := by
  refine ⟨?_, ?_, ?_⟩
  · intro comment derived ⟨rest, split⟩
    have parsed := derived.parse rest
    rw [split] at parsed
    have nonempty : 0 < comment.length := by
      cases derived
      exact Nat.succ_pos _
    have lengths := congrArg List.length split
    rw [List.length_append, List.length_drop] at lengths
    rw [atIndx, parsed]
    dsimp only
    congr 1
    omega
  · intro comment other derived ⟨rest, split⟩ otherDerived ⟨otherRest, otherSplit⟩
    have parsed := derived.parse rest
    rw [split, ← otherSplit, otherDerived.parse, Option.some.injEq] at parsed
    subst parsed
    exact List.append_cancel_right (split.trans otherSplit.symm)
  · intro noComment
    rw [atIndx]
    cases parsed : mailimfCommentParse (message.drop indx) with
    | none => rfl
    | some rest =>
        obtain ⟨comment, derived, split⟩ := mailimfCommentParse_derives parsed
        exact absurd ⟨rest, split.symm⟩ (noComment comment derived)

end Etpan.Imf
