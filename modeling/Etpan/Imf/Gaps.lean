import Etpan.Imf.Word

namespace Etpan.Imf

open Etpan.Data Etpan.Mime

/-! White space and comments as they are written, and what `mailimf_cfws_parse` leaves of them. -/

def wsp (tab : Bool) : UInt8 := if tab then ascii '\t' else ascii ' '

inductive CommentText : List UInt8 → Prop
  | nil : CommentText []
  | blank {rest : List UInt8} (tab : Bool) : CommentText rest → CommentText (wsp tab :: rest)
  | fold {rest : List UInt8} (tab : Bool) : CommentText rest → CommentText (CR :: LF :: wsp tab :: rest)
  | char {ch : UInt8} {rest : List UInt8} : isCtext ch = true → CommentText rest → CommentText (ch :: rest)
  | quoted {rest : List UInt8} (ch : UInt8) : CommentText rest → CommentText (ascii '\\' :: ch :: rest)
  | comment {inner rest : List UInt8} : CommentText inner → CommentText rest → CommentText (ascii '(' :: (inner ++ ascii ')' :: rest))

inductive GapPiece where
  | blank (tab : Bool)
  | fold (tab : Bool)
  | comment (content : List UInt8) (isText : CommentText content)

def GapPiece.text : GapPiece → List UInt8
  | .blank tab => [wsp tab]
  | .fold tab => [CR, LF, wsp tab]
  | .comment content _ => ascii '(' :: (content ++ [ascii ')'])

def GapPiece.isComment : GapPiece → Bool
  | .comment _ _ => true
  | _ => false

abbrev Gap := List GapPiece

def Gap.text (gap : Gap) : List UInt8 := gap.flatMap GapPiece.text

def Gap.behindLast : Gap → Option Gap
  | [] => none
  | piece :: gap => (Gap.behindLast gap).or (if piece.isComment then some gap else none)

/-- White space is passed over, but not where a comment stands before it. -/
def Gap.left (gap : Gap) : Gap := gap.behindLast.getD []

theorem wsp_octets (tab : Bool) : isWspChar (wsp tab) = true ∧ isBlankOctet (wsp tab) = true := by
  cases tab with
  | true => decide
  | false => decide

theorem startsFws_wsp (tab : Bool) (rest : List UInt8) : startsFws (wsp tab :: rest) = true := by
  rw [startsFws, (wsp_octets tab).1]
  rfl

theorem startsFws_fold (tab : Bool) (rest : List UInt8) :
    startsFws (CR :: LF :: wsp tab :: rest) = true ∧ startsFws (LF :: wsp tab :: rest) = true := by
  cases tab with
  | true => exact ⟨rfl, rfl⟩
  | false => exact ⟨rfl, rfl⟩

theorem commentLoop_step (depth : Nat) {ch : UInt8} (rest : List UInt8) (notPair : ch ≠ ascii '\\') :
    commentLoop (depth + 1) (ch :: rest) =
      if startsFws (ch :: rest) then commentLoop (depth + 1) rest
      else if isCtext ch then commentLoop (depth + 1) rest
      else if ch = ascii '(' then commentLoop (depth + 2) rest
      else if ch = ascii ')' then commentLoop depth rest
      else none := by
  cases rest with
  | nil => simp only [commentLoop, if_neg notPair]
  | cons next rest => simp only [commentLoop, if_neg notPair]

theorem commentLoop_fws (depth : Nat) {ch : UInt8} {rest : List UInt8} (starts : startsFws (ch :: rest) = true) :
    commentLoop (depth + 1) (ch :: rest) = commentLoop (depth + 1) rest := by
  cases rest with
  | nil => simp only [commentLoop, if_pos starts]
  | cons next rest => simp only [commentLoop, if_pos starts]

theorem isCtext_octets : ∀ ch, isCtext ch = true → isBlankOctet ch = false ∧ ch ≠ ascii '\\' := forall_octet (by decide +kernel)

theorem commentLoop_text {content : List UInt8} (isText : CommentText content) (depth : Nat) (rest : List UInt8) :
    commentLoop (depth + 1) (content ++ rest) = commentLoop (depth + 1) rest := by
  induction isText generalizing depth rest with
  | nil => rfl
  | blank tab _ ih =>
      rw [List.cons_append, commentLoop_fws depth (startsFws_wsp tab _)]
      exact ih depth rest
  | fold tab _ ih =>
      obtain ⟨first, second⟩ := startsFws_fold tab (_ ++ rest)
      rw [List.cons_append, List.cons_append, List.cons_append, commentLoop_fws depth first, commentLoop_fws depth second,
        commentLoop_fws depth (startsFws_wsp tab _)]
      exact ih depth rest
  | char isChar _ ih =>
      rw [List.cons_append, commentLoop_step depth _ (isCtext_octets _ isChar).2, if_pos isChar, ite_self]
      exact ih depth rest
  | @quoted after ch _ ih => exact ih depth rest
  | @comment inner after _ _ first second =>
      have opened : commentLoop (depth + 1) (ascii '(' :: (inner ++ ascii ')' :: after ++ rest)) =
          commentLoop (depth + 2) (inner ++ (ascii ')' :: (after ++ rest))) := by
        rw [commentLoop_step depth _ (by decide), List.append_assoc]
        rfl
      have closed : commentLoop (depth + 2) (ascii ')' :: (after ++ rest)) = commentLoop (depth + 1) (after ++ rest) :=
        commentLoop_step (depth + 1) _ (by decide)
      rw [List.cons_append, opened, first (depth + 1), closed]
      exact second depth rest

theorem Gap.text_cons (piece : GapPiece) (gap : Gap) : Gap.text (piece :: gap) = piece.text ++ gap.text := List.flatMap_cons

theorem mailimfCommentParse_comment {content : List UInt8} (isText : CommentText content) (rest : List UInt8) :
    mailimfCommentParse (ascii '(' :: (content ++ [ascii ')']) ++ rest) = some rest := by
  have outside : commentLoop 0 rest = some rest := by rw [commentLoop]
  have closed : commentLoop 1 (ascii ')' :: rest) = some rest := (commentLoop_step 0 _ (by decide)).trans outside
  have opened : mailimfCharParse (ascii '(') (ascii '(' :: (content ++ [ascii ')']) ++ rest) = some (content ++ ascii ')' :: rest) := by
    rw [List.cons_append, List.append_assoc]
    rfl
  rw [mailimfCommentParse, opened, Option.bind_some, commentLoop_text isText 0, closed]

theorem skipped_piece {piece : GapPiece} (white : piece.isComment = false) : Skipped piece.text := by
  intro text
  cases piece with
  | blank tab => rw [GapPiece.text, List.singleton_append, skipFws, if_pos (startsFws_wsp tab text)]
  | fold tab =>
      obtain ⟨first, second⟩ := startsFws_fold tab text
      rw [GapPiece.text, List.cons_append, List.cons_append, List.singleton_append, skipFws, if_pos first, skipFws, if_pos second, skipFws,
        if_pos (startsFws_wsp tab text)]
  | comment content isText => cases white

def Gap.afterNext : Gap → Option Gap
  | [] => none
  | piece :: gap => if piece.isComment then some gap else Gap.afterNext gap

theorem Gap.behindLast_eq (gap : Gap) : gap.behindLast = gap.afterNext.map fun later => (Gap.behindLast later).getD later := by
  induction gap with
  | nil => rfl
  | cons piece gap ih =>
      rw [Gap.behindLast, Gap.afterNext]
      split_ifs
      · rw [Option.map_some]
        cases Gap.behindLast gap with
        | none => rfl
        | some later => rfl
      · rw [Option.or_none]
        exact ih

theorem Gap.white_of_behindLast {gap : Gap} (noComment : gap.behindLast = none) : ∀ piece ∈ gap, piece.isComment = false := by
  induction gap with
  | nil => exact fun _ member => absurd member List.not_mem_nil
  | cons piece gap ih =>
      rw [Gap.behindLast, Option.or_eq_none_iff] at noComment
      intro other member
      obtain rfl | member := List.mem_cons.mp member
      · cases isComment : other.isComment with
        | false => rfl
        | true =>
            rw [isComment] at noComment
            cases noComment.2
      · exact ih noComment.1 other member

theorem Gap.left_white (gap : Gap) : ∀ piece ∈ gap.left, piece.isComment = false := by
  induction gap with
  | nil => exact fun _ member => absurd member List.not_mem_nil
  | cons piece gap ih =>
      rw [Gap.left] at ih ⊢
      rw [Gap.behindLast]
      cases later : Gap.behindLast gap with
      | some after =>
          rw [later] at ih
          exact ih
      | none =>
          rw [Option.none_or]
          split_ifs
          · exact Gap.white_of_behindLast later
          · exact fun _ member => absurd member List.not_mem_nil

theorem Gap.skipped {gap : Gap} (white : ∀ piece ∈ gap, piece.isComment = false) : Skipped (Gap.text gap) := by
  induction gap with
  | nil => exact skipped_nil
  | cons piece gap ih =>
      rw [Gap.text_cons]
      exact (skipped_piece (white piece List.mem_cons_self)).append (ih fun other member => white other (List.mem_cons_of_mem piece member))

theorem Gap.length_le (gap : Gap) : gap.length ≤ (Gap.text gap).length := by
  induction gap with
  | nil => exact Nat.le_refl 0
  | cons piece gap ih =>
      have octets : 1 ≤ piece.text.length := by
        cases piece with
        | blank tab => exact Nat.le_refl 1
        | fold tab => exact Nat.le_add_left 1 2
        | comment content isText => exact Nat.le_add_left 1 _
      rw [Gap.text_cons, List.length_append, List.length_cons]
      omega

theorem Gap.afterNext_length {gap later : Gap} (next : gap.afterNext = some later) : later.length < gap.length := by
  induction gap with
  | nil => cases next
  | cons piece gap ih =>
      rw [Gap.afterNext] at next
      rw [List.length_cons]
      split_ifs at next
      · rw [Option.some.inj next]
        exact Nat.lt_succ_self _
      · exact Nat.lt_succ_of_lt (ih next)

theorem Gap.text_head {gap : Gap} (white : ∀ piece ∈ gap, piece.isComment = false) (nonempty : gap ≠ []) :
    ∃ blank more, Gap.text gap = blank :: more ∧ isBlankOctet blank = true := by
  obtain ⟨piece, gap, rfl⟩ := List.exists_cons_of_ne_nil nonempty
  have isWhite := white piece List.mem_cons_self
  rw [Gap.text_cons]
  cases piece with
  | blank tab => exact ⟨_, _, rfl, (wsp_octets tab).2⟩
  | fold tab => exact ⟨CR, _, rfl, by decide⟩
  | comment content isText => cases isWhite

section Followed

variable {ch : UInt8} (visible : isBlankOctet ch = false) (noComment : ch ≠ ascii '(') (rest : List UInt8)

include visible noComment

theorem Gap.fwsComment (gap : Gap) : mailimfCfwsFwsCommentParse (gap.text ++ ch :: rest) = gap.afterNext.map fun gap => Gap.text gap ++ ch :: rest := by
  induction gap with
  | nil =>
      have noOpen : mailimfCharParse (ascii '(') (ch :: rest) = none := if_neg noComment
      rw [Gap.text, List.flatMap_nil, List.nil_append, mailimfCfwsFwsCommentParse, skipFws_visible visible, mailimfCommentParse, noOpen]
      rfl
  | cons piece gap ih =>
      rw [Gap.text_cons, List.append_assoc, Gap.afterNext]
      cases white : piece.isComment with
      | false =>
          have skipped := skipped_piece white (Gap.text gap ++ ch :: rest)
          rw [mailimfCfwsFwsCommentParse] at ih ⊢
          rw [skipped, ih]
          rfl
      | true =>
          cases piece with
          | blank tab => cases white
          | fold tab => cases white
          | comment content isText =>
              have solid : skipFws (GapPiece.text (.comment content isText) ++ (Gap.text gap ++ ch :: rest)) =
                  GapPiece.text (.comment content isText) ++ (Gap.text gap ++ ch :: rest) := skipFws_visible (by decide)
              rw [mailimfCfwsFwsCommentParse, solid, GapPiece.text, mailimfCommentParse_comment isText]
              rfl

theorem Gap.cfwsLoop (turns : Nat) (gap : Gap) (enough : gap.length ≤ turns) :
    cfwsLoop turns (gap.text ++ ch :: rest) = Gap.text (gap.behindLast.getD gap) ++ ch :: rest := by
  induction turns generalizing gap with
  | zero =>
      rw [List.eq_nil_of_length_eq_zero (Nat.eq_zero_of_le_zero enough)]
      rfl
  | succ turns ih =>
      rw [Imf.cfwsLoop, Gap.fwsComment visible noComment, Gap.behindLast_eq]
      cases next : gap.afterNext with
      | none => rfl
      | some later =>
          have shorter := Gap.afterNext_length next
          simp only [Option.map_some, Option.getD_some]
          exact ih later (by omega)

theorem Gap.skipCfws (gap : Gap) : skipCfws (gap.text ++ ch :: rest) = Gap.text gap.left ++ ch :: rest := by
  cases next : gap.afterNext with
  | none =>
      have noLast : gap.behindLast = none := by rw [Gap.behindLast_eq, next, Option.map_none]
      have nothing : gap.left = [] := by rw [Gap.left, noLast, Option.getD_none]
      rw [nothing]
      exact (Gap.skipped (Gap.white_of_behindLast noLast)).cfws visible noComment
  | some later =>
      have isLeft : gap.left = (Gap.behindLast later).getD later := by rw [Gap.left, Gap.behindLast_eq, next, Option.map_some, Option.getD_some]
      have parsed := Gap.fwsComment visible noComment rest gap
      have enough : later.length ≤ (Gap.text later ++ ch :: rest).length := by
        rw [List.length_append]
        exact Nat.le_add_right_of_le (Gap.length_le later)
      rw [next, Option.map_some] at parsed
      rw [Imf.skipCfws, mailimfCfwsParse, parsed]
      dsimp only
      rw [Gap.cfwsLoop visible noComment rest _ later enough, isLeft, Option.getD_some]

theorem Gap.unstrictChar (gap : Gap) {token : UInt8} (solid : isBlankOctet token = false) :
    mailimfUnstrictCharParse token (gap.text ++ ch :: rest) = if gap.left = [] ∧ ch = token then some rest else none := by
  rw [mailimfUnstrictCharParse, Gap.skipCfws visible noComment rest gap]
  by_cases nothing : gap.left = []
  · rw [nothing]
    simp only [true_and]
    rfl
  · obtain ⟨blank, more, starts, isBlank⟩ := Gap.text_head gap.left_white nothing
    have other : blank ≠ token := fun same => by rw [same, solid] at isBlank; cases isBlank
    rw [if_neg fun found => nothing found.1, starts, List.cons_append, mailimfCharParse, if_neg other]

end Followed

end Etpan.Imf
