import Etpan.Mime.EncodedTurns

namespace Etpan.Mime

open Etpan.Data Etpan.Imf

/-! What is at the front of a text in pieces. -/

def gapPieces : List UInt8 → List Piece
  | [] => []
  | octet :: octets => [.blank (octet :: octets)]

inductive Front : List UInt8 → List Piece → Prop
  | nothing : Front [] []
  | blanks {octets} (nonempty : octets ≠ []) (areBlank : ∀ octet ∈ octets, isBlankOctet octet = true) : Front octets [.blank octets]
  | unfolded {octets text pieces} (nonempty : octets ≠ []) (areBlank : ∀ octet ∈ octets, isBlankOctet octet = true) (noFws : ¬ IsFws octets)
      (solid : Solid text) (more : text ≠ []) (piecesMore : pieces ≠ []) : Front (octets ++ text) (.blank octets :: pieces)
  | encoded {gap word tail pieces} (isGap : IsGap gap) (isWord : IsEncodedWord word) (cut : CutPieces tail pieces) :
      Front (gap ++ (word ++ tail)) (gapPieces gap ++ .encoded word :: pieces)
  | raw {gap octets tail pieces} (isGap : IsGap gap) (nonempty : octets ≠ []) (notBlank : ∀ octet ∈ octets, isBlankOctet octet = false)
      (noWord : ∀ before after, octets = before ++ after → after ≠ [] → ¬ StartsEncodedWord (after ++ tail))
      (stops : tail = [] ∨ tail.head?.any isBlankOctet = true ∨ StartsEncodedWord tail) (cut : CutPieces tail pieces) :
      Front (gap ++ (octets ++ tail)) (gapPieces gap ++ .raw octets :: pieces)

theorem front_of_cut {text : List UInt8} {pieces : List Piece} (cut : CutPieces text pieces) : Front text pieces := by
  cases cut with
  | nil => exact .nothing
  | encoded isWord rest => exact .encoded (.inl rfl) isWord rest
  | raw nonempty notBlank noWord stops rest => exact .raw (.inl rfl) nonempty notBlank noWord stops rest
  | @blank octets text pieces nonempty areBlank stops rest =>
      by_cases isFws : IsFws octets
      · obtain ⟨first, others, rfl⟩ := List.exists_cons_of_ne_nil nonempty
        cases rest with
        | nil =>
            rw [List.append_nil]
            exact .blanks nonempty areBlank
        | encoded isWord rest => exact .encoded (.inr isFws) isWord rest
        | raw nonempty notBlank noWord ends rest => exact .raw (.inr isFws) nonempty notBlank noWord ends rest
        | blank nonempty areBlank stops' rest =>
            obtain ⟨first', others', rfl⟩ := List.exists_cons_of_ne_nil nonempty
            rw [List.cons_append, List.head?_cons, Option.any_some, areBlank first' List.mem_cons_self] at stops
            cases stops
      · cases rest with
        | nil =>
            rw [List.append_nil]
            exact .blanks nonempty areBlank
        | @encoded word tail pieces isWord rest =>
            refine .unfolded nonempty areBlank isFws stops ?_ (List.cons_ne_nil _ _)
            obtain ⟨_, spelled⟩ := isWord.mark tail
            rw [← spelled]
            exact List.cons_ne_nil _ _
        | raw nonempty' =>
            exact .unfolded nonempty areBlank isFws stops (List.append_ne_nil_of_left_ne_nil nonempty' _) (List.cons_ne_nil _ _)
        | blank nonempty' =>
            exact .unfolded nonempty areBlank isFws stops (List.append_ne_nil_of_left_ne_nil nonempty' _) (List.cons_ne_nil _ _)

theorem exists_rawRun (text : List UInt8) :
    ∃ octets tail, text = octets ++ tail ∧ (∀ octet ∈ octets, isBlankOctet octet = false) ∧
      (∀ before after, octets = before ++ after → after ≠ [] → ¬ StartsEncodedWord (after ++ tail)) ∧
      (tail = [] ∨ tail.head?.any isBlankOctet = true ∨ StartsEncodedWord tail) := by
  have noPiece : ∀ tail : List UInt8, ∀ before after : List UInt8, [] = before ++ after → after ≠ [] → ¬ StartsEncodedWord (after ++ tail) :=
    fun _ _ _ same nonempty => absurd (List.append_eq_nil_iff.mp same.symm).2 nonempty
  induction text with
  | nil => exact ⟨[], [], rfl, fun _ member => absurd member List.not_mem_nil, noPiece [], .inl rfl⟩
  | cons octet text ih =>
      by_cases stops : isBlankOctet octet = true ∨ StartsEncodedWord (octet :: text)
      · exact ⟨[], octet :: text, rfl, fun _ member => absurd member List.not_mem_nil, noPiece _, .inr stops⟩
      push Not at stops
      obtain ⟨octets, tail, rfl, notBlank, noWord, ends⟩ := ih
      refine ⟨octet :: octets, tail, rfl, List.forall_mem_cons.mpr ⟨Bool.not_eq_true _ ▸ stops.1, notBlank⟩, ?_, ends⟩
      intro before after same nonempty
      cases before with
      | nil =>
          rw [List.nil_append] at same
          rw [← same]
          exact stops.2
      | cons first before => exact noWord before after (List.cons.inj same).2 nonempty

theorem exists_cutPieces (text : List UInt8) : ∃ pieces, CutPieces text pieces := by
  induction length : text.length using Nat.strong_induction_on generalizing text with
  | _ count ih =>
      rcases text with _ | ⟨first, others⟩
      · exact ⟨[], .nil⟩
      by_cases isWord : StartsEncodedWord (first :: others)
      · obtain ⟨word, tail, same, isWord⟩ := isWord
        have positive : 0 < word.length := by
          obtain ⟨charset, letter, body, rfl, -⟩ := isWord
          simp only [encodedWordText, List.length_append, List.length_cons]
          omega
        rw [same, List.length_append] at length
        obtain ⟨pieces, cut⟩ := ih tail.length (by omega) tail rfl
        rw [same]
        exact ⟨_, .encoded isWord cut⟩
      by_cases isBlank : isBlankOctet first = true
      · have split := @List.takeWhile_append_dropWhile _ isBlankOctet (first :: others)
        have nonempty : (first :: others).takeWhile isBlankOctet ≠ [] := by
          rw [List.takeWhile_cons_of_pos isBlank]
          exact List.cons_ne_nil _ _
        have solid : Solid ((first :: others).dropWhile isBlankOctet) := by
          rw [Solid, ← Bool.not_eq_true, Option.any_eq_true]
          rintro ⟨octet, isHead, blank⟩
          have stops := List.head?_dropWhile_not isBlankOctet (first :: others)
          rw [isHead] at stops
          have notBlank : isBlankOctet octet = false := stops
          rw [blank] at notBlank
          cases notBlank
        have positive := List.length_pos_iff.mpr nonempty
        have lengths := congrArg List.length split
        rw [List.length_append] at lengths
        obtain ⟨pieces, cut⟩ := ih _ (by omega) ((first :: others).dropWhile isBlankOctet) rfl
        rw [← split]
        exact ⟨_, .blank nonempty (fun octet member => List.mem_takeWhile_imp member) solid cut⟩
      · obtain ⟨octets, tail, same, notBlank, noWord, stops⟩ := exists_rawRun (first :: others)
        have nonempty : octets ≠ [] := by
          rintro rfl
          rw [List.nil_append] at same
          rw [← same] at stops
          rcases stops with isNil | blank | startsWord
          · cases isNil
          · exact isBlank blank
          · exact isWord startsWord
        have positive := List.length_pos_iff.mpr nonempty
        rw [same, List.length_append] at length
        obtain ⟨pieces, cut⟩ := ih tail.length (by omega) tail rfl
        rw [same]
        exact ⟨_, .raw nonempty notBlank noWord stops cut⟩

/-- What the parser needs of a piece, with the pieces behind it. -/
def PlainPiece (after : List Piece) : Piece → Prop
  | .encoded _ => True
  | .raw octets => ¬ asciiText "=?" <:+: octets ∧ ∀ word pieces, octets = [ascii '"'] → after ≠ .encoded word :: pieces
  | .blank octets => after ≠ [] → IsFws octets

theorem plainPieces_cons {piece : Piece} {pieces : List Piece} : PlainPieces (piece :: pieces) ↔ PlainPiece pieces piece ∧ PlainPieces pieces := by
  constructor
  · intro plain
    refine ⟨?_, ?_, ?_, ?_⟩
    · cases piece with
      | encoded word => trivial
      | raw octets =>
          refine ⟨plain.noMark octets List.mem_cons_self, ?_⟩
          rintro word after rfl rfl
          exact plain.unquoted [] word after rfl
      | blank octets => exact plain.folded [] octets pieces rfl
    · exact fun octets member => plain.noMark octets (List.mem_cons_of_mem _ member)
    · exact fun before word after same => plain.unquoted (piece :: before) word after (congrArg (piece :: ·) same)
    · exact fun before octets after same => plain.folded (piece :: before) octets after (congrArg (piece :: ·) same)
  · rintro ⟨head, plain⟩
    refine ⟨?_, ?_, ?_⟩
    · intro octets member
      rcases List.mem_cons.mp member with rfl | member
      · exact head.1
      · exact plain.noMark octets member
    · intro before word after same
      cases before with
      | nil =>
          obtain ⟨rfl, rfl⟩ := List.cons.inj same
          exact head.2 word after rfl rfl
      | cons first before => exact plain.unquoted before word after (List.cons.inj same).2
    · intro before octets after same more
      cases before with
      | nil =>
          obtain ⟨rfl, rfl⟩ := List.cons.inj same
          exact head more
      | cons first before => exact plain.folded before octets after (List.cons.inj same).2 more

theorem plainPieces_nil : PlainPieces [] :=
  ⟨fun _ member => absurd member List.not_mem_nil, fun _ _ _ same => by simp at same, fun _ _ _ same => by simp at same⟩

theorem plainPieces_gap {gap : List UInt8} {piece : Piece} {pieces : List Piece} (isGap : IsGap gap) :
    PlainPieces (gapPieces gap ++ piece :: pieces) ↔ PlainPieces (piece :: pieces) := by
  cases gap with
  | nil => exact Iff.rfl
  | cons octet octets =>
      have isFws : IsFws (octet :: octets) := isGap.resolve_left (List.cons_ne_nil _ _)
      rw [gapPieces, List.singleton_append, plainPieces_cons]
      exact and_iff_right fun _ => isFws

theorem Group.plain {pieces pieces' : List Piece} (group : Group pieces pieces') : PlainPieces pieces ↔ PlainPieces pieces' := by
  induction group with
  | refl pieces => exact Iff.rfl
  | encoded _ ih => exact plainPieces_cons.trans ((and_iff_right trivial).trans ih)
  | folded isFws _ ih =>
      rw [plainPieces_cons, plainPieces_cons]
      exact (and_iff_right fun _ => isFws).trans ((and_iff_right trivial).trans ih)

theorem Marked.not_plain {pieces : List Piece} (marked : Marked pieces) : ¬ PlainPieces pieces := by
  obtain ⟨octets, member, found⟩ := marked
  exact fun plain => plain.noMark octets member found

end Etpan.Mime
