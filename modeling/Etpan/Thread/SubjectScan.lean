import Etpan.Thread.SubjectBase

namespace Etpan.Thread

open Etpan.Data Relation Computability SubjectGrammar

/-! The scanners of `extract_subject` on an array whose text ends at `len`. -/

def At (subj : List UInt8) (cur len : Nat) (text : List UInt8) : Prop :=
  ∃ before behind, subj = before ++ (text ++ behind) ∧ cur = before.length ∧ len = cur + text.length ∧
    (behind.head? = some 0 ∨ text.getLast? = some 0)

section Scanners

variable {subj text head rest : List UInt8} {cur len : Nat}

theorem At.length (at' : At subj cur len text) : len = cur + text.length := by
  obtain ⟨_, _, _, _, same, _⟩ := at'
  exact same

theorem At.move (at' : At subj cur len text) (split : text = head ++ rest) (skipped : rest ≠ [] ∨ head.getLast? ≠ some 0) :
    At subj (len - rest.length) len rest := by
  obtain ⟨before, behind, rfl, rfl, rfl, stop⟩ := at'
  subst split
  refine ⟨before ++ head, behind, by simp, ?_, ?_, ?_⟩
  · simp only [List.length_append]
    omega
  · simp only [List.length_append]
    omega
  · refine stop.imp_right fun last => ?_
    cases rest with
    | nil =>
        rw [List.append_nil] at last
        exact absurd last (skipped.resolve_left (not_not.mpr rfl))
    | cons octet rest =>
        rw [List.getLast?_append_of_ne_nil _ (List.cons_ne_nil octet rest)] at last
        exact last

theorem At.next {octet : UInt8} (at' : At subj cur len (octet :: text)) (skipped : text ≠ [] ∨ octet ≠ 0) :
    At subj (cur + 1) len text := by
  have moved := @At.move _ _ [octet] text _ _ at' rfl (skipped.imp_right fun differs same => differs (Option.some.inj same))
  have same := at'.length
  rw [List.length_cons] at same
  rwa [show len - text.length = cur + 1 by omega] at moved

theorem At.read (at' : At subj cur len text) : subj[cur]? = some (text.head?.getD 0) := by
  obtain ⟨before, behind, rfl, rfl, _, stop⟩ := at'
  rw [List.getElem?_append_right (le_refl _), Nat.sub_self]
  cases text with
  | nil =>
      rcases stop with zero | impossible
      · rw [List.nil_append, ← List.head?_eq_getElem?, zero]
        rfl
      · cases impossible
  | cons => rfl

theorem At.sameNoCase (at' : At subj cur len text) {literal : List UInt8} (letters : ∀ letter ∈ literal, tolower letter ≠ 0) :
    sameNoCase subj literal cur = some (startsWith literal text) := by
  induction literal generalizing text cur with
  | nil => simp [Thread.sameNoCase, startsWith]
  | cons letter literal ih =>
      rw [Thread.sameNoCase, at'.read, Option.bind_some]
      cases text with
      | nil =>
          rw [if_neg, startsWith_nil (List.cons_ne_nil letter literal)]
          exact fun same => letters letter (by simp) same.symm
      | cons octet text =>
          rw [startsWith_cons, List.head?_cons, Option.getD_some]
          split_ifs with same
          · have notZero : octet ≠ 0 := by
              rintro rfl
              exact letters letter (by simp) same.symm
            rw [decide_eq_true same, Bool.true_and]
            exact ih (at'.next (.inr notZero)) fun other member => letters other (List.mem_cons_of_mem letter member)
          · rw [decide_eq_false same, Bool.false_and]

theorem At.findClose (at' : At subj cur len text) :
    findClose subj (len - cur) cur = some ((afterBlob text).map fun rest => len - rest.length - 1) := by
  have same := at'.length
  rw [show len - cur = text.length by omega]
  clear same
  induction text generalizing cur with
  | nil => rfl
  | cons octet text ih =>
      rw [List.length_cons, Thread.findClose, at'.read, Option.bind_some, List.head?_cons, Option.getD_some, afterBlob]
      split_ifs
      · rfl
      · have same := at'.length
        rw [List.length_cons] at same
        rw [Option.map_some, show len - text.length - 1 = cur by omega]
      · cases text with
        | nil => rfl
        | cons => exact ih (at'.next (.inl (List.cons_ne_nil _ _)))

theorem At.skipSpaces (at' : At subj cur len text) : skipSpaces subj (len - cur) cur = some (len - (dropSpaces text).length) := by
  have same := at'.length
  rw [show len - cur = text.length by omega]
  induction text generalizing cur with
  | nil =>
      rw [List.length_nil, Nat.add_zero] at same
      rw [same]
      rfl
  | cons octet text ih =>
      rw [List.length_cons, Thread.skipSpaces, at'.read, Option.bind_some, List.head?_cons, Option.getD_some]
      split_ifs with isSpace
      · rw [dropSpaces_self isSpace, List.length_cons, show len - (text.length + 1) = cur by rw [List.length_cons] at same; omega]
      · have equal := not_not.mp isSpace
        have next := at'.next (.inr (by rw [equal]; decide))
        rw [ih next next.length, dropSpaces, dropSpaces, List.dropWhile_cons_of_pos (by simpa using isSpace)]

def blobRest : List UInt8 → Option (List UInt8)
  | [] => none
  | octet :: rest => if octet = ascii '[' then (afterBlob rest).map dropSpaces else none

theorem pastBlob_eq (text : List UInt8) : pastBlob text = (blobRest text).getD text := by
  cases text with
  | nil => rfl
  | cons octet text =>
      rw [pastBlob, blobRest]
      split_ifs
      · rfl
      · rfl

theorem blobRest_some (found : blobRest text = some rest) : ∃ blob ∈ subjBlob, text = blob ++ rest := by
  cases text with
  | nil => cases found
  | cons octet text =>
      rw [blobRest] at found
      split_ifs at found with opening
      obtain ⟨after, isAfter, rfl⟩ := Option.map_eq_some_iff.mp found
      obtain ⟨chars, rfl, noBracket⟩ := afterBlob_some isAfter
      obtain ⟨spaces, same, areSpaces⟩ := dropSpaces_split after
      refine ⟨_, mem_subjBlob.mpr ⟨chars, spaces, rfl, noBracket, areSpaces⟩, ?_⟩
      rw [opening, List.cons_append, List.append_assoc, List.cons_append, ← same]

theorem spaces_last {spaces : List UInt8} (areSpaces : ∀ octet ∈ spaces, octet = space) : spaces.getLast? ≠ some 0 := by
  intro last
  have zero := areSpaces 0 (List.mem_of_getLast? last)
  cases zero

theorem blob_last {blob : List UInt8} (isBlob : blob ∈ subjBlob) : blob.getLast? ≠ some 0 := by
  obtain ⟨chars, spaces, rfl, _, areSpaces⟩ := mem_subjBlob.mp isBlob
  rw [← List.cons_append, List.append_cons, List.getLast?_append]
  cases last : spaces.getLast? with
  | some octet =>
      rw [areSpaces octet (List.mem_of_getLast? last), Option.some_or]
      decide
  | none =>
      rw [Option.none_or, List.getLast?_concat]
      decide

theorem At.skipSubjBlob (at' : At subj cur len text) :
    skipSubjBlob subj cur len = some ((blobRest text).map fun rest => len - rest.length) := by
  rw [Thread.skipSubjBlob, at'.read, Option.bind_some]
  cases text with
  | nil => rfl
  | cons octet text =>
      rw [List.head?_cons, Option.getD_some, blobRest]
      by_cases opening : octet = ascii '['
      · have next := at'.next (.inr (by rw [opening]; decide))
        rw [if_neg (not_not.mpr opening), if_pos opening, next.findClose, Option.bind_some]
        cases found : afterBlob text with
        | none => rfl
        | some rest =>
            obtain ⟨chars, same, _⟩ := afterBlob_some found
            have moved := next.move (same.trans (List.append_cons chars (ascii ']') rest)) (.inr (by rw [List.getLast?_concat]; decide))
            have length := next.length
            rw [same] at length
            simp only [List.length_append, List.length_cons] at length
            simp only [Option.map_some]
            rw [show len - rest.length - 1 + 1 = len - rest.length by omega, moved.skipSpaces]
            rfl
      · rw [if_pos opening, if_neg opening]
        rfl

theorem At.skipPrefix (at' : At subj cur len text) :
    skipPrefix subj cur len = some ((afterPrefix text).map fun rest => len - rest.length) := by
  have length := at'.length
  have enough : ∀ literal, startsWith literal text = true → literal.length ≤ text.length := fun _ => startsWith_length
  have isFwd : Thread.sameNoCase subj (asciiText "fwd") cur = some (startsWith (asciiText "fwd") text) := at'.sameNoCase (by decide +kernel)
  have isFw : Thread.sameNoCase subj (asciiText "fw") cur = some (startsWith (asciiText "fw") text) := at'.sameNoCase (by decide +kernel)
  have isRe : Thread.sameNoCase subj (asciiText "re") cur = some (startsWith (asciiText "re") text) := at'.sameNoCase (by decide +kernel)
  have three : (if 3 ≤ len then Thread.sameNoCase subj (asciiText "fwd") cur else some false) = some (startsWith (asciiText "fwd") text) := by
    split_ifs with long
    · exact isFwd
    · rw [Bool.eq_false_iff.mpr fun starts => long (Nat.le_trans (enough _ starts) (by omega))]
  rw [Thread.skipPrefix, three, Option.bind_some, afterPrefix, isFw, isRe]
  by_cases fwd : startsWith (asciiText "fwd") text = true
  · have within : 3 ≤ text.length := enough _ fwd
    rw [if_pos fwd, if_pos fwd, Option.map_some, List.length_drop, show len - (text.length - 3) = cur + 3 by omega]
  · rw [if_neg fwd, if_neg fwd]
    by_cases two : startsWith (asciiText "fw") text = true ∨ startsWith (asciiText "re") text = true
    · have within : 2 ≤ text.length := two.elim (enough _) (enough _)
      rw [if_pos (Bool.or_eq_true_iff.mpr two), if_pos (by omega), Option.bind_some, Option.map_some, Option.map_some, List.length_drop,
        show len - (text.length - 2) = cur + 2 by omega]
      by_cases fw : startsWith (asciiText "fw") text = true
      · rw [if_pos fw]
      · rw [if_neg fw, if_pos (two.resolve_left fw)]
    · obtain ⟨notFw, notRe⟩ := not_or.mp two
      have neither : (startsWith (asciiText "fw") text || startsWith (asciiText "re") text) = false := by
        rw [Bool.eq_false_iff.mpr notFw, Bool.eq_false_iff.mpr notRe]
        rfl
      rw [neither, Option.bind_some, if_neg notFw, Option.map_some, if_neg notRe]
      simp only [Bool.false_eq_true, if_false, Option.map_none, ite_self]

theorem prefix_last (isPrefix : ReplyPrefix head) : head.getLast? ≠ some 0 := by
  intro last
  have member := List.mem_map_of_mem (f := tolower) (List.mem_of_getLast? last)
  rcases isPrefix with same | same | same
  · rw [same] at member
    revert member
    decide
  · rw [same] at member
    revert member
    decide
  · rw [same] at member
    revert member
    decide

theorem At.skipSubjRefwd (at' : At subj cur len text) :
    skipSubjRefwd subj cur len = some ((afterRefwd text).map fun rest => len - rest.length) := by
  rw [Thread.skipSubjRefwd, at'.skipPrefix, Option.bind_some, afterRefwd]
  cases found : afterPrefix text with
  | none => rfl
  | some rest =>
      obtain ⟨head, isPrefix, split⟩ := afterPrefix_some found
      obtain ⟨spaces, splitSpaces, areSpaces⟩ := dropSpaces_split rest
      have behind := at'.move split (.inr (prefix_last isPrefix))
      have unspaced := behind.move splitSpaces (.inr (spaces_last areSpaces))
      simp only [Option.map_some, Option.bind_some]
      rw [behind.skipSpaces, Option.bind_some, unspaced.skipSubjBlob, Option.bind_some, pastBlob_eq]
      have colon : At subj (((blobRest (dropSpaces rest)).map fun rest => len - rest.length).getD (len - (dropSpaces rest).length)) len
          ((blobRest (dropSpaces rest)).getD (dropSpaces rest)) := by
        cases blob : blobRest (dropSpaces rest) with
        | none => exact unspaced
        | some after =>
            obtain ⟨octets, isBlob, splitBlob⟩ := blobRest_some blob
            exact unspaced.move splitBlob (.inr (blob_last isBlob))
      generalize ((blobRest (dropSpaces rest)).map fun rest => len - rest.length).getD (len - (dropSpaces rest).length) = position at colon ⊢
      generalize (blobRest (dropSpaces rest)).getD (dropSpaces rest) = after at colon ⊢
      rw [colon.read, Option.map_some]
      cases after with
      | nil => rfl
      | cons octet after =>
          rw [List.head?_cons, Option.getD_some, afterColon]
          have length := colon.length
          rw [List.length_cons] at length
          by_cases isColon : octet = ascii ':'
          · rw [if_neg (not_not.mpr isColon), if_pos isColon, Option.map_some, show len - after.length = position + 1 by omega]
          · rw [if_pos isColon, if_neg isColon, Option.map_none]

end Scanners

end Etpan.Thread
