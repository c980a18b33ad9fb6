import Etpan.Thread.SubjectScan

namespace Etpan.Thread

open Etpan.Data Relation Computability SubjectGrammar

/-! The loops of `extract_subject` take the steps of the grammar until none is left. -/

section Prefixes

variable {subj text : List UInt8} {cur len : Nat}

theorem At.skipBlobs (at' : At subj cur len text) {left : Nat} (enough : text.length ≤ left) :
    ∃ (rest : List UInt8) (blobs : List (List UInt8)), skipBlobs subj len left cur = some (len - rest.length) ∧ text = blobs.flatten ++ rest ∧
      (∀ blob ∈ blobs, blob ∈ subjBlob) ∧ blobRest rest = none := by
  have length := at'.length
  induction left generalizing text cur with
  | zero =>
      obtain rfl := List.length_eq_zero_iff.mp (Nat.le_zero.mp enough)
      exact ⟨[], [], by rw [length]; rfl, rfl, fun _ member => absurd member List.not_mem_nil, rfl⟩
  | succ left ih =>
      rw [Thread.skipBlobs]
      by_cases ended : text = []
      · subst ended
        rw [if_neg (by simp [length])]
        exact ⟨[], [], by rw [length]; rfl, rfl, fun _ member => absurd member List.not_mem_nil, rfl⟩
      · have longer := List.length_pos_iff.mpr ended
        rw [if_pos (by omega), at'.skipSubjBlob, Option.bind_some]
        cases found : blobRest text with
        | none =>
            refine ⟨text, [], ?_, rfl, fun _ member => absurd member List.not_mem_nil, found⟩
            exact congrArg some (by omega)
        | some after =>
            obtain ⟨blob, isBlob, rfl⟩ := blobRest_some found
            have moved := at'.move rfl (.inr (blob_last isBlob))
            have shorter : after.length ≤ left := by
              obtain ⟨chars, spaces, rfl, _⟩ := mem_subjBlob.mp isBlob
              simp only [List.length_append, List.length_cons] at enough
              omega
            obtain ⟨rest, blobs, skipped, rfl, areBlobs, last⟩ := ih moved shorter moved.length
            exact ⟨rest, blob :: blobs, skipped, by simp, List.forall_mem_cons.mpr ⟨isBlob, areBlobs⟩, last⟩

theorem blobs_last {blobs : List (List UInt8)} (areBlobs : ∀ blob ∈ blobs, blob ∈ subjBlob) : blobs.flatten.getLast? ≠ some 0 := by
  induction blobs with
  | nil => exact fun impossible => by cases impossible
  | cons blob blobs ih =>
      rw [List.flatten_cons, List.getLast?_append]
      cases last : blobs.flatten.getLast? with
      | none => exact blob_last (areBlobs blob (by simp))
      | some octet =>
          rw [Option.some_or, ← last]
          exact ih fun other member => areBlobs other (List.mem_cons_of_mem blob member)

theorem refwd_concat {refwd : List UInt8} (isRefwd : refwd ∈ subjRefwd) : ∃ front, refwd = front ++ [ascii ':'] := by
  obtain ⟨head, spaces, blob, rfl, _⟩ := mem_subjRefwd.mp isRefwd
  exact ⟨head ++ (spaces ++ blob), by simp⟩

theorem At.skipSubjLeader (at' : At subj cur len text) :
    (∃ rest marks leader, skipSubjLeader subj cur len = some (some (len - rest.length, marks)) ∧ text = leader ++ rest ∧ leader ≠ [] ∧
      leader.getLast? ≠ some 0 ∧ ∀ reply, PrefixStep (text, reply) (rest, reply || marks)) ∨
    skipSubjLeader subj cur len = some none ∧ text.head? ≠ some space ∧ afterRefwd text = none := by
  rw [Thread.skipSubjLeader, at'.read, Option.bind_some]
  by_cases isSpace : text.head? = some space
  · obtain ⟨rest, rfl⟩ : ∃ rest, text = space :: rest := by
      cases text with
      | nil => cases isSpace
      | cons octet rest =>
          cases isSpace
          exact ⟨rest, rfl⟩
    have next := (at'.next (.inr (by decide))).length
    refine .inl ⟨rest, false, [space], ?_, rfl, List.cons_ne_nil _ _, by decide, fun reply => ?_⟩
    · rw [isSpace, Option.getD_some, if_pos rfl, show len - rest.length = cur + 1 by omega]
    · rw [Bool.or_false]
      exact @PrefixStep.wsp [space] _ _ (mem_wsp.mpr rfl)
  · have notSpace : text.head?.getD 0 ≠ space := by
      cases text with
      | nil => decide
      | cons octet rest => exact fun same => isSpace (congrArg some same)
    have length := at'.length
    obtain ⟨behind, blobs, skipped, split, areBlobs, last⟩ := at'.skipBlobs (show text.length ≤ len - cur by omega)
    rw [if_neg notSpace, skipped, Option.bind_some]
    have moved := at'.move split (.inr (blobs_last areBlobs))
    rw [moved.skipSubjRefwd, Option.map_some]
    cases found : afterRefwd behind with
    | some rest =>
        obtain ⟨refwd, isRefwd, rfl⟩ := afterRefwd_some found
        obtain ⟨front, colon⟩ := refwd_concat isRefwd
        refine .inl ⟨rest, true, blobs.flatten ++ refwd, rfl, by rw [split, List.append_assoc], by simp [colon], ?_, fun reply => ?_⟩
        · rw [colon, ← List.append_assoc, List.getLast?_concat]
          decide
        · rw [split, Bool.or_true, ← List.append_assoc]
          exact .refwd (Language.mem_mul.mpr ⟨_, Language.mem_kstar.mpr ⟨blobs, rfl, areBlobs⟩, refwd, isRefwd, rfl⟩)
    | none =>
        refine .inr ⟨rfl, isSpace, ?_⟩
        cases blobs with
        | nil => rwa [split]
        | cons blob blobs =>
            obtain ⟨chars, spaces, rfl, _⟩ := mem_subjBlob.mp (areBlobs _ (List.mem_cons_self ..))
            rw [split]
            exact afterRefwd_head (.inr rfl) _

/-- The text does not end with a space, so that none follows a blob at its end. -/
def EndsInk (text : List UInt8) : Prop := text.getLast? ≠ some space

theorem EndsInk.suffix {before rest : List UInt8} (ink : EndsInk (before ++ rest)) : EndsInk rest := by
  intro last
  refine ink ?_
  rw [List.getLast?_append, last]
  rfl

theorem dropSpaces_ink {rest : List UInt8} (ink : EndsInk rest) (more : rest ≠ []) : dropSpaces rest ≠ [] := by
  intro none'
  have last := List.getLast?_eq_some_getLast more
  have member := List.getLast_mem more
  have isSpace : rest.getLast more = space := by simpa using List.dropWhile_eq_nil_iff.mp none' _ member
  rw [isSpace] at last
  exact ink last

theorem stripNext_blob (ink : EndsInk text) (notSpace : text.head? ≠ some space) (noRefwd : afterRefwd text = none) :
    stripNext text = none ↔ (blobRest text).filter (· ≠ []) = none := by
  cases text with
  | nil => simp [stripNext, blobRest]
  | cons octet text =>
      have isInk : octet ≠ space := fun same => notSpace (congrArg some same)
      rw [stripNext, if_neg isInk, blobRest, noRefwd]
      split_ifs with opening
      · rw [Option.map_eq_none_iff]
        cases found : afterBlob text with
        | none => rfl
        | some after =>
            obtain ⟨chars, rfl, _⟩ := afterBlob_some found
            rw [Option.map_some, Option.filter_some, Option.filter_some]
            by_cases empty : after = []
            · rw [empty]
              rfl
            · have afterInk : EndsInk after := by
                rw [show octet :: (chars ++ ascii ']' :: after) = (octet :: (chars ++ [ascii ']'])) ++ after by simp] at ink
                exact ink.suffix
              rw [if_pos (by simpa using empty), if_pos (by simpa using dropSpaces_ink afterInk empty)]
              simp
      · simp

theorem removePrefixes_succ (rounds start : Nat) (reply : Bool) :
    removePrefixes subj len (rounds + 1) (start, reply) = (skipSubjLeader subj start len).bind fun leader =>
      let start := (leader.map Prod.fst).getD start
      let reply := reply || (leader.map Prod.snd).getD false
      (skipSubjBlob subj start len).bind fun blob =>
        (blob.filter (· ≠ len)).elim
          (if leader.isSome then removePrefixes subj len rounds (start, reply) else some (start, reply))
          fun next => removePrefixes subj len rounds (next, reply) := by
  rw [removePrefixes]
  congr 1
  funext leader
  dsimp only
  congr 1
  funext blob
  cases blob.filter (· ≠ len) <;> rfl

theorem removePrefixes_ends {rounds : Nat} (at' : At subj cur len text) (ink : EndsInk text) (reply : Bool) (enough : text.length < rounds) :
    ∃ rest reply', removePrefixes subj len rounds (cur, reply) = some (len - rest.length, reply') ∧ rest <:+ text ∧
      Ends PrefixStep (text, reply) (rest, reply') := by
  induction rounds generalizing text cur reply with
  | zero => omega
  | succ rounds ih =>
      rw [removePrefixes_succ]
      -- what the second half of a round does, after a leader or none
      have second : ∀ {cur : Nat} {text : List UInt8} {reply again : Bool}, At subj cur len text → EndsInk text →
          (again = true → text.length < rounds) → text.length < rounds + 1 →
          (again = false → text.head? ≠ some space ∧ afterRefwd text = none) →
          ∃ rest reply', ((skipSubjBlob subj cur len).bind fun blob =>
              (blob.filter (· ≠ len)).elim
                (if again then removePrefixes subj len rounds (cur, reply) else some (cur, reply))
                fun next => removePrefixes subj len rounds (next, reply)) =
            some (len - rest.length, reply') ∧ rest <:+ text ∧ Ends PrefixStep (text, reply) (rest, reply') := by
        intro cur text reply again at' ink shorter enough noLeader
        have length := at'.length
        rw [at'.skipSubjBlob, Option.bind_some]
        have filtered : ((blobRest text).map fun rest => len - rest.length).filter (· ≠ len) =
            ((blobRest text).filter (· ≠ [])).map fun rest => len - rest.length := by
          cases found : blobRest text with
          | none => rfl
          | some rest =>
              have within : rest.length ≤ text.length := by
                obtain ⟨blob, _, rfl⟩ := blobRest_some found
                rw [List.length_append]
                omega
              rw [Option.map_some, Option.filter_some, Option.filter_some]
              by_cases empty : rest = []
              · rw [empty]
                simp
              · have longer := List.length_pos_iff.mpr empty
                rw [if_pos (by simp; omega), if_pos (by simpa using empty), Option.map_some]
        rw [filtered]
        cases found : (blobRest text).filter (· ≠ []) with
        | some rest =>
            obtain ⟨isRest, more⟩ := Option.filter_eq_some_iff.mp found
            obtain ⟨blob, isBlob, rfl⟩ := blobRest_some isRest
            have less : rest.length < rounds := by
              obtain ⟨chars, spaces, rfl, _⟩ := mem_subjBlob.mp isBlob
              simp only [List.length_append, List.length_cons] at enough
              omega
            obtain ⟨last, reply', removed, suffix, ends⟩ := ih (at'.move rfl (.inr (blob_last isBlob))) ink.suffix reply less
            exact ⟨last, reply', removed, suffix.trans (List.suffix_append ..), ends.head (.blob isBlob (by simpa using more))⟩
        | none =>
            rw [Option.map_none, Option.elim_none]
            cases again with
            | true =>
                obtain ⟨last, reply', removed, facts⟩ := ih at' ink reply (shorter rfl)
                exact ⟨last, reply', removed, facts⟩
            | false =>
                obtain ⟨notSpace, noRefwd⟩ := noLeader rfl
                refine ⟨text, reply, ?_, List.suffix_rfl, ?_⟩
                · simp only [Bool.false_eq_true, if_false, Option.some.injEq, Prod.mk.injEq, and_true]
                  omega
                · rw [ends_prefixStep]
                  exact (stuck_strip.mpr ((stripNext_blob ink notSpace noRefwd).mpr found)).ends
      rcases at'.skipSubjLeader with ⟨rest, marks, leader, skipped, split, nonempty, stop, step⟩ | ⟨skipped, notSpace, noRefwd⟩
      · have longer := List.length_pos_iff.mpr nonempty
        have lengths := congrArg List.length split
        rw [List.length_append] at lengths
        have suffix : rest <:+ text := ⟨leader, split.symm⟩
        obtain ⟨last, reply', removed, within, ends⟩ := @second _ rest (reply || marks) true (at'.move split (.inr stop)) (split ▸ ink).suffix
          (fun _ => by omega) (by omega) (fun impossible => by cases impossible)
        rw [skipped]
        exact ⟨last, reply', removed, within.trans suffix, ends.head (step reply)⟩
      · obtain ⟨last, reply', removed, facts⟩ := @second _ text reply false at' ink (fun impossible => by cases impossible) enough
          fun _ => ⟨notSpace, noRefwd⟩
        rw [skipped]
        simp only [Option.bind_some, Option.map_none, Option.getD_none, Bool.or_false]
        exact ⟨last, reply', removed, facts⟩

end Prefixes

section Trailers

variable {before text behind : List UInt8}

/-- What is before the text was removed as a header, so that no trailer reaches into it. -/
def Fenced (before : List UInt8) : Prop := before = [] ∨ before.getLast? = some (ascii ':')

theorem set_append (before text behind : List UInt8) (octet : UInt8) :
    (before ++ (text ++ octet :: behind)).set (before.length + text.length) 0 = before ++ (text ++ 0 :: behind) := by
  rw [← List.append_assoc, ← List.length_append, List.set_append_right _ _ (le_refl _), Nat.sub_self, List.set_cons_zero, List.append_assoc]

theorem getElem?_last (nonempty : text ≠ []) : (before ++ (text ++ behind))[before.length + text.length - 1]? = text.getLast? := by
  have longer := List.length_pos_iff.mpr nonempty
  rw [List.getElem?_append_right (by omega), List.getElem?_append_left (by omega), List.getLast?_eq_getElem?]
  congr 1
  omega

theorem startsWith_terminal {literal : String} {octets : List UInt8} (length : octets.length = (asciiText literal).length) :
    startsWith (asciiText literal) octets = true ↔ octets ∈ terminal literal := by
  rw [startsWith, ← length, List.take_length, decide_eq_true_eq]
  rfl

theorem trailed_fwd (fenced : Fenced before) {head last : List UInt8} (split : before ++ text = head ++ last) (five : last.length = 5) :
    startsWith (asciiText "(fwd)") last = true ↔ ∃ rest, text = rest ++ last ∧ last ∈ terminal "(fwd)" := by
  rw [@startsWith_terminal "(fwd)" _ five]
  constructor
  · intro isFwd
    by_cases within : last.length ≤ text.length
    · obtain ⟨rest, same⟩ : last <:+ text := List.suffix_of_suffix_length_le ⟨head, split.symm⟩ ⟨before, rfl⟩ within
      exact ⟨rest, same.symm, isFwd⟩
    · -- a colon would be part of the trailer
      exfalso
      obtain ⟨more, rfl⟩ : text <:+ last := List.suffix_of_suffix_length_le ⟨before, rfl⟩ ⟨head, split.symm⟩ (by omega)
      rw [← List.append_assoc] at split
      have outer := List.append_cancel_right split
      have some' : more ≠ [] := by
        rintro rfl
        exact within (le_refl _)
      have colon : ascii ':' ∈ more := by
        rcases fenced with rfl | isColon
        · exact absurd (List.append_eq_nil_iff.mp outer.symm).2 some'
        · rw [outer, List.getLast?_append_of_ne_nil _ some'] at isColon
          exact List.mem_of_getLast? isColon
      have lowered := List.mem_map_of_mem (f := tolower) (List.mem_append_left text colon)
      rw [show (more ++ text).map tolower = _ from isFwd] at lowered
      revert lowered
      decide
  · rintro ⟨_, _, isFwd⟩
    exact isFwd

theorem removeTrailers_ends (fenced : Fenced before) {left : Nat} (reply : Bool) (enough : before.length + text.length ≤ left) :
    ∃ rest behind' reply', removeTrailers left (before ++ (text ++ 0 :: behind), before.length + text.length, reply) =
        some (before ++ (rest ++ 0 :: behind'), before.length + rest.length, reply') ∧ rest <+: text ∧
      Ends TrailerStep (text, reply) (rest, reply') := by
  induction left generalizing text behind reply with
  | zero =>
      obtain rfl := List.length_eq_zero_iff.mp (show text.length = 0 by omega)
      refine ⟨[], behind, reply, rfl, List.prefix_rfl, Stuck.ends (stuck_trailer.mpr ?_)⟩
      rintro ⟨rest, trailer, isFwd | isSpace, same⟩
      · rw [(List.append_eq_nil_iff.mp same.symm).2] at isFwd
        cases terminal_length isFwd
      · rw [mem_wsp.mp isSpace] at same
        cases (List.append_eq_nil_iff.mp same.symm).2
  | succ left ih =>
      rw [removeTrailers]
      -- the loop stops here
      have stays : ∀ (free : ¬ Trailed text), ∃ rest behind' reply',
          some (before ++ (text ++ 0 :: behind), before.length + text.length, reply) =
            some (before ++ (rest ++ 0 :: behind'), before.length + rest.length, reply') ∧ rest <+: text ∧
          Ends TrailerStep (text, reply) (rest, reply') := fun free =>
        ⟨text, behind, reply, rfl, List.prefix_rfl, Stuck.ends (stuck_trailer.mpr free)⟩
      -- a trailer of the text goes
      have goes : ∀ {rest trailer : List UInt8} {reply' : Bool}, text = rest ++ trailer → trailer ≠ [] →
          TrailerStep (text, reply) (rest, reply') → ∃ last behind' reply'',
          removeTrailers left ((before ++ (text ++ 0 :: behind)).set (before.length + text.length - trailer.length) 0,
              before.length + text.length - trailer.length, reply') =
            some (before ++ (last ++ 0 :: behind'), before.length + last.length, reply'') ∧ last <+: text ∧
          Ends TrailerStep (text, reply) (last, reply'') := by
        intro rest trailer reply' split nonempty taken
        obtain ⟨octet, trailer', rfl⟩ := List.exists_cons_of_ne_nil nonempty
        subst split
        have position : before.length + (rest ++ octet :: trailer').length - (octet :: trailer').length = before.length + rest.length := by
          rw [List.length_append]
          omega
        have fewer : before.length + rest.length ≤ left := by
          simp only [List.length_append, List.length_cons] at enough
          omega
        obtain ⟨last, behind', reply'', removed, within, ends⟩ := @ih rest (trailer' ++ 0 :: behind) reply' fewer
        rw [position, List.append_assoc, List.cons_append, set_append]
        exact ⟨last, behind', reply'', removed, within.trans (List.prefix_append ..), ends.head taken⟩
      by_cases empty : before.length + text.length = 0
      · rw [if_pos empty]
        have noText : text = [] := List.length_eq_zero_iff.mp (by omega)
        refine stays ?_
        rintro ⟨rest, trailer, isFwd | isSpace, same⟩
        · rw [noText] at same
          rw [(List.append_eq_nil_iff.mp same.symm).2] at isFwd
          cases terminal_length isFwd
        · rw [noText, mem_wsp.mp isSpace] at same
          cases (List.append_eq_nil_iff.mp same.symm).2
      · rw [if_neg empty]
        have nonempty : before ++ text ≠ [] := by
          rw [← List.length_pos_iff, List.length_append]
          omega
        have lastOctet := @getElem?_last [] (before ++ text) (0 :: behind) nonempty
        obtain ⟨octet, isLast⟩ : ∃ octet, (before ++ text).getLast? = some octet := ⟨_, List.getLast?_eq_some_getLast nonempty⟩
        rw [List.nil_append, List.append_assoc, List.length_nil, Nat.zero_add, List.length_append] at lastOctet
        rw [lastOctet, isLast, Option.bind_some]
        by_cases isSpace : octet = space
        · rw [if_pos isSpace]
          -- the space is one of the text, as a header ends with a colon
          have textLast : text.getLast? = some space := by
            rw [isSpace, List.getLast?_append] at isLast
            cases last : text.getLast? with
            | some other =>
                rw [last] at isLast
                exact isLast
            | none =>
                rw [last, Option.none_or] at isLast
                rcases fenced with rfl | isColon
                · cases isLast
                · rw [isColon] at isLast
                  cases isLast
          have split : text = text.dropLast ++ [space] := (List.dropLast_append_getLast? space (by rw [textLast]; rfl)).symm
          refine goes split (List.cons_ne_nil _ _) ?_
          have taken := @TrailerStep.wsp text.dropLast [space] reply (mem_wsp.mpr rfl)
          rwa [← split] at taken
        · rw [if_neg isSpace]
          have noSpace : text.getLast? ≠ some space := by
            intro last
            rw [List.getLast?_append, last] at isLast
            exact isSpace (Option.some.inj isLast).symm
          have noWsp : ∀ rest trailer, trailer ∈ wsp → text ≠ rest ++ trailer := by
            intro rest trailer isWsp same
            rw [same, mem_wsp.mp isWsp, List.getLast?_concat] at noSpace
            exact noSpace rfl
          by_cases short : before.length + text.length < 5
          · rw [if_pos short]
            refine stays ?_
            rintro ⟨rest, trailer, isFwd | isWsp, same⟩
            · have five : trailer.length = 5 := terminal_length isFwd
              rw [same, List.length_append] at short
              omega
            · exact noWsp rest trailer isWsp same
          · rw [if_neg short]
            obtain ⟨head, last, split, five⟩ : ∃ head last, before ++ text = head ++ last ∧ last.length = 5 :=
              ⟨(before ++ text).take (before.length + text.length - 5), (before ++ text).drop (before.length + text.length - 5),
                (List.take_append_drop ..).symm, by rw [List.length_drop, List.length_append]; omega⟩
            have lengths := congrArg List.length split
            rw [List.length_append, List.length_append] at lengths
            have at' : At (before ++ (text ++ 0 :: behind)) (before.length + text.length - 5) (before.length + text.length) last :=
              ⟨head, 0 :: behind, by rw [← List.append_assoc, split, List.append_assoc], by omega, by omega, .inl rfl⟩
            rw [at'.sameNoCase (by decide +kernel), Option.bind_some]
            have isTrailer := trailed_fwd fenced split five
            by_cases starts : startsWith (asciiText "(fwd)") last = true
            · rw [if_pos starts]
              obtain ⟨rest, same, isFwd⟩ := isTrailer.mp starts
              rw [← five]
              refine goes same (fun none' => by rw [none'] at five; cases five) ?_
              rw [same]
              exact .fwd isFwd
            · rw [if_neg starts]
              refine stays ?_
              rintro ⟨rest, trailer, isFwd | isWsp, same⟩
              · refine starts (isTrailer.mpr ?_)
                rw [same, ← List.append_assoc] at split
                obtain ⟨_, rfl⟩ := List.append_inj' split ((terminal_length isFwd).trans five.symm)
                exact ⟨rest, same, isFwd⟩
              · exact noWsp rest trailer isWsp same

end Trailers

end Etpan.Thread
