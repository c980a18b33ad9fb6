import Etpan.Thread.SubjectLoops
import Etpan.Thread.SubjectUpper

namespace Etpan.Thread

open Etpan.Data Relation Computability SubjectGrammar

/-! When `extract_subject` does what its comments say. -/

def afterHeader (base : List UInt8) : List UInt8 := if startsWith (asciiText "[fwd:") base then base.drop 5 else base

section Wrappers

variable {text : List UInt8}

theorem wrapped_iff (starts : startsWith (asciiText "[fwd:") text = true) : Wrapped text ↔ text.getLast? = some (ascii ']') := by
  obtain ⟨header, split, lowered⟩ := startsWith_split starts
  have isHeader : header ∈ subjFwdHdr := lowered
  constructor
  · rintro ⟨_, rest, trailer, _, isTrailer, same⟩
    rw [same, mem_closing.mp isTrailer, List.getLast?_concat]
  · intro last
    obtain ⟨before, colon⟩ := header_concat isHeader
    have more : text.drop (asciiText "[fwd:").length ≠ [] := by
      intro none'
      rw [split, none', List.append_nil, colon, List.getLast?_concat] at last
      cases last
    rw [split, List.getLast?_append_of_ne_nil _ more] at last
    refine ⟨header, (text.drop (asciiText "[fwd:").length).dropLast, [ascii ']'], isHeader, mem_closing.mpr rfl, ?_⟩
    rw [List.append_assoc, List.dropLast_append_getLast? (ascii ']') (by rw [last]; rfl), ← split]

theorem not_wrapped (starts : ¬ startsWith (asciiText "[fwd:") text = true) : ¬ Wrapped text := by
  rintro ⟨header, rest, trailer, isHeader, _, rfl⟩
  rw [List.append_assoc] at starts
  exact starts (startsWith_mem (show header.map tolower = (asciiText "[fwd:").map tolower from isHeader) _)

theorem trimmed_ink {reply : Bool} (stuck : Stuck TrailerStep (text, reply)) : EndsInk text := by
  intro last
  refine stuck_trailer.mp stuck ⟨text.dropLast, [space], .inr (mem_wsp.mpr rfl), ?_⟩
  exact (List.dropLast_append_getLast? space (by rw [last]; rfl)).symm

end Wrappers

theorem header_read {subj text : List UInt8} {cur len : Nat} (at' : At subj cur len text) :
    (if 5 ≤ len then sameNoCase subj (asciiText "[fwd:") cur else some false) = some (startsWith (asciiText "[fwd:") text) := by
  split_ifs with long
  · exact at'.sameNoCase (by decide +kernel)
  · have length := at'.length
    have none' : startsWith (asciiText "[fwd:") text = false :=
      Bool.eq_false_iff.mpr fun starts => long (Nat.le_trans (startsWith_length starts) (by omega))
    rw [none']

theorem removeAll_base {rounds : Nat} {before text behind : List UInt8} (fenced : Fenced before) (reply : Bool) (enough : text.length < rounds) :
    ∃ base reply' front back, BaseSubject (text, reply) (base, reply') ∧ base <:+: text ∧
      removeAll rounds (before ++ (text ++ 0 :: behind), before.length + text.length, before.length, reply) =
        some (front ++ (afterHeader base ++ 0 :: back), front.length, reply') := by
  induction rounds generalizing before text behind reply with
  | zero => omega
  | succ rounds ih =>
      obtain ⟨trimmed, behind', marked, removed, isPrefix, trimming⟩ := @removeTrailers_ends before text behind fenced
        (before.length + text.length) reply (le_refl _)
      have at' : At (before ++ (trimmed ++ 0 :: behind')) before.length (before.length + trimmed.length) trimmed :=
        ⟨before, 0 :: behind', rfl, rfl, rfl, .inl rfl⟩
      obtain ⟨stripped, marked', stripRun, isSuffix, stripping⟩ := removePrefixes_ends at' (trimmed_ink trimming.stuck) marked
        (show trimmed.length < before.length + trimmed.length + 1 by omega)
      obtain ⟨leader, rfl⟩ := isSuffix
      have infix' : stripped <:+: text := (List.suffix_append leader stripped).isInfix.trans isPrefix.isInfix
      have moved : At (before ++ (leader ++ stripped ++ 0 :: behind')) (before.length + (leader ++ stripped).length - stripped.length)
          (before.length + (leader ++ stripped).length) stripped :=
        ⟨before ++ leader, 0 :: behind', by simp, by simp; omega, by simp; omega, .inl rfl⟩
      have whole : before ++ (leader ++ stripped ++ 0 :: behind') = (before ++ leader) ++ (stripped ++ 0 :: behind') := by
        simp only [List.append_assoc]
      have position : before.length + (leader ++ stripped).length - stripped.length = (before ++ leader).length := by
        simp only [List.length_append]
        omega
      rw [removeAll, removed, Option.bind_some]
      simp only [stripRun, Option.bind_some, header_read moved]
      by_cases starts : startsWith (asciiText "[fwd:") stripped = true
      · rw [if_pos starts]
        obtain ⟨header, split, lowered⟩ := startsWith_split starts
        have isHeader : header ∈ subjFwdHdr := lowered
        have five : header.length = 5 := terminal_length isHeader
        generalize stripped.drop (asciiText "[fwd:").length = inner at split
        subst split
        have headerPlace : (before ++ leader ++ header).length = (before ++ leader).length + 5 := by simp only [List.length_append, five]
        have nonempty : header ++ inner ≠ [] := by
          intro none'
          rw [(List.append_eq_nil_iff.mp none').1] at five
          cases five
        obtain ⟨octet, isLast⟩ : ∃ octet, (header ++ inner).getLast? = some octet := ⟨_, List.getLast?_eq_some_getLast nonempty⟩
        rw [getElem?_last (List.append_ne_nil_of_right_ne_nil leader nonempty), List.getLast?_append_of_ne_nil _ nonempty, isLast, Option.bind_some]
        by_cases closing : octet = ascii ']'
        · rw [if_pos closing]
          -- the header and the trailer go, and what is between them is next
          have wrapped := (wrapped_iff starts).mpr (isLast.trans (congrArg some closing))
          obtain ⟨header', rest, trailer, isHeader', isTrailer, same⟩ := wrapped
          rw [mem_closing.mp isTrailer, List.append_assoc] at same
          obtain ⟨rfl, rfl⟩ := List.append_inj same (five.trans (terminal_length isHeader').symm)
          obtain ⟨colonBefore, colon⟩ := header_concat isHeader
          have fenced' : Fenced (before ++ leader ++ header) := by
            refine .inr ?_
            rw [colon, ← List.append_assoc, List.getLast?_concat]
          have closingPlace : before.length + (leader ++ (header ++ (rest ++ [ascii ']']))).length - 1 =
              (before ++ leader ++ header).length + rest.length := by
            simp only [List.length_append, List.length_singleton]
            omega
          have array : before ++ (leader ++ (header ++ (rest ++ [ascii ']'])) ++ 0 :: behind') =
              (before ++ leader ++ header) ++ (rest ++ ascii ']' :: 0 :: behind') := by simp
          have shorter : rest.length < rounds := by
            have within := infix'.length_le
            simp only [List.length_append] at within
            omega
          obtain ⟨base, reply', front, back, isBase, inRest, run⟩ := @ih (before ++ leader ++ header) rest (0 :: behind') fenced' true shorter
          have unwrapping : WrapperStep (header ++ (rest ++ [ascii ']']), marked') (rest, true) := by
            rw [← List.append_assoc]
            exact .fwd isHeader (mem_closing.mpr rfl)
          have restInfix : rest <:+: text := List.IsInfix.trans ⟨header, [ascii ']'], by simp⟩ infix'
          refine ⟨base, reply', front, back, .wrapped trimming stripping unwrapping isBase, inRest.trans restInfix, ?_⟩
          rw [closingPlace, array, set_append, position, ← headerPlace]
          exact run
        · rw [if_neg closing]
          have unwrapped : Stuck WrapperStep (header ++ inner, marked') := by
            rw [stuck_wrapper, wrapped_iff starts, isLast]
            exact fun same => closing (Option.some.inj same)
          refine ⟨header ++ inner, marked', before ++ leader ++ header, behind', .base trimming stripping unwrapped, infix', ?_⟩
          have rest : (header ++ inner).drop 5 = inner := five ▸ List.drop_left
          rw [afterHeader, if_pos starts, position, rest, whole, List.append_assoc header, ← List.append_assoc (before ++ leader), ← headerPlace]
      · rw [if_neg starts]
        refine ⟨stripped, marked', before ++ leader, behind', .base trimming stripping (stuck_wrapper.mpr (not_wrapped starts)), infix', ?_⟩
        rw [afterHeader, if_neg starts, position, whole]

/-! ### The octets that are lost in step (1) -/

section Lost

variable {text : List UInt8}

/-- A tab or continuation is at the end, if anywhere. -/
def Plain (text : List UInt8) : Prop := ∀ octet ∈ text.dropLast, isContinuation octet = false

theorem writeSpaces_length (cont : Bool) (text : List UInt8) :
    (writeSpaces cont text).length ≤ text.length ∧ (cont = true → text ≠ [] → (writeSpaces cont text).length < text.length) := by
  induction text generalizing cont with
  | nil => exact ⟨le_refl 0, fun _ some' => absurd rfl some'⟩
  | cons octet text ih =>
      have skipped := (ih true).1
      have kept := (ih false).1
      rw [writeSpaces]
      cases cont with
      | true =>
          simp only [if_true, List.length_cons]
          split_ifs
          · exact ⟨by omega, fun _ _ => by omega⟩
          · exact ⟨by omega, fun _ _ => by omega⟩
      | false =>
          refine ⟨?_, fun impossible => by cases impossible⟩
          simp only [Bool.false_eq_true, if_false]
          split_ifs
          · simp only [List.length_cons]
            omega
          · simp only [List.length_cons]
            omega

theorem writeSpaces_plain (text : List UInt8) :
    (Plain text → writeSpaces false text = text.map blankContinuation) ∧ (¬ Plain text → (writeSpaces false text).length < text.length) := by
  induction text with
  | nil => exact ⟨fun _ => rfl, fun notPlain => absurd (fun _ member => absurd member List.not_mem_nil) notPlain⟩
  | cons octet text ih =>
      cases text with
      | nil =>
          refine ⟨fun _ => ?_, fun notPlain => absurd (fun _ member => absurd member List.not_mem_nil) notPlain⟩
          simp only [writeSpaces, Bool.false_eq_true, if_false, List.map_cons, List.map_nil, blankContinuation]
          split_ifs <;> rfl
      | cons second text =>
          have plain : Plain (octet :: second :: text) ↔ isContinuation octet = false ∧ Plain (second :: text) := by
            rw [Plain, List.dropLast_cons_cons, List.forall_mem_cons]
            rfl
          have skips := (writeSpaces_length true (second :: text)).2 rfl (List.cons_ne_nil _ _)
          rw [plain, writeSpaces]
          by_cases blank : isContinuation octet = true
          · rw [if_pos blank, if_neg Bool.false_ne_true, blank]
            exact ⟨fun both => absurd both.1 (by decide), fun _ => Nat.succ_lt_succ skips⟩
          · have notBlank : isContinuation octet = false := by simpa using blank
            rw [if_neg blank, if_neg Bool.false_ne_true]
            refine ⟨fun both => ?_, fun notPlain => Nat.succ_lt_succ (ih.2 fun rest => notPlain ⟨notBlank, rest⟩)⟩
            have kept : blankContinuation octet = octet := if_neg blank
            rw [ih.1 both.2, List.map_cons, List.map_cons, List.map_cons, kept]

end Lost

section Kinds

variable {text : List UInt8}

theorem extractFrom_text {subj front rest behind : List UInt8} {len : Nat} {reply : Bool}
    (run : removeAll (len + 1) (subj, len, 0, false) = some (front ++ (rest ++ 0 :: behind), front.length, reply)) (free : NulFree rest) :
    extractFrom subj len = some (rest.map toupper, reply) := by
  have ends : cString (rest ++ 0 :: behind) = rest := by
    rw [cString, List.takeWhile_append_of_pos (fun octet member => by simpa using free octet member), List.takeWhile_cons_of_neg (by decide), List.append_nil]
  rw [extractFrom, run, Option.map_some]
  simp only
  rw [List.drop_left, ends]

theorem nulFree_subset {whole part : List UInt8} (free : NulFree whole) (sub : part ⊆ whole) : NulFree part :=
  fun octet member => free octet (sub member)

theorem afterHeader_subset (base : List UInt8) : afterHeader base ⊆ base := by
  rw [afterHeader]
  split_ifs
  · exact List.drop_subset 5 base
  · exact List.Subset.refl base

theorem extractText_plain (plain : Plain text) (free : NulFree (text.map blankContinuation)) :
    ∃ base reply, BaseSubject (text.map blankContinuation, false) (base, reply) ∧
      extractText text = some ((afterHeader base).map toupper, reply) ∧ extractWithin text = some ((afterHeader base).map toupper, reply) := by
  have written := (writeSpaces_plain text).1 plain
  obtain ⟨base, reply, front, back, isBase, inText, run⟩ :=
    @removeAll_base (text.length + 1) [] (text.map blankContinuation) [] (.inl rfl) false (by simp)
  rw [List.length_nil, List.length_map, Nat.zero_add, List.nil_append] at run
  have result := extractFrom_text run (nulFree_subset (nulFree_subset free inText.subset) (afterHeader_subset base))
  refine ⟨base, reply, isBase, ?_, ?_⟩
  · rw [extractText, convertSpaces, written, List.length_map, List.drop_of_length_le (by simp)]
    exact result
  · rw [extractWithin, written]
    exact result

theorem prefixStep_last {state next : List UInt8 × Bool} (taken : PrefixStep state next) (last : state.1.getLast? = some 0) :
    next.1.getLast? = some 0 := by
  have kept : ∀ {leader rest : List UInt8}, (leader ++ rest).getLast? = some 0 → (rest ≠ [] ∨ leader.getLast? ≠ some 0) → rest.getLast? = some 0 := by
    intro leader rest last skipped
    cases rest with
    | nil =>
        rw [List.append_nil] at last
        exact absurd last (skipped.resolve_left (not_not.mpr rfl))
    | cons octet rest =>
        rwa [List.getLast?_append_of_ne_nil _ (List.cons_ne_nil octet rest)] at last
  cases taken with
  | refwd isLeader =>
      obtain ⟨blobs, _, refwd, isRefwd, rfl⟩ := Language.mem_mul.mp isLeader
      obtain ⟨before, rfl⟩ := refwd_concat isRefwd
      refine kept last (.inr ?_)
      rw [← List.append_assoc, List.getLast?_concat]
      decide
  | wsp isSpace =>
      refine kept last (.inr ?_)
      rw [mem_wsp.mp isSpace]
      decide
  | blob _ more => exact kept last (.inl more)

theorem startsWith_zero (stripped : List UInt8) :
    startsWith (asciiText "[fwd:") (stripped ++ [0]) = startsWith (asciiText "[fwd:") stripped :=
  startsWith_stop ⟨rfl, by decide⟩

/-- With one octet lost the zero octet counts as the last one of the text, and only what is in front goes. -/
theorem removeAll_lost (written behind : List UInt8) :
    ∃ stripped reply front, Ends PrefixStep (written ++ [0], false) (stripped ++ [0], reply) ∧ stripped ⊆ written ∧
      removeAll (written.length + 2) (written ++ 0 :: behind, written.length + 1, 0, false) =
        some (front ++ (afterHeader stripped ++ 0 :: behind), front.length, reply) := by
  have at' : At (written ++ 0 :: behind) 0 (written.length + 1) (written ++ [0]) :=
    ⟨[], behind, by simp, rfl, by simp, .inr List.getLast?_concat⟩
  have lastOctet : (written ++ 0 :: behind)[written.length + 1 - 1]? = some 0 := by
    rw [Nat.add_sub_cancel, List.getElem?_append_right (le_refl _), Nat.sub_self]
    rfl
  have trailers : removeTrailers (written.length + 1) (written ++ 0 :: behind, written.length + 1, false) =
      some (written ++ 0 :: behind, written.length + 1, false) := by
    rw [removeTrailers, if_neg (Nat.succ_ne_zero _), lastOctet, Option.bind_some, if_neg (by decide)]
    split_ifs with short
    · rfl
    · obtain ⟨head, last, split, five⟩ : ∃ head last, written ++ [0] = head ++ last ∧ last.length = 5 :=
        ⟨(written ++ [0]).take (written.length - 4), (written ++ [0]).drop (written.length - 4), (List.take_append_drop ..).symm, by
          rw [List.length_drop, List.length_append, List.length_singleton]
          omega⟩
      have some' : last ≠ [] := fun none' => by rw [none'] at five; cases five
      have moved := at'.move split (.inl some')
      have isZero := congrArg List.getLast? split
      rw [List.getLast?_concat, List.getLast?_append_of_ne_nil _ some'] at isZero
      have noFwd : startsWith (asciiText "(fwd)") last = false := by
        rw [Bool.eq_false_iff, ne_eq, @startsWith_terminal "(fwd)" _ five]
        intro isFwd
        obtain ⟨before, rfl⟩ := fwd_concat isFwd
        rw [List.getLast?_concat] at isZero
        cases isZero
      rw [five] at moved
      rw [moved.sameNoCase (by decide +kernel), noFwd]
      rfl
  have ink : EndsInk (written ++ [0]) := by
    rw [EndsInk, List.getLast?_concat]
    decide
  obtain ⟨rest, reply, stripRun, isSuffix, ends⟩ := removePrefixes_ends at' ink false
    (show (written ++ [0]).length < written.length + 1 + 1 by simp)
  have restLast : rest.getLast? = some 0 := by
    have path := ends.path
    clear stripRun isSuffix ends
    generalize last : (rest, reply) = final at path
    have kept : final.1.getLast? = some 0 := by
      clear last
      induction path with
      | refl => exact List.getLast?_concat
      | tail _ taken ih => exact prefixStep_last taken ih
    rw [← last] at kept
    exact kept
  obtain ⟨stripped, rfl⟩ : ∃ stripped, rest = stripped ++ [0] :=
    ⟨rest.dropLast, (List.dropLast_append_getLast? 0 (by rw [restLast]; rfl)).symm⟩
  obtain ⟨front, split⟩ := isSuffix
  have moved := at'.move split.symm (.inl (by simp))
  rw [← List.append_assoc] at split
  have frontSplit : written = front ++ stripped := (List.append_cancel_right split).symm
  have inside : stripped ⊆ written := by
    rw [frontSplit]
    exact List.subset_append_right front stripped
  have position : written.length + 1 - (stripped ++ [0]).length = front.length := by
    rw [frontSplit]
    simp only [List.length_append, List.length_singleton]
    omega
  rw [removeAll, trailers, Option.bind_some]
  simp only [stripRun, Option.bind_some, header_read moved, startsWith_zero]
  by_cases starts : startsWith (asciiText "[fwd:") stripped = true
  · have five : 5 ≤ stripped.length := startsWith_length starts
    refine ⟨stripped, reply, front ++ stripped.take 5, ends, inside, ?_⟩
    rw [if_pos starts, lastOctet, Option.bind_some, if_neg (by decide), position, afterHeader, if_pos starts, frontSplit]
    have joined : stripped.take 5 ++ (stripped.drop 5 ++ 0 :: behind) = stripped ++ 0 :: behind := by
      rw [← List.append_assoc, List.take_append_drop]
    simp only [List.append_assoc, List.length_append, List.length_take, Nat.min_eq_left five, joined]
  · refine ⟨stripped, reply, front, ends, inside, ?_⟩
    rw [if_neg starts, position, afterHeader, if_neg starts, frontSplit, List.append_assoc]

theorem extractText_lost (lost : (writeSpaces false text).length + 1 = text.length) (free : NulFree (writeSpaces false text)) :
    ∃ stripped reply, Ends PrefixStep (writeSpaces false text ++ [0], false) (stripped ++ [0], reply) ∧
      extractText text = some ((afterHeader stripped).map toupper, reply) ∧
        extractWithin text = some ((afterHeader stripped).map toupper, reply) := by
  obtain ⟨stripped, reply, front, ends, inside, run⟩ :=
    removeAll_lost (writeSpaces false text) ((text ++ [0]).drop ((writeSpaces false text).length + 1))
  obtain ⟨stripped', reply', front', ends', inside', run'⟩ := removeAll_lost (writeSpaces false text) []
  have same := ends_prefix_unique ends' ends
  rw [Prod.mk.injEq] at same
  obtain ⟨rfl, rfl⟩ : stripped' = stripped ∧ reply' = reply := ⟨List.append_cancel_right same.1, same.2⟩
  have restFree := nulFree_subset (nulFree_subset free inside) (afterHeader_subset stripped')
  refine ⟨stripped', reply', ends, ?_, ?_⟩
  · rw [extractText, convertSpaces, ← lost]
    exact extractFrom_text run restFree
  · rw [extractWithin, ← lost]
    exact extractFrom_text run' restFree

theorem extractWithin_short (lost : (writeSpaces false text).length + 1 < text.length) : extractWithin text = none := by
  obtain ⟨length, same⟩ : ∃ length, text.length = length + 1 := ⟨text.length - 1, by omega⟩
  have outside : (writeSpaces false text ++ [0])[length + 1 - 1]? = none := by
    rw [List.getElem?_eq_none_iff, List.length_append, List.length_singleton]
    omega
  rw [extractWithin, extractFrom, same, removeAll, removeTrailers, if_neg (Nat.succ_ne_zero _), outside]
  rfl

theorem isContinuation_toupper : ∀ octet : UInt8, isContinuation (toupper octet) = isContinuation octet := forall_octet (by decide +kernel)

theorem toupper_zero : ∀ octet : UInt8, toupper octet = 0 → octet = 0 := forall_octet (by decide +kernel)

theorem squeeze_subset (text : List UInt8) : squeeze text ⊆ text := by
  induction text with
  | nil => exact List.Subset.refl []
  | cons first text ih =>
      rw [squeeze]
      split_ifs
      · exact List.subset_cons_of_subset first ih
      · exact List.cons_subset_cons first ih

theorem trailerSteps_subset {state last : List UInt8 × Bool} (path : ReflTransGen TrailerStep state last) : last.1 ⊆ state.1 := by
  induction path with
  | refl => exact List.Subset.refl _
  | tail _ taken ih =>
      obtain ⟨trailer, same, _⟩ := trailerStep_cases taken
      rw [same] at ih
      exact fun octet member => ih (List.mem_append_left trailer member)

theorem baseSubject_subset {start base : List UInt8 × Bool} (found : BaseSubject start base) : base.1 ⊆ start.1 := by
  induction found with
  | base trimming stripping _ =>
      exact fun octet member => trailerSteps_subset trimming.path ((prefixSteps_suffix stripping.path).subset member)
  | wrapped trimming stripping unwrapping _ ih =>
      obtain ⟨header, trailer, _, _, same, _⟩ := wrapperStep_cases unwrapping
      intro octet member
      refine trailerSteps_subset trimming.path ((prefixSteps_suffix stripping.path).subset ?_)
      rw [same]
      exact List.mem_append_left trailer (List.mem_append_right header (ih member))

theorem collapsed_octets {octet : UInt8} (free : NulFree text) (member : octet ∈ collapsedSpaces text) :
    octet ≠ 0 ∧ isContinuation octet = false := by
  obtain ⟨other, inText, rfl⟩ := List.mem_map.mp (squeeze_subset _ member)
  rw [blankContinuation]
  split_ifs with blank
  · decide
  · exact ⟨free other inText, by simpa using blank⟩

/-- Applied to a base subject in capitals, the function gives it back unless it begins like a wrapper. -/
theorem extractText_again {base : List UInt8} {reply : Bool} (free : NulFree text)
    (found : BaseSubject (collapsedSpaces text, false) (base, reply)) :
    extractText (base.map toupper) = some (base.map toupper, false) ↔ startsWith (asciiText "[fwd:") base = false := by
  have octets : ∀ octet ∈ base.map toupper, octet ≠ 0 ∧ isContinuation octet = false := by
    intro octet member
    obtain ⟨other, inBase, rfl⟩ := List.mem_map.mp member
    obtain ⟨notZero, notBlank⟩ := collapsed_octets free (baseSubject_subset found inBase)
    exact ⟨fun zero => notZero (toupper_zero other zero), by rwa [isContinuation_toupper]⟩
  have unchanged : (base.map toupper).map blankContinuation = base.map toupper := by
    conv_rhs => rw [← List.map_id (base.map toupper)]
    refine List.map_congr_left fun octet member => ?_
    rw [blankContinuation, (octets octet member).2]
    rfl
  obtain ⟨base', reply', found', result, _⟩ := @extractText_plain (base.map toupper)
    (fun octet member => (octets octet (List.mem_of_mem_dropLast member)).2) (by
      rw [unchanged]
      exact fun octet member => (octets octet member).1)
  rw [unchanged] at found'
  have same := baseSubject_unique found' (baseSubject_upper found)
  rw [Prod.mk.injEq] at same
  obtain ⟨rfl, rfl⟩ := same
  have upper : startsWith (asciiText "[fwd:") (base.map toupper) = startsWith (asciiText "[fwd:") base := by
    rw [startsWith, startsWith, ← List.map_take, List.map_map, show tolower ∘ toupper = tolower from funext tolower_toupper]
  have twice : (base.map toupper).map toupper = base.map toupper := by
    rw [List.map_map, show toupper ∘ toupper = toupper from funext toupper_toupper]
  rw [result, afterHeader, upper]
  cases starts : startsWith (asciiText "[fwd:") base with
  | false =>
      rw [if_neg Bool.false_ne_true, twice]
      exact ⟨fun _ => rfl, fun _ => rfl⟩
  | true =>
      have five : 5 ≤ base.length := startsWith_length starts
      rw [if_pos rfl]
      constructor
      · intro impossible
        have lengths := congrArg (fun found : Option (List UInt8 × Bool) => (found.map fun found => found.1.length).getD 0) impossible
        simp only [Option.map_some, Option.getD_some, List.length_map, List.length_drop] at lengths
        omega
      · intro impossible
        cases impossible

end Kinds

/-- Step (1) loses nothing, and the base subject has no two spaces in a row and no header of a wrapper. -/
structure Regular (text : List UInt8) : Prop where
  plain : Plain text
  base : ∀ base reply, BaseSubject (text.map blankContinuation, false) (base, reply) →
    startsWith (asciiText "[fwd:") base = false ∧ ¬ [space, space] <:+: base

/-- Step (1) loses one octet, and without it and the trailers the base subject is the same. -/
structure Spared (text : List UInt8) : Prop where
  lost : (writeSpaces false text).length + 1 = text.length
  base : ∃ base reply stripped, BaseSubject (collapsedSpaces text, false) (base, reply) ∧ startsWith (asciiText "[fwd:") base = false ∧
    Ends PrefixStep (writeSpaces false text ++ [0], false) (stripped ++ [0], reply) ∧ (afterHeader stripped).map toupper = base.map toupper

section Exact

variable {parse : List UInt8 → Option (List UInt8)} {str : List UInt8}

theorem decodedSubject_nulFree : NulFree (decodedSubject parse str) := by
  intro octet member
  simpa using List.mem_takeWhile_imp member

theorem collapsed_plain {text : List UInt8} {base : List UInt8} {reply : Bool} (found : BaseSubject (text.map blankContinuation, false) (base, reply)) :
    BaseSubject (collapsedSpaces text, false) (squeeze base, reply) :=
  squeeze_transparent.base found

theorem blank_nulFree {text : List UInt8} (free : NulFree text) : NulFree (text.map blankContinuation) := by
  intro octet member
  obtain ⟨other, inText, rfl⟩ := List.mem_map.mp member
  rw [blankContinuation]
  split_ifs
  · decide
  · exact free other inText

theorem writeSpaces_subset (cont : Bool) (text : List UInt8) : ∀ octet ∈ writeSpaces cont text, octet = space ∨ octet ∈ text := by
  induction text generalizing cont with
  | nil => exact fun _ member => absurd member List.not_mem_nil
  | cons first text ih =>
      have later : ∀ cont, ∀ octet ∈ writeSpaces cont text, octet = space ∨ octet ∈ first :: text := fun cont octet member =>
        (ih cont octet member).imp_right (List.mem_cons_of_mem first)
      rw [writeSpaces]
      split_ifs
      · exact later true
      · exact List.forall_mem_cons.mpr ⟨.inl rfl, later true⟩
      · exact later false
      · exact List.forall_mem_cons.mpr ⟨.inr (by simp), later false⟩

theorem writeSpaces_nulFree {text : List UInt8} (free : NulFree text) : NulFree (writeSpaces false text) := by
  intro octet member
  rcases writeSpaces_subset false text octet member with rfl | inText
  · decide
  · exact free octet inText

theorem Regular.extracts (regular : Regular (decodedSubject parse str)) : Extracts parse str := by
  have free : NulFree (decodedSubject parse str) := decodedSubject_nulFree
  obtain ⟨base, reply, found, result, within⟩ := extractText_plain regular.plain (blank_nulFree free)
  obtain ⟨noHeader, noDouble⟩ := regular.base base reply found
  have squeezed := (squeeze_length_eq base).2 noDouble
  have spec := collapsed_plain found
  have kept : afterHeader base = base := by rw [afterHeader, noHeader, if_neg Bool.false_ne_true]
  rw [squeezed] at spec
  rw [kept] at result within
  refine ⟨⟨base, reply, result, spec⟩, ?_, fun other reply' found' => ?_⟩
  · rw [within]
    exact Option.some_ne_none _
  · rw [extractSubject, result] at found'
    cases found'
    exact (extractText_again free spec).mpr noHeader

theorem Spared.extracts (spared : Spared (decodedSubject parse str)) : Extracts parse str := by
  have free : NulFree (decodedSubject parse str) := decodedSubject_nulFree
  obtain ⟨base, reply, stripped, spec, noHeader, ends, same⟩ := spared.base
  obtain ⟨stripped', reply', ends', result, within⟩ := extractText_lost spared.lost (writeSpaces_nulFree free)
  have unique := ends_prefix_unique ends' ends
  rw [Prod.mk.injEq] at unique
  obtain ⟨rfl, rfl⟩ : stripped' = stripped ∧ reply' = reply := ⟨List.append_cancel_right unique.1, unique.2⟩
  rw [same] at result within
  refine ⟨⟨base, reply', result, spec⟩, ?_, fun other reply'' found' => ?_⟩
  · rw [within]
    exact Option.some_ne_none _
  · rw [extractSubject, result] at found'
    cases found'
    exact (extractText_again free spec).mpr noHeader

end Exact

end Etpan.Thread
