import Etpan.Data.NormalForm
import Etpan.Thread.Subject
import Etpan.Data.Words

namespace Etpan.Thread

open Etpan.Data Relation Computability

/-! The base subject, by the productions and steps that the comments of `extract_subject` quote.
A state is what is left of the subject, and whether it is a reply or forward so far. -/

namespace SubjectGrammar

def wsp : Language UInt8 := terminal " "

def blobchar : Language UInt8 := octet fun byte => byte ≠ ascii '[' && byte ≠ ascii ']'

def subjBlob : Language UInt8 := terminal "[" * blobchar∗ * terminal "]" * wsp∗

def subjRefwd : Language UInt8 := (terminal "re" + terminal "fw" * (1 + terminal "d")) * wsp∗ * (1 + subjBlob) * terminal ":"

def subjFwdHdr : Language UInt8 := terminal "[fwd:"

def subjFwdTrl : Language UInt8 := terminal "]"

/-- Step (2). -/
inductive TrailerStep : List UInt8 × Bool → List UInt8 × Bool → Prop
  | fwd {rest trailer reply} (isFwd : trailer ∈ terminal "(fwd)") : TrailerStep (rest ++ trailer, reply) (rest, true)
  | wsp {rest trailer reply} (isSpace : trailer ∈ wsp) : TrailerStep (rest ++ trailer, reply) (rest, reply)

/-- Steps (3) and (4). -/
inductive PrefixStep : List UInt8 × Bool → List UInt8 × Bool → Prop
  | refwd {leader rest reply} (isLeader : leader ∈ subjBlob∗ * subjRefwd) : PrefixStep (leader ++ rest, reply) (rest, true)
  | wsp {leader rest reply} (isSpace : leader ∈ wsp) : PrefixStep (leader ++ rest, reply) (rest, reply)
  | blob {blob rest reply} (isBlob : blob ∈ subjBlob) (more : rest ≠ []) : PrefixStep (blob ++ rest, reply) (rest, reply)

/-- Step (6). -/
inductive WrapperStep : List UInt8 × Bool → List UInt8 × Bool → Prop
  | fwd {header rest trailer reply} (isHeader : header ∈ subjFwdHdr) (isTrailer : trailer ∈ subjFwdTrl) :
      WrapperStep (header ++ rest ++ trailer, reply) (rest, true)

/-- Steps (2) to (6). -/
inductive BaseSubject : List UInt8 × Bool → List UInt8 × Bool → Prop
  | base {start trimmed base} (trimming : Ends TrailerStep start trimmed) (stripping : Ends PrefixStep trimmed base)
      (unwrapped : Stuck WrapperStep base) : BaseSubject start base
  | wrapped {start trimmed stripped inner base} (trimming : Ends TrailerStep start trimmed) (stripping : Ends PrefixStep trimmed stripped)
      (unwrapping : WrapperStep stripped inner) (rest : BaseSubject inner base) : BaseSubject start base

end SubjectGrammar

def squeeze : List UInt8 → List UInt8
  | [] => []
  | octet :: rest => if octet = space ∧ rest.head? = some space then squeeze rest else octet :: squeeze rest

def blankContinuation (octet : UInt8) : UInt8 := if isContinuation octet then space else octet

/-- The text of which the base subject is taken: whitespace runs and continuations are one space. -/
def collapsedSpaces (text : List UInt8) : List UInt8 := squeeze (text.map blankContinuation)

/-- What the extraction promises for a subject. -/
structure Extracts (mailmimeEncodedPhraseParse : List UInt8 → Option (List UInt8)) (str : List UInt8) : Prop where
  base : ∃ base reply, extractSubject mailmimeEncodedPhraseParse str = some (base.map toupper, reply) ∧
    SubjectGrammar.BaseSubject (collapsedSpaces (decodedSubject mailmimeEncodedPhraseParse str), false) (base, reply)
  inside : extractWithin (decodedSubject mailmimeEncodedPhraseParse str) ≠ none
  again : ∀ result reply, extractSubject mailmimeEncodedPhraseParse str = some (result, reply) → extractText result = some (result, false)

open SubjectGrammar

/-! Steps (3) and (4) one octet class at a time: the same ends, and one step at most from each state. -/

def NoBracket (octet : UInt8) : Prop := octet ≠ ascii '[' ∧ octet ≠ ascii ']'

def afterBlob : List UInt8 → Option (List UInt8)
  | [] => none
  | octet :: rest => if octet = ascii '[' then none else if octet = ascii ']' then some rest else afterBlob rest

def dropSpaces (text : List UInt8) : List UInt8 := text.dropWhile (· = space)

def pastBlob : List UInt8 → List UInt8
  | [] => []
  | octet :: rest => if octet = ascii '[' then ((afterBlob rest).map dropSpaces).getD (octet :: rest) else octet :: rest

def afterPrefix (text : List UInt8) : Option (List UInt8) :=
  if startsWith (asciiText "fwd") text then some (text.drop 3)
  else if startsWith (asciiText "fw") text || startsWith (asciiText "re") text then some (text.drop 2)
  else none

def afterColon : List UInt8 → Option (List UInt8)
  | [] => none
  | octet :: rest => if octet = ascii ':' then some rest else none

def afterRefwd (text : List UInt8) : Option (List UInt8) :=
  (afterPrefix text).bind fun rest => afterColon (pastBlob (dropSpaces rest))

def stripNext : List UInt8 → Option (List UInt8 × Bool)
  | [] => none
  | octet :: rest =>
      if octet = space then some (rest, false)
      else if octet = ascii '[' then ((afterBlob rest).filter (· ≠ [])).map fun rest => (rest, false)
      else (afterRefwd (octet :: rest)).map fun rest => (rest, true)

def StripStep (state next : List UInt8 × Bool) : Prop :=
  ∃ marks, stripNext state.1 = some (next.1, marks) ∧ next.2 = (state.2 || marks)

theorem stripStep_unique : Relator.RightUnique StripStep := by
  rintro state ⟨text, reply⟩ ⟨text', reply'⟩ ⟨marks, found, same⟩ ⟨marks', found', same'⟩
  rw [found] at found'
  cases found'
  simp only at same same'
  rw [same, same']

theorem stuck_strip {text : List UInt8} {reply : Bool} : Stuck StripStep (text, reply) ↔ stripNext text = none := by
  constructor
  · intro stuck
    cases found : stripNext text with
    | none => rfl
    | some next => exact absurd ⟨next.2, found, rfl⟩ (stuck (next.1, reply || next.2))
  · rintro none' next ⟨marks, found, _⟩
    rw [none'] at found
    cases found

theorem tolower_mark {mark : UInt8} (isMark : mark ∈ [ascii '[', ascii ']', ascii ':', ascii ' ']) (octet : UInt8) :
    tolower octet = tolower mark ↔ octet = mark := by
  revert octet
  simp only [List.mem_cons, List.not_mem_nil, or_false] at isMark
  rcases isMark with rfl | rfl | rfl | rfl <;> exact forall_octet (by decide +kernel)

theorem mem_mark {mark : UInt8} {text : String} {octets : List UInt8} (isMark : mark ∈ [ascii '[', ascii ']', ascii ':', ascii ' '])
    (same : asciiText text = [mark]) : octets ∈ terminal text ↔ octets = [mark] := by
  show octets.map tolower = (asciiText text).map tolower ↔ _
  rw [same, List.map_singleton, List.map_eq_singleton_iff]
  constructor
  · rintro ⟨octet, rfl, lowered⟩
    rw [(tolower_mark isMark octet).mp lowered]
  · rintro rfl
    exact ⟨mark, rfl, rfl⟩

theorem mem_wsp {octets : List UInt8} : octets ∈ wsp ↔ octets = [space] := by
  rw [wsp]
  exact mem_mark (by decide) rfl

theorem mem_opening {octets : List UInt8} : octets ∈ terminal "[" ↔ octets = [ascii '['] := mem_mark (by decide) rfl

theorem mem_closing {octets : List UInt8} : octets ∈ terminal "]" ↔ octets = [ascii ']'] := mem_mark (by decide) rfl

theorem mem_colon {octets : List UInt8} : octets ∈ terminal ":" ↔ octets = [ascii ':'] := mem_mark (by decide) rfl

theorem mem_wsps {octets : List UInt8} : octets ∈ wsp∗ ↔ ∀ octet ∈ octets, octet = space := by
  rw [Language.mem_kstar]
  constructor
  · rintro ⟨parts, rfl, spaces⟩ octet member
    obtain ⟨part, isPart, inPart⟩ := List.mem_flatten.mp member
    rw [mem_wsp.mp (spaces part isPart)] at inPart
    exact List.mem_singleton.mp inPart
  · intro spaces
    refine ⟨octets.map fun octet => [octet], ?_, ?_⟩
    · rw [← List.flatMap_def, List.flatMap_singleton']
    · intro part isPart
      obtain ⟨octet, member, rfl⟩ := List.mem_map.mp isPart
      rw [mem_wsp, spaces octet member]

theorem mem_subjBlob {octets : List UInt8} :
    octets ∈ subjBlob ↔ ∃ chars spaces, octets = ascii '[' :: (chars ++ ascii ']' :: spaces) ∧ (∀ octet ∈ chars, NoBracket octet) ∧
      ∀ octet ∈ spaces, octet = space := by
  have free : ∀ {chars : List UInt8}, chars ∈ blobchar∗ ↔ ∀ octet ∈ chars, NoBracket octet := by
    intro chars
    rw [blobchar, mem_octets]
    simp only [Bool.and_eq_true, decide_eq_true_eq, NoBracket]
  rw [subjBlob]
  simp only [Language.mem_mul, mem_opening, mem_closing, mem_wsps, free]
  constructor
  · rintro ⟨_, ⟨_, ⟨_, rfl, chars, noBracket, rfl⟩, _, rfl, rfl⟩, spaces, areSpaces, rfl⟩
    exact ⟨chars, spaces, by simp, noBracket, areSpaces⟩
  · rintro ⟨chars, spaces, rfl, noBracket, areSpaces⟩
    exact ⟨_, ⟨_, ⟨_, rfl, chars, noBracket, rfl⟩, _, rfl, rfl⟩, spaces, areSpaces, by simp⟩

theorem afterBlob_append {chars : List UInt8} (noBracket : ∀ octet ∈ chars, NoBracket octet) (rest : List UInt8) :
    afterBlob (chars ++ ascii ']' :: rest) = some rest := by
  induction chars with
  | nil => rfl
  | cons octet chars ih =>
      obtain ⟨notOpening, notClosing⟩ := noBracket octet (by simp)
      rw [List.cons_append, afterBlob, if_neg notOpening, if_neg notClosing]
      exact ih fun other member => noBracket other (List.mem_cons_of_mem octet member)

theorem afterBlob_some {text rest : List UInt8} (found : afterBlob text = some rest) :
    ∃ chars, text = chars ++ ascii ']' :: rest ∧ ∀ octet ∈ chars, NoBracket octet := by
  induction text with
  | nil => cases found
  | cons octet text ih =>
      rw [afterBlob] at found
      split_ifs at found with opening closing
      · cases found
        exact ⟨[], by rw [closing]; rfl, fun _ member => absurd member (List.not_mem_nil)⟩
      · obtain ⟨chars, rfl, noBracket⟩ := ih found
        exact ⟨octet :: chars, rfl, List.forall_mem_cons.mpr ⟨⟨opening, closing⟩, noBracket⟩⟩

theorem dropSpaces_append {spaces : List UInt8} (areSpaces : ∀ octet ∈ spaces, octet = space) (rest : List UInt8) :
    dropSpaces (spaces ++ rest) = dropSpaces rest := by
  rw [dropSpaces, List.dropWhile_append, List.dropWhile_eq_nil_iff.mpr (by simpa using areSpaces)]
  rfl

theorem dropSpaces_self {octet : UInt8} (differs : octet ≠ space) (rest : List UInt8) : dropSpaces (octet :: rest) = octet :: rest := by
  rw [dropSpaces, List.dropWhile_cons_of_neg (by simpa using differs)]

theorem dropSpaces_split (text : List UInt8) : ∃ spaces, text = spaces ++ dropSpaces text ∧ ∀ octet ∈ spaces, octet = space := by
  refine ⟨text.takeWhile (· = space), (List.takeWhile_append_dropWhile).symm, fun octet member => ?_⟩
  simpa using List.mem_takeWhile_imp member

theorem startsWith_cons (letter octet : UInt8) (literal text : List UInt8) :
    startsWith (letter :: literal) (octet :: text) = (decide (tolower octet = tolower letter) && startsWith literal text) := by
  simp only [startsWith, List.length_cons, List.take_succ_cons, List.map_cons, List.cons.injEq, Bool.decide_and]

theorem startsWith_split {literal text : List UInt8} (starts : startsWith literal text = true) :
    ∃ head, text = head ++ text.drop literal.length ∧ head.map tolower = literal.map tolower :=
  ⟨text.take literal.length, (List.take_append_drop ..).symm, of_decide_eq_true starts⟩

theorem startsWith_mem {literal head : List UInt8} (same : head.map tolower = literal.map tolower) (rest : List UInt8) :
    startsWith literal (head ++ rest) = true := by
  have lengths := congrArg List.length same
  rw [List.length_map, List.length_map] at lengths
  rw [startsWith, ← lengths, List.take_left]
  exact decide_eq_true same

def ReplyPrefix (head : List UInt8) : Prop :=
  head.map tolower = asciiText "re" ∨ head.map tolower = asciiText "fw" ∨ head.map tolower = asciiText "fwd"

theorem mem_replyPrefix {head : List UInt8} :
    head ∈ terminal "re" + terminal "fw" * (1 + terminal "d") ↔ ReplyPrefix head := by
  simp only [Language.mem_add, Language.mem_mul, Language.mem_one]
  constructor
  · rintro (re | ⟨fw, isFw, d, rfl | isD, rfl⟩)
    · exact .inl re
    · rw [List.append_nil]
      exact .inr (.inl isFw)
    · refine .inr (.inr ?_)
      rw [List.map_append, show fw.map tolower = _ from isFw, show d.map tolower = _ from isD]
      rfl
  · rintro (re | fw | fwd)
    · exact .inl re
    · exact .inr ⟨head, fw, [], .inl rfl, List.append_nil head⟩
    · refine .inr ⟨head.take 2, ?_, head.drop 2, .inr ?_, List.take_append_drop 2 head⟩
      · show (head.take 2).map tolower = _
        rw [List.map_take, fwd]
        rfl
      · show (head.drop 2).map tolower = _
        rw [List.map_drop, fwd]
        rfl

theorem mem_subjRefwd {octets : List UInt8} :
    octets ∈ subjRefwd ↔ ∃ head spaces blob, octets = head ++ (spaces ++ (blob ++ [ascii ':'])) ∧ ReplyPrefix head ∧
      (∀ octet ∈ spaces, octet = space) ∧ (blob = [] ∨ blob ∈ subjBlob) := by
  rw [subjRefwd]
  simp only [Language.mem_mul (l := (terminal "re" + terminal "fw" * (1 + terminal "d")) * wsp∗ * (1 + subjBlob)),
    Language.mem_mul (l := (terminal "re" + terminal "fw" * (1 + terminal "d")) * wsp∗),
    Language.mem_mul (l := terminal "re" + terminal "fw" * (1 + terminal "d")), mem_replyPrefix, mem_wsps,
    mem_colon, Language.mem_add 1, Language.mem_one]
  constructor
  · rintro ⟨_, ⟨_, ⟨head, isPrefix, spaces, areSpaces, rfl⟩, blob, isBlob, rfl⟩, _, rfl, rfl⟩
    exact ⟨head, spaces, blob, by simp, isPrefix, areSpaces, isBlob⟩
  · rintro ⟨head, spaces, blob, rfl, isPrefix, areSpaces, isBlob⟩
    exact ⟨_, ⟨_, ⟨head, isPrefix, spaces, areSpaces, rfl⟩, blob, isBlob, rfl⟩, _, rfl, by simp⟩

theorem afterPrefix_append {head : List UInt8} (isPrefix : ReplyPrefix head) {octet : UInt8} (other : tolower octet ≠ tolower (ascii 'd'))
    (rest : List UInt8) : afterPrefix (head ++ octet :: rest) = some (octet :: rest) := by
  rw [afterPrefix]
  rcases isPrefix with re | fw | fwd
  · obtain ⟨r, e, rfl⟩ : ∃ r e, head = [r, e] := List.length_eq_two.mp ((List.length_map _).symm.trans (congrArg List.length re))
    simp only [List.map_cons, List.map_nil] at re
    have isR : tolower r = ascii 'r' := (List.cons.inj re).1
    have notFw : ∀ literal, startsWith (ascii 'f' :: literal) ([r, e] ++ octet :: rest) = false := by
      intro literal
      rw [List.cons_append, startsWith_cons, isR]
      rfl
    rw [show asciiText "fwd" = ascii 'f' :: _ from rfl, show asciiText "fw" = ascii 'f' :: _ from rfl, notFw, notFw,
      startsWith_mem (show [r, e].map tolower = (asciiText "re").map tolower from re)]
    rfl
  · obtain ⟨f, w, rfl⟩ : ∃ f w, head = [f, w] := List.length_eq_two.mp ((List.length_map _).symm.trans (congrArg List.length fw))
    have notFwd : startsWith (asciiText "fwd") ([f, w] ++ octet :: rest) = false := by
      rw [show asciiText "fwd" = [ascii 'f', ascii 'w', ascii 'd'] from rfl, List.cons_append, List.cons_append, List.nil_append,
        startsWith_cons, startsWith_cons, startsWith_cons, decide_eq_false other]
      simp only [Bool.false_and, Bool.and_false]
    rw [notFwd, startsWith_mem (show [f, w].map tolower = (asciiText "fw").map tolower from fw)]
    rfl
  · obtain ⟨f, w, d, rfl⟩ : ∃ f w d, head = [f, w, d] := List.length_eq_three.mp ((List.length_map _).symm.trans (congrArg List.length fwd))
    rw [startsWith_mem (show [f, w, d].map tolower = (asciiText "fwd").map tolower from fwd)]
    rfl

theorem afterPrefix_some {text rest : List UInt8} (found : afterPrefix text = some rest) :
    ∃ head, ReplyPrefix head ∧ text = head ++ rest := by
  rw [afterPrefix] at found
  split_ifs at found with fwd two
  · cases found
    obtain ⟨head, same, lowered⟩ := startsWith_split fwd
    exact ⟨head, .inr (.inr lowered), same⟩
  · cases found
    rcases Bool.or_eq_true_iff.mp two with fw | re
    · obtain ⟨head, same, lowered⟩ := startsWith_split fw
      exact ⟨head, .inr (.inl lowered), same⟩
    · obtain ⟨head, same, lowered⟩ := startsWith_split re
      exact ⟨head, .inl lowered, same⟩

theorem pastBlob_append {blob : List UInt8} (isBlob : blob = [] ∨ blob ∈ subjBlob) (rest : List UInt8) :
    pastBlob (blob ++ ascii ':' :: rest) = ascii ':' :: rest := by
  rcases isBlob with rfl | isBlob
  · rfl
  · obtain ⟨chars, spaces, rfl, noBracket, areSpaces⟩ := mem_subjBlob.mp isBlob
    rw [List.cons_append, pastBlob, if_pos rfl, List.append_assoc, List.cons_append, afterBlob_append noBracket, Option.map_some,
      Option.getD_some, dropSpaces_append areSpaces, dropSpaces_self (by decide)]

theorem pastBlob_split (text : List UInt8) : ∃ blob, (blob = [] ∨ blob ∈ subjBlob) ∧ text = blob ++ pastBlob text := by
  cases text with
  | nil => exact ⟨[], .inl rfl, rfl⟩
  | cons octet text =>
      rw [pastBlob]
      split_ifs with opening
      · cases found : afterBlob text with
        | none => exact ⟨[], .inl rfl, rfl⟩
        | some rest =>
            obtain ⟨chars, rfl, noBracket⟩ := afterBlob_some found
            obtain ⟨spaces, same, areSpaces⟩ := dropSpaces_split rest
            refine ⟨_, .inr (mem_subjBlob.mpr ⟨chars, spaces, rfl, noBracket, areSpaces⟩), ?_⟩
            rw [Option.map_some, Option.getD_some, opening, List.cons_append, List.append_assoc, List.cons_append, ← same]
      · exact ⟨[], .inl rfl, rfl⟩

theorem afterRefwd_append {octets : List UInt8} (isRefwd : octets ∈ subjRefwd) (rest : List UInt8) :
    afterRefwd (octets ++ rest) = some rest := by
  obtain ⟨head, spaces, blob, rfl, isPrefix, areSpaces, isBlob⟩ := mem_subjRefwd.mp isRefwd
  -- a prefix ends before a space, a blob or the colon
  obtain ⟨octet, tail, same, other⟩ : ∃ octet tail, spaces ++ (blob ++ ascii ':' :: rest) = octet :: tail ∧
      tolower octet ≠ tolower (ascii 'd') := by
    cases spaces with
    | cons octet spaces => exact ⟨octet, _, rfl, by rw [areSpaces octet (by simp)]; decide⟩
    | nil =>
        rcases isBlob with rfl | isBlob
        · exact ⟨ascii ':', rest, rfl, by decide⟩
        · obtain ⟨chars, after, rfl, _⟩ := mem_subjBlob.mp isBlob
          exact ⟨ascii '[', _, rfl, by decide⟩
  have notSpace : dropSpaces (blob ++ ascii ':' :: rest) = blob ++ ascii ':' :: rest := by
    rcases isBlob with rfl | isBlob
    · exact dropSpaces_self (by decide) rest
    · obtain ⟨chars, after, rfl, _⟩ := mem_subjBlob.mp isBlob
      exact dropSpaces_self (by decide) _
  have whole : head ++ (spaces ++ (blob ++ [ascii ':'])) ++ rest = head ++ octet :: tail := by
    rw [← same]
    simp only [List.append_assoc, List.cons_append, List.nil_append]
  rw [whole, afterRefwd, afterPrefix_append isPrefix other, Option.bind_some, ← same, dropSpaces_append areSpaces, notSpace,
    pastBlob_append isBlob, afterColon, if_pos rfl]

theorem afterRefwd_some {text rest : List UInt8} (found : afterRefwd text = some rest) : ∃ octets ∈ subjRefwd, text = octets ++ rest := by
  obtain ⟨behind, isBehind, colon⟩ := Option.bind_eq_some_iff.mp found
  obtain ⟨head, isPrefix, rfl⟩ := afterPrefix_some isBehind
  obtain ⟨spaces, split, areSpaces⟩ := dropSpaces_split behind
  obtain ⟨blob, isBlob, split'⟩ := pastBlob_split (dropSpaces behind)
  have ends : pastBlob (dropSpaces behind) = ascii ':' :: rest := by
    cases same : pastBlob (dropSpaces behind) with
    | nil =>
        rw [same] at colon
        cases colon
    | cons octet tail =>
        rw [same, afterColon] at colon
        split_ifs at colon with isColon
        cases colon
        rw [isColon]
  refine ⟨_, mem_subjRefwd.mpr ⟨head, spaces, blob, rfl, isPrefix, areSpaces, isBlob⟩, ?_⟩
  rw [split, split', ends]
  simp only [List.append_assoc, List.cons_append, List.nil_append]

theorem afterRefwd_head {octet : UInt8} (isMark : octet = space ∨ octet = ascii '[') (rest : List UInt8) : afterRefwd (octet :: rest) = none := by
  have other : tolower octet ≠ tolower (ascii 'f') ∧ tolower octet ≠ tolower (ascii 'r') := by
    rcases isMark with rfl | rfl <;> decide
  have notPrefix : ∀ letter literal, tolower octet ≠ tolower letter → startsWith (letter :: literal) (octet :: rest) = false := by
    intro letter literal differs
    rw [startsWith_cons, decide_eq_false differs, Bool.false_and]
  rw [afterRefwd, afterPrefix, show asciiText "fwd" = ascii 'f' :: _ from rfl, show asciiText "fw" = ascii 'f' :: _ from rfl,
    show asciiText "re" = ascii 'r' :: _ from rfl, notPrefix _ _ other.1, notPrefix _ _ other.1, notPrefix _ _ other.2]
  rfl

theorem stripNext_refwd {text rest : List UInt8} (found : afterRefwd text = some rest) : stripNext text = some (rest, true) := by
  cases text with
  | nil => cases found
  | cons octet text =>
      rw [stripNext, if_neg, if_neg, found, Option.map_some]
      · rintro rfl
        rw [afterRefwd_head (.inr rfl)] at found
        cases found
      · rintro rfl
        rw [afterRefwd_head (.inl rfl)] at found
        cases found

theorem prefixStep_of_strip (state next : List UInt8 × Bool) (taken : StripStep state next) : PrefixStep state next := by
  obtain ⟨text, reply⟩ := state
  obtain ⟨rest, reply'⟩ := next
  obtain ⟨marks, found, same⟩ := taken
  simp only at found same
  subst same
  cases text with
  | nil => cases found
  | cons octet text =>
      rw [stripNext] at found
      split_ifs at found with isSpace opening
      · cases found
        rw [Bool.or_false]
        exact @PrefixStep.wsp [octet] _ _ (mem_wsp.mpr (by rw [isSpace]))
      · obtain ⟨after, kept, made⟩ := Option.map_eq_some_iff.mp found
        cases made
        obtain ⟨isAfter, nonempty⟩ := Option.filter_eq_some_iff.mp kept
        obtain ⟨chars, rfl, noBracket⟩ := afterBlob_some isAfter
        have isBlob : ascii '[' :: (chars ++ ascii ']' :: []) ∈ subjBlob :=
          mem_subjBlob.mpr ⟨chars, [], rfl, noBracket, fun _ member => absurd member List.not_mem_nil⟩
        have step : PrefixStep _ (rest, reply) := .blob isBlob (by simpa using nonempty)
        rw [opening, Bool.or_false]
        simpa only [List.cons_append, List.append_assoc, List.nil_append] using step
      · obtain ⟨after, isAfter, made⟩ := Option.map_eq_some_iff.mp found
        cases made
        obtain ⟨octets, isRefwd, same⟩ := afterRefwd_some isAfter
        rw [same, Bool.or_true]
        refine .refwd (Language.mem_mul.mpr ⟨[], Language.nil_mem_kstar _, octets, isRefwd, rfl⟩)

theorem stripSpaces {spaces : List UInt8} (areSpaces : ∀ octet ∈ spaces, octet = space) (rest : List UInt8) (reply : Bool) :
    ReflTransGen StripStep (spaces ++ rest, reply) (rest, reply) := by
  induction spaces with
  | nil => exact .refl
  | cons octet spaces ih =>
      refine .head (b := (spaces ++ rest, reply)) ⟨false, ?_, (Bool.or_false reply).symm⟩ (ih fun other member => areSpaces other (List.mem_cons_of_mem octet member))
      rw [List.cons_append, stripNext, if_pos (areSpaces octet (by simp))]

theorem stripBlob {blob rest : List UInt8} (isBlob : blob ∈ subjBlob) (more : rest ≠ []) (reply : Bool) :
    TransGen StripStep (blob ++ rest, reply) (rest, reply) := by
  obtain ⟨chars, spaces, rfl, noBracket, areSpaces⟩ := mem_subjBlob.mp isBlob
  refine .head' (b := (spaces ++ rest, reply)) ⟨false, ?_, (Bool.or_false reply).symm⟩ (stripSpaces areSpaces rest reply)
  have nonempty : spaces ++ rest ≠ [] := by simp [more]
  rw [List.cons_append, stripNext, if_neg (by decide), if_pos rfl, List.append_assoc, List.cons_append, afterBlob_append noBracket]
  simp only [Option.filter_some, ne_eq, nonempty, not_false_eq_true, decide_true, if_true, Option.map_some]

theorem strip_of_prefixStep (state next : List UInt8 × Bool) (taken : PrefixStep state next) : TransGen StripStep state next := by
  cases taken with
  | @refwd leader rest reply isLeader =>
      obtain ⟨blobs, isBlobs, refwd, isRefwd, rfl⟩ := Language.mem_mul.mp isLeader
      obtain ⟨list, rfl, areBlobs⟩ := Language.mem_kstar.mp isBlobs
      clear isLeader isBlobs
      have last : TransGen StripStep (refwd ++ rest, reply) (rest, true) :=
        .single ⟨true, stripNext_refwd (afterRefwd_append isRefwd rest), (Bool.or_true reply).symm⟩
      induction list with
      | nil => exact last
      | cons blob list ih =>
          have more : list.flatten ++ refwd ++ rest ≠ [] := by
            intro empty
            obtain ⟨_, _, _, rfl, _⟩ := mem_subjRefwd.mp isRefwd
            simp at empty
          rw [List.flatten_cons, List.append_assoc, List.append_assoc, ← List.append_assoc list.flatten]
          exact (stripBlob (areBlobs blob (by simp)) more reply).trans (ih fun other member => areBlobs other (List.mem_cons_of_mem blob member))
  | @wsp leader rest reply isSpace =>
      rw [mem_wsp.mp isSpace]
      exact .single ⟨false, rfl, (Bool.or_false reply).symm⟩
  | blob isBlob more => exact stripBlob isBlob more _

theorem ends_prefixStep {state last : List UInt8 × Bool} : Ends PrefixStep state last ↔ Ends StripStep state last :=
  ends_congr prefixStep_of_strip strip_of_prefixStep

theorem ends_prefix_unique {state last other : List UInt8 × Bool} (ends : Ends PrefixStep state last) (ends' : Ends PrefixStep state other) :
    last = other :=
  (ends_prefixStep.mp ends).unique stripStep_unique (ends_prefixStep.mp ends')

end Etpan.Thread
