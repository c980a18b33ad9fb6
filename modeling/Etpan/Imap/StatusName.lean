import Etpan.Imap.Astring
import Etpan.Imap.ListRead
import Etpan.Imap.LiteralParse
import Etpan.Imap.ParserFront

namespace Etpan.Imap

open Etpan.Data Etpan.Stream

/-! The name and the values that a STATUS response is read as. -/

section Tokens

variable {buffer rest : List UInt8} {indx : Nat}

theorem mailimapTokenCaseInsensitiveParse_eq {byte : UInt8} {token : List UInt8} (at_ : buffer.drop indx = byte :: rest)
    (visible : isSpaceOrTab byte = false) :
    mailimapTokenCaseInsensitiveParse buffer indx token =
      if token.map tolower <+: (byte :: rest).map tolower then some (indx + token.length) else none := by
  have lengths := congrArg List.length at_
  rw [List.length_drop, List.length_cons] at lengths
  rw [mailimapTokenCaseInsensitiveParse, skipSpace_at at_ visible, at_]
  have same : (indx ≤ buffer.length ∧ token.length ≤ buffer.length - indx ∧
      ((byte :: rest).take token.length).map tolower = token.map tolower) ↔
        token.map tolower <+: (byte :: rest).map tolower := by
    rw [List.prefix_iff_eq_take, List.length_map, List.map_take]
    constructor
    · rintro ⟨-, -, equal⟩
      exact equal.symm
    · intro equal
      have shorter := congrArg List.length equal
      rw [List.length_take, List.length_map, List.length_map, List.length_cons] at shorter
      exact ⟨by omega, by omega, equal.symm⟩
  simp only [same]

end Tokens

structure StatusItem where
  att : StatusAtt
  keyword : List UInt8
  value : Nat
  spelled : ∃ entry ∈ statusAttTab, att = entry.1 ∧ keyword.map tolower = entry.2.map tolower
  fits : value < if att = .highestmodseq then 2 ^ 64 else 2 ^ 32

def StatusItem.text (item : StatusItem) : List UInt8 := item.keyword ++ ascii ' ' :: decimal item.value

def StatusItem.info (item : StatusItem) : StatusInfo :=
  if item.att = .highestmodseq then { stAtt := .extension, stValue := 0, stExtData := some (UInt64.ofNat item.value) }
  else { stAtt := item.att, stValue := UInt32.ofNat item.value, stExtData := none }

theorem statusAttTab_distinct : ∀ entry ∈ statusAttTab, ∀ other ∈ statusAttTab,
    4 ≤ entry.2.length ∧ ((entry.2.map tolower).take 4 = (other.2.map tolower).take 4 → entry = other) := by
  decide

theorem statusAttTab_visible : ∀ entry ∈ statusAttTab, ∀ byte ∈ entry.2.map tolower,
    isSpaceOrTab byte = false ∧ byte ≠ tolower (ascii ')') := by
  decide +kernel

theorem isSpaceOrTab_tolower (byte : UInt8) : isSpaceOrTab (tolower byte) = isSpaceOrTab byte := by
  have checked : ∀ byte : UInt8, isSpaceOrTab (tolower byte) = isSpaceOrTab byte := forall_octet (by decide +kernel)
  exact checked byte

theorem mailimapStatusAttParse_at {buffer rest : List UInt8} {indx : Nat} (item : StatusItem)
    (at_ : buffer.drop indx = item.keyword ++ rest) :
    mailimapStatusAttParse buffer indx = some (item.att, indx + item.keyword.length) := by
  obtain ⟨entry, inTab, isAtt, spelled⟩ := item.spelled
  have length : item.keyword.length = entry.2.length := by
    have lengths := congrArg List.length spelled
    rwa [List.length_map, List.length_map] at lengths
  have long := (statusAttTab_distinct entry inTab entry inTab).1
  obtain ⟨byte, others, keyword_eq⟩ := List.exists_cons_of_ne_nil (List.ne_nil_of_length_pos (by omega : 0 < item.keyword.length))
  have visible : isSpaceOrTab byte = false := by
    have lower := (statusAttTab_visible entry inTab (tolower byte) (by rw [← spelled, keyword_eq]; simp)).1
    rwa [isSpaceOrTab_tolower] at lower
  have start : buffer.drop indx = byte :: (others ++ rest) := by rw [at_, keyword_eq, List.cons_append]
  have text : (byte :: (others ++ rest)).map tolower = entry.2.map tolower ++ rest.map tolower := by
    rw [← List.cons_append, ← keyword_eq, List.map_append, spelled]
  obtain ⟨before, after, split, notBefore⟩ := List.eq_append_cons_of_mem inTab
  rw [mailimapStatusAttParse, skipSpace_at start visible, mailimapGetTokenValue, List.findSome?_eq_some_iff]
  refine ⟨before, entry, after, split, ?_, ?_⟩
  · rw [mailimapTokenCaseInsensitiveParse_eq start visible, text, if_pos (List.prefix_append _ _), isAtt, length]
    rfl
  · intro other isBefore
    have otherInTab : other ∈ statusAttTab := by rw [split]; simp [isBefore]
    have differs : ¬ other.2.map tolower <+: entry.2.map tolower ++ rest.map tolower := by
      intro found
      apply notBefore
      obtain ⟨otherLong, distinct⟩ := statusAttTab_distinct other otherInTab entry inTab
      rw [← distinct ?_]
      · exact isBefore
      · obtain ⟨more, whole⟩ := found
        have front := congrArg (List.take 4) whole
        rwa [List.take_append_of_le_length (by rw [List.length_map]; omega),
          List.take_append_of_le_length (by rw [List.length_map]; omega)] at front
    rw [mailimapTokenCaseInsensitiveParse_eq start visible, text, if_neg differs]
    rfl

theorem mailimapStatusAttParse_closed {buffer rest : List UInt8} {indx : Nat} (at_ : buffer.drop indx = ascii ')' :: rest) :
    mailimapStatusAttParse buffer indx = none := by
  rw [mailimapStatusAttParse, skipSpace_at at_ (by decide), mailimapGetTokenValue, List.findSome?_eq_none_iff]
  intro entry inTab
  have differs : ¬ entry.2.map tolower <+: (ascii ')' :: rest).map tolower := by
    intro found
    have long := (statusAttTab_distinct entry inTab entry inTab).1
    obtain ⟨byte, others, entry_eq⟩ := List.exists_cons_of_ne_nil (List.ne_nil_of_length_pos (by omega : 0 < entry.2.length))
    have other := (statusAttTab_visible entry inTab (tolower byte) (by rw [entry_eq]; simp)).2
    rw [entry_eq, List.map_cons, List.map_cons, List.cons_prefix_cons] at found
    exact other found.1
  rw [mailimapTokenCaseInsensitiveParse_eq at_ (by decide), if_neg differs]
  rfl

theorem uint64Digits (digits : List UInt8) (value : Nat) :
    digits.foldl (fun number digit => number * 10 + UInt64.ofNat (digit.toNat - 48)) (UInt64.ofNat value) =
      UInt64.ofNat (digits.foldl addDecimal value) := by
  induction digits generalizing value with
  | nil => rfl
  | cons digit digits ih =>
      rw [List.foldl_cons, List.foldl_cons, ← ih, addDecimal, UInt64.ofNat_add, UInt64.ofNat_mul]
      rfl

theorem mailimapUint64Parse_at {buffer rest : List UInt8} {indx number : Nat}
    (at_ : buffer.drop indx = decimal number ++ rest) (ends : rest.takeWhile isDigit = []) :
    mailimapUint64Parse buffer indx = some (UInt64.ofNat number, indx + (decimal number).length) := by
  obtain ⟨first, others, digits⟩ := List.exists_cons_of_ne_nil (decimal_ne_nil number)
  have start : buffer.drop indx = first :: (others ++ rest) := by rw [at_, digits, List.cons_append]
  have visible := (isDigit_plain (decimal_digits first (by rw [digits]; simp))).1
  have value := uint64Digits (decimal number) 0
  have total : (decimal number).foldl addDecimal 0 = number := decimalValue_decimal number
  rw [total] at value
  have zero : UInt64.ofNat 0 = 0 := rfl
  rw [zero] at value
  simp only [mailimapUint64Parse, skipSpace_at start visible, at_, decimal_takeWhile number ends, value,
    if_neg (decimal_ne_nil number)]

theorem mailimapStatusInfoParse_at {buffer rest : List UInt8} {indx : Nat} (item : StatusItem)
    (at_ : buffer.drop indx = item.text ++ rest) (ends : rest.takeWhile isDigit = []) :
    mailimapStatusInfoParse buffer indx = some (item.info, indx + item.text.length) := by
  have split : item.text ++ rest = item.keyword ++ ([ascii ' '] ++ (decimal item.value ++ rest)) := by
    simp [StatusItem.text]
  rw [split] at at_
  have space := drop_behind at_
  have number : buffer.drop (indx + item.keyword.length + 1) = decimal item.value ++ rest := drop_behind space
  obtain ⟨first, others, digits⟩ := List.exists_cons_of_ne_nil (decimal_ne_nil item.value)
  have visible := (isDigit_plain (decimal_digits first (by rw [digits]; simp))).1
  have spaced : mailimapSpaceParse buffer (indx + item.keyword.length) = some (indx + item.keyword.length + 1) := by
    rw [digits] at space
    exact mailimapSpaceParse_at space visible
  have length : indx + item.text.length = indx + item.keyword.length + 1 + (decimal item.value).length := by
    rw [StatusItem.text, List.length_append, List.length_cons]
    omega
  have fits := item.fits
  rw [mailimapStatusInfoParse, mailimapStatusAttParse_at item at_, length, StatusItem.info]
  by_cases modSequence : item.att = .highestmodseq
  · rw [if_pos modSequence]
    simp [Option.filter, modSequence, condstoreStatusInfoParse, mailimapStatusAttParse_at item at_, spaced,
      mailimapModSequenceValueParse, mailimapUint64Parse_at number ends]
  · rw [if_neg modSequence] at fits ⊢
    have small : min item.value 4294967295 = item.value := by omega
    simp [Option.filter, modSequence, spaced, mailimapNumberParse_at number ends, small]

theorem mailimapStatusInfoParse_closed {buffer rest : List UInt8} {indx : Nat} (at_ : buffer.drop indx = ascii ')' :: rest) :
    mailimapStatusInfoParse buffer indx = none := by
  rw [mailimapStatusInfoParse, mailimapStatusAttParse_closed at_, condstoreStatusInfoParse,
    mailimapStatusAttParse_closed at_]
  rfl

def statusItemsText : List StatusItem → List UInt8
  | [] => []
  | item :: items => item.text ++ items.flatMap fun item => ascii ' ' :: item.text

def statusInfoList (items : List StatusItem) : Option (List StatusInfo) :=
  if items = [] then none else some (items.map StatusItem.info)

theorem StatusItem.text_head (item : StatusItem) :
    ∃ byte others, item.text = byte :: others ∧ isSpaceOrTab byte = false := by
  obtain ⟨entry, inTab, -, spelled⟩ := item.spelled
  have long := (statusAttTab_distinct entry inTab entry inTab).1
  cases keyword : item.keyword with
  | nil =>
      have lengths := congrArg List.length spelled
      rw [keyword, List.length_map, List.length_map, List.length_nil] at lengths
      omega
  | cons byte others =>
      have lower := (statusAttTab_visible entry inTab (tolower byte) (by rw [← spelled, keyword]; simp)).1
      rw [isSpaceOrTab_tolower] at lower
      exact ⟨byte, others ++ ascii ' ' :: decimal item.value, by rw [StatusItem.text, keyword, List.cons_append], lower⟩

theorem mailimapUnstrictCharParse_space {buffer rest : List UInt8} {indx : Nat} {byte : UInt8}
    (at_ : buffer.drop indx = ascii ' ' :: byte :: rest) (visible : isSpaceOrTab byte = false) :
    mailimapUnstrictCharParse buffer indx (ascii ' ') = some (indx + 1) := by
  rw [mailimapUnstrictCharParse, skipSpace, mailimapSpaceParse_at at_ visible, if_pos rfl]
  rfl

theorem readsStatusItems (source : Source) (items : List StatusItem) :
    ReadsItems (ascii ' ') (onBuffer mailimapStatusInfoParse) StatusItem.text StatusItem.info source (·.takeWhile isDigit = []) items where
  read item _ _ _ ends at_ := by
    simp only [onBuffer, mailimapStatusInfoParse_at item at_ ends]
  separated _ _ _ := List.takeWhile_cons_of_neg (by decide)
  separator item _ _ _ at_ := by
    obtain ⟨byte, others, text_eq, visible⟩ := item.text_head
    rw [text_eq] at at_
    exact mailimapUnstrictCharParse_space at_ visible

theorem stopsStatusItems {source : Source} {rest : List UInt8} :
    StopsList (ascii ' ') (onBuffer mailimapStatusInfoParse) source (ascii ')' :: rest) := by
  intro indx turns infos at_
  rw [structListLoop, mailimapUnstrictCharParse, skipSpace_at at_ (by decide), if_pos rfl]
  simp only [onBuffer, mailimapStatusInfoParse_closed at_]

theorem statusInfosParse_at {source : Source} {rest : List UInt8} {mb : List UInt8} {items : List StatusItem}
    {curToken : Nat} (at_ : source.buffer.drop curToken = asciiText " (" ++ (statusItemsText items ++ ascii ')' :: rest)) :
    ∃ token, statusInfosParse mb source curToken =
      (.ok ({ stMailbox := mb, stInfoList := statusInfoList items }, token), source) := by
  have space : mailimapSpaceParse source.buffer curToken = some (curToken + 1) := mailimapSpaceParse_at at_ (by decide)
  have paren : source.buffer.drop (curToken + 1) = [ascii '('] ++ (statusItemsText items ++ ascii ')' :: rest) :=
    @drop_behind source.buffer _ curToken [ascii ' '] at_
  have opened : mailimapOparenthParse source.buffer (curToken + 1) = some (curToken + 2) :=
    mailimapUnstrictCharParse_at paren (by decide)
  have text : source.buffer.drop (curToken + 2) = statusItemsText items ++ ascii ')' :: rest := drop_behind paren
  rw [statusInfosParse, space]
  simp only [Option.bind_eq_bind, Option.bind_some, opened]
  cases items with
  | nil =>
      refine ⟨curToken + 3, ?_⟩
      have closed : mailimapCparenthParse source.buffer (curToken + 2) = some (curToken + 3) :=
        mailimapUnstrictCharParse_at text (by decide)
      have nothing : mailimapStatusInfoParse source.buffer (curToken + 2) = none := mailimapStatusInfoParse_closed text
      simp only [mailimapStructSpacedListParse, mailimapStructListParse, onBuffer, nothing, closed]
      rfl
  | cons item items =>
      have list := mailimapStructListParse_at (readsStatusItems source (item :: items)) (List.takeWhile_cons_of_neg (by decide))
        stopsStatusItems text
      have closed : mailimapCparenthParse source.buffer (curToken + 2 + (statusItemsText (item :: items)).length) = some _ :=
        mailimapUnstrictCharParse_at (drop_behind text) (by decide)
      rw [mailimapStructSpacedListParse, list]
      exact ⟨_, by simp only [show joined (ascii ' ') StatusItem.text (item :: items) = statusItemsText (item :: items) from rfl, closed]; rfl⟩

theorem mailimapMailboxGmailParse_one {ctx : ParserContext} {source : Source} {indx : Nat} {text astring rest : List UInt8}
    (at_ : source.buffer.drop indx = text ++ (asciiText " (" ++ rest))
    (parsed : mailimapAstringParse ctx source indx = (.ok (astring, indx + text.length), source)) :
    mailimapMailboxGmailParse ctx source indx = (.ok (text, indx + text.length), source) := by
  have behind := drop_behind at_
  have separator : mailimapUnstrictCharParse source.buffer (indx + text.length) (ascii ' ') =
      some (indx + text.length + 1) := mailimapUnstrictCharParse_space behind (by decide)
  have paren : source.buffer.drop (indx + text.length + 1) = ascii '(' :: rest :=
    @drop_behind source.buffer _ _ [ascii ' '] behind
  have stop := @mailimapAstringParse_none ctx source _ _ _ paren (by decide)
  have stopped : structListLoop (ascii ' ') (mailimapAstringParse ctx) (source.octets + 1) source (indx + text.length)
      [astring] (indx + text.length) = (.ok ([astring], indx + text.length), source) := by
    rw [structListLoop, separator]
    simp only [stop]
  simp only [mailimapMailboxGmailParse, mailimapStructSpacedListParse, mailimapStructListParse, parsed, stopped]
  rw [Nat.add_sub_cancel_left, at_, List.take_left]

theorem appendFollowingLine_ok {source after : Source} {curToken token : Nat} {literal string : List UInt8}
    (appended : appendFollowingLine source curToken literal = (.ok (string, token), after)) :
    token = curToken ∧ source.buffer <+: after.buffer := by
  rw [appendFollowingLine] at appended
  cases stream : source.fd with
  | none =>
      simp only [stream] at appended
      split_ifs at appended
      · cases appended
        exact ⟨rfl, List.prefix_rfl⟩
      · cases appended
  | some s =>
      simp only [stream] at appended
      cases read : (mailstreamReadLineAppend s source.buffer).1 with
      | none =>
          simp only [read] at appended
          cases appended
      | some buffer =>
          simp only [read] at appended
          cases appended
          exact ⟨rfl, mailstreamReadLineAppend_prefix s source.buffer read⟩

theorem mailimapLiteralParse_passed {ctx : ParserContext} {source after : Source} {before buffered literal : List UInt8}
    {count token : Nat} (at_ : source.buffer = before ++ literalHead false count ++ buffered)
    (parsed : mailimapLiteralParse ctx source before.length = (.ok (literal, token), after)) :
    ∃ passed, before ++ passed <+: after.buffer ∧ (before ++ passed).length ≤ token ∧ LF ∈ passed := by
  have start : source.buffer.drop before.length = literalHead false count ++ buffered := by
    rw [at_]
    exact literalSource_at before count buffered
  rw [mailimapLiteralParse, literalHeadParse_at start] at parsed
  split_ifs at parsed
  · cases parsed
  dsimp only at parsed
  split_ifs at parsed
  · obtain ⟨rfl, grown⟩ := appendFollowingLine_ok parsed
    refine ⟨literalHead false count, ?_, ?_, by simp [literalHead]⟩
    · rw [at_] at grown
      exact (List.prefix_append _ _).trans grown
    · rw [List.length_append]
      omega
  · cases stream : source.fd with
    | none =>
        simp only [stream] at parsed
        cases parsed
    | some s =>
        simp only [stream] at parsed
        split at parsed
        · cases parsed
        · obtain ⟨rfl, grown⟩ := appendFollowingLine_ok parsed
          have front : source.buffer.take (before.length + 1) = before ++ [ascii '{'] := by
            rw [at_, List.append_assoc, List.take_append, List.take_of_length_le (by omega), Nat.add_sub_cancel_left]
            rfl
          refine ⟨[ascii '{', ascii '0', ascii '}', CR, LF], ?_, ?_, by simp⟩
          · rw [front, List.append_assoc] at grown
            exact grown
          · rw [List.length_append]
            exact Nat.le_refl _

theorem mailimapAstringParse_brace {ctx : ParserContext} {source : Source} {indx : Nat} {rest : List UInt8}
    (at_ : source.buffer.drop indx = ascii '{' :: rest) :
    mailimapAstringParse ctx source indx = mailimapLiteralParse ctx source indx := by
  have notAtom : mailimapAtomAstringParse source.buffer indx = none :=
    mailimapCustomStringParse_other at_ (by decide) (by decide)
  rw [mailimapAstringParse, notAtom, mailimapStringParse_brace at_]
  dsimp only
  rcases mailimapLiteralParse ctx source indx with ⟨reason | ⟨string, curToken⟩, after⟩
  · rfl
  · rfl

/-- The name that is read for a literal holds the line break of the literal's head. -/
theorem mailimapMailboxGmailParse_literal {ctx : ParserContext} {source : Source} {before buffered name : List UInt8}
    {count token : Nat} (at_ : source.buffer = before ++ literalHead false count ++ buffered)
    (parsed : (mailimapMailboxGmailParse ctx source before.length).1 = .ok (name, token)) : LF ∈ name := by
  have brace : source.buffer.drop before.length = ascii '{' :: (decimal count ++ [ascii '}', CR, LF] ++ buffered) := by
    rw [at_, literalSource_at]
    simp [literalHead]
  have inside : before.length ≤ source.buffer.length := by
    rw [at_, List.length_append, List.length_append]
    omega
  have kept := mailimapAstringParse_keepsFront ctx source before.length inside
  rw [mailimapMailboxGmailParse, mailimapStructSpacedListParse, mailimapStructListParse] at parsed
  rcases first : mailimapAstringParse ctx source before.length with ⟨reason | ⟨astring, next⟩, after⟩
  · rw [first] at parsed
    cases parsed
  · rw [first] at kept parsed
    rw [mailimapAstringParse_brace brace] at first
    obtain ⟨passed, front, short, lineBreak⟩ := mailimapLiteralParse_passed at_ first
    have reached := kept.reached astring next rfl
    -- the items that follow leave it there
    have later : KeptFront after.buffer next
        (structListLoop (ascii ' ') (mailimapAstringParse ctx) (source.octets + 1) after next [astring] next) :=
      structListLoop_keptFront (mailimapAstringParse_keepsFront ctx) _ after _ reached.inside (Nat.le_refl next)
    dsimp only at parsed
    revert parsed later
    rcases structListLoop (ascii ' ') (mailimapAstringParse ctx) (source.octets + 1) after next [astring] next with
      ⟨reason | ⟨astrings, last⟩, final⟩
    all_goals intro parsed later
    · cases parsed
    · cases parsed
      have forward := (later.reached _ _ rfl).forward
      have whole : before ++ passed <+: final.buffer := by
        have cut : before ++ passed <+: after.buffer.take next := List.prefix_take_iff.mpr ⟨front, short⟩
        exact cut.trans later.front
      obtain ⟨more, buffer_eq⟩ := whole
      rw [List.length_append] at short
      rw [← buffer_eq, List.append_assoc, List.drop_left, List.take_append, List.take_of_length_le (by omega)]
      exact List.mem_append_left _ lineBreak

/-- The ways in which a server may write a mailbox name. -/
inductive NameForm where
  | atom
  | quoted
  | literal
deriving Repr, DecidableEq

def NameForm.text (form : NameForm) (name : List UInt8) : List UInt8 :=
  match form with
  | .atom => name
  | .quoted => quotedText name
  | .literal => literalHead false name.length ++ name

def NameForm.Allows (form : NameForm) (name : List UInt8) : Prop :=
  form = .atom → name ≠ [] ∧ ∀ byte ∈ name, isAstringChar byte = true

def statusText (form : NameForm) (name : List UInt8) (items : List StatusItem) : List UInt8 :=
  asciiText "STATUS " ++ (form.text name ++ (asciiText " (" ++ (statusItemsText items ++ asciiText ")\r\n")))

/-- The line that the response starts with: a literal's head ends it. -/
def statusLine (form : NameForm) (name : List UInt8) (items : List StatusItem) : List UInt8 :=
  match form with
  | .literal => asciiText "STATUS " ++ literalHead false name.length
  | _ => statusText form name items

def Source.incoming (source : Source) : List UInt8 :=
  match source.fd with
  | some s => s.incoming
  | none => []

/-- The response is received behind `before`: its first line is in the buffer, and the
stream delivers what is not. -/
structure StatusReceived (source : Source) (before : List UInt8) (form : NameForm) (name : List UInt8)
    (items : List StatusItem) (rest : List UInt8) : Prop where
  line : before ++ statusLine form name items <+: source.buffer
  delivered : source.buffer ++ source.incoming = before ++ statusText form name items ++ rest

def ReadsStatus (ctx : ParserContext) (source : Source) (indx : Nat) (name : List UInt8) (items : List StatusItem) : Prop :=
  ∃ token, (mailimapMailboxDataStatusParse ctx source indx).1 =
    .ok ({ stMailbox := name, stInfoList := statusInfoList items }, token)

theorem mailimapMailboxDataStatusParse_start {ctx : ParserContext} {source : Source} {indx : Nat} {byte : UInt8}
    {rest : List UInt8} (at_ : source.buffer.drop indx = asciiText "STATUS " ++ byte :: rest)
    (visible : isSpaceOrTab byte = false) :
    mailimapMailboxDataStatusParse ctx source indx =
      match mailimapMailboxGmailParse ctx source (indx + 7) with
      | (.ok (mb, curToken), after) => statusInfosParse mb after curToken
      | (.error reason, after) => (.error reason, after) := by
  have keyword : mailimapTokenCaseInsensitiveParse source.buffer indx (asciiText "STATUS") = some (indx + 6) :=
    mailimapTokenCaseInsensitiveParse_at at_ (by decide)
  have blank : source.buffer.drop (indx + 6) = ascii ' ' :: byte :: rest :=
    @drop_behind source.buffer _ indx (asciiText "STATUS") at_
  have space : mailimapSpaceParse source.buffer (indx + 6) = some (indx + 7) := mailimapSpaceParse_at blank visible
  rw [mailimapMailboxDataStatusParse, keyword]
  simp only [Option.bind_eq_bind, Option.bind_some, space]
  rcases mailimapMailboxGmailParse ctx source (indx + 7) with ⟨reason | ⟨mb, curToken⟩, after⟩
  · rfl
  · rfl

theorem statusInfosParse_mailbox {mb : List UInt8} {source : Source} {curToken token : Nat} {status : MailboxDataStatus}
    (parsed : (statusInfosParse mb source curToken).1 = .ok (status, token)) : status.stMailbox = mb := by
  simp only [statusInfosParse] at parsed
  split at parsed
  · cases parsed
  · split at parsed
    · cases parsed
    · split at parsed
      · cases parsed
      · cases parsed
        rfl

/-- A name written in one astring and its values, with the rest of the line. -/
theorem mailimapMailboxDataStatusParse_one {ctx : ParserContext} {source : Source} {before text astring rest : List UInt8}
    {items : List StatusItem} {byte : UInt8} {others : List UInt8} (text_eq : text = byte :: others)
    (visible : isSpaceOrTab byte = false)
    (at_ : source.buffer.drop before.length = asciiText "STATUS " ++
      (text ++ (asciiText " (" ++ (statusItemsText items ++ ascii ')' :: rest))))
    (parsed : mailimapAstringParse ctx source (before.length + 7) = (.ok (astring, before.length + 7 + text.length), source)) :
    ∃ token, mailimapMailboxDataStatusParse ctx source before.length =
      (.ok ({ stMailbox := text, stInfoList := statusInfoList items }, token), source) := by
  have name : source.buffer.drop (before.length + 7) =
      text ++ (asciiText " (" ++ (statusItemsText items ++ ascii ')' :: rest)) := drop_behind at_
  have behind := drop_behind name
  rw [text_eq] at at_
  rw [mailimapMailboxDataStatusParse_start at_ visible, mailimapMailboxGmailParse_one name parsed]
  exact statusInfosParse_at behind

/-- A name is read as it is exactly when the server wrote it as an atom: of another form the
name that the client gets is the text of the response. -/
theorem mailimapMailboxDataStatusParse_name {ctx : ParserContext} {source : Source} {before name rest : List UInt8}
    {items : List StatusItem} {form : NameForm} (plain : ∀ byte ∈ name, byte ≠ CR ∧ byte ≠ LF ∧ byte ≠ 0)
    (allowed : form.Allows name) (received : StatusReceived source before form name items rest) :
    ReadsStatus ctx source before.length name items ↔ form = .atom := by
  obtain ⟨more, buffer_eq⟩ := received.line
  have start : source.buffer.drop before.length = statusLine form name items ++ more := by
    rw [← buffer_eq, List.append_assoc, List.drop_left]
  have whole : form ≠ .literal → source.buffer.drop before.length = asciiText "STATUS " ++
      (form.text name ++ (asciiText " (" ++ (statusItemsText items ++ ascii ')' :: ([CR, LF] ++ more)))) := by
    intro notLiteral
    have line : statusLine form name items = statusText form name items := by
      cases form with
      | atom => rfl
      | quoted => rfl
      | literal => exact absurd rfl notLiteral
    rw [start, line, statusText]
    simp only [List.append_assoc]
    rfl
  cases form with
  | atom =>
      obtain ⟨nonempty, chars⟩ := allowed rfl
      obtain ⟨byte, others, name_eq⟩ := List.exists_cons_of_ne_nil nonempty
      have visible := isAstringChar_visible (chars byte (by rw [name_eq]; simp))
      have at_ := whole (by decide)
      have parsed := @mailimapAstringParse_word ctx source (before.length + 7) name _ nonempty chars (drop_behind at_)
        (List.takeWhile_cons_of_neg (by decide))
      obtain ⟨token, result⟩ := mailimapMailboxDataStatusParse_one name_eq visible at_ parsed
      exact iff_of_true ⟨token, by rw [result]⟩ rfl
  | quoted =>
      have at_ := whole (by decide)
      have parsed := @mailimapAstringParse_quoted ctx source (before.length + 7) name _ (drop_behind at_)
      obtain ⟨token, result⟩ := mailimapMailboxDataStatusParse_one rfl (by decide) at_ parsed
      refine iff_of_false ?_ (by decide)
      rintro ⟨other, same⟩
      rw [result] at same
      injection same with same
      have name_eq : quotedText name = name := congrArg (fun found => found.1.stMailbox) same
      have longer := length_le_flatMap escaped_length_pos name
      have lengths := congrArg List.length name_eq
      rw [quotedText, List.length_append, List.length_cons] at lengths
      omega
  | literal =>
      have split : source.buffer = before ++ asciiText "STATUS " ++ literalHead false name.length ++ more := by
        rw [← buffer_eq, statusLine]
        simp only [List.append_assoc]
      have length : (before ++ asciiText "STATUS ").length = before.length + 7 := List.length_append
      have at_ : source.buffer.drop before.length = asciiText "STATUS " ++
          ascii '{' :: (decimal name.length ++ [ascii '}', CR, LF] ++ more) := by
        rw [start, statusLine]
        simp [literalHead]
      refine iff_of_false ?_ (by decide)
      rintro ⟨token, same⟩
      rw [mailimapMailboxDataStatusParse_start at_ (by decide)] at same
      rcases gmail : mailimapMailboxGmailParse ctx source (before.length + 7) with ⟨reason | ⟨mb, curToken⟩, after⟩
      · rw [gmail] at same
        cases same
      · rw [gmail] at same
        have name_eq : name = mb := statusInfosParse_mailbox same
        rw [← length] at gmail
        have lineBreak := mailimapMailboxGmailParse_literal split (by rw [gmail])
        rw [← name_eq] at lineBreak
        exact (plain LF lineBreak).2.1 rfl

def inbox : List UInt8 := asciiText "INBOX"

def threeMessages : StatusItem :=
  ⟨.messages, asciiText "Messages", 3, ⟨(.messages, asciiText "MESSAGES"), by decide⟩, by decide⟩

def largeModseq : StatusItem :=
  ⟨.highestmodseq, asciiText "HIGHESTMODSEQ", 2 ^ 40, ⟨(.highestmodseq, asciiText "HIGHESTMODSEQ"), by decide⟩,
    by decide⟩

theorem mailimapMailboxDataStatusParse_name_inbox :
    ReadsStatus ⟨false⟩ ⟨asciiText "* " ++ statusText .atom inbox [threeMessages, largeModseq], some (delivering [])⟩
      (asciiText "* ").length inbox [threeMessages, largeModseq] ↔ NameForm.atom = .atom :=
  @mailimapMailboxDataStatusParse_name ⟨false⟩ ⟨_, some (delivering [])⟩ (asciiText "* ") inbox []
    [threeMessages, largeModseq] .atom (by decide +kernel) (fun _ => by decide +kernel)
    ⟨List.prefix_rfl, by rw [List.append_nil]; exact List.append_nil _⟩

/-- A name in quotes is read with its quotes. -/
theorem mailimapMailboxDataStatusParse_keepsQuotes :
    ReadsStatus ⟨false⟩ ⟨asciiText "* " ++ statusText .quoted inbox [threeMessages], some (delivering [])⟩ 2
        (asciiText "\"INBOX\"") [threeMessages] ∧
    ¬ ReadsStatus ⟨false⟩ ⟨asciiText "* " ++ statusText .quoted inbox [threeMessages], some (delivering [])⟩ 2
        inbox [threeMessages] := by
  obtain ⟨token, read⟩ := @mailimapMailboxDataStatusParse_one ⟨false⟩
    ⟨asciiText "* " ++ statusText .quoted inbox [threeMessages], some (delivering [])⟩ (asciiText "* ")
    (quotedText inbox) inbox [CR, LF] [threeMessages] (ascii '"') _ rfl (by decide) rfl
    (mailimapAstringParse_quoted rfl)
  have result := congrArg Prod.fst read
  refine ⟨⟨token, result⟩, ?_⟩
  rintro ⟨other, same⟩
  have equal := result.symm.trans same
  injection equal with equal
  have name_eq : quotedText inbox = inbox := congrArg (fun found => found.1.stMailbox) equal
  revert name_eq
  decide

end Etpan.Imap
