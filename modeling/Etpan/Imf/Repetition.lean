import Etpan.Data.Repetition
import Etpan.Imf.MessageId

namespace Etpan.Imf

open Etpan.Data Etpan.Mime

/-! The parsers of repetitions of `low-level/imf/mailimf.c`: their loops end, each item takes octets, and nothing
is taken behind the last item. -/

/-- What a call leaves of its return value, of `* indx` and of `* result`: the last two are set on success. -/
def callParser {α : Type} (parser : List UInt8 → Except MailimfError (α × List UInt8)) (message : List UInt8) (indx : Nat) (result : α) :
    Except MailimfError Unit × Nat × α :=
  match parser (message.drop indx) with
  | .error error => (.error error, indx, result)
  | .ok (value, rest) => (.ok (), indx + ((message.drop indx).length - rest.length), value)

/-! ### The item parsers take octets -/

section Items

variable {text rest : List UInt8}

theorem addrSpecScan_suffix (text : List UInt8) :
    (addrSpecScan text).2 <:+ text ∧ (addrSpecScan text).1.length + (addrSpecScan text).2.length = text.length := by
  induction text with
  | nil => exact ⟨List.suffix_refl [], rfl⟩
  | cons ch rest ih =>
      rw [addrSpecScan]
      split_ifs
      · exact ⟨List.suffix_refl _, Nat.zero_add _⟩
      · refine ⟨ih.1.trans (List.suffix_cons ch rest), ?_⟩
        simp only [List.length_cons]
        omega

theorem mailimfAddrSpecParse_shorter {addrSpec : List UInt8} (parsed : mailimfAddrSpecParse text = some (addrSpec, rest)) :
    rest <:+ text ∧ rest.length < text.length := by
  rw [mailimfAddrSpecParse] at parsed
  split_ifs at parsed with nonempty
  cases parsed
  have scan := addrSpecScan_suffix (skipCfws text)
  have some_ := List.length_pos_iff.mpr nonempty
  have skipped := (skipCfws_suffix text).length_le
  exact ⟨scan.1.trans (skipCfws_suffix text), by omega⟩

theorem mailimfAngleAddrParse_shorter {addrSpec : List UInt8} (parsed : mailimfAngleAddrParse text = some (addrSpec, rest)) :
    rest <:+ text ∧ rest.length < text.length := by
  obtain ⟨opened, isOpen, inner⟩ := Option.bind_eq_some_iff.mp parsed
  have lower := mailimfUnstrictCharParse_shorter isOpen
  have outside := (skipCfws_suffix text).length_le
  -- The addr-spec, or the white space where there is none.
  have middle : ((mailimfAddrSpecParse opened).getD ([], skipCfws opened)).2 <:+ opened := by
    cases spec : mailimfAddrSpecParse opened with
    | none => exact skipCfws_suffix opened
    | some read => exact (mailimfAddrSpecParse_shorter spec).1
  dsimp only at inner
  generalize (mailimfAddrSpecParse opened).getD ([], skipCfws opened) = read at inner middle
  obtain ⟨closed, isClosed, same⟩ := Option.map_eq_some_iff.mp inner
  cases same
  have greater := mailimfUnstrictCharParse_shorter isClosed
  have within := middle.length_le
  exact ⟨((greater.1.trans middle).trans lower.1).trans (skipCfws_suffix text), by omega⟩

theorem phraseLoop_suffix {gphrase : List UInt8} {first missing : Bool} {read : PhraseRead}
    (parsed : phraseLoop gphrase first missing text = .ok read) : read.rest <:+ text := by
  induction length : text.length using Nat.strong_induction_on generalizing text gphrase first missing with
  | _ count ih =>
      cases word : mailimfFwsWordParse text with
      | error error =>
          by_cases isParse : error = .parse
          · subst isParse
            rw [phraseLoop_ends word] at parsed
            cases parsed
            exact List.suffix_refl _
          · rw [phraseLoop_error word isParse] at parsed
            cases parsed
      | ok found =>
          have shorter := mailimfFwsWordParse_shorter word
          rw [phraseLoop_word word] at parsed
          exact (ih found.rest.length (by omega) parsed rfl).trans shorter.1

theorem mailimfPhraseParse_progresses : Progresses mailimfPhraseParse := by
  intro text phrase rest parsed
  rw [mailimfPhraseParse] at parsed
  split at parsed
  · cases parsed
  next read loop =>
  split_ifs at parsed with noWord missing
  -- What is left of the loop is left of the words behind the first one.
  all_goals
    have shorter : read.rest <:+ text ∧ read.rest.length < text.length := by
      cases word : mailimfFwsWordParse text with
      | error error =>
          by_cases isParse : error = .parse
          · subst isParse
            rw [phraseLoop_ends word] at loop
            cases loop
            exact absurd rfl noWord
          · rw [phraseLoop_error word isParse] at loop
            cases loop
      | ok found =>
          rw [phraseLoop_word word] at loop
          have first := mailimfFwsWordParse_shorter word
          have others := phraseLoop_suffix loop
          exact ⟨others.trans first.1, Nat.lt_of_le_of_lt others.length_le first.2⟩
  · cases parsed
    cases quote : mailimfCharParse (ascii '"') read.rest with
    | none => exact shorter
    | some behind =>
        have spelled := mailimfCharParse_some.mp quote
        rw [spelled, List.length_cons] at shorter
        simp only [Option.getD_some]
        exact ⟨(List.suffix_cons _ behind).trans shorter.1, by omega⟩
  · cases parsed
    exact shorter

theorem orParse_ok {α : Type} {read : Option α} {value : α} (parsed : orParse read = .ok value) : read = some value := by
  cases read with
  | none => cases parsed
  | some found =>
      cases parsed
      rfl

theorem mailimfNameAddrParse_shorter {mailbox : MailimfMailbox} (parsed : mailimfNameAddrParse text = .ok (mailbox, rest)) :
    rest <:+ text ∧ rest.length < text.length := by
  have angle : ∀ {start : List UInt8} {name : Option (List UInt8)}, start <:+ text →
      orParse ((mailimfAngleAddrParse start).map fun found => ({ mbDisplayName := name, mbAddrSpec := found.1 : MailimfMailbox }, found.2)) =
        .ok (mailbox, rest) → rest <:+ text ∧ rest.length < text.length := by
    intro start name suffix found
    obtain ⟨⟨addrSpec, behind⟩, isAngle, same⟩ := Option.map_eq_some_iff.mp (orParse_ok found)
    cases same
    have shorter := mailimfAngleAddrParse_shorter isAngle
    exact ⟨shorter.1.trans suffix, Nat.lt_of_lt_of_le shorter.2 suffix.length_le⟩
  rw [mailimfNameAddrParse] at parsed
  dsimp only at parsed
  split at parsed
  · exact angle (List.suffix_refl text) parsed
  · cases parsed
  · next name behind isName => exact angle (mailimfPhraseParse_progresses isName).1 parsed

theorem mailimfMailboxParse_progresses : Progresses mailimfMailboxParse := by
  intro text mailbox rest parsed
  rw [mailimfMailboxParse] at parsed
  split at parsed
  · obtain ⟨⟨addrSpec, behind⟩, isSpec, same⟩ := Option.map_eq_some_iff.mp (orParse_ok parsed)
    cases same
    exact mailimfAddrSpecParse_shorter isSpec
  · exact mailimfNameAddrParse_shorter parsed

theorem shortens_char (symbol : UInt8) : Shortens (mailimfUnstrictCharParse symbol) := fun _ _ parsed => (mailimfUnstrictCharParse_shorter parsed).1

end Items

section Loops

variable {α : Type} {symbol : UInt8} {parser : List UInt8 → Except MailimfError (α × List UInt8)} (progresses : Progresses parser)

include progresses

theorem structListLoop_run {turns : Nat} {structList : List α} {final : List UInt8} (enough : final.length ≤ turns) :
    RepeatRun .parse (mailimfUnstrictCharParse symbol) parser structList final (structListLoop symbol parser turns structList final) := by
  induction turns generalizing structList final with
  | zero =>
      have noSymbol : mailimfUnstrictCharParse symbol final = none := by
        cases found : mailimfUnstrictCharParse symbol final with
        | none => rfl
        | some after =>
            have shorter := (mailimfUnstrictCharParse_shorter found).2
            omega
      rw [structListLoop]
      exact .noSeparator noSymbol
  | succ turns ih =>
      rw [structListLoop]
      cases found : mailimfUnstrictCharParse symbol final with
      | none => exact .noSeparator found
      | some after =>
          have separated := (mailimfUnstrictCharParse_shorter found).2
          cases read : parser after with
          | error error =>
              cases error with
              | parse =>
                  simp only [read]
                  exact .noItem found read
              | _ =>
                  simp only [read]
                  exact .fails found read MailimfError.noConfusion
          | ok item =>
              obtain ⟨value, rest⟩ := item
              simp only [read]
              have shorter := (progresses read).2
              exact .item found read (ih (by omega))

theorem mailimfStructListParse_repeats (text : List UInt8) :
    Repeats .parse (mailimfUnstrictCharParse symbol) parser text (mailimfStructListParse symbol parser text) := by
  rw [mailimfStructListParse]
  cases read : parser text with
  | error error => exact .fails read
  | ok item => exact .goesOn read (structListLoop_run progresses (Nat.le_refl _))

end Loops

section MultipleLoop

variable {α : Type} {parser : List UInt8 → Option (α × List UInt8)}

theorem structMultipleLoop_run (progresses : Progresses fun text => orParse (parser text)) {turns : Nat} {structList : List α}
    {text : List UInt8} (enough : text.length < turns) :
    RepeatRun .parse some (fun text => orParse (parser text)) structList text (.ok (structMultipleLoop parser turns structList text)) := by
  induction turns generalizing structList text with
  | zero => exact absurd enough (Nat.not_lt_zero _)
  | succ turns ih =>
      rw [structMultipleLoop]
      cases read : parser text with
      | none => exact .noItem rfl (by rw [read]; rfl)
      | some item =>
          obtain ⟨value, rest⟩ := item
          have parsed : orParse (parser text) = .ok (value, rest) := by
            rw [read]
            rfl
          have shorter := (progresses parsed).2
          exact .item rfl parsed (ih (by omega))

theorem mailimfStructMultipleParse_repeats (progresses : Progresses fun text => orParse (parser text)) (text : List UInt8) :
    Repeats .parse some (fun text => orParse (parser text)) text (orParse (mailimfStructMultipleParse parser text)) := by
  rw [mailimfStructMultipleParse]
  cases read : parser text with
  | none => exact .fails (by rw [read]; rfl)
  | some item =>
      obtain ⟨value, rest⟩ := item
      exact .goesOn (by rw [read]; rfl) (structMultipleLoop_run progresses (Nat.lt_succ_self _))

end MultipleLoop

section Addresses

variable {text rest : List UInt8}

theorem mailimfMailboxListParse_shorter {mbList : List MailimfMailbox} (parsed : mailimfMailboxListParse text = .ok (mbList, rest)) :
    rest <:+ text := by
  have repeats := @mailimfStructListParse_repeats _ (ascii ',') _ mailimfMailboxParse_progresses text
  rw [← mailimfMailboxListParse, parsed] at repeats
  exact (repeats.found.shorter (shortens_char _) mailimfMailboxParse_progresses).1

theorem mailimfGroupParse_progresses : Progresses mailimfGroupParse := by
  intro text group rest parsed
  have closed : ∀ {start : List UInt8} {name : List UInt8} {mbList : List MailimfMailbox}, start <:+ text →
      orParse ((mailimfSemiColonParse start).map fun rest => ({ grpDisplayName := name, grpMbList := mbList : MailimfGroup }, rest)) =
        .ok (group, rest) → rest <:+ text ∧ rest.length < text.length := by
    intro start name mbList suffix found
    obtain ⟨behind, semicolon, same⟩ := Option.map_eq_some_iff.mp (orParse_ok found)
    cases same
    have shorter := mailimfUnstrictCharParse_shorter semicolon
    exact ⟨shorter.1.trans suffix, Nat.lt_of_lt_of_le shorter.2 suffix.length_le⟩
  rw [mailimfGroupParse] at parsed
  split at parsed
  · cases parsed
  next name named isName =>
  split at parsed
  · cases parsed
  next members colon =>
  have start := (mailimfUnstrictCharParse_shorter colon).1.trans (mailimfPhraseParse_progresses isName).1
  dsimp only at parsed
  split at parsed
  · exact closed ((skipCfws_suffix members).trans start) parsed
  · cases parsed
  · next mbList behind isList => exact closed ((mailimfMailboxListParse_shorter isList).trans start) parsed

theorem mailimfAddressParse_progresses : Progresses mailimfAddressParse := by
  intro text address rest parsed
  rw [mailimfAddressParse] at parsed
  split at parsed
  · next group behind isGroup =>
    cases parsed
    exact mailimfGroupParse_progresses isGroup
  · cases isMailbox : mailimfMailboxParse text with
    | error error =>
        rw [isMailbox] at parsed
        cases parsed
    | ok found =>
        obtain ⟨mailbox, behind⟩ := found
        rw [isMailbox] at parsed
        cases parsed
        exact mailimfMailboxParse_progresses isMailbox
  · cases parsed

end Addresses

section Unwanted

variable {text rest : List UInt8}

theorem mailimfWordParse_shorter {word : List UInt8} (parsed : mailimfWordParse text = some (word, rest)) :
    rest <:+ text ∧ rest.length < text.length := by
  rw [mailimfWordParse] at parsed
  have skipped := skipCfws_suffix text
  rcases Option.or_eq_some_iff.mp parsed with isAtom | ⟨-, quoted⟩
  · rw [mailimfAtomParse] at isAtom
    split_ifs at isAtom with nonempty
    cases isAtom
    have whole := List.takeWhile_append_dropWhile (p := isAtext) (l := skipCfws text)
    have behind : (skipCfws text).dropWhile isAtext <:+ skipCfws text := List.dropWhile_suffix _
    have lengths := congrArg List.length whole
    rw [List.length_append] at lengths
    have some_ := List.length_pos_iff.mpr nonempty
    have within := skipped.length_le
    exact ⟨behind.trans skipped, by omega⟩
  · obtain ⟨content, opened, inner⟩ := Option.bind_eq_some_iff.mp quoted
    obtain ⟨behind, closed, same⟩ := Option.map_eq_some_iff.mp inner
    cases same
    have content_ := quotedStringLoop_suffix false content
    rw [mailimfCharParse_some.mp closed] at content_
    rw [mailimfCharParse_some.mp opened] at skipped
    have inside := (List.suffix_cons _ rest).trans content_
    have lengths := inside.length_le
    have outside := skipped.length_le
    rw [List.length_cons] at outside
    exact ⟨(inside.trans (List.suffix_cons _ content)).trans skipped, by omega⟩

theorem unwantedParsers_shorter : ∀ parse ∈ unwantedParsers, ∀ text rest, parse text = some rest → rest <:+ text ∧ rest.length < text.length := by
  intro parse member text rest parsed
  simp only [unwantedParsers, List.mem_cons, List.not_mem_nil, or_false] at member
  rcases member with rfl | rfl | rfl | rfl | rfl | rfl | rfl
  · obtain ⟨⟨word, behind⟩, isWord, same⟩ := Option.map_eq_some_iff.mp parsed
    cases same
    exact mailimfWordParse_shorter isWord
  all_goals exact mailimfUnstrictCharParse_shorter parsed

def takeToken (turn : Bool × List UInt8) (parse : List UInt8 → Option (List UInt8)) : Bool × List UInt8 :=
  match parse turn.2 with
  | some rest => (true, rest)
  | none => turn

theorem unwantedTurn_eq (text : List UInt8) : unwantedTurn text = unwantedParsers.foldl takeToken (false, text) := rfl

theorem takeToken_tokens {left : List (List UInt8 → Option (List UInt8))} (within : ∀ parse ∈ left, parse ∈ unwantedParsers)
    (turn : Bool × List UInt8) :
    ∃ count, Tokens unwantedParsers count turn.2 (left.foldl takeToken turn).2 ∧
      ((left.foldl takeToken turn).1 = true ↔ turn.1 = true ∨ 0 < count) ∧ (count = 0 → ∀ parse ∈ left, parse turn.2 = none) := by
  induction left generalizing turn with
  | nil =>
      refine ⟨0, .none, ?_, fun _ parse member => absurd member List.not_mem_nil⟩
      simp only [List.foldl_nil, Nat.lt_irrefl, or_false]
  | cons parse left ih =>
      have others : ∀ other ∈ left, other ∈ unwantedParsers := fun other member => within other (List.mem_cons_of_mem _ member)
      rw [List.foldl_cons]
      cases parsed : parse turn.2 with
      | none =>
          have same : takeToken turn parse = turn := by simp only [takeToken, parsed]
          rw [same]
          obtain ⟨count, tokens, flag, nothing⟩ := ih others turn
          refine ⟨count, tokens, flag, fun isZero other member => ?_⟩
          rcases List.mem_cons.mp member with rfl | member
          · exact parsed
          · exact nothing isZero other member
      | some rest =>
          have taken : takeToken turn parse = (true, rest) := by simp only [takeToken, parsed]
          rw [taken]
          obtain ⟨count, tokens, flag, -⟩ := ih others (true, rest)
          refine ⟨count + 1, .token (within parse List.mem_cons_self) parsed tokens, ?_, fun isZero => absurd isZero (Nat.succ_ne_zero count)⟩
          rw [flag]
          exact ⟨fun _ => .inr (Nat.succ_pos count), fun _ => .inl rfl⟩

theorem unwantedTurn_tokens (text : List UInt8) : ∃ count, Tokens unwantedParsers count text (unwantedTurn text).2 ∧
    ((unwantedTurn text).1 = true ↔ 0 < count) ∧ (count = 0 → ∀ parse ∈ unwantedParsers, parse text = none) := by
  obtain ⟨count, tokens, flag, nothing⟩ := takeToken_tokens (fun _ member => member) (false, text)
  rw [unwantedTurn_eq]
  refine ⟨count, tokens, flag.trans ?_, nothing⟩
  simp only [Bool.false_eq_true, false_or]

/-- The turns of the loop of `mailimf_parse_unwanted_msg_id`: it ends behind a turn that reads no token. -/
inductive UnwantedRun : List UInt8 → List UInt8 → Prop
  | stops {text : List UInt8} (none_ : (unwantedTurn text).1 = false) : UnwantedRun text (unwantedTurn text).2
  | goesOn {text rest : List UInt8} (some_ : (unwantedTurn text).1 = true) (further : UnwantedRun (unwantedTurn text).2 rest) :
      UnwantedRun text rest

theorem unwantedLoop_run {turns : Nat} (enough : text.length < turns) : UnwantedRun text (unwantedLoop turns text) := by
  induction turns generalizing text with
  | zero => exact absurd enough (Nat.not_lt_zero _)
  | succ turns ih =>
      rw [unwantedLoop]
      split_ifs with some_
      · obtain ⟨count, tokens, flag, -⟩ := unwantedTurn_tokens text
        have shorter := (tokens.shorter unwantedParsers_shorter).2
        have positive := flag.mp some_
        exact .goesOn some_ (ih (by omega))
      · exact .stops (Bool.eq_false_iff.mpr some_)

theorem mailimfParseUnwantedMsgId_run (text : List UInt8) : UnwantedRun text (mailimfParseUnwantedMsgId text) :=
  unwantedLoop_run (Nat.lt_succ_self _)

theorem UnwantedRun.tokens (run : UnwantedRun text rest) :
    ∃ count, Tokens unwantedParsers count text rest ∧ ∀ parse ∈ unwantedParsers, parse rest = none := by
  induction run with
  | @stops text none_ =>
      obtain ⟨count, tokens, flag, nothing⟩ := unwantedTurn_tokens text
      have isZero : count = 0 := by
        by_contra positive
        rw [flag.mpr (Nat.pos_of_ne_zero positive)] at none_
        cases none_
      subst isZero
      have same := nothing rfl
      generalize (unwantedTurn text).2 = rest at tokens
      cases tokens
      exact ⟨0, .none, same⟩
  | goesOn some_ further ih =>
      obtain ⟨count, tokens, -, -⟩ := unwantedTurn_tokens _
      obtain ⟨more, others, nothing⟩ := ih
      exact ⟨count + more, tokens.followed others, nothing⟩

theorem mailimfParseUnwantedMsgId_suffix (text : List UInt8) : mailimfParseUnwantedMsgId text <:+ text := by
  obtain ⟨count, tokens, -⟩ := (mailimfParseUnwantedMsgId_run text).tokens
  exact (tokens.shorter unwantedParsers_shorter).1

theorem addrSpecMsgIdScan_suffix (text : List UInt8) :
    (addrSpecMsgIdScan text).2 <:+ text ∧ (addrSpecMsgIdScan text).1.length + (addrSpecMsgIdScan text).2.length = text.length := by
  induction text with
  | nil => exact ⟨List.suffix_refl [], rfl⟩
  | cons ch rest ih =>
      rw [addrSpecMsgIdScan]
      split_ifs
      · exact ⟨List.suffix_refl _, Nat.zero_add _⟩
      · refine ⟨ih.1.trans (List.suffix_cons ch rest), ?_⟩
        simp only [List.length_cons]
        omega

theorem mailimfAddrSpecMsgIdParse_shorter {msgId : List UInt8} (parsed : mailimfAddrSpecMsgIdParse text = some (msgId, rest)) :
    rest <:+ text ∧ rest.length < text.length := by
  rw [mailimfAddrSpecMsgIdParse] at parsed
  split_ifs at parsed with nonempty
  cases parsed
  have scan := addrSpecMsgIdScan_suffix (skipCfws text)
  have some_ := List.length_pos_iff.mpr nonempty
  have skipped := (skipCfws_suffix text).length_le
  exact ⟨scan.1.trans (skipCfws_suffix text), by omega⟩

theorem unstrictChar_getD (symbol : UInt8) (text : List UInt8) : (mailimfUnstrictCharParse symbol text).getD text <:+ text := by
  cases found : mailimfUnstrictCharParse symbol text with
  | none => exact List.suffix_refl text
  | some rest => exact (mailimfUnstrictCharParse_shorter found).1

theorem mailimfMsgIdParse_shorter {msgId : List UInt8} (parsed : mailimfMsgIdParse text = some (msgId, rest)) :
    rest <:+ text ∧ rest.length < text.length := by
  have skipped := skipCfws_suffix text
  have within := skipped.length_le
  rw [mailimfMsgIdParse] at parsed
  dsimp only at parsed
  split at parsed
  · have shorter := mailimfAddrSpecMsgIdParse_shorter parsed
    exact ⟨shorter.1.trans skipped, by omega⟩
  next opened lower =>
  have isOpen := mailimfUnstrictCharParse_shorter lower
  obtain ⟨⟨found, behind⟩, isSpec, further⟩ := Option.bind_eq_some_iff.mp parsed
  obtain ⟨closed, isClosed, same⟩ := Option.bind_eq_some_iff.mp further
  cases same
  have inside : (mailimfGreaterParse closed).getD closed <:+ opened :=
    (((unstrictChar_getD _ closed).trans (mailimfUnstrictCharParse_shorter isClosed).1).trans (mailimfAddrSpecMsgIdParse_shorter isSpec).1).trans
      (unstrictChar_getD _ opened)
  have lengths := inside.length_le
  exact ⟨(inside.trans isOpen.1).trans skipped, by omega⟩

theorem mailimfUnstrictMsgIdParse_progresses : Progresses fun text => orParse (mailimfUnstrictMsgIdParse text) := by
  intro text msgid rest parsed
  obtain ⟨⟨found, behind⟩, isId, same⟩ := Option.bind_eq_some_iff.mp (orParse_ok parsed)
  cases same
  have shorter := mailimfMsgIdParse_shorter isId
  have before := (mailimfParseUnwantedMsgId_suffix (skipCfws text)).trans (skipCfws_suffix text)
  have after := mailimfParseUnwantedMsgId_suffix behind
  have lengths := before.length_le
  have fewer := after.length_le
  exact ⟨(after.trans shorter.1).trans before, by omega⟩

end Unwanted

section Calls

/-- A repetition on a message from an index: its loop ends with its outcome; a failure leaves `* indx` and `* result`;
a success leaves the index behind the last item, and each item takes an octet at least. -/
def ReadsItems {α : Type} (separator : List UInt8 → Option (List UInt8)) (parser : List UInt8 → Except MailimfError (α × List UInt8))
    (structParse : List UInt8 → Except MailimfError (List α × List UInt8)) : Prop :=
  Progresses parser ∧ ∀ (message : List UInt8) (indx : Nat) (result : List α),
    Repeats .parse separator parser (message.drop indx) (structParse (message.drop indx)) ∧
    (∀ error, (callParser structParse message indx result).1 = .error error → (callParser structParse message indx result).2 = (indx, result)) ∧
    ((callParser structParse message indx result).1 = .ok () →
      Items separator parser (message.drop indx) (callParser structParse message indx result).2.2
        (message.drop (callParser structParse message indx result).2.1) ∧
      indx + (callParser structParse message indx result).2.2.length ≤ (callParser structParse message indx result).2.1 ∧
      (callParser structParse message indx result).2.1 ≤ message.length)

theorem drop_suffix {message rest : List UInt8} {indx : Nat} (suffix : rest <:+ message.drop indx) :
    message.drop (indx + ((message.drop indx).length - rest.length)) = rest := by
  rw [← List.drop_drop]
  exact (List.suffix_iff_eq_drop.mp suffix).symm

theorem readsItems_of {α : Type} {separator : List UInt8 → Option (List UInt8)} {parser : List UInt8 → Except MailimfError (α × List UInt8)}
    {structParse : List UInt8 → Except MailimfError (List α × List UInt8)} (shortens : Shortens separator) (progresses : Progresses parser)
    (repeats : ∀ text, Repeats .parse separator parser text (structParse text)) : ReadsItems separator parser structParse := by
  refine ⟨progresses, fun message indx result => ?_⟩
  have run := repeats (message.drop indx)
  refine ⟨run, ?_⟩
  rw [callParser]
  cases outcome : structParse (message.drop indx) with
  | error error =>
      dsimp only
      exact ⟨fun _ _ => rfl, fun succeeded => by cases succeeded⟩
  | ok found =>
      obtain ⟨values, rest⟩ := found
      rw [outcome] at run
      have items := run.found
      have shorter := items.shorter shortens progresses
      have some_ : 0 < values.length := by
        cases items
        exact Nat.succ_pos _
      have lengths := shorter.2
      rw [List.length_drop] at lengths
      refine ⟨fun error failed => (by cases failed), fun _ => ?_⟩
      dsimp only
      rw [drop_suffix shorter.1]
      refine ⟨items, ?_⟩
      rw [List.length_drop]
      omega

theorem mailimfStructParse_readsItems :
    ReadsItems (mailimfUnstrictCharParse (ascii ',')) mailimfMailboxParse mailimfMailboxListParse ∧
    ReadsItems (mailimfUnstrictCharParse (ascii ',')) mailimfAddressParse mailimfAddressListParse ∧
    ReadsItems (mailimfUnstrictCharParse (ascii ',')) mailimfPhraseParse (mailimfStructListParse (ascii ',') mailimfPhraseParse) ∧
    ReadsItems some (fun text => orParse (mailimfUnstrictMsgIdParse text)) (fun text => orParse (mailimfMsgIdListParse text)) ∧
    ∀ (message : List UInt8) (indx : Nat) (result : Unit),
      let call := callParser (fun text => .ok ((), mailimfParseUnwantedMsgId text)) message indx result
      call.1 = .ok () ∧ UnwantedRun (message.drop indx) (message.drop call.2.1) ∧
      ∃ count, Tokens unwantedParsers count (message.drop indx) (message.drop call.2.1) ∧ indx + count ≤ call.2.1 ∧
        (indx ≤ message.length → call.2.1 ≤ message.length) ∧ ∀ parse ∈ unwantedParsers, parse (message.drop call.2.1) = none := by
  refine ⟨readsItems_of (shortens_char _) mailimfMailboxParse_progresses (mailimfStructListParse_repeats mailimfMailboxParse_progresses),
    readsItems_of (shortens_char _) mailimfAddressParse_progresses (mailimfStructListParse_repeats mailimfAddressParse_progresses),
    readsItems_of (shortens_char _) mailimfPhraseParse_progresses (mailimfStructListParse_repeats mailimfPhraseParse_progresses),
    readsItems_of (fun _ _ same => ?_) mailimfUnstrictMsgIdParse_progresses
      (mailimfStructMultipleParse_repeats mailimfUnstrictMsgIdParse_progresses), fun message indx result => ?_⟩
  · cases same
    exact List.suffix_refl _
  · have run := mailimfParseUnwantedMsgId_run (message.drop indx)
    obtain ⟨count, tokens, nothing⟩ := run.tokens
    have shorter := tokens.shorter unwantedParsers_shorter
    have lengths := shorter.2
    dsimp only [callParser]
    rw [drop_suffix shorter.1]
    refine ⟨rfl, run, count, tokens, ?_, fun within => ?_, nothing⟩
    · omega
    · rw [List.length_drop]
      omega

end Calls

end Etpan.Imf
