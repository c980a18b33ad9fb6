import Etpan.Imf.Address
import Etpan.Imf.Word

namespace Etpan.Imf

open Etpan.Data Etpan.Mime

/-! Lists of message ids: `mailimf_msg_id_list_parse` of `low-level/imf/mailimf.c` and
`mailimf_msg_id_list_write_driver` of `low-level/imf/mailimf_write_generic.c`. -/

/-- The parsers that a turn of the loop of `mailimf_parse_unwanted_msg_id` tries one after another. -/
def unwantedParsers : List (List UInt8 → Option (List UInt8)) :=
  [fun text => (mailimfWordParse text).map Prod.snd, mailimfSemiColonParse, mailimfCommaParse, mailimfPlusParse, mailimfColonParse,
    mailimfPointParse, mailimfAtSignParse]

def unwantedTurn (text : List UInt8) : Bool × List UInt8 :=
  unwantedParsers.foldl (fun turn parse =>
    match parse turn.2 with
    | some rest => (true, rest)
    | none => turn) (false, text)

/-- A turn that parses a token takes octets, so that `turns` may be their number. -/
def unwantedLoop : Nat → List UInt8 → List UInt8
  | 0, text => text
  | turns + 1, text => if (unwantedTurn text).1 then unwantedLoop turns (unwantedTurn text).2 else (unwantedTurn text).2

def mailimfParseUnwantedMsgId (text : List UInt8) : List UInt8 := unwantedLoop (text.length + 1) text

def addrSpecMsgIdScan : List UInt8 → List UInt8 × List UInt8
  | [] => ([], [])
  | ch :: rest =>
      if ch = ascii '>' ∨ (ch = CR ∨ ch = LF) ∧ startsFws (ch :: rest) = false then ([], ch :: rest)
      else (ch :: (addrSpecMsgIdScan rest).1, (addrSpecMsgIdScan rest).2)

def mailimfAddrSpecMsgIdParse (text : List UInt8) : Option (List UInt8 × List UInt8) :=
  let read := addrSpecMsgIdScan (skipCfws text)
  if read.1 = [] then none else some (cString (read.1.filter fun ch => !isAddrSpecBlank ch), read.2)

/-- The brackets may be left out or doubled. -/
def mailimfMsgIdParse (text : List UInt8) : Option (List UInt8 × List UInt8) :=
  let text := skipCfws text
  match mailimfLowerParse text with
  | none => mailimfAddrSpecMsgIdParse text
  | some text => do
      let (msgId, text) ← mailimfAddrSpecMsgIdParse ((mailimfLowerParse text).getD text)
      let text ← mailimfGreaterParse text
      some (msgId, (mailimfGreaterParse text).getD text)

def mailimfUnstrictMsgIdParse (text : List UInt8) : Option (List UInt8 × List UInt8) := do
  let (msgid, text) ← mailimfMsgIdParse (mailimfParseUnwantedMsgId (skipCfws text))
  some (msgid, mailimfParseUnwantedMsgId text)

section Multiple

variable {α : Type} (parser : List UInt8 → Option (α × List UInt8))

/-- The loop over the items behind the first, each of which takes octets. -/
def structMultipleLoop : Nat → List α → List UInt8 → List α × List UInt8
  | 0, structList, text => (structList, text)
  | turns + 1, structList, text =>
      match parser text with
      | none => (structList, text)
      | some (value, rest) => structMultipleLoop turns (structList ++ [value]) rest

def mailimfStructMultipleParse (text : List UInt8) : Option (List α × List UInt8) :=
  (parser text).map fun (value, rest) => structMultipleLoop parser (rest.length + 1) [value] rest

end Multiple

def mailimfMsgIdListParse : List UInt8 → Option (List (List UInt8) × List UInt8) := mailimfStructMultipleParse mailimfUnstrictMsgIdParse

/-- Whether the line is folded before a message id; it is not before the first one. -/
def foldsMsgId (first : Bool) (col : Nat) (msgid : List UInt8) : Bool := !first && 1 < col && maxMailCol ≤ col + msgid.length

def msgIdListWriteLoop : Bool → Written → List (List UInt8) → Written
  | _, out, [] => out
  | first, out, msgid :: rest =>
      let out :=
        if foldsMsgId first out.col msgid then writeString out headerFold
        else if first then out
        else writeString out [ascii ' ']
      msgIdListWriteLoop false (writeString (writeString (writeString out [ascii '<']) msgid) [ascii '>']) rest

def mailimfMsgIdListWriteDriver (out : Written) (midList : List (List UInt8)) : Written := msgIdListWriteLoop true out midList

def isMsgIdOctet (ch : UInt8) : Bool :=
  (ascii 'a' ≤ ch && ch ≤ ascii 'z') || (ascii 'A' ≤ ch && ch ≤ ascii 'Z') || (ascii '0' ≤ ch && ch ≤ ascii '9') ||
    ch ∈ asciiText ".@$%+-_=/"

structure MsgId (msgid : List UInt8) : Prop where
  nonempty : msgid ≠ []
  octets : ∀ ch ∈ msgid, isMsgIdOctet ch = true
  short : msgid.length ≤ 900

/-- Each id in its brackets, with white space before it. -/
inductive SpellsIds : List (List UInt8) → List UInt8 → Prop
  | nil : SpellsIds [] []
  | cons {msgid lead text : List UInt8} {rest : List (List UInt8)} (skipped : Skipped lead) (others : SpellsIds rest text) :
      SpellsIds (msgid :: rest) (lead ++ ascii '<' :: (msgid ++ ascii '>' :: text))

theorem isMsgIdOctet_octets : ∀ ch, isMsgIdOctet ch = true →
    (ch ≠ CR ∧ ch ≠ LF) ∧ ch ≠ 0 ∧ ch ≠ ascii '>' ∧ ch ≠ ascii '<' ∧ ch ≠ ascii '(' ∧ isBlankOctet ch = false ∧ isAddrSpecBlank ch = false :=
  forall_octet (by decide +kernel)

theorem MsgId.breakFree {msgid : List UInt8} (isId : MsgId msgid) : BreakFree msgid :=
  fun ch member => (isMsgIdOctet_octets ch (isId.octets ch member)).1

theorem msgIdListWriteLoop_spells {msgids : List (List UInt8)} (areIds : ∀ msgid ∈ msgids, MsgId msgid) (first : Bool) (out : Written) :
    ∃ text, (msgIdListWriteLoop first out msgids).data = out.data ++ text ∧ SpellsIds msgids text := by
  induction msgids generalizing first out with
  | nil => exact ⟨[], (List.append_nil _).symm, .nil⟩
  | cons msgid rest ih =>
      have isId := areIds msgid List.mem_cons_self
      have bracketed : ∀ out : Written, (writeString (writeString (writeString out [ascii '<']) msgid) [ascii '>']).data =
          out.data ++ ascii '<' :: (msgid ++ [ascii '>']) := by
        intro out
        rw [writeString_breakFree (by decide) (by decide), writeString_breakFree isId.breakFree (Nat.le_trans isId.short (by decide)),
          writeString_breakFree (by decide) (by decide)]
        simp only [List.append_assoc, List.cons_append, List.nil_append]
      have led : ∃ lead, Skipped lead ∧ (if foldsMsgId first out.col msgid then writeString out headerFold
          else if first then out else writeString out [ascii ' ']).data = out.data ++ lead := by
        split
        · exact ⟨headerFold, skipped_fold, by rw [writeString_fold]⟩
        · split
          · exact ⟨[], skipped_nil, (List.append_nil _).symm⟩
          · exact ⟨[ascii ' '], skipped_blank, by rw [writeString_breakFree (by decide) (by decide)]⟩
      obtain ⟨lead, skipped, leadData⟩ := led
      obtain ⟨text, written, spelled⟩ := ih (fun other member => areIds other (List.mem_cons_of_mem _ member)) false
        (writeString (writeString (writeString (if foldsMsgId first out.col msgid then writeString out headerFold
          else if first then out else writeString out [ascii ' ']) [ascii '<']) msgid) [ascii '>'])
      refine ⟨lead ++ ascii '<' :: (msgid ++ ascii '>' :: text), ?_, .cons skipped spelled⟩
      rw [msgIdListWriteLoop]
      refine written.trans ?_
      rw [bracketed, leadData]
      simp only [List.append_assoc, List.cons_append, List.nil_append]

section Stops

variable {text : List UInt8} {ch : UInt8} {rest : List UInt8}

theorem mailimfParseUnwantedMsgId_stops (started : skipCfws text = ch :: rest) (stops : ch = ascii '<' ∨ ch = CR) :
    mailimfParseUnwantedMsgId text = text := by
  have noToken : ∀ token, token ∈ asciiText ";,+:.@" → mailimfUnstrictCharParse token text = none := by
    intro token member
    rw [mailimfUnstrictCharParse, started, mailimfCharParse, if_neg]
    rintro rfl
    rcases stops with rfl | rfl <;> revert member <;> decide
  have noWord : mailimfWordParse text = none := by
    refine mailimfWordParse_none started ?_ ?_ <;>
      rcases stops with rfl | rfl <;> simp only [List.head?_cons, Option.any_some] <;> decide
  have turn : unwantedTurn text = (false, text) := by
    simp only [unwantedTurn, unwantedParsers, List.foldl_cons, List.foldl_nil, noWord, Option.map_none, mailimfSemiColonParse,
      mailimfCommaParse, mailimfPlusParse, mailimfColonParse, mailimfPointParse, mailimfAtSignParse,
      noToken (ascii ';') (by decide), noToken (ascii ',') (by decide), noToken (ascii '+') (by decide),
      noToken (ascii ':') (by decide), noToken (ascii '.') (by decide), noToken (ascii '@') (by decide)]
  rw [mailimfParseUnwantedMsgId, unwantedLoop, turn]
  rfl

end Stops

theorem addrSpecMsgIdScan_id {msgid : List UInt8} (octets : ∀ ch ∈ msgid, isMsgIdOctet ch = true) (rest : List UInt8) :
    addrSpecMsgIdScan (msgid ++ ascii '>' :: rest) = (msgid, ascii '>' :: rest) := by
  induction msgid with
  | nil => rfl
  | cons ch msgid ih =>
      obtain ⟨notBreak, -, notGreater, -⟩ := isMsgIdOctet_octets ch (octets ch List.mem_cons_self)
      have goesOn : ¬ (ch = ascii '>' ∨ (ch = CR ∨ ch = LF) ∧ startsFws (ch :: (msgid ++ ascii '>' :: rest)) = false) := by
        rintro (same | ⟨isBreak, -⟩)
        · exact notGreater same
        · exact isBreak.elim notBreak.1 notBreak.2
      rw [List.cons_append, addrSpecMsgIdScan, if_neg goesOn, ih fun other member => octets other (List.mem_cons_of_mem _ member)]

def EndsList (text : List UInt8) : Prop := ∃ ch rest, text = CR :: LF :: ch :: rest ∧ isWspChar ch = false

section Follows

variable {msgids : List (List UInt8)} {text tail : List UInt8}

theorem skipCfws_break (ends : EndsList tail) : skipCfws tail = tail := by
  obtain ⟨ch, rest, rfl, notBlank⟩ := ends
  have visible : startsFws (CR :: LF :: ch :: rest) = false := by
    have noBlank : isWspChar CR = false := by decide
    simp only [startsFws, noBlank, List.head?_cons, List.tail_cons, Option.any_some, notBlank, Bool.false_or, Bool.and_false]
    decide
  have same : skipFws (CR :: LF :: ch :: rest) = CR :: LF :: ch :: rest := by
    rw [skipFws, visible]
    rfl
  rw [skipCfws_of_skipFws, same]
  rw [same]
  exact fun isHead => absurd (Option.some.inj isHead) (by decide)

theorem SpellsIds.started (spelled : SpellsIds msgids text) (ends : EndsList tail) :
    ∃ ch rest, skipCfws (text ++ tail) = ch :: rest ∧ (ch = ascii '<' ∨ ch = CR) := by
  cases spelled with
  | nil =>
      rw [List.nil_append, skipCfws_break ends]
      obtain ⟨ch, rest, rfl, -⟩ := ends
      exact ⟨CR, _, rfl, .inr rfl⟩
  | cons skipped others =>
      rw [List.append_assoc, List.cons_append]
      exact ⟨ascii '<', _, skipped.cfws (by decide) (by decide), .inl rfl⟩

theorem mailimfUnstrictMsgIdParse_spelled {msgid lead : List UInt8} (isId : MsgId msgid) (skipped : Skipped lead)
    (others : SpellsIds msgids text) (ends : EndsList tail) :
    mailimfUnstrictMsgIdParse (lead ++ ascii '<' :: (msgid ++ ascii '>' :: text) ++ tail) = some (msgid, text ++ tail) := by
  obtain ⟨first, letters, spelled⟩ := List.exists_cons_of_ne_nil isId.nonempty
  have firstOctet := isMsgIdOctet_octets first (isId.octets first (by rw [spelled]; exact List.mem_cons_self))
  obtain ⟨-, -, -, notLower, noComment, visible, -⟩ := firstOctet
  obtain ⟨ch, rest, started, stops⟩ := others.started ends
  have bracket : ∀ after, skipCfws (ascii '<' :: after) = ascii '<' :: after := fun after =>
    @Skipped.cfws [] after _ skipped_nil (by decide) (by decide)
  have idStarts : skipCfws (msgid ++ ascii '>' :: (text ++ tail)) = msgid ++ ascii '>' :: (text ++ tail) := by
    rw [spelled]
    exact @Skipped.cfws [] _ first skipped_nil visible noComment
  have opened : ∀ after, mailimfLowerParse (ascii '<' :: after) = some after := fun after =>
    @Skipped.unstrictChar [] after _ skipped_nil (by decide) (by decide) (ascii '<')
  have once : mailimfLowerParse (msgid ++ ascii '>' :: (text ++ tail)) = none := by
    rw [spelled]
    exact (@Skipped.unstrictChar [] _ first skipped_nil visible noComment (ascii '<')).trans (if_neg notLower)
  have closed : mailimfGreaterParse (ascii '>' :: (text ++ tail)) = some (text ++ tail) :=
    @Skipped.unstrictChar [] _ _ skipped_nil (by decide) (by decide) (ascii '>')
  have notDoubled : mailimfGreaterParse (text ++ tail) = none := by
    rw [mailimfGreaterParse, mailimfUnstrictCharParse, started, mailimfCharParse, if_neg]
    rcases stops with rfl | rfl <;> decide
  have kept : msgid.filter (fun ch => !isAddrSpecBlank ch) = msgid :=
    List.filter_eq_self.mpr fun ch member => by
      rw [(isMsgIdOctet_octets ch (isId.octets ch member)).2.2.2.2.2.2]
      rfl
  have nulFree : NulFree msgid := fun ch member => (isMsgIdOctet_octets ch (isId.octets ch member)).2.1
  have read : mailimfAddrSpecMsgIdParse (msgid ++ ascii '>' :: (text ++ tail)) = some (msgid, ascii '>' :: (text ++ tail)) := by
    rw [mailimfAddrSpecMsgIdParse, idStarts, addrSpecMsgIdScan_id isId.octets]
    simp only [if_neg isId.nonempty, kept, cString_eq_self nulFree]
  have whole : skipCfws (lead ++ ascii '<' :: (msgid ++ ascii '>' :: text) ++ tail) =
      ascii '<' :: (msgid ++ ascii '>' :: (text ++ tail)) := by
    rw [List.append_assoc, List.cons_append, List.append_assoc, List.cons_append]
    exact skipped.cfws (by decide) (by decide)
  rw [mailimfUnstrictMsgIdParse, whole, mailimfParseUnwantedMsgId_stops (bracket _) (.inl rfl), mailimfMsgIdParse]
  simp only [bracket, opened, once, Option.getD_none, read, Option.bind_eq_bind, Option.bind_some, closed, notDoubled,
    mailimfParseUnwantedMsgId_stops started stops]

theorem mailimfUnstrictMsgIdParse_end (ends : EndsList tail) : mailimfUnstrictMsgIdParse tail = none := by
  have unfolded := skipCfws_break ends
  obtain ⟨ch, rest, rfl, notBlank⟩ := ends
  have noLower : mailimfLowerParse (CR :: LF :: ch :: rest) = none := by
    rw [mailimfLowerParse, mailimfUnstrictCharParse, unfolded, mailimfCharParse, if_neg (by decide)]
  have notFolded : startsFws (CR :: LF :: ch :: rest) = false := by
    have noBlank : isWspChar CR = false := by decide
    simp only [startsFws, noBlank, List.head?_cons, List.tail_cons, Option.any_some, notBlank, Bool.false_or, Bool.and_false]
    decide
  have nothing : mailimfAddrSpecMsgIdParse (CR :: LF :: ch :: rest) = none := by
    have scanned : addrSpecMsgIdScan (CR :: LF :: ch :: rest) = ([], CR :: LF :: ch :: rest) := if_pos (.inr ⟨.inl rfl, notFolded⟩)
    rw [mailimfAddrSpecMsgIdParse, unfolded, scanned]
    rfl
  rw [mailimfUnstrictMsgIdParse, unfolded, mailimfParseUnwantedMsgId_stops unfolded (.inr rfl), mailimfMsgIdParse, unfolded]
  simp only [noLower, nothing, Option.bind_eq_bind, Option.bind_none]

theorem structMultipleLoop_spelled (spelled : SpellsIds msgids text) (areIds : ∀ msgid ∈ msgids, MsgId msgid) (ends : EndsList tail)
    {turns : Nat} (enough : msgids.length < turns) (structList : List (List UInt8)) :
    structMultipleLoop mailimfUnstrictMsgIdParse turns structList (text ++ tail) = (structList ++ msgids, tail) := by
  induction spelled generalizing turns structList with
  | nil =>
      obtain ⟨turns, rfl⟩ := Nat.exists_eq_add_of_lt enough
      rw [structMultipleLoop, List.nil_append, mailimfUnstrictMsgIdParse_end ends, List.append_nil]
  | @cons msgid lead text rest skipped others ih =>
      obtain ⟨turns, rfl⟩ := Nat.exists_eq_add_of_lt enough
      have read := mailimfUnstrictMsgIdParse_spelled (areIds msgid List.mem_cons_self) skipped others ends
      rw [structMultipleLoop, read]
      dsimp only
      rw [ih (fun other member => areIds other (List.mem_cons_of_mem _ member)) (by rw [List.length_cons]; omega),
        List.append_assoc, List.singleton_append]

theorem SpellsIds.length_le (spelled : SpellsIds msgids text) : msgids.length ≤ text.length := by
  induction spelled with
  | nil => exact Nat.le_refl 0
  | cons _ _ ih =>
      simp only [List.length_append, List.length_cons]
      omega

theorem mailimfMsgIdListParse_spelled (spelled : SpellsIds msgids text) (nonempty : msgids ≠ [])
    (areIds : ∀ msgid ∈ msgids, MsgId msgid) (ends : EndsList tail) : mailimfMsgIdListParse (text ++ tail) = some (msgids, tail) := by
  cases spelled with
  | nil => exact absurd rfl nonempty
  | @cons msgid lead text rest skipped others =>
      have read := mailimfUnstrictMsgIdParse_spelled (areIds msgid List.mem_cons_self) skipped others ends
      have enough : rest.length < (text ++ tail).length + 1 := by
        have shorter := others.length_le
        rw [List.length_append]
        omega
      rw [mailimfMsgIdListParse, mailimfStructMultipleParse, read, Option.map_some]
      have run := structMultipleLoop_spelled others (fun other member => areIds other (List.mem_cons_of_mem _ member)) ends enough [msgid]
      exact congrArg some run

end Follows

/-- What is read back of a list that is written from a column and followed by a line end and an octet. -/
def msgIdListCycle (msgids : List (List UInt8)) (col : Nat) (follow : List UInt8) : Option (List (List UInt8) × List UInt8) :=
  mailimfMsgIdListParse ((mailimfMsgIdListWriteDriver { data := [], col } msgids).data ++ CR :: LF :: follow)

theorem msgIdListCycle_same {msgids : List (List UInt8)} (nonempty : msgids ≠ []) (areIds : ∀ msgid ∈ msgids, MsgId msgid) (col : Nat)
    {ch : UInt8} (notBlank : isWspChar ch = false) (rest : List UInt8) :
    msgIdListCycle msgids col (ch :: rest) = some (msgids, CR :: LF :: ch :: rest) := by
  obtain ⟨text, written, spelled⟩ := msgIdListWriteLoop_spells areIds true { data := [], col }
  rw [msgIdListCycle, mailimfMsgIdListWriteDriver, written, List.nil_append]
  exact mailimfMsgIdListParse_spelled spelled nonempty areIds ⟨ch, rest, rfl, notBlank⟩

/-- A list of message ids survives any number of cycles, from whatever columns it is written and whatever fields follow it;
each time the parser stops at the end of the line. -/
theorem msgIdListCycle_cycles {msgids : List (List UInt8)} (nonempty : msgids ≠ []) (areIds : ∀ msgid ∈ msgids, MsgId msgid)
    (cycles : List (Nat × UInt8 × List UInt8)) (notBlank : ∀ cycle ∈ cycles, isWspChar cycle.2.1 = false) :
    (∀ cycle ∈ cycles, msgIdListCycle msgids cycle.1 (cycle.2.1 :: cycle.2.2) =
      some (msgids, CR :: LF :: cycle.2.1 :: cycle.2.2)) ∧
    cycles.foldlM (fun read cycle => (msgIdListCycle read cycle.1 (cycle.2.1 :: cycle.2.2)).map Prod.fst) msgids = some msgids := by
  have once : ∀ cycle ∈ cycles, msgIdListCycle msgids cycle.1 (cycle.2.1 :: cycle.2.2) =
      some (msgids, CR :: LF :: cycle.2.1 :: cycle.2.2) := fun cycle member =>
    msgIdListCycle_same nonempty areIds cycle.1 (notBlank cycle member) cycle.2.2
  refine ⟨once, ?_⟩
  clear notBlank
  induction cycles with
  | nil => rfl
  | cons cycle cycles ih =>
      rw [List.foldlM_cons, once cycle List.mem_cons_self]
      exact ih fun other member => once other (List.mem_cons_of_mem _ member)

theorem msgIdListCycle_cycles_folded :
    (∀ cycle ∈ [(12, ascii 'S', []), (80, ascii 'X', [])], msgIdListCycle [asciiText "a.b@c", asciiText "1+2=3/4"] cycle.1 (cycle.2.1 :: cycle.2.2) =
      some ([asciiText "a.b@c", asciiText "1+2=3/4"], CR :: LF :: cycle.2.1 :: cycle.2.2)) ∧
    [(12, ascii 'S', []), (80, ascii 'X', [])].foldlM
      (fun read cycle => (msgIdListCycle read cycle.1 (cycle.2.1 :: cycle.2.2)).map Prod.fst) [asciiText "a.b@c", asciiText "1+2=3/4"] =
      some [asciiText "a.b@c", asciiText "1+2=3/4"] := by
  refine msgIdListCycle_cycles (by decide) (fun msgid member => ?_) _ (by decide)
  rcases List.mem_cons.mp member with rfl | member
  · exact ⟨by decide, by decide +kernel, by decide⟩
  · rw [List.mem_singleton.mp member]
    exact ⟨by decide, by decide +kernel, by decide⟩

end Etpan.Imf
