import Etpan.Mbox.Contents

namespace Etpan.Mbox

open Etpan.Data

/-! Expunging: the messages that are kept are found again in the new file. -/

theorem ofTail_data (line tail : List UInt8) (fields : List (List UInt8)) (ends : Nat × Nat × Nat) (uid : UInt32) :
    (SingleParse.ofTail line.length fields.flatten.length ends uid).data (line ++ (fields.flatten ++ tail)) =
      fields.flatten ++ tail.take ends.2.1 := by
  have width : line.length + fields.flatten.length + ends.2.1 - line.length = fields.flatten.length + ends.2.1 := by
    omega
  change ((line ++ (fields.flatten ++ tail)).drop line.length).take _ = _
  rw [List.drop_left, SingleParse.ofTail, width, List.take_length_add_append]

/-- What a message and the same message with a UID header have in common when they are fetched. -/
theorem writeFixedMessage_inserted {line tail number : List UInt8} {fields : List (List UInt8)}
    (parts : Parts line fields tail) (noBreak : ∀ byte ∈ number, byte ≠ CR ∧ byte ≠ LF)
    (notBlank : startsBlank tail = false) (fin : Nat) :
    writeFixedMessage ((fields ++ [uidLine number]).flatten ++ tail.take fin) none =
      writeFixedMessage (fields.flatten ++ tail.take fin) none := by
  have start : startsBlank (tail.take fin) = false := by
    cases tail with
    | nil => simp [startsBlank]
    | cons byte tail =>
        cases fin with
        | zero => rfl
        | succ fin => exact notBlank
  exact writeFixedMessage_uidLine (parts.fieldsThen.replace start) noBreak start

theorem digits_noBreak (uid : UInt32) : ∀ byte ∈ decimal uid.toNat, byte ≠ CR ∧ byte ≠ LF := by
  intro byte member
  have facts := digit_facts byte (decimal_digits byte member)
  exact ⟨facts.2.2.1, facts.1⟩

theorem foldUid_uidLine (fields : List (List UInt8)) (tail : List UInt8) (uid : UInt32) :
    foldUid 0 (fields ++ [uidLine (decimal uid.toNat)]) tail = uid := by
  have header := isUidHeader_uidLine (decimal uid.toNat) []
  rw [List.append_nil] at header
  rw [foldUid_snoc 0 fields _ tail header, fieldUid_uidLine]

def keptPiece (head tail : List UInt8) (uid : Option UInt32) : List UInt8 :=
  head ++ (uid.elim [] (fun uid => uidLine (decimal uid.toNat)) ++ tail)

/-- A piece in front of `following` is one message again, with the UID and the contents
that it should have. -/
structure Reparsed (piece following : List UInt8) (uid : UInt32) (data : List UInt8) : Prop where
  next : (singleParse (piece ++ following)).next = piece.length
  uid_eq : (singleParse (piece ++ following)).uid = uid
  fetched : writeFixedMessage ((singleParse (piece ++ following)).data (piece ++ following)) none =
    writeFixedMessage data none

theorem tailParse_fin_le (tail : List UInt8) : (tailParse tail).2.1 ≤ tail.length := by
  have crlf_le := mailimfCrlfParse_le tail
  obtain ⟨content, padding, more, split, ends, -⟩ :=
    (scanMail_endsAt (mailimfCrlfParse tail) tail.length tail.length (tail.drop (mailimfCrlfParse tail)) (by
      intro nothing
      have lengths := congrArg List.length nothing
      rw [List.length_drop, List.length_nil] at lengths
      omega)).cut
  have lengths := congrArg List.length split
  simp only [List.length_drop, List.length_append] at lengths
  rw [tailParse, ends]
  dsimp only
  omega

theorem Message.reparsed {line text following : List UInt8} {fields : List (List UInt8)}
    (message : Message line fields text) (follows : Follows following)
    (failed : mailimfIgnoreFieldParse (text ++ following) = none) (data : List UInt8)
    (fetched : writeFixedMessage (fields.flatten ++ text.take (tailParse text).2.1) none =
      writeFixedMessage data none) :
    Reparsed (line ++ (fields.flatten ++ text)) following (foldUid 0 fields text) data := by
  have parsed := message.singleParse follows failed
  have whole : line ++ (fields.flatten ++ text) ++ following = line ++ (fields.flatten ++ (text ++ following)) := by
    simp only [List.append_assoc]
  have text_next := (tailParse_follows message.endsBlank follows).2
  have fin_le := tailParse_fin_le text
  constructor
  · rw [whole, parsed]
    change line.length + fields.flatten.length + (tailParse text).2.2 = _
    rw [text_next, List.length_append, List.length_append]
    omega
  · rw [whole, parsed]
    rfl
  · rw [whole, parsed, ofTail_data, List.take_append_of_le_length fin_le]
    exact fetched

def SingleParse.headOf (found : SingleParse) (rest : List UInt8) : List UInt8 :=
  rest.take (found.startLen + found.headersLen)

def SingleParse.tailOf (found : SingleParse) (rest : List UInt8) : List UInt8 :=
  (rest.take found.next).drop (found.startLen + found.headersLen)

theorem ofTail_head (line tail : List UInt8) (fields : List (List UInt8)) (ends : Nat × Nat × Nat) (uid : UInt32) :
    (SingleParse.ofTail line.length fields.flatten.length ends uid).headOf (line ++ (fields.flatten ++ tail)) =
      line ++ fields.flatten := by
  change (line ++ (fields.flatten ++ tail)).take (line.length + fields.flatten.length) = _
  rw [← List.append_assoc, ← List.length_append, List.take_left]

theorem ofTail_tail (line tail : List UInt8) (fields : List (List UInt8)) (ends : Nat × Nat × Nat) (uid : UInt32) :
    (SingleParse.ofTail line.length fields.flatten.length ends uid).tailOf (line ++ (fields.flatten ++ tail)) =
      tail.take ends.2.2 := by
  change ((line ++ (fields.flatten ++ tail)).take (line.length + fields.flatten.length + ends.2.2)).drop
    (line.length + fields.flatten.length) = _
  rw [List.drop_take, Nat.add_sub_cancel_left, ← List.append_assoc, ← List.length_append, List.drop_left]

/-- What makes a message safe to be written in front of `following`: `tail` is what comes
behind its header fields, and `rest` is the file from its start. -/
structure SafePiece (startLen : Nat) (rest tail : List UInt8) (adds : Bool) (following : List UInt8) : Prop where
  /-- Nothing behind the header fields is taken for another one. -/
  fieldsEnd : mailimfIgnoreFieldParse (tail ++ following) = none
  /-- A UID header is not put in front of the separator line. -/
  separated : adds → startLen ≠ 0 ∨ ¬ fromPrefix <+: rest
  /-- The UID header is not continued. -/
  notBlank : adds → startsBlank tail = false
  /-- The UID header is not the end of the file. -/
  followed : adds → tail ++ following ≠ []

instance (startLen : Nat) (rest tail : List UInt8) (adds : Bool) (following : List UInt8) :
    Decidable (SafePiece startLen rest tail adds following) :=
  decidable_of_iff (mailimfIgnoreFieldParse (tail ++ following) = none ∧
      (adds → startLen ≠ 0 ∨ ¬ fromPrefix <+: rest) ∧ (adds → startsBlank tail = false) ∧
      (adds → tail ++ following ≠ []))
    ⟨fun ⟨fieldsEnd, separated, notBlank, followed⟩ => ⟨fieldsEnd, separated, notBlank, followed⟩,
      fun safe => ⟨safe.fieldsEnd, safe.separated, safe.notBlank, safe.followed⟩⟩

theorem reparsed_of_separator {region more following : List UInt8} (separator : fromPrefix <+: more)
    (next : (singleParse (region ++ more)).next = region.length) (follows : Follows following) {adds : Bool}
    (safe : SafePiece (singleParse (region ++ more)).startLen (region ++ more)
      ((singleParse (region ++ more)).tailOf (region ++ more)) adds following) (uid : UInt32) :
    Reparsed (keptPiece ((singleParse (region ++ more)).headOf (region ++ more))
        ((singleParse (region ++ more)).tailOf (region ++ more)) (if adds then some uid else none))
      following (if adds then uid else (singleParse (region ++ more)).uid)
      ((singleParse (region ++ more)).data (region ++ more)) := by
  obtain ⟨line, fields, text, region_eq, message, failed⟩ := message_of_region separator next
  have whole : region ++ more = line ++ (fields.flatten ++ (text ++ more)) := by
    rw [region_eq]
    simp only [List.append_assoc]
  have parsed := message.singleParse (.inr separator) failed
  have text_next := (tailParse_follows message.endsBlank (.inr separator)).2
  rw [whole] at safe ⊢
  have head_eq : (singleParse (line ++ (fields.flatten ++ (text ++ more)))).headOf
      (line ++ (fields.flatten ++ (text ++ more))) = line ++ fields.flatten := by
    rw [parsed]
    exact ofTail_head line _ fields _ _
  have tail_eq : (singleParse (line ++ (fields.flatten ++ (text ++ more)))).tailOf
      (line ++ (fields.flatten ++ (text ++ more))) = text := by
    rw [parsed, ofTail_tail, text_next, List.take_left]
  have data_eq : (singleParse (line ++ (fields.flatten ++ (text ++ more)))).data
      (line ++ (fields.flatten ++ (text ++ more))) = fields.flatten ++ text.take (tailParse text).2.1 := by
    rw [parsed, ofTail_data, List.take_append_of_le_length (tailParse_fin_le text)]
  have fieldsEnd := safe.fieldsEnd
  have notBlank := safe.notBlank
  rw [tail_eq] at fieldsEnd notBlank
  rw [head_eq, tail_eq, data_eq, parsed]
  cases adds with
  | false =>
      have piece_eq : keptPiece (line ++ fields.flatten) text none = line ++ (fields.flatten ++ text) := by
        simp [keptPiece]
      simp only [Bool.false_eq_true, if_false, piece_eq]
      exact message.reparsed follows fieldsEnd _ rfl
  | true =>
      have piece_eq : keptPiece (line ++ fields.flatten) text (some uid) =
          line ++ ((fields ++ [uidLine (decimal uid.toNat)]).flatten ++ text) := by
        simp [keptPiece]
      have parts := message.toParts.insert (digits_noBreak uid) (notBlank rfl)
      have inserted : Message line (fields ++ [uidLine (decimal uid.toNat)]) text := ⟨parts, message.endsBlank⟩
      have fetched := writeFixedMessage_inserted message.toParts (digits_noBreak uid) (notBlank rfl)
        (tailParse text).2.1
      simp only [if_true, piece_eq]
      have reparsed := inserted.reparsed follows fieldsEnd _ fetched
      rw [foldUid_uidLine] at reparsed
      exact reparsed

theorem reparsed_of_last {rest : List UInt8} (next : (singleParse rest).next = rest.length) {adds : Bool}
    (safe : SafePiece (singleParse rest).startLen rest ((singleParse rest).tailOf rest) adds []) (uid : UInt32) :
    Reparsed (keptPiece ((singleParse rest).headOf rest) ((singleParse rest).tailOf rest)
        (if adds then some uid else none))
      [] (if adds then uid else (singleParse rest).uid) ((singleParse rest).data rest) := by
  cases adds with
  | false =>
      have piece_eq : keptPiece ((singleParse rest).headOf rest) ((singleParse rest).tailOf rest) none = rest := by
        rw [keptPiece, SingleParse.headOf, SingleParse.tailOf, next, List.take_length]
        exact List.take_append_drop _ _
      simp only [Bool.false_eq_true, if_false, piece_eq]
      exact ⟨by rw [List.append_nil, next], by rw [List.append_nil], by rw [List.append_nil]⟩
  | true =>
      have separated := safe.separated rfl
      rcases singleParse_cases rest with ⟨open_, separator⟩ | ⟨line, fields, tail, split, kind, recognised, fieldsThen, failed⟩
      · have startLen : (singleParse rest).startLen = 0 := congrArg Prod.fst open_
        rcases separated with recognised | unlike
        · exact absurd startLen recognised
        · exact absurd separator unlike
      · have parsed : singleParse rest = .ofTail line.length fields.flatten.length (tailParse tail) (foldUid 0 fields tail) := by
          rw [split]
          exact singleParse_parts (split ▸ recognised) fieldsThen failed
        have parts : Parts line fields tail := by
          refine ⟨kind.imp_right fun ⟨noLine, _⟩ => ⟨noLine, ?_⟩, fieldsThen⟩
          rcases separated with recognised | unlike
          · rw [parsed, noLine] at recognised
            exact absurd rfl recognised
          · rw [split, noLine, List.nil_append] at unlike
            exact unlike
        have tail_next : (tailParse tail).2.2 = tail.length := by
          rw [parsed] at next
          have lengths := congrArg List.length split
          change line.length + fields.flatten.length + (tailParse tail).2.2 = rest.length at next
          simp only [List.length_append] at lengths
          omega
        have notBlank := safe.notBlank rfl
        rw [parsed, split, ofTail_tail, tail_next, List.take_length] at notBlank
        rw [parsed, split, ofTail_tail, ofTail_head, ofTail_data, tail_next, List.take_length]
        have piece_eq : keptPiece (line ++ fields.flatten) tail (some uid) =
            line ++ ((fields ++ [uidLine (decimal uid.toNat)]).flatten ++ tail) := by
          simp [keptPiece]
        have inserted := (parts.insert (digits_noBreak uid) notBlank).singleParse failed
        rw [foldUid_uidLine] at inserted
        simp only [if_true, piece_eq]
        refine ⟨?_, ?_, ?_⟩
        · rw [List.append_nil, inserted]
          change line.length + (fields ++ [uidLine (decimal uid.toNat)]).flatten.length + (tailParse tail).2.2 = _
          rw [tail_next, List.length_append, List.length_append]
          omega
        · rw [List.append_nil, inserted]
          rfl
        · rw [List.append_nil, inserted, ofTail_data]
          exact writeFixedMessage_inserted parts (digits_noBreak uid) notBlank _

theorem singleParse_follows (rest : List UInt8) : Follows (rest.drop (singleParse rest).next) := by
  obtain ⟨header, content, padding, more, split, -, -, next_eq, kind⟩ := (singleParse_cuts rest).split
  have behind : rest.drop (singleParse rest).next = more := by
    have position : (header ++ content ++ padding).length = (singleParse rest).next := by
      rw [List.length_append, List.length_append, next_eq]
    rw [← position]
    conv_lhs => rw [split]
    exact List.drop_left
  rw [behind]
  rcases kind with ⟨rfl, -⟩ | ⟨separator, -⟩
  · exact .inl rfl
  · exact .inr separator

theorem reparsed_piece {rest following : List UInt8} (nonempty : rest ≠ []) (follows : Follows following)
    (last : rest.drop (singleParse rest).next = [] → following = []) {adds : Bool}
    (safe : SafePiece (singleParse rest).startLen rest ((singleParse rest).tailOf rest) adds following) (uid : UInt32) :
    Reparsed (keptPiece ((singleParse rest).headOf rest) ((singleParse rest).tailOf rest)
        (if adds then some uid else none))
      following (if adds then uid else (singleParse rest).uid) ((singleParse rest).data rest) := by
  have progress := (singleParse_cuts rest).progress nonempty
  rcases singleParse_follows rest with nothing | separator
  · obtain rfl := last nothing
    have lengths := congrArg List.length nothing
    rw [List.length_drop, List.length_nil] at lengths
    exact reparsed_of_last (by omega) safe uid
  · have split := List.take_append_drop (singleParse rest).next rest
    have next : (singleParse (rest.take (singleParse rest).next ++ rest.drop (singleParse rest).next)).next =
        (rest.take (singleParse rest).next).length := by
      rw [split, List.length_take, min_eq_left progress.2]
    rw [← split] at safe
    have reparsed := reparsed_of_separator separator next follows safe uid
    rw [split] at reparsed
    exact reparsed

/-! ### The file without the deleted messages -/

def MailmboxFolder.headOf (folder : MailmboxFolder) (place : MsgPlace) : List UInt8 :=
  folder.slice place.msgStart (place.msgHeadersLen + place.msgStartLen)

def MailmboxFolder.tailOf (folder : MailmboxFolder) (place : MsgPlace) : List UInt8 :=
  folder.slice (place.msgHeaders + place.msgHeadersLen)
    (place.msgSize - (place.msgStartLen + place.msgHeadersLen) + place.msgPadding)

def MailmboxFolder.piece (folder : MailmboxFolder) (info : MailmboxMsgInfo) : List UInt8 :=
  keptPiece (folder.headOf info.toMsgPlace) (folder.tailOf info.toMsgPlace)
    (if folder.addsUid info then some info.msgUid else none)

def MailmboxFolder.pieces (folder : MailmboxFolder) (infos : List MailmboxMsgInfo) : List UInt8 :=
  (infos.map folder.piece).flatten

def MailmboxFolder.SafePieces (folder : MailmboxFolder) : List MailmboxMsgInfo → Prop
  | [] => True
  | info :: infos =>
      SafePiece info.msgStartLen (folder.mbMapping.drop info.msgStart) (folder.tailOf info.toMsgPlace)
        (folder.addsUid info) (folder.pieces infos) ∧ folder.SafePieces infos

instance MailmboxFolder.decidableSafePieces (folder : MailmboxFolder) :
    (infos : List MailmboxMsgInfo) → Decidable (folder.SafePieces infos)
  | [] => .isTrue trivial
  | _ :: infos =>
      have := folder.decidableSafePieces infos
      inferInstanceAs (Decidable (_ ∧ _))

theorem place_head {folder : MailmboxFolder} {before rest : List UInt8} (mapping : folder.mbMapping = before ++ rest) :
    folder.headOf ((singleParse rest).place before.length) = (singleParse rest).headOf rest := by
  rw [MailmboxFolder.headOf, MailmboxFolder.slice, mapping, SingleParse.headOf, Nat.add_comm]
  change ((before ++ rest).drop before.length).take _ = _
  rw [List.drop_left]
  rfl

theorem place_tail {folder : MailmboxFolder} {before rest : List UInt8} (mapping : folder.mbMapping = before ++ rest) :
    folder.tailOf ((singleParse rest).place before.length) = (singleParse rest).tailOf rest := by
  have cuts := singleParse_cuts rest
  have headers_le := cuts.headersLen_le
  obtain ⟨header, content, padding, more, -, body_eq, fin_eq, next_eq, -⟩ := cuts.split
  have width : (singleParse rest).fin - ((singleParse rest).startLen + (singleParse rest).headersLen) +
      ((singleParse rest).next - (singleParse rest).fin) =
        (singleParse rest).next - ((singleParse rest).startLen + (singleParse rest).headersLen) := by
    omega
  rw [MailmboxFolder.tailOf, MailmboxFolder.slice, mapping, SingleParse.tailOf, List.drop_take, ← width]
  change ((before ++ rest).drop (before.length + _ + _)).take _ = _
  rw [Nat.add_assoc, List.drop_length_add_append]
  rfl

theorem keptPiece_none (rest : List UInt8) :
    keptPiece ((singleParse rest).headOf rest) ((singleParse rest).tailOf rest) none =
      rest.take (singleParse rest).next := by
  have cuts := singleParse_cuts rest
  have headers_le := cuts.headersLen_le
  have body_le := body_le_next rest
  rw [keptPiece, SingleParse.headOf, SingleParse.tailOf]
  change rest.take _ ++ (rest.take _).drop _ = _
  conv_rhs => rw [← List.take_append_drop ((singleParse rest).startLen + (singleParse rest).headersLen)
    (rest.take (singleParse rest).next)]
  rw [List.take_take, min_eq_left (by omega)]

theorem separator_take {rest : List UInt8} (separator : fromPrefix <+: rest) :
    fromPrefix <+: rest.take (singleParse rest).next := by
  obtain ⟨header, content, padding, more, split, -, -, next_eq, kind⟩ := (singleParse_cuts rest).split
  have region : rest.take (singleParse rest).next = header ++ content ++ padding := by
    have position : (header ++ content ++ padding).length = (singleParse rest).next := by
      rw [List.length_append, List.length_append, next_eq]
    rw [← position]
    conv_lhs => rw [split]
    exact List.take_left
  rcases kind with ⟨rfl, -⟩ | ⟨-, nonempty, breaks, -⟩
  · rw [region]
    rwa [split, List.append_nil] at separator
  · by_contra unlike
    obtain ⟨byte, member⟩ := List.exists_mem_of_ne_nil _ nonempty
    apply not_separator_append unlike _ (rest.drop (singleParse rest).next)
    · rwa [List.take_append_drop]
    · exact ⟨byte, by rw [region]; exact List.mem_append_right _ member, breaks byte member⟩

theorem startLen_ge {rest : List UInt8} (recognised : (singleParse rest).startLen ≠ 0) :
    5 ≤ (singleParse rest).startLen := by
  change (fromLine rest).1 ≠ 0 at recognised
  change 5 ≤ (fromLine rest).1
  rw [fromLine] at recognised ⊢
  split_ifs at recognised ⊢ with separator
  · split at recognised
    · rename_i index found
      dsimp only
      omega
    · contradiction
  · contradiction

theorem separator_keptPiece {rest tail following : List UInt8} {adds : Bool} (separator : fromPrefix <+: rest)
    (safe : SafePiece (singleParse rest).startLen rest tail adds following) (uid : UInt32) :
    fromPrefix <+: keptPiece ((singleParse rest).headOf rest) ((singleParse rest).tailOf rest)
      (if adds then some uid else none) := by
  cases adds with
  | false =>
      simp only [Bool.false_eq_true, if_false, keptPiece_none]
      exact separator_take separator
  | true =>
      rcases safe.separated rfl with recognised | unlike
      · have startLen_ge := startLen_ge recognised
        apply List.IsPrefix.trans _ (List.prefix_append _ _)
        rw [List.prefix_iff_eq_take] at separator ⊢
        rw [SingleParse.headOf, List.take_take, min_eq_left]
        · exact separator
        · change 5 ≤ _
          omega
      · exact absurd separator unlike

def MailmboxFolder.KeptAs (folder : MailmboxFolder) (pair : MailmboxMsgInfo × UInt32) (content : UInt32 × List UInt8) :
    Prop :=
  content.1 = (if folder.addsUid pair.1 then pair.1.msgUid else pair.2) ∧
    writeFixedMessage content.2 none = writeFixedMessage (pair.1.toMsgPlace.data folder.mbMapping) none

theorem pieces_contents {folder : MailmboxFolder} {pairs : List (MailmboxMsgInfo × UInt32)} {before rest : List UInt8}
    (mapping : folder.mbMapping = before ++ rest)
    (laid : pairs.map (fun pair => (pair.1.toMsgPlace, pair.2)) = messagesFrom before.length rest)
    (safe : folder.SafePieces ((pairs.filter fun pair => !pair.1.msgDeleted).map (·.1))) :
    (Follows rest → Follows (folder.pieces ((pairs.filter fun pair => !pair.1.msgDeleted).map (·.1)))) ∧
      List.Forall₂ folder.KeptAs (pairs.filter fun pair => !pair.1.msgDeleted)
        (contentsFrom (folder.pieces ((pairs.filter fun pair => !pair.1.msgDeleted).map (·.1)))) := by
  induction pairs generalizing before rest with
  | nil =>
      refine ⟨fun _ => .inl rfl, ?_⟩
      change List.Forall₂ _ [] (contentsFrom [])
      rw [contentsFrom_nil]
      exact .nil
  | cons pair pairs ih =>
      have nonempty : rest ≠ [] := by
        rintro rfl
        rw [messagesFrom_nil] at laid
        contradiction
      have progress := (singleParse_cuts rest).progress nonempty
      rw [messagesFrom_cons _ nonempty, List.map_cons, List.cons.injEq, Prod.mk.injEq] at laid
      obtain ⟨⟨place_eq, header_eq⟩, laid⟩ := laid
      have mapping_behind : folder.mbMapping =
          before ++ rest.take (singleParse rest).next ++ rest.drop (singleParse rest).next := by
        rw [List.append_assoc, List.take_append_drop, mapping]
      have position : (before ++ rest.take (singleParse rest).next).length =
          before.length + (singleParse rest).next := by
        rw [List.length_append, List.length_take, min_eq_left progress.2]
      rw [← position] at laid
      cases deleted : pair.1.msgDeleted with
      | true =>
          have filtered : (pair :: pairs).filter (fun pair => !pair.1.msgDeleted) =
              pairs.filter fun pair => !pair.1.msgDeleted := by
            rw [List.filter_cons_of_neg (by simp [deleted])]
          rw [filtered] at safe ⊢
          obtain ⟨follows, contents⟩ := ih mapping_behind laid safe
          exact ⟨fun _ => follows (singleParse_follows rest), contents⟩
      | false =>
          have filtered : (pair :: pairs).filter (fun pair => !pair.1.msgDeleted) =
              pair :: pairs.filter fun pair => !pair.1.msgDeleted := by
            rw [List.filter_cons_of_pos (by simp [deleted])]
          rw [filtered, List.map_cons] at safe ⊢
          obtain ⟨safe, safe_behind⟩ := safe
          obtain ⟨follows, contents⟩ := ih mapping_behind laid safe_behind
          have last : rest.drop (singleParse rest).next = [] →
              folder.pieces ((pairs.filter fun pair => !pair.1.msgDeleted).map (·.1)) = [] := by
            intro nothing
            rw [nothing, messagesFrom_nil, List.map_eq_nil_iff] at laid
            rw [laid]
            rfl
          have piece_eq : folder.piece pair.1 = keptPiece ((singleParse rest).headOf rest)
              ((singleParse rest).tailOf rest) (if folder.addsUid pair.1 then some pair.1.msgUid else none) := by
            rw [MailmboxFolder.piece, place_eq, place_head mapping, place_tail mapping]
          have startLen_eq : pair.1.msgStartLen = (singleParse rest).startLen :=
            congrArg MsgPlace.msgStartLen place_eq
          have start_eq : folder.mbMapping.drop pair.1.msgStart = rest := by
            have start : pair.1.msgStart = before.length := congrArg MsgPlace.msgStart place_eq
            rw [start, mapping, List.drop_left]
          have data_eq : pair.1.toMsgPlace.data folder.mbMapping = (singleParse rest).data rest := by
            rw [place_eq, mapping, MsgPlace.data]
            change ((before ++ rest).drop (before.length + _)).take _ = _
            rw [List.drop_length_add_append]
            rfl
          rw [startLen_eq, start_eq, place_eq, place_tail mapping] at safe
          have reparsed := reparsed_piece nonempty (follows (singleParse_follows rest)) last safe pair.1.msgUid
          rw [← piece_eq] at reparsed
          have piece_ne : folder.piece pair.1 ≠ [] := by
            intro empty
            rw [piece_eq, keptPiece, List.append_eq_nil_iff, List.append_eq_nil_iff] at empty
            have region := congrArg List.length (keptPiece_none rest)
            rw [keptPiece, empty.1, empty.2.2, List.length_take, min_eq_left progress.2] at region
            exact progress.1.ne region
          have pieces_eq : folder.pieces (pair.1 :: (pairs.filter fun pair => !pair.1.msgDeleted).map (·.1)) =
              folder.piece pair.1 ++ folder.pieces ((pairs.filter fun pair => !pair.1.msgDeleted).map (·.1)) := rfl
          rw [pieces_eq]
          refine ⟨fun rest_follows => ?_, ?_⟩
          · rcases rest_follows with nothing | separator
            · exact absurd nothing nonempty
            · rw [piece_eq]
              exact .inr ((separator_keptPiece separator safe _).trans (List.prefix_append _ _))
          · rw [contentsFrom_cons (by simp [piece_ne]), reparsed.next, List.drop_left]
            exact .cons ⟨reparsed.uid_eq.trans (by rw [header_eq]), by rw [data_eq]; exact reparsed.fetched⟩ contents

theorem expungeMessage_piece {folder : MailmboxFolder} {size : Nat} {dest following : List UInt8}
    {info : MailmboxMsgInfo} (size_eq : size = dest.length + (folder.piece info).length + following.length)
    (followed : folder.addsUid info → folder.tailOf info.toMsgPlace ++ following ≠ []) :
    folder.expungeMessage size dest info = dest ++ folder.piece info := by
  rw [MailmboxFolder.piece, keptPiece] at size_eq ⊢
  rw [MailmboxFolder.expungeMessage]
  cases adds : folder.addsUid info with
  | false =>
      simp only [Bool.false_eq_true, if_false, Option.elim_none, List.nil_append, List.append_assoc]
      rfl
  | true =>
      have behind := List.length_pos_iff.mpr (followed adds)
      rw [List.length_append] at behind
      simp only [adds, if_true, Option.elim_some, List.length_append, uidLine_length] at size_eq
      have written : snprintf (size - (dest ++ folder.headOf info.toMsgPlace ++ (uidHeader ++ [SP])).length)
          (decimal info.msgUid.toNat ++ [LF]) = decimal info.msgUid.toNat ++ [LF] := by
        rw [snprintf, if_pos]
        simp only [List.length_append, List.length_singleton]
        omega
      rw [MailmboxFolder.headOf] at written
      simp only [if_true, written, Option.elim_some, uidLine]
      simp only [List.append_assoc, List.cons_append, List.nil_append]
      rfl

theorem expungeMessages_pieces {folder : MailmboxFolder} {infos : List MailmboxMsgInfo}
    (safe : folder.SafePieces infos) {size : Nat} {dest : List UInt8}
    (size_eq : size = dest.length + (folder.pieces infos).length) :
    infos.foldl (folder.expungeMessage size) dest = dest ++ folder.pieces infos := by
  induction infos generalizing dest with
  | nil => simp [MailmboxFolder.pieces]
  | cons info infos ih =>
      obtain ⟨safe, behind⟩ := safe
      have pieces_eq : folder.pieces (info :: infos) = folder.piece info ++ folder.pieces infos := rfl
      rw [pieces_eq, List.length_append] at size_eq
      rw [List.foldl_cons, expungeMessage_piece (size_eq.trans (Nat.add_assoc _ _ _).symm) safe.followed,
        ih behind (by rw [List.length_append]; omega), pieces_eq, List.append_assoc]

/-- The message infos are those of the file, and a UID that is in the file is theirs. -/
structure MailmboxFolder.Laid (folder : MailmboxFolder) : Prop where
  consistent : folder.Consistent
  places : folder.infos.map (·.toMsgPlace) = (messagesFrom 0 folder.mbMapping).map (·.1)
  written : List.Forall₂ (fun info (message : MsgPlace × UInt32) => info.msgWrittenUid = true → info.msgUid = message.2)
    folder.infos (messagesFrom 0 folder.mbMapping)

def MailmboxFolder.kept (folder : MailmboxFolder) : List MailmboxMsgInfo :=
  folder.infos.filter fun info => !info.msgDeleted

theorem expungedSize_eq {folder : MailmboxFolder} {info : MailmboxMsgInfo}
    (member : info.toMsgPlace ∈ (messagesFrom 0 folder.mbMapping).map (·.1)) :
    folder.expungedSize info = (folder.piece info).length ∧ 0 < folder.expungedSize info := by
  obtain ⟨message, listed, place_eq⟩ := List.mem_map.mp member
  obtain ⟨before, rest, mapping, nonempty, rfl⟩ := messagesFrom_mem listed
  rw [Nat.zero_add] at place_eq
  have progress := (singleParse_cuts rest).progress nonempty
  obtain ⟨header, content, padding, more, -, -, fin_eq, next_eq, -⟩ := (singleParse_cuts rest).split
  have region := congrArg List.length (keptPiece_none rest)
  rw [keptPiece, Option.elim_none, List.nil_append, List.length_append, List.length_take,
    min_eq_left progress.2] at region
  have size_eq : info.msgSize + info.msgPadding = (singleParse rest).next := by
    rw [← place_eq]
    change (singleParse rest).fin + ((singleParse rest).next - (singleParse rest).fin) = (singleParse rest).next
    omega
  rw [MailmboxFolder.expungedSize, size_eq, MailmboxFolder.piece, keptPiece, ← place_eq, place_head mapping,
    place_tail mapping, List.length_append, List.length_append]
  cases folder.addsUid info with
  | false =>
      simp only [Bool.false_eq_true, if_false, Option.elim_none, List.length_nil]
      omega
  | true =>
      simp only [if_true, Option.elim_some, uidLine_length, decimal_length]
      omega

theorem MailmboxFolder.Laid.place_mem {folder : MailmboxFolder} (laid : folder.Laid) {info : MailmboxMsgInfo}
    (member : info ∈ folder.kept) : info.toMsgPlace ∈ (messagesFrom 0 folder.mbMapping).map (·.1) := by
  rw [← laid.places]
  exact List.mem_map_of_mem (List.mem_of_mem_filter member)

theorem mailmboxExpungeToFileNoLock_pieces {folder : MailmboxFolder} (laid : folder.Laid)
    (nonempty : folder.kept ≠ []) (safe : folder.SafePieces folder.kept) :
    mailmboxExpungeToFileNoLock folder = .ok (folder.pieces folder.kept) := by
  have sizes : folder.kept.map folder.expungedSize = folder.kept.map fun info => (folder.piece info).length :=
    List.map_congr_left fun info member => (expungedSize_eq (laid.place_mem member)).1
  have size_eq : (folder.kept.map folder.expungedSize).sum = (folder.pieces folder.kept).length := by
    rw [sizes, MailmboxFolder.pieces, List.length_flatten, List.map_map]
    rfl
  have size_pos : (folder.kept.map folder.expungedSize).sum ≠ 0 := by
    obtain ⟨info, member⟩ := List.exists_mem_of_ne_nil _ nonempty
    have positive := (expungedSize_eq (laid.place_mem member)).2
    have bound := List.single_le_sum (fun _ _ => Nat.zero_le _) _ (List.mem_map_of_mem (f := folder.expungedSize) member)
    omega
  rw [mailmboxExpungeToFileNoLock]
  change (if (folder.kept.map folder.expungedSize).sum = 0 then _ else _) = _
  rw [if_neg size_pos]
  congr 1
  exact expungeMessages_pieces safe (size_eq.trans (Nat.zero_add _).symm)

end Etpan.Mbox
