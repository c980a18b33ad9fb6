import Etpan.Mime.Base64
import Etpan.Mime.QuotedPrintableParse

namespace Etpan.Mime

open Etpan.Data Etpan.Imf

/-! Decoding a part whole or piece by piece, `low-level/mime/mailmime_content.c`. -/

inductive MailmimeMechanism where
  | error
  | sevenBit
  | eightBit
  | binary
  | quotedPrintable
  | base64
  | token
deriving Repr, DecidableEq

def mailmimeBinaryBodyParse (message : List UInt8) (indx : Nat) : Except MailimfError (Nat × List UInt8) :=
  if message.length < indx then .error .inval else .ok (message.length, message.drop indx)

def mailmimePartParseImpl (message : List UInt8) (indx : Nat) (encoding : MailmimeMechanism)
    (isPartial : Bool) : Except MailimfError (Nat × List UInt8) :=
  match encoding with
  | .base64 => mailmimeBase64BodyParseImpl message indx isPartial
  | .quotedPrintable => mailmimeQuotedPrintableBodyParseImpl message false isPartial indx
  | _ => mailmimeBinaryBodyParse message indx

def mailmimePartParse (message : List UInt8) (indx : Nat) (encoding : MailmimeMechanism) :
    Except MailimfError (Nat × List UInt8) :=
  mailmimePartParseImpl message indx encoding false

def mailmimePartParsePartial (message : List UInt8) (indx : Nat) (encoding : MailmimeMechanism) :
    Except MailimfError (Nat × List UInt8) :=
  mailmimePartParseImpl message indx encoding true

/-- Decoding `first` as far as it goes and then the rest of the whole from where that
stopped gives what decoding the whole at once gives. -/
def Resumable (encoding : MailmimeMechanism) (first second : List UInt8) : Prop :=
  ∀ indx early, mailmimePartParsePartial first 0 encoding = .ok (indx, early) →
    ∃ stop late finish, mailmimePartParse (first ++ second) indx encoding = .ok (stop, late) ∧
      mailmimePartParse (first ++ second) 0 encoding = .ok (finish, early ++ late)

theorem base64Step_written (st : Base64State) (front : List UInt8) (bytes : List UInt8) :
    bytes.foldl base64Step { st with written := front ++ st.written } =
      { bytes.foldl base64Step st with written := front ++ (bytes.foldl base64Step st).written } := by
  induction bytes generalizing st with
  | nil => rfl
  | cons byte bytes ih =>
      have stepped : base64Step { st with written := front ++ st.written } byte =
          { base64Step st byte with written := front ++ (base64Step st byte).written } := by
        unfold base64Step
        split
        · rfl
        · dsimp only
          split
          · simp
          · rfl
      rw [List.foldl_cons, List.foldl_cons, stepped, ih]

theorem base64Step_resume (bytes : List UInt8) :
    let st := bytes.foldl base64Step ⟨0, 0, [], []⟩
    st.curToken = bytes.length ∧ st.lastFullTokenEnd ≤ bytes.length ∧
      (bytes.drop st.lastFullTokenEnd).foldl base64Step
        ⟨st.lastFullTokenEnd, st.lastFullTokenEnd, [], st.written⟩ = st := by
  induction bytes using List.reverseRecOn with
  | nil => simp
  | append_singleton bytes byte ih =>
      simp only [List.foldl_append, List.foldl_cons, List.foldl_nil]
      generalize bytes.foldl base64Step ⟨0, 0, [], []⟩ = st at ih
      obtain ⟨position, inside, again⟩ := ih
      have kept : ∀ next, base64Step st byte = next → next.lastFullTokenEnd = st.lastFullTokenEnd →
          next.written = st.written → next.curToken = st.curToken + 1 →
          next.curToken = (bytes ++ [byte]).length ∧ next.lastFullTokenEnd ≤ (bytes ++ [byte]).length ∧
            ((bytes ++ [byte]).drop next.lastFullTokenEnd).foldl base64Step
              ⟨next.lastFullTokenEnd, next.lastFullTokenEnd, [], next.written⟩ = next := by
        intro next stepped sameEnd sameWritten moved
        refine ⟨by simp [moved, position], by simp [sameEnd]; omega, ?_⟩
        rw [sameEnd, sameWritten, List.drop_append_of_le_length inside, List.foldl_append, again,
          List.foldl_cons, List.foldl_nil, stepped]
      cases value : getBase64Value byte with
      | none =>
          have stepped : base64Step st byte = { st with curToken := st.curToken + 1 } := by
            simp [base64Step, value]
          rw [stepped]
          exact kept _ stepped rfl rfl rfl
      | some sextet =>
          by_cases full : (st.chunk ++ [sextet]).length = 4
          · have stepped : base64Step st byte =
                ⟨bytes.length + 1, bytes.length + 1, [], (base64Step st byte).written⟩ := by
              simp only [base64Step, value, full, if_true, position]
            rw [stepped]
            simp
          · have stepped : base64Step st byte =
                { st with curToken := st.curToken + 1, chunk := st.chunk ++ [sextet] } := by
              simp only [base64Step, value, full, if_false]
            rw [stepped]
            exact kept _ stepped rfl rfl rfl

theorem mailmimePartParse_base64 {message : List UInt8} {indx : Nat} (inside : indx ≤ message.length) :
    mailmimePartParse message indx .base64 =
      .ok (((message.drop indx).foldl base64Step ⟨indx, indx, [], []⟩).curToken,
        ((message.drop indx).foldl base64Step ⟨indx, indx, [], []⟩).written ++
          base64Rest ((message.drop indx).foldl base64Step ⟨indx, indx, [], []⟩).chunk) := by
  simp only [mailmimePartParse, mailmimePartParseImpl, mailmimeBase64BodyParseImpl, Nat.not_lt.mpr inside,
    if_false, Bool.false_eq_true]

theorem resumable_base64 (first second : List UInt8) : Resumable .base64 first second := by
  intro indx early parsed
  obtain ⟨position, inside, again⟩ := base64Step_resume first
  generalize scanned : first.foldl base64Step ⟨0, 0, [], []⟩ = st at position inside again
  have partly : mailmimePartParsePartial first 0 .base64 = .ok (st.lastFullTokenEnd, st.written) := by
    simp [mailmimePartParsePartial, mailmimePartParseImpl, mailmimeBase64BodyParseImpl, scanned]
  rw [partly] at parsed
  cases parsed
  -- the whole scan passes the state the partial one was in at its last full group
  have whole : (first ++ second).foldl base64Step ⟨0, 0, [], []⟩ =
      ((first ++ second).drop st.lastFullTokenEnd).foldl base64Step
        ⟨st.lastFullTokenEnd, st.lastFullTokenEnd, [], st.written⟩ := by
    rw [List.foldl_append, scanned, List.drop_append_of_le_length inside, List.foldl_append, again]
  have resumed := base64Step_written ⟨st.lastFullTokenEnd, st.lastFullTokenEnd, [], []⟩ st.written
    ((first ++ second).drop st.lastFullTokenEnd)
  rw [List.append_nil] at resumed
  have behind : st.lastFullTokenEnd ≤ (first ++ second).length := by
    rw [List.length_append]
    omega
  refine ⟨_, _, (((first ++ second).drop st.lastFullTokenEnd).foldl base64Step
    ⟨st.lastFullTokenEnd, st.lastFullTokenEnd, [], []⟩).curToken, mailmimePartParse_base64 behind, ?_⟩
  rw [mailmimePartParse_base64 (Nat.zero_le _), List.drop_zero, whole, resumed]
  simp only [List.append_assoc]

theorem resumable_binary {encoding : MailmimeMechanism} (notBase64 : encoding ≠ .base64)
    (notQuoted : encoding ≠ .quotedPrintable) (first second : List UInt8) :
    Resumable encoding first second := by
  have binary : ∀ message indx isPartial, mailmimePartParseImpl message indx encoding isPartial =
      mailmimeBinaryBodyParse message indx := by
    intro message indx isPartial
    cases encoding with
    | base64 => contradiction
    | quotedPrintable => contradiction
    | _ => rfl
  intro indx early parsed
  rw [mailmimePartParsePartial, binary] at parsed
  cases parsed
  refine ⟨(first ++ second).length, second, (first ++ second).length, ?_, ?_⟩
  · rw [mailmimePartParse, binary, mailmimeBinaryBodyParse, if_neg (by simp), List.drop_left]
  · rw [mailmimePartParse, binary]
    rfl

/-- The text ends in a CR that stands outside the escapes and soft breaks of
quoted-printable text. -/
def bareFinalCR : List UInt8 → Bool
  | [] => false
  | byte :: rest =>
      if byte = ascii '=' then
        match rest with
        | [] => false
        | first :: after =>
            if first = LF then bareFinalCR after
            else
              match after with
              | [] => false
              | second :: beyond =>
                  if first = CR ∧ second ≠ LF then bareFinalCR (second :: beyond) else bareFinalCR beyond
      else if byte = CR ∧ rest = [] then true
      else bareFinalCR rest

/-- How decoding goes on after `first`: from where the partial decoder stopped, but a
bare CR at its end has been dropped and is owed when no LF follows. -/
def Resumes (first : List UInt8) : Prop :=
  let early := qpDecode false true first
  early.2 ≤ first.length ∧
    if bareFinalCR first then
      early.2 = 0 ∧ (qpDecode false false first).1 = early.1 ∧
        ∀ next second, (qpDecode false false (first ++ next :: second)).1 =
          early.1 ++ (if next = LF then [] else [CR, LF]) ++ (qpDecode false false (next :: second)).1
    else
      ∀ second, (qpDecode false false (first ++ second)).1 =
        early.1 ++ (qpDecode false false ((first ++ second).drop (first.length - early.2))).1

theorem Resumes.item (item octets : List UInt8) {rest : List UInt8} (after : Resumes rest)
    (same : bareFinalCR (item ++ rest) = bareFinalCR rest)
    (read : ∀ isPartial more, qpDecode false isPartial (item ++ rest ++ more) =
      emit octets (qpDecode false isPartial (rest ++ more))) : Resumes (item ++ rest) := by
  obtain ⟨inside, continued⟩ := after
  have early := read true []
  rw [List.append_nil, List.append_nil] at early
  unfold Resumes
  rw [early, same]
  refine ⟨?_, ?_⟩
  · simp only [emit, List.length_append]
    omega
  cases bare : bareFinalCR rest with
  | true =>
      simp only [bare, if_true] at continued ⊢
      obtain ⟨nothing, whole, following⟩ := continued
      have plain := read false []
      rw [List.append_nil, List.append_nil] at plain
      refine ⟨nothing, by rw [plain]; simp only [emit, whole], fun next second => ?_⟩
      rw [read false (next :: second)]
      simp only [emit, following, List.append_assoc]
  | false =>
      simp only [bare, Bool.false_eq_true, if_false] at continued ⊢
      intro second
      have distance : (item ++ rest).length - (qpDecode false true rest).2 =
          item.length + (rest.length - (qpDecode false true rest).2) := by
        rw [List.length_append]
        omega
      rw [read false second]
      simp only [emit, distance, continued second, List.append_assoc]
      rw [← List.drop_drop, List.drop_left]

theorem bareFinalCR_literal {byte : UInt8} (notEqual : byte ≠ ascii '=') (notCR : byte ≠ CR)
    (rest : List UInt8) : bareFinalCR (byte :: rest) = bareFinalCR rest := by
  rw [bareFinalCR.eq_def]
  simp [notEqual, notCR]

theorem bareFinalCR_cr {rest : List UInt8} (more : rest ≠ []) :
    bareFinalCR (CR :: rest) = bareFinalCR rest := by
  have notEqual : CR ≠ ascii '=' := by decide
  rw [bareFinalCR.eq_def]
  simp [notEqual, more]

theorem Resumes.unread {first : List UInt8} (bare : bareFinalCR first = false)
    (early : qpDecode false true first = ([], first.length)) : Resumes first := by
  unfold Resumes
  rw [early, bare]
  simp

theorem resumes (first : List UInt8) : Resumes first := by
  generalize size : first.length = count
  induction count using Nat.strongRecOn generalizing first with
  | ind count ih =>
      have shorter : ∀ rest : List UInt8, rest.length < first.length → Resumes rest :=
        fun rest less => ih rest.length (by omega) rest rfl
      cases first with
      | nil => exact ⟨by decide, by simp [bareFinalCR, qpDecode]⟩
      | cons byte rest =>
          have tail := shorter rest (by simp)
          by_cases isEqual : byte = ascii '='
          · subst isEqual
            cases rest with
            | nil => exact .unread rfl rfl
            | cons next after =>
                by_cases nextLF : next = LF
                · subst nextLF
                  refine (shorter after (by simp)).item [ascii '=', LF] [] ?_
                    (fun isPartial more => qpDecode_soft_lf (after ++ more))
                  rw [List.cons_append, bareFinalCR.eq_def]
                  simp
                by_cases nextCR : next = CR
                · subst nextCR
                  cases after with
                  | nil => exact .unread rfl rfl
                  | cons last beyond =>
                      by_cases lastLF : last = LF
                      · subst lastLF
                        exact (shorter beyond (by simp; omega)).item [ascii '=', CR, LF] [] rfl
                          (fun isPartial more => qpDecode_soft_crlf (beyond ++ more))
                      · refine (shorter (last :: beyond) (by simp)).item [ascii '=', CR] [] ?_
                          (fun isPartial more => qpDecode_soft_cr lastLF (beyond ++ more))
                        rw [List.cons_append, bareFinalCR.eq_def]
                        simp [lastLF]
                · cases after with
                  | nil =>
                      refine .unread ?_ ?_
                      · rw [bareFinalCR.eq_def]
                        simp [nextLF]
                      · rw [qpDecode.eq_def]
                        simp [nextLF, nextCR]
                  | cons last beyond =>
                      refine (shorter beyond (by simp; omega)).item [ascii '=', next, last] [toChar next last] ?_
                        (fun isPartial more => qpDecode_escape nextCR nextLF last (beyond ++ more))
                      rw [List.cons_append, bareFinalCR.eq_def]
                      simp [nextLF, nextCR]
          by_cases isLF : byte = LF
          · subst isLF
            exact tail.item [LF] [CR, LF] (bareFinalCR_literal (by decide) (by decide) rest)
              (fun isPartial more => qpDecode_lf (rest ++ more))
          by_cases isCR : byte = CR
          · subst isCR
            cases rest with
            | nil =>
                refine ⟨by decide, ?_⟩
                rw [show bareFinalCR [CR] = true from rfl, if_pos rfl]
                refine ⟨rfl, rfl, fun next second => ?_⟩
                by_cases nextLF : next = LF
                · subst nextLF
                  have absorbed : qpDecode false false ([CR] ++ LF :: second) =
                      qpDecode false false (LF :: second) := by
                    rw [qpDecode_lf]
                    exact qpDecode_crlf second
                  rw [absorbed]
                  rfl
                · rw [if_neg nextLF]
                  exact congrArg Prod.fst (qpDecode_cr nextLF second)
            | cons next after =>
                by_cases nextLF : next = LF
                · subst nextLF
                  refine (shorter after (by simp)).item [CR, LF] [CR, LF] ?_
                    (fun isPartial more => qpDecode_crlf (after ++ more))
                  rw [List.cons_append, bareFinalCR_cr (by simp)]
                  exact bareFinalCR_literal (by decide) (by decide) after
                · exact tail.item [CR] [CR, LF] (bareFinalCR_cr (by simp))
                    (fun isPartial more => qpDecode_cr nextLF (after ++ more))
          · exact tail.item [byte] [byte] (bareFinalCR_literal isEqual isCR rest)
              (fun isPartial more => qpDecode_literal isEqual isLF isCR (by simp) (rest ++ more))

theorem mailmimePartParseImpl_quotedPrintable (isPartial : Bool) {message : List UInt8} {indx : Nat}
    (inside : indx ≤ message.length) :
    mailmimePartParseImpl message indx .quotedPrintable isPartial =
      .ok (message.length - (qpDecode false isPartial (message.drop indx)).2,
        (qpDecode false isPartial (message.drop indx)).1) :=
  mailmimeQuotedPrintableBodyParseImpl_eq message false isPartial inside

theorem resumable_quotedPrintable (first second : List UInt8) :
    Resumable .quotedPrintable first second ↔
      ¬ (bareFinalCR first = true ∧ second ≠ [] ∧ second.head? ≠ some LF) := by
  obtain ⟨inside, continued⟩ := resumes first
  have partly := mailmimePartParseImpl_quotedPrintable true (Nat.zero_le first.length)
  have whole := mailmimePartParseImpl_quotedPrintable false (Nat.zero_le (first ++ second).length)
  have behind : first.length - (qpDecode false true first).2 ≤ (first ++ second).length := by
    rw [List.length_append]
    omega
  have later := mailmimePartParseImpl_quotedPrintable false behind
  rw [List.drop_zero] at partly whole
  -- both sides say the same of the decoded octets
  have octets : Resumable .quotedPrintable first second ↔ (qpDecode false false (first ++ second)).1 =
      (qpDecode false true first).1 ++
        (qpDecode false false ((first ++ second).drop (first.length - (qpDecode false true first).2))).1 := by
    unfold Resumable mailmimePartParsePartial mailmimePartParse
    rw [partly, whole]
    constructor
    · intro resumable
      obtain ⟨stop, late, finish, resumed, same⟩ := resumable _ _ rfl
      rw [later] at resumed
      cases resumed
      exact (Prod.mk.inj (Except.ok.inj same)).2
    · intro same indx early parsed
      cases parsed
      exact ⟨_, _, _, later, by rw [same]⟩
  rw [octets]
  cases bare : bareFinalCR first with
  | false =>
      simp only [bare, Bool.false_eq_true, if_false] at continued
      simp [continued second]
  | true =>
      simp only [bare, if_true] at continued
      obtain ⟨nothing, alone, following⟩ := continued
      rw [nothing, Nat.sub_zero, List.drop_left]
      cases second with
      | nil => simp [alone, qpDecode]
      | cons next second =>
          rw [following next second]
          by_cases nextLF : next = LF
          · simp [nextLF]
          · have longer : CR :: LF :: (qpDecode false false (next :: second)).1 ≠
                (qpDecode false false (next :: second)).1 := by
              intro same
              have lengths := congrArg List.length same
              simp only [List.length_cons] at lengths
              omega
            simp [nextLF, longer]

/-- A part can be decoded piece by piece exactly when no bare CR stands before the cut
of a quoted-printable part with something else than LF after it. -/
theorem mailmimePartParsePartial_resumable (encoding : MailmimeMechanism) (first second : List UInt8) :
    Resumable encoding first second ↔
      ¬ (encoding = .quotedPrintable ∧ bareFinalCR first = true ∧ second ≠ [] ∧
        second.head? ≠ some LF) := by
  by_cases isBase64 : encoding = .base64
  · subst isBase64
    simp [resumable_base64]
  by_cases isQuoted : encoding = .quotedPrintable
  · subst isQuoted
    simpa using resumable_quotedPrintable first second
  · simp [isQuoted, resumable_binary isBase64 isQuoted]

/-- The CR of `a\rb` is lost when the message is cut after it. -/
theorem mailmimePartParsePartial_dropsCR :
    ¬ Resumable .quotedPrintable [ascii 'a', CR] [ascii 'b'] := by
  intro resumable
  have partly : mailmimePartParsePartial [ascii 'a', CR] 0 .quotedPrintable = .ok (2, [ascii 'a']) := by
    decide
  obtain ⟨stop, late, finish, resumed, whole⟩ := resumable 2 [ascii 'a'] partly
  have late' : mailmimePartParse ([ascii 'a', CR] ++ [ascii 'b']) 2 .quotedPrintable =
      .ok (3, [ascii 'b']) := by
    decide
  have whole' : mailmimePartParse ([ascii 'a', CR] ++ [ascii 'b']) 0 .quotedPrintable =
      .ok (3, [ascii 'a', CR, LF, ascii 'b']) := by
    decide
  rw [late'] at resumed
  rw [whole'] at whole
  cases resumed
  simp at whole

end Etpan.Mime
