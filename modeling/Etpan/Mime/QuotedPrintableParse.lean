import Etpan.Imf.StringWrite

namespace Etpan.Mime

open Etpan.Data Etpan.Imf

/-! The quoted-printable decoder of `low-level/mime/mailmime_content.c`.

The decoder batches literal octets as a pair (`start`, `count`) into the message;
`qpDecode` below says the same without the batches. -/

def hexaToChar (hexdigit : UInt8) : Nat :=
  if ascii '0' ≤ hexdigit ∧ hexdigit ≤ ascii '9' then (hexdigit - ascii '0').toNat
  else if ascii 'a' ≤ hexdigit ∧ hexdigit ≤ ascii 'f' then (hexdigit - ascii 'a').toNat + 10
  else if ascii 'A' ≤ hexdigit ∧ hexdigit ≤ ascii 'F' then (hexdigit - ascii 'A').toNat + 10
  else 0

def toChar (first second : UInt8) : UInt8 :=
  UInt8.ofNat ((hexaToChar first <<< 4) ||| hexaToChar second)

inductive QpReadState where
  | normal
  | coded
  | out
  | cr
deriving Repr, DecidableEq

structure QpRead where
  curToken : Nat
  start : Nat
  count : Nat
  state : QpReadState
  written : List UInt8
deriving Repr, DecidableEq

def writeMaxQp : Nat := 512

section Machine

variable (message : List UInt8) (inHeader isPartial : Bool)

/-- `write_decoded_qp` of the current batch. -/
def QpRead.flush (st : QpRead) : QpRead :=
  { st with written := st.written ++ (message.drop st.start).take st.count, count := 0 }

/-- After a jump the batch starts at the new position. -/
def QpRead.jump (st : QpRead) (distance : Nat) (octets : List UInt8) : QpRead :=
  { st with
    curToken := st.curToken + distance
    start := st.curToken + distance
    written := st.written ++ octets
    state := .normal }

def codedStep (st : QpRead) : QpRead :=
  let st := st.flush message
  let literal := { st with state := .normal, start := st.curToken, curToken := st.curToken + 1, count := 1 }
  match message.drop (st.curToken + 1) with
  | [] => if isPartial then { st with state := .out } else literal
  | next :: after =>
      if next = LF then st.jump 2 []
      else if next = CR then
        match after with
        | [] => { st with state := .out }
        | last :: _ => if last = LF then st.jump 3 [] else st.jump 2 []
      else
        match after with
        | [] => if isPartial then { st with state := .out } else literal
        | last :: _ => st.jump 3 [toChar next last]

def normalStep (st : QpRead) (byte : UInt8) : QpRead :=
  if byte = ascii '=' then { st with state := .coded }
  else if byte = LF then (st.flush message).jump 1 [CR, LF]
  else if byte = CR then { st with state := .cr, curToken := st.curToken + 1 }
  else if byte = ascii '_' ∧ inHeader then (st.flush message).jump 1 [ascii ' ']
  else
    let st := if writeMaxQp ≤ st.count then { st.flush message with start := st.curToken } else st
    { st with count := st.count + 1, curToken := st.curToken + 1 }

def crStep (st : QpRead) (byte : UInt8) : QpRead :=
  if byte = LF then (st.flush message).jump 1 [CR, LF] else (st.flush message).jump 0 [CR, LF]

def qpReadStep (st : QpRead) (byte : UInt8) : QpRead :=
  match st.state with
  | .coded => codedStep message isPartial st
  | .normal => normalStep message inHeader st byte
  | .cr => crStep message st byte
  | .out => st

def qpReadLoop : Nat → QpRead → QpRead
  | 0, st => st
  | turns + 1, st =>
      if st.state = .out then st
      else
        match message.drop st.curToken with
        | [] => { st with state := .out }
        | byte :: _ => qpReadLoop turns (qpReadStep message inHeader isPartial st byte)

/-- The index after the call and the decoded octets. -/
def mailmimeQuotedPrintableBodyParseImpl (indx : Nat) : Except MailimfError (Nat × List UInt8) :=
  if message.length < indx then .error .inval
  else
    let st := qpReadLoop message inHeader isPartial (2 * message.length + 1) ⟨indx, indx, 0, .normal, []⟩
    .ok (st.curToken, (st.flush message).written)

end Machine

def mailmimeQuotedPrintableBodyParse (message : List UInt8) (indx : Nat) (inHeader : Bool) :
    Except MailimfError (Nat × List UInt8) :=
  mailmimeQuotedPrintableBodyParseImpl message inHeader false indx

def emit (octets : List UInt8) (tail : List UInt8 × Nat) : List UInt8 × Nat := (octets ++ tail.1, tail.2)

/-- Quoted-printable text without the batches: the decoded octets, and how many
octets at the end are left unread. -/
def qpDecode (inHeader isPartial : Bool) : List UInt8 → List UInt8 × Nat
  | [] => ([], 0)
  | byte :: rest =>
      if byte = ascii '=' then
        match rest with
        | [] => if isPartial then ([], 1) else ([ascii '='], 0)
        | next :: after =>
            if next = LF then qpDecode inHeader isPartial after
            else if next = CR then
              match after with
              | [] => ([], 2)
              | last :: beyond =>
                  if last = LF then qpDecode inHeader isPartial beyond
                  else qpDecode inHeader isPartial (last :: beyond)
            else
              match after with
              | [] => if isPartial then ([], 2) else emit [ascii '='] (qpDecode inHeader isPartial [next])
              | last :: beyond => emit [toChar next last] (qpDecode inHeader isPartial beyond)
      else if byte = LF then emit [CR, LF] (qpDecode inHeader isPartial rest)
      else if byte = CR then
        match rest with
        | [] => ([], 0)
        | next :: after =>
            if next = LF then emit [CR, LF] (qpDecode inHeader isPartial after)
            else emit [CR, LF] (qpDecode inHeader isPartial (next :: after))
      else if byte = ascii '_' ∧ inHeader then emit [ascii ' '] (qpDecode inHeader isPartial rest)
      else emit [byte] (qpDecode inHeader isPartial rest)

section Refinement

variable {message : List UInt8} {inHeader isPartial : Bool}

theorem qpDecode_turns :
    (∀ rest, qpDecode inHeader isPartial (LF :: rest) = emit [CR, LF] (qpDecode inHeader isPartial rest)) ∧
    (∀ rest, qpDecode inHeader isPartial (CR :: LF :: rest) = emit [CR, LF] (qpDecode inHeader isPartial rest)) ∧
    (∀ next, next ≠ LF → ∀ rest, qpDecode inHeader isPartial (CR :: next :: rest) =
      emit [CR, LF] (qpDecode inHeader isPartial (next :: rest))) ∧
    (∀ byte, byte ≠ ascii '=' → byte ≠ LF → byte ≠ CR → ¬ (byte = ascii '_' ∧ inHeader = true) → ∀ rest,
      qpDecode inHeader isPartial (byte :: rest) = emit [byte] (qpDecode inHeader isPartial rest)) ∧
    (∀ rest, qpDecode inHeader isPartial (ascii '=' :: LF :: rest) = qpDecode inHeader isPartial rest) ∧
    (∀ rest, qpDecode inHeader isPartial (ascii '=' :: CR :: LF :: rest) = qpDecode inHeader isPartial rest) ∧
    (∀ next, next ≠ LF → ∀ rest, qpDecode inHeader isPartial (ascii '=' :: CR :: next :: rest) =
      qpDecode inHeader isPartial (next :: rest)) ∧
    (∀ first, first ≠ CR → first ≠ LF → ∀ second rest, qpDecode inHeader isPartial (ascii '=' :: first :: second :: rest) =
      emit [toChar first second] (qpDecode inHeader isPartial rest)) := by
  have notEqual : CR ≠ ascii '=' := by decide
  refine ⟨?_, ?_, ?_, ?_, ?_, ?_, ?_, ?_⟩
  · intro rest
    rw [qpDecode.eq_def]
    rfl
  · intro rest
    rw [qpDecode.eq_def]
    rfl
  · intro next notLF rest
    rw [qpDecode.eq_def]
    simp only [notEqual, CR_ne_LF, notLF, if_false, if_true]
  · intro byte notSign notLF notCR notSpace rest
    rw [qpDecode.eq_def]
    simp only [notSign, notLF, notCR, notSpace, if_false]
  · intro rest
    rw [qpDecode.eq_def]
    rfl
  · intro rest
    rw [qpDecode.eq_def]
    rfl
  · intro next notLF rest
    rw [qpDecode.eq_def]
    simp only [CR_ne_LF, notLF, if_false, if_true]
  · intro first notCR notLF second rest
    rw [qpDecode.eq_def]
    simp only [notCR, notLF, if_false, if_true]

theorem qpDecode_lf (rest : List UInt8) :
    qpDecode inHeader isPartial (LF :: rest) = emit [CR, LF] (qpDecode inHeader isPartial rest) :=
  qpDecode_turns.1 rest

theorem qpDecode_crlf (rest : List UInt8) :
    qpDecode inHeader isPartial (CR :: LF :: rest) = emit [CR, LF] (qpDecode inHeader isPartial rest) :=
  qpDecode_turns.2.1 rest

theorem qpDecode_cr {next : UInt8} (notLF : next ≠ LF) (rest : List UInt8) :
    qpDecode inHeader isPartial (CR :: next :: rest) =
      emit [CR, LF] (qpDecode inHeader isPartial (next :: rest)) :=
  qpDecode_turns.2.2.1 next notLF rest

theorem qpDecode_literal {byte : UInt8} (notEqual : byte ≠ ascii '=') (notLF : byte ≠ LF)
    (notCR : byte ≠ CR) (notSpace : ¬ (byte = ascii '_' ∧ inHeader = true)) (rest : List UInt8) :
    qpDecode inHeader isPartial (byte :: rest) = emit [byte] (qpDecode inHeader isPartial rest) :=
  qpDecode_turns.2.2.2.1 byte notEqual notLF notCR notSpace rest

theorem qpDecode_soft_lf (rest : List UInt8) :
    qpDecode inHeader isPartial (ascii '=' :: LF :: rest) = qpDecode inHeader isPartial rest :=
  qpDecode_turns.2.2.2.2.1 rest

theorem qpDecode_soft_crlf (rest : List UInt8) :
    qpDecode inHeader isPartial (ascii '=' :: CR :: LF :: rest) = qpDecode inHeader isPartial rest :=
  qpDecode_turns.2.2.2.2.2.1 rest

theorem qpDecode_soft_cr {next : UInt8} (notLF : next ≠ LF) (rest : List UInt8) :
    qpDecode inHeader isPartial (ascii '=' :: CR :: next :: rest) =
      qpDecode inHeader isPartial (next :: rest) :=
  qpDecode_turns.2.2.2.2.2.2.1 next notLF rest

theorem qpDecode_escape {first : UInt8} (notCR : first ≠ CR) (notLF : first ≠ LF) (second : UInt8)
    (rest : List UInt8) :
    qpDecode inHeader isPartial (ascii '=' :: first :: second :: rest) =
      emit [toChar first second] (qpDecode inHeader isPartial rest) :=
  qpDecode_turns.2.2.2.2.2.2.2 first notCR notLF second rest

theorem qpReadLoop_turn {st : QpRead} {byte : UInt8} {rest : List UInt8} (running : st.state ≠ .out)
    (here : message.drop st.curToken = byte :: rest) (turns : Nat) :
    qpReadLoop message inHeader isPartial (turns + 1) st =
      qpReadLoop message inHeader isPartial turns (qpReadStep message inHeader isPartial st byte) := by
  rw [qpReadLoop, if_neg running, here]

def QpRead.Ready (message : List UInt8) (st : QpRead) : Prop :=
  st.state = .normal ∧ st.start + st.count = st.curToken ∧ st.curToken ≤ message.length

@[simp] theorem QpRead.flush_jump_text (st : QpRead) (distance : Nat) (octets : List UInt8) :
    (((st.flush message).jump distance octets).flush message).written =
      (st.flush message).written ++ octets := by
  simp [QpRead.flush, QpRead.jump]

theorem QpRead.Ready.jump {st : QpRead} {distance : Nat} (octets : List UInt8)
    (inside : st.curToken + distance ≤ message.length) :
    ((st.flush message).jump distance octets).Ready message :=
  ⟨rfl, rfl, inside⟩

/-- The decoder from a position on does what the batch-free reading of the rest says. -/
def Decoded (message : List UInt8) (inHeader isPartial : Bool) (turns : Nat) (st : QpRead) : Prop :=
  let after := qpReadLoop message inHeader isPartial turns st
  let decoded := qpDecode inHeader isPartial (message.drop st.curToken)
  after.curToken + decoded.2 = message.length ∧
    (after.flush message).written = (st.flush message).written ++ decoded.1

theorem drop_succ {position : Nat} {byte : UInt8} {rest : List UInt8}
    (here : message.drop position = byte :: rest) : message.drop (position + 1) = rest := by
  rw [← List.drop_drop, here]
  rfl

theorem drop_length {position : Nat} {byte : UInt8} {rest : List UInt8}
    (here : message.drop position = byte :: rest) : message.length = position + rest.length + 1 := by
  have lengths := congrArg List.length here
  simp only [List.length_drop, List.length_cons] at lengths
  omega

theorem normalStep_literal {st : QpRead} (ready : st.Ready message) {byte : UInt8} {rest : List UInt8}
    (here : message.drop st.curToken = byte :: rest) (notEqual : byte ≠ ascii '=') (notLF : byte ≠ LF)
    (notCR : byte ≠ CR) (notSpace : ¬ (byte = ascii '_' ∧ inHeader = true)) :
    let after := normalStep message inHeader st byte
    after.Ready message ∧ after.curToken = st.curToken + 1 ∧
      (after.flush message).written = (st.flush message).written ++ [byte] := by
  obtain ⟨normal, aligned, inside⟩ := ready
  have bound := drop_length here
  have octet : ∀ position count, position + count = st.curToken →
      (message.drop position).take (count + 1) = (message.drop position).take count ++ [byte] := by
    intro position count sum
    have element : message[position + count]? = some byte := by
      rw [sum, ← List.head?_drop, here, List.head?_cons]
    rw [List.take_add_one, List.getElem?_drop, element]
    rfl
  simp only [normalStep, notEqual, notLF, notCR, notSpace, if_false]
  split
  · refine ⟨⟨normal, ?_, ?_⟩, rfl, ?_⟩
    · simp [QpRead.flush]
    · simp [QpRead.flush]
      omega
    · have single := octet st.curToken 0 rfl
      simp only [QpRead.flush, Nat.zero_add, single]
      simp
  · refine ⟨⟨normal, ?_, ?_⟩, rfl, ?_⟩
    · simp
      omega
    · simp
      omega
    · simp only [QpRead.flush, octet st.start st.count aligned, List.append_assoc]

theorem qpReadLoop_out {st : QpRead} (stopped : st.state = .out) (turns : Nat) :
    qpReadLoop message inHeader isPartial turns st = st := by
  cases turns with
  | zero => rfl
  | succ turns => rw [qpReadLoop, if_pos stopped]

theorem Decoded.step {turns turns' : Nat} {st st' : QpRead} {octets : List UInt8}
    (reached : qpReadLoop message inHeader isPartial turns st =
      qpReadLoop message inHeader isPartial turns' st')
    (after : Decoded message inHeader isPartial turns' st')
    (text : (st'.flush message).written = (st.flush message).written ++ octets)
    (spelled : qpDecode inHeader isPartial (message.drop st.curToken) =
      (octets ++ (qpDecode inHeader isPartial (message.drop st'.curToken)).1,
        (qpDecode inHeader isPartial (message.drop st'.curToken)).2)) :
    Decoded message inHeader isPartial turns st := by
  obtain ⟨position, written⟩ := after
  unfold Decoded
  rw [reached, spelled]
  exact ⟨position, by rw [written, text, List.append_assoc]⟩

theorem Decoded.stop {turns : Nat} {st st' : QpRead} (left : Nat)
    (reached : qpReadLoop message inHeader isPartial turns st = st')
    (text : (st'.flush message).written = (st.flush message).written)
    (position : st'.curToken + left = message.length)
    (spelled : qpDecode inHeader isPartial (message.drop st.curToken) = ([], left)) :
    Decoded message inHeader isPartial turns st := by
  unfold Decoded
  rw [reached, spelled]
  exact ⟨position, by rw [text, List.append_nil]⟩

variable (inHeader isPartial) in
/-- What stands at an `=`: a soft break, an escape or an `=` that is kept as it is;
the decoder stops when the octets it needs are missing. -/
theorem codedStep_spec {st : QpRead} {rest : List UInt8}
    (here : message.drop st.curToken = ascii '=' :: rest) :
    let after := codedStep message isPartial { st with state := .coded }
    (∃ octets, after.Ready message ∧ st.curToken < after.curToken ∧
        (after.flush message).written = (st.flush message).written ++ octets ∧
        qpDecode inHeader isPartial (ascii '=' :: rest) =
          emit octets (qpDecode inHeader isPartial (message.drop after.curToken))) ∨
      ∃ left, after.state = .out ∧ (after.flush message).written = (st.flush message).written ∧
        after.curToken + left = message.length ∧
        qpDecode inHeader isPartial (ascii '=' :: rest) = ([], left) := by
  intro after
  have bound := drop_length here
  have afterHere := drop_succ here
  -- the three shapes of the state after the turn
  have jumped : ∀ distance octets, 0 < distance → st.curToken + distance ≤ message.length →
      after = (st.flush message).jump distance octets →
      qpDecode inHeader isPartial (ascii '=' :: rest) =
        emit octets (qpDecode inHeader isPartial (message.drop (st.curToken + distance))) →
      ∃ octets, after.Ready message ∧ st.curToken < after.curToken ∧
        (after.flush message).written = (st.flush message).written ++ octets ∧
        qpDecode inHeader isPartial (ascii '=' :: rest) =
          emit octets (qpDecode inHeader isPartial (message.drop after.curToken)) := by
    intro distance octets forward inside same spelled
    rw [same]
    exact ⟨octets, .jump octets inside, Nat.lt_add_of_pos_right forward, QpRead.flush_jump_text .., spelled⟩
  have kept : qpDecode inHeader isPartial (ascii '=' :: rest) =
      emit [ascii '='] (qpDecode inHeader isPartial rest) →
      after = { st.flush message with
        state := .normal, start := st.curToken, curToken := st.curToken + 1, count := 1 } →
      ∃ octets, after.Ready message ∧ st.curToken < after.curToken ∧
        (after.flush message).written = (st.flush message).written ++ octets ∧
        qpDecode inHeader isPartial (ascii '=' :: rest) =
          emit octets (qpDecode inHeader isPartial (message.drop after.curToken)) := by
    intro spelled same
    rw [same]
    refine ⟨[ascii '='], ⟨rfl, rfl, ?_⟩, Nat.lt_succ_self _, ?_, by rw [spelled, afterHere]⟩
    · simp only
      omega
    · simp [QpRead.flush, here]
  have unfolded : after = codedStep message isPartial { st with state := .coded } := rfl
  have flushed : ({ st with state := .coded } : QpRead).flush message =
      { st.flush message with state := .coded } := rfl
  have position : (st.flush message).curToken = st.curToken := rfl
  rw [codedStep, flushed, position, afterHere] at unfolded
  cases rest with
  | nil =>
      cases isPartial with
      | true => exact .inr ⟨1, by rw [unfolded]; rfl, by rw [unfolded]; simp [QpRead.flush], by
          rw [unfolded]; simp [QpRead.flush, bound], rfl⟩
      | false => exact .inl (kept rfl unfolded)
  | cons first rest =>
      rw [List.length_cons] at bound
      have beyond := drop_succ afterHere
      by_cases firstLF : first = LF
      · subst firstLF
        exact .inl (jumped 2 [] (by decide) (by omega) unfolded (by rw [qpDecode_soft_lf, beyond]; rfl))
      simp only [if_neg firstLF] at unfolded
      by_cases firstCR : first = CR
      · subst firstCR
        simp only [if_pos] at unfolded
        cases rest with
        | nil =>
            exact .inr ⟨2, by rw [unfolded], by rw [unfolded]; simp [QpRead.flush], by
              rw [unfolded]; simp [bound], rfl⟩
        | cons second rest =>
            rw [List.length_cons] at bound
            simp only at unfolded
            split at unfolded
            · next secondLF =>
                subst secondLF
                refine .inl (jumped 3 [] (by decide) (by omega) unfolded ?_)
                rw [qpDecode_soft_crlf, drop_succ beyond]
                rfl
            · next secondOther =>
                refine .inl (jumped 2 [] (by decide) (by omega) unfolded ?_)
                rw [qpDecode_soft_cr secondOther, beyond]
                rfl
      · simp only [if_neg firstCR] at unfolded
        cases rest with
        | nil =>
            cases isPartial with
            | true =>
                refine .inr ⟨2, by rw [unfolded]; rfl, by rw [unfolded]; simp [QpRead.flush], by
                  rw [unfolded]; simp [QpRead.flush, bound], ?_⟩
                rw [qpDecode.eq_def]
                simp only [firstLF, firstCR, if_false, if_true]
            | false =>
                refine .inl (kept ?_ unfolded)
                rw [qpDecode.eq_def]
                simp only [firstLF, firstCR, if_false, if_true, Bool.false_eq_true]
        | cons second rest =>
            rw [List.length_cons] at bound
            refine .inl (jumped 3 [toChar first second] (by decide) (by omega) unfolded ?_)
            rw [qpDecode_escape firstCR firstLF, drop_succ beyond]

variable (inHeader isPartial) in
theorem qpReadLoop_decoded {turns : Nat} {st : QpRead} (ready : st.Ready message)
    (enough : 2 * (message.length - st.curToken) + 1 ≤ turns) :
    Decoded message inHeader isPartial turns st := by
  generalize size : message.length - st.curToken = remaining
  induction remaining using Nat.strongRecOn generalizing turns st with
  | ind remaining ih =>
      obtain ⟨normal, aligned, inside⟩ := id ready
      obtain ⟨more, rfl⟩ : ∃ more, turns = more + 1 := ⟨turns - 1, by omega⟩
      have running : st.state ≠ .out := by simp [normal]
      cases here : message.drop st.curToken with
      | nil =>
          have atEnd : message.length ≤ st.curToken := List.drop_eq_nil_iff.mp here
          have stops : qpReadLoop message inHeader isPartial (more + 1) st = { st with state := .out } := by
            rw [qpReadLoop, if_neg running, here]
          unfold Decoded
          rw [stops, here]
          refine ⟨?_, ?_⟩
          · simp only [qpDecode]
            omega
          · simp [qpDecode, QpRead.flush]
      | cons byte rest =>
          have bound := drop_length here
          have afterHere := drop_succ here
          -- one turn, and a second one for an escape or after a CR
          have next : ∀ st' : QpRead, st'.Ready message → st.curToken < st'.curToken →
              ∀ turns, 2 * (message.length - st'.curToken) + 1 ≤ turns →
                Decoded message inHeader isPartial turns st' :=
            fun st' ready' later turns enough' =>
              ih (message.length - st'.curToken) (by omega) ready' enough' rfl
          have turn : ∀ st', qpReadStep message inHeader isPartial st byte = st' →
              qpReadLoop message inHeader isPartial (more + 1) st =
                qpReadLoop message inHeader isPartial more st' := by
            rintro st' rfl
            exact qpReadLoop_turn running here more
          have stepped : qpReadStep message inHeader isPartial st byte = normalStep message inHeader st byte := by
            rw [qpReadStep, normal]
          obtain ⟨fewer, rfl⟩ : ∃ fewer, more = fewer + 1 := ⟨more - 1, by omega⟩
          by_cases isEqual : byte = ascii '='
          · have opened : qpReadStep message inHeader isPartial st byte = { st with state := .coded } := by
              rw [stepped, normalStep, if_pos isEqual]
            have coding : ({ st with state := .coded } : QpRead).state ≠ .out := by simp
            have second : qpReadLoop message inHeader isPartial (fewer + 1 + 1) st =
                qpReadLoop message inHeader isPartial fewer
                  (codedStep message isPartial { st with state := .coded }) := by
              rw [turn _ opened]
              exact qpReadLoop_turn coding here fewer
            rw [isEqual] at here
            rcases codedStep_spec inHeader isPartial here with
              ⟨octets, ready', later, text, spelled⟩ | ⟨left, stopped, text, position, spelled⟩
            · refine Decoded.step second (next _ ready' later _ (by omega)) text ?_
              rw [here, spelled]
              rfl
            · exact Decoded.stop left (second.trans (qpReadLoop_out stopped _)) text position
                (by rw [here, spelled])
          by_cases isLF : byte = LF
          · have moved : qpReadStep message inHeader isPartial st byte = (st.flush message).jump 1 [CR, LF] := by
              rw [stepped, normalStep, if_neg isEqual, if_pos isLF]
            refine Decoded.step (turn _ moved) (next _ (.jump _ (by omega)) (Nat.lt_succ_self _) _ ?_)
              (QpRead.flush_jump_text ..) ?_
            · simp only [QpRead.jump, QpRead.flush]
              omega
            · rw [here, isLF, qpDecode_lf, ← afterHere]
              rfl
          by_cases isCR : byte = CR
          · have passed : qpReadStep message inHeader isPartial st byte =
                { st with state := .cr, curToken := st.curToken + 1 } := by
              rw [stepped, normalStep, if_neg isEqual, if_neg isLF, if_pos isCR]
            cases rest with
            | nil =>
                have stops : qpReadLoop message inHeader isPartial (fewer + 1 + 1) st =
                    { st with state := .out, curToken := st.curToken + 1 } := by
                  rw [turn _ passed, qpReadLoop, if_neg (by simp)]
                  simp only [afterHere]
                refine Decoded.stop 0 stops rfl ?_ ?_
                · exact bound.symm
                · rw [here, isCR]
                  rfl
            | cons following rest =>
                have second : qpReadLoop message inHeader isPartial (fewer + 1 + 1) st =
                    qpReadLoop message inHeader isPartial fewer
                      (crStep message { st with state := .cr, curToken := st.curToken + 1 } following) := by
                  have waiting : ({ st with state := .cr, curToken := st.curToken + 1 } : QpRead).state ≠ .out := by
                    simp
                  rw [turn _ passed]
                  exact qpReadLoop_turn waiting afterHere fewer
                rw [List.length_cons] at bound
                unfold crStep at second
                split at second
                · next follows =>
                    refine Decoded.step second (next _ (.jump _ ?_) ?_ _ ?_) (QpRead.flush_jump_text ..) ?_
                    · simp
                      omega
                    · simp [QpRead.jump, QpRead.flush]
                    · simp only [QpRead.jump, QpRead.flush]
                      omega
                    · rw [here, isCR, follows, qpDecode_crlf, ← drop_succ afterHere]
                      rfl
                · next follows =>
                    refine Decoded.step second (next _ (.jump _ ?_) ?_ _ ?_) (QpRead.flush_jump_text ..) ?_
                    · simp
                      omega
                    · simp [QpRead.jump, QpRead.flush]
                    · simp only [QpRead.jump, QpRead.flush]
                      omega
                    · rw [here, isCR, qpDecode_cr follows, ← afterHere]
                      rfl
          by_cases isSpace : byte = ascii '_' ∧ inHeader = true
          · have moved : qpReadStep message inHeader isPartial st byte = (st.flush message).jump 1 [ascii ' '] := by
              rw [stepped, normalStep, if_neg isEqual, if_neg isLF, if_neg isCR, if_pos isSpace]
            refine Decoded.step (turn _ moved) (next _ (.jump _ (by omega)) (Nat.lt_succ_self _) _ ?_)
              (QpRead.flush_jump_text ..) ?_
            · simp only [QpRead.jump, QpRead.flush]
              omega
            · rw [here, qpDecode.eq_def, ← afterHere]
              simp only [isSpace, and_self, if_true]
              rfl
          · obtain ⟨ready', position, text⟩ := normalStep_literal ready here isEqual isLF isCR isSpace
            refine Decoded.step (turn _ stepped) (next _ ready' (by omega) _ (by omega)) text ?_
            rw [here, qpDecode_literal isEqual isLF isCR isSpace, position, afterHere]
            rfl

theorem mailmimeQuotedPrintableBodyParseImpl_eq (message : List UInt8) (inHeader isPartial : Bool)
    {indx : Nat} (inside : indx ≤ message.length) :
    mailmimeQuotedPrintableBodyParseImpl message inHeader isPartial indx =
      .ok (message.length - (qpDecode inHeader isPartial (message.drop indx)).2,
        (qpDecode inHeader isPartial (message.drop indx)).1) := by
  have ready : (⟨indx, indx, 0, .normal, []⟩ : QpRead).Ready message := ⟨rfl, rfl, inside⟩
  have enough : 2 * (message.length - indx) + 1 ≤ 2 * message.length + 1 := by omega
  obtain ⟨position, text⟩ := qpReadLoop_decoded inHeader isPartial ready enough
  simp only at position
  rw [mailmimeQuotedPrintableBodyParseImpl, if_neg (by omega)]
  simp only [text]
  congr 2
  omega

end Refinement

end Etpan.Mime
