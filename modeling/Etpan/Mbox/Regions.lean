import Etpan.Mbox.Headers
import Etpan.Mbox.Parse

namespace Etpan.Mbox

open Etpan.Data

/-! Messages put one after the other: what `mailmbox_single_parse` finds in a message does
not depend on the message that follows it. -/

/-- The state behind a text with no separator in it. -/
def MailState.run : MailState → List UInt8 → Option MailState
  | state, [] => some state
  | state, byte :: rest => (state.next byte).bind fun later => later.run rest

/-- What a later message or the end of the file may look like from before. -/
def Follows (more : List UInt8) : Prop := more = [] ∨ fromPrefix <+: more

/-- What every scan keeps. -/
structure Scanning (body pos : Nat) (scan : MailScan) : Prop where
  begun : scan.state = .inMail → body < pos
  body_le : body ≤ pos
  next_eq : scan.state.matched ≠ [] → scan.next + scan.state.matched.length = pos

theorem Scanning.step {body pos : Nat} {scan : MailScan} (scanning : Scanning body pos scan) (byte : UInt8) :
    (∃ later, scan.step body pos byte = .inl later ∧ scan.state.next byte = some later.state ∧
        Scanning body (pos + 1) later) ∨
      scan.step body pos byte = .inr (scan.fin, scan.next) ∧ scan.state.next byte = none ∧
        scan.next + scan.state.matched.length = pos := by
  have body_le := scanning.body_le
  have plain : ∀ later : MailScan, later.state.matched = [] → Scanning body (pos + 1) later :=
    fun later unmatched => ⟨fun _ => by omega, by omega, fun matched => absurd unmatched matched⟩
  cases state : scan.state with
  | inMail =>
      have notBody : pos ≠ body := (scanning.begun state).ne'
      left
      simp only [MailScan.step, state, notBody, and_false, if_false, MailState.next]
      split_ifs
      · exact ⟨_, rfl, rfl, plain _ rfl⟩
      · exact ⟨_, rfl, rfl, plain _ rfl⟩
      · exact ⟨_, rfl, by rw [state], plain _ (by rw [state]; rfl)⟩
  | firstCR | firstLF =>
      left
      simp only [MailScan.step, state, MailState.next]
      split_ifs <;> exact ⟨_, rfl, rfl, plain _ rfl⟩
  | secondCR | secondLF =>
      left
      simp only [MailScan.step, state, MailState.next]
      split_ifs
      · exact ⟨_, rfl, rfl, plain _ rfl⟩
      · exact ⟨_, rfl, rfl, plain _ rfl⟩
      · exact ⟨_, rfl, rfl, ⟨by simp, by omega, fun _ => rfl⟩⟩
      · exact ⟨_, rfl, rfl, plain _ rfl⟩
  | parsingF | parsingR | parsingO =>
      left
      have next_eq := scanning.next_eq (by rw [state]; decide)
      simp only [MailScan.step, state, MailState.next]
      rw [state] at next_eq
      split_ifs
      · refine ⟨_, rfl, rfl, ⟨by simp, by omega, fun _ => ?_⟩⟩
        simp [MailState.matched, fromPrefix] at next_eq ⊢
        omega
      · exact ⟨_, rfl, rfl, plain _ rfl⟩
  | parsingM =>
      have next_eq := scanning.next_eq (by rw [state]; decide)
      rw [state] at next_eq
      rw [MailScan.step, state, MailState.next]
      by_cases blank : byte = SP
      · exact .inr ⟨by rw [if_pos blank], if_pos blank, next_eq⟩
      · exact .inl ⟨_, by rw [if_neg blank], if_neg blank, plain _ rfl⟩

theorem Scanning.run {body pos : Nat} {scan : MailScan} (scanning : Scanning body pos scan) {text : List UInt8}
    {state : MailState} (run : scan.state.run text = some state) :
    ∃ later, later.state = state ∧ Scanning body (pos + text.length) later ∧
      ∀ more, scanMail body pos scan (text ++ more) = scanMail body (pos + text.length) later more := by
  induction text generalizing pos scan with
  | nil => exact ⟨scan, Option.some.inj run, scanning, fun more => rfl⟩
  | cons byte text ih =>
      rw [MailState.run] at run
      rcases scanning.step byte with ⟨later, step, next, scanningLater⟩ | ⟨-, next, -⟩
      · rw [next, Option.bind_some] at run
        obtain ⟨final, final_state, final_scanning, final_run⟩ := ih scanningLater run
        have position : pos + 1 + text.length = pos + (byte :: text).length := by
          rw [List.length_cons]
          omega
        rw [position] at final_scanning final_run
        refine ⟨final, final_state, final_scanning, fun more => ?_⟩
        rw [List.cons_append, scanMail, step]
        exact final_run more
      · rw [next] at run
        contradiction

theorem scanMail_follows {body pos : Nat} {scan : MailScan} (second : scan.state.Second) {more : List UInt8}
    (follows : Follows more) : scanMail body pos scan more = (scan.fin, pos) := by
  rcases follows with rfl | ⟨rest, rfl⟩
  · rcases second with state | state <;> simp [scanMail, state]
  · have letter : ascii 'F' ≠ CR ∧ ascii 'F' ≠ LF := by decide
    rcases second with state | state <;> simp [fromPrefix, scanMail, MailScan.step, state, letter]

theorem next_matched_le {state later : MailState} {byte : UInt8} (next : state.next byte = some later) :
    later.matched.length ≤ state.matched.length + 1 := by
  cases state <;> simp only [MailState.next, Option.some.injEq] at next <;> split_ifs at next <;>
    cases next <;> decide

/-- The next message does not start before what has been matched of its separator. -/
theorem Scanning.le_next {body pos : Nat} {scan : MailScan} (scanning : Scanning body pos scan) (rest : List UInt8) :
    pos ≤ (scanMail body pos scan rest).2 + scan.state.matched.length := by
  induction rest generalizing pos scan with
  | nil => exact Nat.le_add_right _ _
  | cons byte rest ih =>
      rw [scanMail]
      rcases scanning.step byte with ⟨later, step, next, behind⟩ | ⟨step, -, next_eq⟩
      · rw [step]
        have bound := ih behind
        have matched := next_matched_le next
        dsimp only
        omega
      · rw [step]
        exact next_eq.ge

theorem next_letter {state later : MailState} (next : state.next (ascii 'F') = some later)
    (notSecond : ¬ state.Second) : later.matched = [] := by
  rw [MailState.Second, not_or] at notSecond
  cases state <;> cases later <;> revert next notSecond <;> decide

theorem Scanning.second {body pos : Nat} {scan : MailScan} (scanning : Scanning body pos scan) {text more : List UInt8}
    (separator : fromPrefix <+: more) (next : (scanMail body pos scan (text ++ more)).2 = pos + text.length) :
    ∃ state, scan.state.run text = some state ∧ state.Second := by
  induction text generalizing pos scan with
  | nil =>
      obtain ⟨rest, rfl⟩ := separator
      refine ⟨scan.state, rfl, ?_⟩
      by_contra notSecond
      rcases scanning.step (ascii 'F') with ⟨later, step, next_state, behind⟩ | ⟨-, next_state, -⟩
      · have unmatched := next_letter next_state notSecond
        have bound := behind.le_next (fromPrefix.tail ++ rest)
        rw [unmatched] at bound
        change (scanMail body pos scan (ascii 'F' :: (fromPrefix.tail ++ rest))).2 = pos + 0 at next
        rw [scanMail, step] at next
        dsimp only at next
        simp only [List.length_nil] at bound
        omega
      · revert next_state
        cases scan.state <;> simp [MailState.next]
        decide
  | cons byte text ih =>
      rw [List.cons_append, scanMail] at next
      rcases scanning.step byte with ⟨later, step, next_state, behind⟩ | ⟨step, -, next_eq⟩
      · rw [step] at next
        obtain ⟨state, run, second⟩ := ih behind (next.trans (by rw [List.length_cons]; omega))
        exact ⟨state, by rw [MailState.run, next_state]; exact run, second⟩
      · rw [step, List.length_cons] at next
        dsimp only at next
        omega

def MailScan.shift (scan : MailScan) (offset : Nat) : MailScan :=
  ⟨scan.state, scan.fin + offset, scan.next + offset⟩

theorem MailScan.step_shift (body pos offset : Nat) (scan : MailScan) (byte : UInt8) :
    (scan.shift offset).step (body + offset) (pos + offset) byte =
      match scan.step body pos byte with
      | .inl later => .inl (later.shift offset)
      | .inr ends => .inr (ends.1 + offset, ends.2 + offset) := by
  cases state : scan.state <;> simp only [MailScan.step, MailScan.shift, state, Nat.add_right_cancel_iff] <;>
    split_ifs <;> simp [state]

theorem scanMail_shift (body pos offset : Nat) (scan : MailScan) (text : List UInt8) :
    scanMail (body + offset) (pos + offset) (scan.shift offset) text =
      ((scanMail body pos scan text).1 + offset, (scanMail body pos scan text).2 + offset) := by
  induction text generalizing pos scan with
  | nil =>
      rw [scanMail, scanMail]
      change (if scan.state = .inMail then pos + offset else scan.fin + offset, pos + offset) = _
      split_ifs <;> rfl
  | cons byte text ih =>
      rw [scanMail, scanMail, MailScan.step_shift]
      cases scan.step body pos byte with
      | inl later =>
          dsimp only
          rw [Nat.add_right_comm, ih]
      | inr ends => rfl

/-- What is found behind the header fields: the empty line, and the ends. -/
def tailParse (tail : List UInt8) : Nat × Nat × Nat :=
  (mailimfCrlfParse tail, scanMail (mailimfCrlfParse tail) (mailimfCrlfParse tail)
    ⟨.firstLF, tail.length, tail.length⟩ (tail.drop (mailimfCrlfParse tail)))

def SingleParse.ofTail (startLen headersLen : Nat) (tail : Nat × Nat × Nat) (uid : UInt32) : SingleParse :=
  ⟨startLen, headersLen, startLen + headersLen + tail.1, startLen + headersLen + tail.2.1,
    startLen + headersLen + tail.2.2, uid⟩

theorem singleParse_parts {line tail : List UInt8} {fields : List (List UInt8)}
    (recognised : fromLine (line ++ (fields.flatten ++ tail)) = (line.length, line.length))
    (fieldsThen : FieldsThen fields tail) (failed : mailimfIgnoreFieldParse tail = none) :
    singleParse (line ++ (fields.flatten ++ tail)) =
      .ofTail line.length fields.flatten.length (tailParse tail) (foldUid 0 fields tail) := by
  have behind : (line ++ (fields.flatten ++ tail)).drop line.length = fields.flatten ++ tail := List.drop_left
  have ahead : (line ++ (fields.flatten ++ tail)).drop (line.length + fields.flatten.length) = tail := by
    rw [← List.drop_drop, behind, List.drop_left]
  have body : (line ++ (fields.flatten ++ tail)).drop
      (line.length + fields.flatten.length + mailimfCrlfParse tail) = tail.drop (mailimfCrlfParse tail) := by
    rw [← List.drop_drop, ahead]
  have total : (line ++ (fields.flatten ++ tail)).length = tail.length + (line.length + fields.flatten.length) := by
    rw [List.length_append, List.length_append]
    omega
  have ends := scanMail_shift (mailimfCrlfParse tail) (mailimfCrlfParse tail) (line.length + fields.flatten.length)
    ⟨.firstLF, tail.length, tail.length⟩ (tail.drop (mailimfCrlfParse tail))
  rw [MailScan.shift] at ends
  simp only [singleParse, recognised, behind, mailmboxFieldsParse_fields fieldsThen failed, ahead, body, total,
    SingleParse.ofTail, tailParse]
  rw [Nat.add_comm (line.length + fields.flatten.length) (mailimfCrlfParse tail), ends]
  simp only [Nat.add_comm]

def IsFromLine (line : List UInt8) : Prop := ∃ text, LF ∉ text ∧ line = fromPrefix ++ (text ++ [LF])

theorem IsFromLine.fromLine {line : List UInt8} (isLine : IsFromLine line) (rest : List UInt8) :
    fromLine (line ++ rest) = (line.length, line.length) := by
  obtain ⟨text, noBreak, rfl⟩ := isLine
  have found : ((fromPrefix ++ (text ++ [LF]) ++ rest).drop 5).findIdx? (· == LF) = some text.length := by
    have behind : (fromPrefix ++ (text ++ [LF]) ++ rest).drop 5 = text ++ (LF :: rest) := by
      simp [fromPrefix]
    have early : text.findIdx? (· == LF) = none := by
      rw [List.findIdx?_eq_none_iff]
      intro byte member
      exact beq_false_of_ne fun same => noBreak (same ▸ member)
    rw [behind, List.findIdx?_append, early, List.findIdx?_cons]
    simp
  rw [Mbox.fromLine, if_pos, found]
  · simp [fromPrefix]
    omega
  · simp [fromPrefix]

theorem fromLine_cases (rest : List UInt8) :
    (∃ line behind, IsFromLine line ∧ rest = line ++ behind) ∨
      (fromLine rest = (0, 0) ∧ ¬ (5 < rest.length ∧ rest.take 5 = fromPrefix)) ∨
      (fromLine rest = (0, rest.length) ∧ fromPrefix <+: rest) := by
  by_cases recognised : 5 < rest.length ∧ rest.take 5 = fromPrefix
  · have separator : fromPrefix <+: rest := recognised.2 ▸ List.take_prefix 5 rest
    cases found : (rest.drop 5).findIdx? (· == LF) with
    | none => exact .inr (.inr ⟨by rw [fromLine, if_pos recognised, found], separator⟩)
    | some index =>
        left
        have member : LF ∈ rest.drop 5 := by
          by_contra absent
          rw [List.findIdx?_eq_none_iff.mpr] at found
          · contradiction
          · intro byte listed
            exact beq_false_of_ne fun same => absent (same ▸ listed)
        obtain ⟨text, behind, split, noBreak⟩ := List.eq_append_cons_of_mem member
        refine ⟨fromPrefix ++ (text ++ [LF]), behind, ⟨text, noBreak, rfl⟩, ?_⟩
        rw [← recognised.2, List.append_assoc, List.append_assoc, List.singleton_append, ← split,
          List.take_append_drop]
  · exact .inr (.inl ⟨by rw [fromLine, if_neg recognised], recognised⟩)

theorem Follows.cases {more : List UInt8} (follows : Follows more) : more = [] ∨ ∃ rest, more = ascii 'F' :: rest := by
  rcases follows with rfl | ⟨rest, rfl⟩
  · exact .inl rfl
  · exact .inr ⟨_, rfl⟩

theorem skipBlanks_follows {more : List UInt8} (follows : Follows more) (limit : Nat) (text : List UInt8) :
    skipBlanks limit (text ++ more) = skipBlanks limit text ++ more := by
  induction text generalizing limit with
  | nil =>
      rcases follows.cases with rfl | ⟨rest, rfl⟩
      · simp
      · cases limit with
        | zero => rfl
        | succ limit => exact if_neg (by decide)
  | cons byte text ih =>
      cases limit with
      | zero => rfl
      | succ limit =>
          rw [List.cons_append, skipBlanks, skipBlanks]
          split_ifs
          · exact ih limit
          · rfl

theorem strtoul_follows {more : List UInt8} (follows : Follows more) (text : List UInt8) :
    strtoul (text ++ more) = strtoul text := by
  rcases follows.cases with rfl | ⟨rest, rfl⟩
  · rw [List.append_nil]
  · have noSpace : (text ++ ascii 'F' :: rest).dropWhile isSpace = text.dropWhile isSpace ++ ascii 'F' :: rest := by
      rw [List.dropWhile_append]
      split_ifs with allSpace
      · rw [List.dropWhile_cons_of_neg (by decide), List.isEmpty_iff.mp allSpace]
        rfl
      · rfl
    have signs : ∀ (remaining : List UInt8) (sign : UInt8), sign ≠ ascii 'F' →
        ((remaining ++ ascii 'F' :: rest).head? = some sign ↔ remaining.head? = some sign) := by
      intro remaining sign other
      cases remaining with
      | nil => simp [Ne.symm other]
      | cons byte remaining => rfl
    have digits : ∀ remaining : List UInt8,
        (remaining ++ ascii 'F' :: rest).takeWhile isDigit = remaining.takeWhile isDigit := by
      intro remaining
      rw [List.takeWhile_append]
      split_ifs with allDigits
      · rw [List.takeWhile_cons_of_neg (by decide), List.append_nil]
        exact ((List.takeWhile_prefix _).eq_of_length allDigits).symm
      · rfl
    simp only [strtoul, noSpace, signs _ (ascii '-') (by decide), signs _ (ascii '+') (by decide)]
    by_cases signed : (text.dropWhile isSpace).head? = some (ascii '-') ∨
        (text.dropWhile isSpace).head? = some (ascii '+')
    · have nonempty : text.dropWhile isSpace ≠ [] := by
        intro empty
        rw [empty] at signed
        simp at signed
      simp only [if_pos signed, List.tail_append_of_ne_nil nonempty, digits]
    · simp only [if_neg signed, digits]

theorem foldUid_follows {more : List UInt8} (follows : Follows more) {fields : List (List UInt8)} {tail : List UInt8}
    (fieldsThen : FieldsThen fields tail) (uid : UInt32) :
    foldUid uid fields (tail ++ more) = foldUid uid fields tail := by
  induction fieldsThen generalizing uid with
  | nil => rfl
  | @cons field fields tail isField ends behind ih =>
      have sameUid : isUidHeader field = true →
          fieldUid (field ++ (fields.flatten ++ (tail ++ more))) field.length =
            fieldUid (field ++ (fields.flatten ++ tail)) field.length := by
        intro header
        have long := isUidHeader_length header
        rw [fieldUid, fieldUid, List.drop_append_of_le_length long, List.drop_append_of_le_length long,
          ← List.append_assoc fields.flatten, ← List.append_assoc, skipBlanks_follows follows, strtoul_follows follows]
      rw [foldUid, foldUid, ih]
      congr 1
      split_ifs with header
      · exact sameUid header
      · rfl

theorem mailimfCrlfParse_follows {more : List UInt8} (follows : Follows more) (text : List UInt8) :
    mailimfCrlfParse (text ++ more) = mailimfCrlfParse text := by
  rcases follows.cases with rfl | ⟨rest, rfl⟩
  · rw [List.append_nil]
  · match text with
    | [] => exact (by decide : mailimfCrlfParse [ascii 'F'] = 0)
    | [byte] =>
        have letter : ascii 'F' ≠ LF := by decide
        simp [mailimfCrlfParse, letter]
    | first :: second :: text => rfl

structure SameScan (left right : MailScan) : Prop where
  state : left.state = right.state
  fin : left.fin = right.fin
  next : left.state.matched ≠ [] → left.next = right.next

theorem SameScan.step {left right : MailScan} (same : SameScan left right) (body pos : Nat) (byte : UInt8) :
    (∃ leftLater rightLater, left.step body pos byte = .inl leftLater ∧
        right.step body pos byte = .inl rightLater ∧ SameScan leftLater rightLater) ∨
      left.step body pos byte = right.step body pos byte := by
  obtain ⟨state, fin, next⟩ := left
  obtain ⟨_, _, other⟩ := right
  obtain ⟨rfl, rfl, next_eq⟩ := same
  by_cases matched : state.matched = []
  · left
    cases state <;> simp only [MailScan.step] <;> split_ifs <;>
      first
      | exact ⟨_, _, rfl, rfl, rfl, rfl, fun set => absurd rfl set⟩
      | exact ⟨_, _, rfl, rfl, rfl, rfl, fun _ => rfl⟩
      | exact absurd matched (by decide)
  · right
    have same_next : next = other := next_eq matched
    rw [same_next]

theorem scanMail_same {left right : MailScan} (same : SameScan left right) (body pos : Nat) (text : List UInt8) :
    scanMail body pos left text = scanMail body pos right text := by
  induction text generalizing pos left right with
  | nil => rw [scanMail, scanMail, same.state, same.fin]
  | cons byte text ih =>
      rw [scanMail, scanMail]
      rcases same.step body pos byte with ⟨leftLater, rightLater, leftStep, rightStep, behind⟩ | step
      · rw [leftStep, rightStep]
        exact ih behind (pos + 1)
      · rw [step]

theorem scanMail_start (body pos length other : Nat) {text : List UInt8} (nonempty : text ≠ []) :
    scanMail body pos ⟨.firstLF, length, length⟩ text = scanMail body pos ⟨.firstLF, other, other⟩ text := by
  cases text with
  | nil => contradiction
  | cons byte text =>
      rw [scanMail, scanMail, MailScan.step, MailScan.step]
      dsimp only
      split_ifs
      all_goals
        apply scanMail_same
        exact ⟨rfl, rfl, fun set => absurd rfl set⟩

def EndsBlank (text : List UInt8) : Prop :=
  ∃ state, MailState.run .firstLF (text.drop (mailimfCrlfParse text)) = some state ∧ state.Second

theorem EndsBlank.nonempty {text : List UInt8} (endsBlank : EndsBlank text) :
    text.drop (mailimfCrlfParse text) ≠ [] := by
  obtain ⟨state, run, second⟩ := endsBlank
  intro empty
  rw [empty, MailState.run] at run
  cases run
  rcases second with state | state <;> contradiction

theorem tailParse_follows {text more : List UInt8} (endsBlank : EndsBlank text) (follows : Follows more) :
    tailParse (text ++ more) = tailParse text ∧ (tailParse text).2.2 = text.length := by
  have crlf_le := mailimfCrlfParse_le text
  have nonempty := endsBlank.nonempty
  obtain ⟨state, run, second⟩ := endsBlank
  have scanning : Scanning (mailimfCrlfParse text) (mailimfCrlfParse text) ⟨.firstLF, text.length, text.length⟩ :=
    ⟨nofun, le_rfl, fun matched => absurd rfl matched⟩
  obtain ⟨later, later_state, -, later_run⟩ := scanning.run run
  have position : mailimfCrlfParse text + (text.drop (mailimfCrlfParse text)).length = text.length := by
    rw [List.length_drop]
    omega
  rw [position] at later_run
  have ends : ∀ more, Follows more → scanMail (mailimfCrlfParse text) (mailimfCrlfParse text)
      ⟨.firstLF, text.length, text.length⟩ (text.drop (mailimfCrlfParse text) ++ more) = (later.fin, text.length) := by
    intro more follows
    rw [later_run more]
    exact scanMail_follows (later_state ▸ second) follows
  have alone := ends [] (.inl rfl)
  rw [List.append_nil] at alone
  refine ⟨?_, by rw [tailParse, alone]⟩
  rw [tailParse, tailParse, mailimfCrlfParse_follows follows, List.drop_append_of_le_length crlf_le,
    scanMail_start _ _ _ text.length (by simp [nonempty]), ends more follows, alone]

theorem run_second_breaks {state later : MailState} {text : List UInt8} (run : state.run text = some later)
    (second : later.Second) (notSecond : ¬ state.Second) : ∃ byte ∈ text, byte = CR ∨ byte = LF := by
  induction text generalizing state with
  | nil =>
      cases run
      exact absurd second notSecond
  | cons byte text ih =>
      by_cases lineBreak : byte = CR ∨ byte = LF
      · exact ⟨byte, .head _, lineBreak⟩
      · rw [MailState.run] at run
        obtain ⟨middle, next, run⟩ := Option.bind_eq_some_iff.mp run
        have middleNot : ¬ middle.Second := by
          rw [not_or] at lineBreak
          rintro (rfl | rfl) <;> cases state <;>
            simp [MailState.next, lineBreak.1, lineBreak.2] at next <;> split_ifs at next
        obtain ⟨other, member, lineBreak⟩ := ih run middleNot
        exact ⟨other, .tail _ member, lineBreak⟩

theorem EndsBlank.breaks {text : List UInt8} (endsBlank : EndsBlank text) : ∃ byte ∈ text, byte = CR ∨ byte = LF := by
  obtain ⟨state, run, second⟩ := endsBlank
  obtain ⟨byte, member, lineBreak⟩ := run_second_breaks run second (by rintro (state | state) <;> contradiction)
  exact ⟨byte, List.mem_of_mem_drop member, lineBreak⟩

theorem not_separator_append {text : List UInt8} (unlike : ¬ fromPrefix <+: text)
    (breaks : ∃ byte ∈ text, byte = CR ∨ byte = LF) (other : List UInt8) : ¬ fromPrefix <+: text ++ other := by
  intro separator
  rcases List.prefix_or_prefix_of_prefix separator (List.prefix_append text other) with early | late
  · exact unlike early
  · obtain ⟨byte, member, lineBreak⟩ := breaks
    have letters : ∀ byte ∈ fromPrefix, ¬ (byte = CR ∨ byte = LF) := by decide +kernel
    exact letters byte (late.subset member) lineBreak

theorem fromLine_unlike {rest : List UInt8} (unlike : ¬ fromPrefix <+: rest) : fromLine rest = (0, 0) := by
  rw [fromLine, if_neg]
  exact fun both => unlike (both.2 ▸ List.take_prefix 5 rest)

structure Parts (line : List UInt8) (fields : List (List UInt8)) (tail : List UInt8) : Prop where
  kind : IsFromLine line ∨ line = [] ∧ ¬ fromPrefix <+: fields.flatten ++ tail
  fieldsThen : FieldsThen fields tail

theorem Parts.singleParse {line tail : List UInt8} {fields : List (List UInt8)} (parts : Parts line fields tail)
    (failed : mailimfIgnoreFieldParse tail = none) :
    singleParse (line ++ (fields.flatten ++ tail)) =
      .ofTail line.length fields.flatten.length (tailParse tail) (foldUid 0 fields tail) := by
  apply singleParse_parts _ parts.fieldsThen failed
  rcases parts.kind with isLine | ⟨rfl, unlike⟩
  · exact isLine.fromLine _
  · exact fromLine_unlike unlike

theorem Parts.insert {line tail : List UInt8} {fields : List (List UInt8)} (parts : Parts line fields tail)
    {number : List UInt8} (noBreak : ∀ byte ∈ number, byte ≠ CR ∧ byte ≠ LF) (notBlank : startsBlank tail = false) :
    Parts line (fields ++ [uidLine number]) tail where
  kind := by
    refine parts.kind.imp_right fun ⟨noLine, unlike⟩ => ⟨noLine, ?_⟩
    have flatten_eq : (fields ++ [uidLine number]).flatten = fields.flatten ++ uidLine number := by simp
    rw [flatten_eq, List.append_assoc]
    cases fields with
    | nil =>
        rintro ⟨rest, start⟩
        have first := congrArg List.head? start
        revert first
        exact (by decide : some (ascii 'F') ≠ some (ascii 'X'))
    | cons field fields =>
        apply not_separator_append
        · exact fun early => unlike (early.trans (List.prefix_append _ _))
        · cases parts.fieldsThen with
          | cons isField _ _ =>
              obtain ⟨text, rfl⟩ := isField.ends
              exact ⟨LF, by simp, .inr rfl⟩
  fieldsThen := by
    have behind : FieldsThen fields (uidLine number ++ tail) :=
      parts.fieldsThen.replace (startsBlank_uidLine number tail)
    exact behind.snoc (isField_uidLine noBreak) notBlank

structure Message (line : List UInt8) (fields : List (List UInt8)) (text : List UInt8) : Prop
    extends Parts line fields text where
  endsBlank : EndsBlank text

theorem Message.text_ne {line text : List UInt8} {fields : List (List UInt8)} (message : Message line fields text) :
    text ≠ [] := by
  rintro rfl
  exact message.endsBlank.nonempty rfl

theorem Message.append {line text : List UInt8} {fields : List (List UInt8)} (message : Message line fields text)
    (more : List UInt8) : Parts line fields (text ++ more) where
  kind := by
    refine message.kind.imp_right fun ⟨noLine, unlike⟩ => ⟨noLine, ?_⟩
    rw [← List.append_assoc]
    apply not_separator_append unlike
    obtain ⟨byte, member, lineBreak⟩ := message.endsBlank.breaks
    exact ⟨byte, List.mem_append_right _ member, lineBreak⟩
  fieldsThen := message.fieldsThen.congr (startsBlank_append message.text_ne more)

theorem Message.singleParse {line text more : List UInt8} {fields : List (List UInt8)}
    (message : Message line fields text) (follows : Follows more)
    (failed : mailimfIgnoreFieldParse (text ++ more) = none) :
    singleParse (line ++ (fields.flatten ++ (text ++ more))) =
      .ofTail line.length fields.flatten.length (tailParse text) (foldUid 0 fields text) := by
  rw [(message.append more).singleParse failed, (tailParse_follows message.endsBlank follows).1,
    foldUid_follows follows message.fieldsThen]

theorem singleParse_cases (rest : List UInt8) :
    (fromLine rest = (0, rest.length) ∧ fromPrefix <+: rest) ∨
      ∃ line fields tail, rest = line ++ (fields.flatten ++ tail) ∧
        (IsFromLine line ∨ line = [] ∧ ¬ (5 < rest.length ∧ rest.take 5 = fromPrefix)) ∧
        fromLine rest = (line.length, line.length) ∧ FieldsThen fields tail ∧ mailimfIgnoreFieldParse tail = none := by
  rcases fromLine_cases rest with ⟨line, behind, isLine, rfl⟩ | ⟨none, unlike⟩ | open_
  · obtain ⟨fields, tail, rfl, fieldsThen, failed⟩ := mailmboxFieldsParse_cases behind
    exact .inr ⟨line, fields, tail, rfl, .inl isLine, isLine.fromLine _, fieldsThen, failed⟩
  · obtain ⟨fields, tail, rfl, fieldsThen, failed⟩ := mailmboxFieldsParse_cases rest
    exact .inr ⟨[], fields, tail, rfl, .inr ⟨rfl, unlike⟩, none, fieldsThen, failed⟩
  · exact .inl open_

theorem body_le_next (rest : List UInt8) : (singleParse rest).body ≤ (singleParse rest).next := by
  obtain ⟨header, content, padding, more, -, body_eq, -, next_eq, -⟩ := (singleParse_cuts rest).split
  omega

theorem EndsBlank.of_next {text more : List UInt8} (separator : fromPrefix <+: more)
    (next : (tailParse (text ++ more)).2.2 = text.length) : EndsBlank text := by
  have crlf_le := mailimfCrlfParse_le text
  rw [tailParse, mailimfCrlfParse_follows (.inr separator), List.drop_append_of_le_length crlf_le] at next
  have scanning : ∀ length, Scanning (mailimfCrlfParse text) (mailimfCrlfParse text) ⟨.firstLF, length, length⟩ :=
    fun length => ⟨nofun, le_rfl, fun matched => absurd rfl matched⟩
  apply (scanning _).second separator
  rw [next, List.length_drop]
  omega

/-- A message that the parser ends in front of a separator line. -/
theorem message_of_region {region more : List UInt8} (separator : fromPrefix <+: more)
    (next : (singleParse (region ++ more)).next = region.length) :
    ∃ line fields text, region = line ++ (fields.flatten ++ text) ∧ Message line fields text ∧
      mailimfIgnoreFieldParse (text ++ more) = none := by
  have more_length : 5 ≤ more.length := separator.length_le
  rcases singleParse_cases (region ++ more) with ⟨whole, -⟩ |
    ⟨line, fields, tail, split, kind, recognised, fieldsThen, failed⟩
  · have body_le := body_le_next (region ++ more)
    have body_ge : (region ++ more).length ≤ (singleParse (region ++ more)).body := by
      simp only [singleParse, whole]
      omega
    rw [List.length_append] at body_ge
    omega
  · have parsed := split ▸ next
    rw [singleParse_parts (split ▸ recognised) fieldsThen failed] at parsed
    change line.length + fields.flatten.length + (tailParse tail).2.2 = region.length at parsed
    obtain ⟨text, region_eq, tail_eq⟩ :
        ∃ text, region = line ++ fields.flatten ++ text ∧ tail = text ++ more := by
      rw [← List.append_assoc] at split
      rcases List.append_eq_append_iff.mp split with ⟨between, front, back⟩ | ⟨text, front, back⟩
      · have lengths := congrArg List.length front
        simp only [List.length_append] at lengths
        obtain rfl : between = [] := List.eq_nil_of_length_eq_zero (by omega)
        exact ⟨[], by simpa using front.symm, by simpa using back.symm⟩
      · exact ⟨text, front, back⟩
    subst tail_eq
    have text_next : (tailParse (text ++ more)).2.2 = text.length := by
      have lengths := congrArg List.length region_eq
      simp only [List.length_append] at lengths
      omega
    have endsBlank := EndsBlank.of_next separator text_next
    have text_ne : text ≠ [] := by
      rintro rfl
      exact endsBlank.nonempty rfl
    rw [List.append_assoc] at region_eq
    have unlike_region : line = [] ∧ ¬ (5 < (region ++ more).length ∧ (region ++ more).take 5 = fromPrefix) →
        line = [] ∧ ¬ fromPrefix <+: fields.flatten ++ text := by
      rintro ⟨rfl, unlike⟩
      refine ⟨rfl, ?_⟩
      rw [← List.nil_append (fields.flatten ++ text), ← region_eq]
      intro early
      apply unlike
      have longer : fromPrefix <+: region ++ more := List.prefix_append_of_prefix early
      refine ⟨?_, (List.prefix_iff_eq_take.mp longer).symm⟩
      have text_pos := List.length_pos_iff.mpr text_ne
      rw [List.length_append, region_eq]
      simp only [List.length_append]
      omega
    refine ⟨line, fields, text, region_eq, ⟨⟨kind.imp_right unlike_region, ?_⟩, endsBlank⟩, failed⟩
    exact fieldsThen.congr (startsBlank_append text_ne more).symm

end Etpan.Mbox
