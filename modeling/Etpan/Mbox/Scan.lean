import Etpan.Mbox.Fields

namespace Etpan.Mbox

open Etpan.Data

/-! The scan for the end of a message, the loop of `mailmbox_single_parse`. -/

def fromPrefix : List UInt8 := [ascii 'F', ascii 'r', ascii 'o', ascii 'm', SP]

inductive MailState where
  | inMail
  | firstCR
  | firstLF
  | secondCR
  | secondLF
  | parsingF
  | parsingR
  | parsingO
  | parsingM
deriving Repr, DecidableEq

/-- The variables of the scan: its state and the offsets `end` and `next`. -/
structure MailScan where
  state : MailState
  fin : Nat
  next : Nat
deriving Repr, DecidableEq

/-- One octet of a message; `none` when it completes the separator of the next one.  The
position is `pos`, and the body starts at `body`. -/
def MailScan.step (body pos : Nat) (scan : MailScan) (byte : UInt8) : MailScan ⊕ (Nat × Nat) :=
  match scan.state with
  | .inMail =>
      if byte = CR then .inl { scan with state := .firstCR }
      else if byte = LF then .inl { scan with state := .firstLF }
      else if byte = ascii 'F' ∧ pos = body then .inl ⟨.parsingF, pos, pos⟩
      else .inl scan
  | .firstCR =>
      if byte = CR then .inl { scan with state := .secondCR, fin := pos }
      else if byte = LF then .inl { scan with state := .firstLF, fin := pos }
      else .inl { scan with state := .inMail, fin := pos }
  | .firstLF =>
      if byte = CR then .inl { scan with state := .secondCR, fin := pos }
      else if byte = LF then .inl { scan with state := .secondLF, fin := pos }
      else .inl { scan with state := .inMail, fin := pos }
  | .secondCR =>
      if byte = CR then .inl { scan with fin := pos }
      else if byte = LF then .inl { scan with state := .secondLF }
      else if byte = ascii 'F' then .inl { scan with state := .parsingF, next := pos }
      else .inl { scan with state := .inMail }
  | .secondLF =>
      if byte = CR then .inl { scan with state := .secondCR }
      else if byte = LF then .inl { scan with fin := pos }
      else if byte = ascii 'F' then .inl { scan with state := .parsingF, next := pos }
      else .inl { scan with state := .inMail }
  | .parsingF => .inl { scan with state := if byte = ascii 'r' then .parsingR else .inMail }
  | .parsingR => .inl { scan with state := if byte = ascii 'o' then .parsingO else .inMail }
  | .parsingO => .inl { scan with state := if byte = ascii 'm' then .parsingM else .inMail }
  | .parsingM => if byte = SP then .inr (scan.fin, scan.next) else .inl { scan with state := .inMail }

/-- The ends of a message: of its content, and of the padding behind it. -/
def scanMail (body : Nat) : Nat → MailScan → List UInt8 → Nat × Nat
  | pos, scan, [] => (if scan.state = .inMail then pos else scan.fin, pos)
  | pos, scan, byte :: rest =>
      match scan.step body pos byte with
      | .inl scan => scanMail body (pos + 1) scan rest
      | .inr ends => ends

def MailState.next : MailState → UInt8 → Option MailState
  | .inMail, byte => some (if byte = CR then .firstCR else if byte = LF then .firstLF else .inMail)
  | .firstCR, byte => some (if byte = CR then .secondCR else if byte = LF then .firstLF else .inMail)
  | .firstLF, byte => some (if byte = CR then .secondCR else if byte = LF then .secondLF else .inMail)
  | .secondCR, byte | .secondLF, byte =>
      some (if byte = CR then .secondCR else if byte = LF then .secondLF
        else if byte = ascii 'F' then .parsingF else .inMail)
  | .parsingF, byte => some (if byte = ascii 'r' then .parsingR else .inMail)
  | .parsingR, byte => some (if byte = ascii 'o' then .parsingO else .inMail)
  | .parsingO, byte => some (if byte = ascii 'm' then .parsingM else .inMail)
  | .parsingM, byte => if byte = SP then none else some .inMail

def MailState.matched : MailState → List UInt8
  | .parsingF => fromPrefix.take 1
  | .parsingR => fromPrefix.take 2
  | .parsingO => fromPrefix.take 3
  | .parsingM => fromPrefix.take 4
  | _ => []

def Breaks (bytes : List UInt8) : Prop := ∀ byte ∈ bytes, byte = CR ∨ byte = LF

def MailState.Describes (state : MailState) (tail : List UInt8) : Prop :=
  match state with
  | .inMail | .firstCR => ¬ Breaks tail
  | .firstLF => True
  | _ => ∃ padding, padding ≠ [] ∧ Breaks padding ∧ tail = padding ++ state.matched

/-- The scan inside a body: `tail` is what lies between the recorded end and the position. -/
structure Scanned (body pos : Nat) (scan : MailScan) (tail : List UInt8) : Prop where
  begun : body < pos
  body_le : body ≤ scan.fin
  tail_length : scan.fin + tail.length = pos
  describes : scan.state.Describes tail
  next_eq : scan.state.matched ≠ [] → scan.next + scan.state.matched.length = pos

@[simp] theorem Breaks.nil : Breaks [] := fun _ member => absurd member List.not_mem_nil

theorem Breaks.append {left right : List UInt8} :
    Breaks (left ++ right) ↔ Breaks left ∧ Breaks right := by
  simp only [Breaks, List.mem_append, or_imp, forall_and]

@[simp] theorem Breaks.singleton {byte : UInt8} : Breaks [byte] ↔ byte = CR ∨ byte = LF := by
  simp [Breaks]

theorem not_breaks_matched {state : MailState} (parsing : state.matched ≠ []) : ¬ Breaks state.matched := by
  intro breaks
  have first := breaks (ascii 'F')
  cases state <;> simp [MailState.matched] at parsing
  all_goals revert first; decide

structure Scanned.After (body pos : Nat) (scan : MailScan) (tail : List UInt8) (byte : UInt8)
    (later : MailScan) : Prop where
  next_state : scan.state.next byte = some later.state
  scanned : ∃ dropped kept, tail ++ [byte] = dropped ++ kept ∧ later.fin = scan.fin + dropped.length ∧
    Scanned body (pos + 1) later kept

theorem Scanned.keep {body pos : Nat} {scan later : MailScan} {tail : List UInt8} {byte : UInt8}
    (scanned : Scanned body pos scan tail) (next_state : scan.state.next byte = some later.state)
    (sameEnd : later.fin = scan.fin) (describes : later.state.Describes (tail ++ [byte]))
    (next_eq : later.state.matched ≠ [] → later.next + later.state.matched.length = pos + 1) :
    Scanned.After body pos scan tail byte later where
  next_state := next_state
  scanned := by
    have tail_length := scanned.tail_length
    refine ⟨[], tail ++ [byte], rfl, by simp [sameEnd], ?_⟩
    exact {
      begun := Nat.lt_succ_of_lt scanned.begun
      body_le := sameEnd ▸ scanned.body_le
      tail_length := by rw [List.length_append, sameEnd, List.length_singleton]; omega
      describes := describes
      next_eq := next_eq }

theorem Scanned.mark {body pos : Nat} {scan later : MailScan} {tail : List UInt8} {byte : UInt8}
    (scanned : Scanned body pos scan tail) (next_state : scan.state.next byte = some later.state)
    (newEnd : later.fin = pos) (describes : later.state.Describes [byte])
    (unmatched : later.state.matched = []) : Scanned.After body pos scan tail byte later where
  next_state := next_state
  scanned := by
    refine ⟨tail, [byte], rfl, newEnd.trans scanned.tail_length.symm, ?_⟩
    exact {
      begun := Nat.lt_succ_of_lt scanned.begun
      body_le := newEnd ▸ scanned.begun.le
      tail_length := by rw [newEnd, List.length_singleton]
      describes := describes
      next_eq := fun matched => absurd unmatched matched }

theorem Scanned.step_inMail {body pos : Nat} {scan : MailScan} {tail : List UInt8}
    (scanned : Scanned body pos scan tail) (state : scan.state = .inMail) (byte : UInt8) :
    ∃ later, scan.step body pos byte = .inl later ∧ Scanned.After body pos scan tail byte later := by
  have dirty : ¬ Breaks (tail ++ [byte]) := by
    have describes := scanned.describes
    rw [state] at describes
    exact fun breaks => describes (Breaks.append.mp breaks).1
  have notBody : pos ≠ body := scanned.begun.ne'
  refine ⟨{ scan with state := if byte = CR then .firstCR else if byte = LF then .firstLF else .inMail },
    ?_, scanned.keep (by rw [state]; rfl) rfl ?_ ?_⟩
  · simp only [MailScan.step, state, notBody, and_false, if_false]
    split_ifs <;> simp [← state]
  · simp only
    split_ifs <;> simp [MailState.Describes, dirty]
  · simp only
    split_ifs <;> simp [MailState.matched]

theorem Scanned.step_first {body pos : Nat} {scan : MailScan} {tail : List UInt8}
    (scanned : Scanned body pos scan tail) (state : scan.state = .firstCR ∨ scan.state = .firstLF) (byte : UInt8) :
    ∃ later, scan.step body pos byte = .inl later ∧ later.fin = pos ∧ Scanned.After body pos scan tail byte later := by
  have marked : ∀ target : MailState, scan.state.next byte = some target → target.matched = [] →
      target.Describes [byte] →
      Scanned.After body pos scan tail byte { scan with state := target, fin := pos } :=
    fun target next unmatched describes => scanned.mark next rfl describes unmatched
  rcases state with state | state
  all_goals
    simp only [MailScan.step, state]
    rw [state] at marked
    by_cases cr : byte = CR
    · exact ⟨_, if_pos cr, rfl, marked .secondCR (by simp [MailState.next, cr]) rfl
        ⟨[byte], by simp, by simp [cr], by simp [MailState.matched]⟩⟩
    · by_cases lf : byte = LF
      · subst lf
        refine ⟨_, by rw [if_neg cr, if_pos rfl], rfl, marked _ (by simp [MailState.next]) rfl ?_⟩
        first
        | exact trivial
        | exact ⟨[LF], by simp, by simp, by simp [MailState.matched]⟩
      · exact ⟨_, by rw [if_neg cr, if_neg lf], rfl, marked .inMail (by simp [MailState.next, cr, lf]) rfl
          (by simp [MailState.Describes, cr, lf])⟩

def MailState.Second (state : MailState) : Prop := state = .secondCR ∨ state = .secondLF

theorem MailState.Second.describes {state : MailState} (second : state.Second) {tail : List UInt8} :
    state.Describes tail ↔ tail ≠ [] ∧ Breaks tail := by
  rcases second with rfl | rfl
  all_goals
    refine ⟨?_, fun ⟨nonempty, breaks⟩ => ⟨tail, nonempty, breaks, (List.append_nil _).symm⟩⟩
    rintro ⟨padding, nonempty, breaks, rfl⟩
    exact ⟨by simpa [MailState.matched] using nonempty, by simpa [MailState.matched] using breaks⟩

theorem MailState.Second.matched {state : MailState} (second : state.Second) : state.matched = [] := by
  rcases second with rfl | rfl <;> rfl

theorem Scanned.second_break {body pos : Nat} {scan later : MailScan} {tail : List UInt8} {byte : UInt8}
    (scanned : Scanned body pos scan tail) (second : scan.state.Second) (lineBreak : byte = CR ∨ byte = LF)
    (next_state : scan.state.next byte = some later.state) (stays : later.state.Second)
    (fin : later.fin = scan.fin ∨ later.fin = pos) : Scanned.After body pos scan tail byte later := by
  have one : Breaks [byte] := Breaks.singleton.mpr lineBreak
  rcases fin with same | new
  · apply scanned.keep next_state same
    · exact stays.describes.mpr ⟨by simp, Breaks.append.mpr ⟨(second.describes.mp scanned.describes).2, one⟩⟩
    · exact fun matched => absurd stays.matched matched
  · exact scanned.mark next_state new (stays.describes.mpr ⟨by simp, one⟩) stays.matched

theorem Scanned.second_other {body pos : Nat} {scan : MailScan} {tail : List UInt8} {byte : UInt8}
    (scanned : Scanned body pos scan tail) (second : scan.state.Second) (notCr : byte ≠ CR) (notLf : byte ≠ LF) :
    Scanned.After body pos scan tail byte
      (if byte = ascii 'F' then { scan with state := .parsingF, next := pos } else { scan with state := .inMail }) := by
  have next_state : scan.state.next byte = some (if byte = ascii 'F' then .parsingF else .inMail) := by
    rcases second with state | state <;> rw [state] <;> simp [MailState.next, notCr, notLf]
  split_ifs at next_state ⊢ with letter
  · refine scanned.keep next_state rfl ?_ ?_
    · have ⟨nonempty, breaks⟩ := second.describes.mp scanned.describes
      exact ⟨tail, nonempty, breaks, by rw [letter]; rfl⟩
    · exact fun _ => rfl
  · refine scanned.keep next_state rfl ?_ ?_
    · exact fun all => (Breaks.singleton.mp (Breaks.append.mp all).2).elim notCr notLf
    · exact fun matched => absurd rfl matched

theorem Scanned.step_second {body pos : Nat} {scan : MailScan} {tail : List UInt8}
    (scanned : Scanned body pos scan tail) (second : scan.state.Second) (byte : UInt8) :
    ∃ later, scan.step body pos byte = .inl later ∧ Scanned.After body pos scan tail byte later := by
  by_cases lineBreak : byte = CR ∨ byte = LF
  · have stay : ∀ later : MailScan, scan.state.next byte = some later.state → later.state.Second →
        later.fin = scan.fin ∨ later.fin = pos → Scanned.After body pos scan tail byte later :=
      fun later => scanned.second_break second lineBreak
    rcases second with state | state <;> rcases lineBreak with rfl | rfl <;>
      rw [MailScan.step, state] <;> rw [state] at stay <;> simp only [reduceIte, LF_ne_CR]
    · exact ⟨_, rfl, stay _ (by simp [MailState.next]) (.inl rfl) (.inr rfl)⟩
    · exact ⟨_, rfl, stay _ (by simp [MailState.next]) (.inr rfl) (.inl rfl)⟩
    · exact ⟨_, rfl, stay _ (by simp [MailState.next]) (.inl rfl) (.inl rfl)⟩
    · exact ⟨_, rfl, stay _ (by simp [MailState.next]) (.inr rfl) (.inr rfl)⟩
  · rw [not_or] at lineBreak
    refine ⟨_, ?_, scanned.second_other second lineBreak.1 lineBreak.2⟩
    rcases second with state | state <;>
      simp only [MailScan.step, state, lineBreak.1, lineBreak.2, if_false, apply_ite Sum.inl]

theorem Scanned.step_parsing {body pos : Nat} {scan : MailScan} {tail : List UInt8}
    (scanned : Scanned body pos scan tail) (parsing : scan.state.matched ≠ []) (byte : UInt8) :
    (∃ later, scan.step body pos byte = .inl later ∧ Scanned.After body pos scan tail byte later) ∨
      (scan.step body pos byte = .inr (scan.fin, scan.next) ∧ scan.state = .parsingM ∧ byte = SP) := by
  obtain ⟨padding, nonempty, breaks, tail_eq⟩ :
      ∃ padding, padding ≠ [] ∧ Breaks padding ∧ tail = padding ++ scan.state.matched := by
    have describes := scanned.describes
    revert parsing describes
    cases scan.state <;> simp [MailState.matched, MailState.Describes]
  have next_eq := scanned.next_eq parsing
  have missed : scan.state.next byte = some .inMail →
      Scanned.After body pos scan tail byte { scan with state := .inMail } := by
    intro next
    refine scanned.keep next rfl ?_ ?_
    · intro all
      rw [tail_eq] at all
      exact not_breaks_matched parsing (Breaks.append.mp (Breaks.append.mp all).1).2
    · exact fun matched => absurd rfl matched
  have advanced : ∀ target : MailState, scan.state.next byte = some target →
      target.matched = scan.state.matched ++ [byte] → target.matched ≠ [] →
      Scanned.After body pos scan tail byte { scan with state := target } := by
    intro target next matched_eq matched
    refine scanned.keep next rfl ?_ ?_
    · have describes : ∃ padding, padding ≠ [] ∧ Breaks padding ∧ tail ++ [byte] = padding ++ target.matched :=
        ⟨padding, nonempty, breaks, by rw [tail_eq, matched_eq, List.append_assoc]⟩
      revert matched describes
      cases target <;> simp [MailState.matched, MailState.Describes]
    · intro _
      simp only [matched_eq, List.length_append, List.length_singleton]
      omega
  cases state : scan.state with
  | parsingF =>
      rw [MailScan.step, state]
      rw [state] at missed advanced
      by_cases letter : byte = ascii 'r'
      · exact .inl ⟨_, by rw [if_pos letter], advanced _ (by simp [MailState.next, letter]) (by rw [letter]; rfl) (by decide)⟩
      · exact .inl ⟨_, by rw [if_neg letter], missed (by simp [MailState.next, letter])⟩
  | parsingR =>
      rw [MailScan.step, state]
      rw [state] at missed advanced
      by_cases letter : byte = ascii 'o'
      · exact .inl ⟨_, by rw [if_pos letter], advanced _ (by simp [MailState.next, letter]) (by rw [letter]; rfl) (by decide)⟩
      · exact .inl ⟨_, by rw [if_neg letter], missed (by simp [MailState.next, letter])⟩
  | parsingO =>
      rw [MailScan.step, state]
      rw [state] at missed advanced
      by_cases letter : byte = ascii 'm'
      · exact .inl ⟨_, by rw [if_pos letter], advanced _ (by simp [MailState.next, letter]) (by rw [letter]; rfl) (by decide)⟩
      · exact .inl ⟨_, by rw [if_neg letter], missed (by simp [MailState.next, letter])⟩
  | parsingM =>
      rw [MailScan.step, state]
      rw [state] at missed
      by_cases letter : byte = SP
      · exact .inr ⟨by rw [if_pos letter], rfl, letter⟩
      · exact .inl ⟨_, by rw [if_neg letter], missed (by simp [MailState.next, letter])⟩
  | inMail | firstCR | firstLF | secondCR | secondLF => exact absurd (by rw [state]; rfl) parsing

theorem Scanned.step_cases {body pos : Nat} {scan : MailScan} {tail : List UInt8}
    (scanned : Scanned body pos scan tail) (byte : UInt8) :
    (∃ later, scan.step body pos byte = .inl later ∧ Scanned.After body pos scan tail byte later ∧
        (scan.state = .firstCR → later.fin = pos)) ∨
      (scan.step body pos byte = .inr (scan.fin, scan.next) ∧ scan.state = .parsingM ∧ byte = SP) := by
  by_cases parsing : scan.state.matched = []
  · left
    cases state : scan.state with
    | inMail =>
        obtain ⟨later, step, after⟩ := scanned.step_inMail state byte
        exact ⟨later, step, after, nofun⟩
    | firstCR =>
        obtain ⟨later, step, marked, after⟩ := scanned.step_first (.inl state) byte
        exact ⟨later, step, after, fun _ => marked⟩
    | firstLF =>
        obtain ⟨later, step, marked, after⟩ := scanned.step_first (.inr state) byte
        exact ⟨later, step, after, nofun⟩
    | secondCR =>
        obtain ⟨later, step, after⟩ := scanned.step_second (.inl state) byte
        exact ⟨later, step, after, nofun⟩
    | secondLF =>
        obtain ⟨later, step, after⟩ := scanned.step_second (.inr state) byte
        exact ⟨later, step, after, nofun⟩
    | parsingF | parsingR | parsingO | parsingM => rw [state] at parsing; contradiction
  · rcases scanned.step_parsing parsing byte with ⟨later, step, after⟩ | separator
    · refine .inl ⟨later, step, after, fun first => ?_⟩
      rw [first] at parsing
      exact absurd rfl parsing
    · exact .inr separator

theorem next_firstLF {state : MailState} {byte : UInt8} (next : state.next byte = some .firstLF) :
    byte = LF ∧ (state = .inMail ∨ state = .firstCR) := by
  cases state <;> simp only [MailState.next, Option.some.injEq] at next <;> split_ifs at next <;> simp_all

/-- The end of the file leaves content behind the recorded end: after a lone line end, and
in a separator that is not complete. -/
def cutShort : MailState → List UInt8 → Bool
  | state, [] => state = .firstCR || state.matched ≠ []
  | state, byte :: rest =>
      if state = .inMail ∧ byte = LF ∧ rest = [] then true
      else match state.next byte with
        | some later => cutShort later rest
        | none => false

/-- The recorded ends cut `text`, which starts at `base`, into the end of a message, its
padding, and what follows. -/
structure EndsAt (base : Nat) (text : List UInt8) (short : Bool) (ends : Nat × Nat) : Prop where
  cut : ∃ content padding more, text = content ++ padding ++ more ∧
    ends = (base + content.length, base + content.length + padding.length) ∧
    (more = [] ∧ (Breaks padding ↔ short = false) ∨
      fromPrefix <+: more ∧ padding ≠ [] ∧ Breaks padding ∧ short = false)

theorem EndsAt.of_drop {base : Nat} {dropped text : List UInt8} {short : Bool} {ends : Nat × Nat}
    (endsAt : EndsAt (base + dropped.length) text short ends) : EndsAt base (dropped ++ text) short ends where
  cut := by
    obtain ⟨content, padding, more, text_eq, ends_eq, kind⟩ := endsAt.cut
    refine ⟨dropped ++ content, padding, more, by rw [text_eq]; simp only [List.append_assoc], ?_, kind⟩
    rw [ends_eq, List.length_append, Nat.add_assoc]

theorem Scanned.endsAt_nil {body pos : Nat} {scan : MailScan} {tail : List UInt8}
    (scanned : Scanned body pos scan tail) (settled : scan.state = .firstLF → Breaks tail) :
    EndsAt scan.fin tail (cutShort scan.state []) (scanMail body pos scan []) where
  cut := by
    rw [scanMail, ← scanned.tail_length]
    by_cases inMail : scan.state = .inMail
    · exact ⟨tail, [], [], by simp, by simp [inMail], .inl ⟨rfl, by simp [inMail, cutShort, MailState.matched]⟩⟩
    · refine ⟨[], tail, [], by simp, by simp [inMail], .inl ⟨rfl, ?_⟩⟩
      have describes := scanned.describes
      cases state : scan.state with
      | inMail => contradiction
      | firstCR =>
          rw [state] at describes
          exact iff_of_false describes (by decide)
      | firstLF => exact iff_of_true (settled state) (by decide)
      | secondCR | secondLF =>
          rw [state] at describes
          obtain ⟨padding, -, breaks, rfl⟩ := describes
          exact iff_of_true (by simpa [MailState.matched] using breaks) (by decide)
      | parsingF | parsingR | parsingO | parsingM =>
          rw [state] at describes
          obtain ⟨padding, -, -, rfl⟩ := describes
          refine iff_of_false (fun breaks => ?_) (by decide)
          exact not_breaks_matched (by decide) (Breaks.append.mp breaks).2

theorem Scanned.endsAt {body pos : Nat} {scan : MailScan} {tail rest : List UInt8}
    (scanned : Scanned body pos scan tail) (settled : scan.state = .firstLF → rest = [] → Breaks tail) :
    EndsAt scan.fin (tail ++ rest) (cutShort scan.state rest) (scanMail body pos scan rest) := by
  induction rest generalizing pos scan tail with
  | nil =>
      rw [List.append_nil]
      exact scanned.endsAt_nil fun first => settled first rfl
  | cons byte rest ih =>
      rcases scanned.step_cases byte with ⟨later, step, after, marked⟩ | ⟨step, state, rfl⟩
      · obtain ⟨dropped, kept, split, fin, behind⟩ := after.scanned
        by_cases lone : scan.state = .inMail ∧ byte = LF ∧ rest = []
        · -- A line end after content that nothing follows: the end recorded before the line stays.
          obtain ⟨state, rfl, rfl⟩ := lone
          have dirty : ¬ Breaks tail := by
            have describes := scanned.describes
            rwa [state] at describes
          refine ⟨[], tail ++ [LF], [], by simp, ?_, .inl ⟨rfl, iff_of_false ?_ (by simp [cutShort, state])⟩⟩
          · have tail_length := scanned.tail_length
            simp only [scanMail, MailScan.step, state, LF_ne_CR, if_false, if_true, List.length_nil,
              Nat.add_zero, List.length_append, List.length_singleton]
            simp [← tail_length, Nat.add_assoc]
          · exact fun breaks => dirty (Breaks.append.mp breaks).1
        · have split_rest : tail ++ byte :: rest = dropped ++ (kept ++ rest) := by
            rw [← List.append_assoc, ← split, List.append_assoc, List.singleton_append]
          have short : cutShort scan.state (byte :: rest) = cutShort later.state rest := by
            rw [cutShort, if_neg lone, after.next_state]
          have run : scanMail body pos scan (byte :: rest) = scanMail body (pos + 1) later rest := by
            rw [scanMail, step]
          rw [split_rest, short, run]
          apply EndsAt.of_drop
          rw [← fin]
          apply ih behind
          intro first rest_eq
          -- The line feed ends a carriage return's line, and it is all there is of the tail.
          obtain ⟨rfl, inMail | firstCR⟩ := next_firstLF (first ▸ after.next_state)
          · exact absurd ⟨inMail, rfl, rest_eq⟩ lone
          · have tail_length := scanned.tail_length
            have kept_eq : kept = [LF] := by
              apply (List.append_inj split.symm _).2
              have sameEnd := marked firstCR
              omega
            simp [kept_eq]
      · obtain ⟨padding, nonempty, breaks, tail_eq⟩ :
            ∃ padding, padding ≠ [] ∧ Breaks padding ∧ tail = padding ++ fromPrefix.take 4 := by
          have describes := scanned.describes
          rwa [state] at describes
        have next_eq := scanned.next_eq (by rw [state]; decide)
        have tail_length := scanned.tail_length
        refine ⟨[], padding, fromPrefix ++ rest, ?_, ?_, .inr ⟨List.prefix_append _ _, nonempty, breaks, ?_⟩⟩
        · rw [tail_eq, List.nil_append, List.append_assoc]
          rfl
        · have matched : scan.state.matched.length = 4 := by rw [state]; rfl
          rw [scanMail, step]
          rw [tail_eq, List.length_append] at tail_length
          have width : (fromPrefix.take 4).length = 4 := rfl
          exact Prod.ext (Nat.add_zero _).symm (by simp only [List.length_nil]; omega)
        · simp [cutShort, state, MailState.next]

theorem scanMail_endsAt (body length next : Nat) (text : List UInt8) (whole : text = [] → length = body) :
    EndsAt body text (cutShort .firstLF text) (scanMail body body ⟨.firstLF, length, next⟩ text) := by
  cases text with
  | nil => exact ⟨[], [], [], rfl, by simp [scanMail, whole rfl], .inl ⟨rfl, by simp [cutShort, MailState.matched]⟩⟩
  | cons byte rest =>
      have started : ∀ state : MailState, state.Describes [byte] → state.matched = [] →
          Scanned body (body + 1) ⟨state, body, next⟩ [byte] :=
        fun state describes unmatched =>
          ⟨Nat.lt_succ_self body, le_rfl, rfl, describes, fun matched => absurd unmatched matched⟩
      rw [scanMail, MailScan.step, cutShort, if_neg (by simp)]
      simp only [MailState.next]
      split_ifs with cr lf
      · exact (started .secondCR ⟨[byte], by simp, by simp [cr], rfl⟩ rfl).endsAt nofun
      · exact (started .secondLF ⟨[byte], by simp, by simp [lf], rfl⟩ rfl).endsAt nofun
      · exact (started .inMail (by simp [MailState.Describes, cr, lf]) rfl).endsAt nofun

end Etpan.Mbox
