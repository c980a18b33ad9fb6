import Etpan.Mime.Multipart

namespace Etpan.Mime

open Etpan.Data Etpan.Imf

/-! Which `--` the preamble scanner takes for the start of a delimiter. -/

def isLineEnd (ch : UInt8) : Bool := ch = CR ∨ ch = LF

/-- A line end after which the scanner is at the start of a line.  The octet after a line
that is a single `-`, itself after such a line end, is not one. -/
def endsLine (text : List UInt8) : Nat → Bool
  | 0 => text[0]?.any isLineEnd
  | 1 => text[1]?.any isLineEnd
  | indx + 2 => text[indx + 2]?.any isLineEnd && !(text[indx + 1]? = some (ascii '-') && endsLine text indx)

def DashesAt (text : List UInt8) (indx : Nat) : Prop := text[indx]? = some (ascii '-') ∧ text[indx + 1]? = some (ascii '-')

def DelimiterAt (beol : Bool) (text : List UInt8) (indx : Nat) : Prop :=
  DashesAt text indx ∧ (indx = 0 ∧ beol = true ∨ 0 < indx ∧ text[indx - 1]? = some LF)

/-- The `--` that the scanner stops at. -/
inductive Taken (beol : Bool) (text : List UInt8) : Nat → Prop
  | first (dashes : DashesAt text 0) (atStart : beol = true) : Taken beol text 0
  | line {indx} (dashes : DashesAt text (indx + 1)) (ends : endsLine text indx) : Taken beol text (indx + 1)
  | inLine {indx ch} (dashes : DashesAt text (indx + 2)) (octet : text[indx + 1]? = some ch) (plain : ch ≠ ascii '-' ∧ isLineEnd ch = false)
      (ends : endsLine text indx) : Taken beol text (indx + 2)

section Scan

def stateAt (state : PreambleState) (text : List UInt8) (count : Nat) : PreambleState := (text.take count).foldl preambleStep state

theorem stateAt_succ {state : PreambleState} {text : List UInt8} {indx : Nat} {ch : UInt8} (octet : text[indx]? = some ch) :
    stateAt state text (indx + 1) = preambleStep (stateAt state text indx) ch := by
  rw [stateAt, stateAt, List.take_add_one, octet, Option.toList_some, List.foldl_append]
  rfl

theorem preambleScan_spec (text : List UInt8) :
    ∀ state : PreambleState, match preambleScan state text with
      | some count => count ≤ text.length ∧ stateAt state text count = .e ∧ ∀ before < count, stateAt state text before ≠ .e
      | none => ∀ count, stateAt state text count ≠ .e := by
  induction text with
  | nil =>
      intro state
      by_cases accepted : state = .e
      · rw [accepted]
        exact ⟨Nat.le_refl 0, rfl, fun before impossible => absurd impossible (Nat.not_lt_zero before)⟩
      · have none' : preambleScan state [] = none := by cases state <;> first | rfl | exact absurd rfl accepted
        rw [none']
        intro count
        rwa [stateAt, List.take_nil]
  | cons ch rest ih =>
      intro state
      by_cases accepted : state = .e
      · rw [accepted]
        exact ⟨Nat.zero_le _, rfl, fun before impossible => absurd impossible (Nat.not_lt_zero before)⟩
      · have unfolded : preambleScan state (ch :: rest) = (preambleScan (preambleStep state ch) rest).map (· + 1) := by
          cases state <;> first | rfl | exact absurd rfl accepted
        have later := ih (preambleStep state ch)
        rw [unfolded]
        cases scanned : preambleScan (preambleStep state ch) rest with
        | none =>
            rw [scanned] at later
            rintro (_ | count)
            · exact accepted
            · exact later count
        | some count =>
            rw [scanned] at later
            refine ⟨Nat.succ_le_succ later.1, later.2.1, ?_⟩
            rintro (_ | before) earlier
            · exact accepted
            · exact later.2.2 before (Nat.lt_of_succ_lt_succ earlier)

end Scan

section Steps

def PreambleState.afterLineEnd (state : PreambleState) : Prop := state = .b ∨ state = .c

variable (state : PreambleState) (ch : UInt8)

theorem preambleStep_states :
    ((preambleStep state ch).afterLineEnd ↔ isLineEnd ch ∧ state ≠ .d ∧ state ≠ .e) ∧
      (preambleStep state ch = .d ↔ ch = ascii '-' ∧ state.afterLineEnd) ∧
      (preambleStep state ch = .a0 ↔ (ch ≠ ascii '-' ∧ isLineEnd ch = false) ∧ state.afterLineEnd) ∧
      (preambleStep state ch = .a1 ↔ ch = ascii '-' ∧ state = .a0) ∧
      (preambleStep state ch = .e ↔ state = .e ∨ ch = ascii '-' ∧ (state = .a1 ∨ state = .d)) := by
  revert ch
  cases state <;> unfold PreambleState.afterLineEnd <;> exact forall_octet (by decide +kernel)

theorem preambleStep_afterLineEnd : (preambleStep state ch).afterLineEnd ↔ isLineEnd ch ∧ state ≠ .d ∧ state ≠ .e :=
  (preambleStep_states state ch).1

theorem preambleStep_d : preambleStep state ch = .d ↔ ch = ascii '-' ∧ state.afterLineEnd :=
  (preambleStep_states state ch).2.1

theorem preambleStep_a0 : preambleStep state ch = .a0 ↔ (ch ≠ ascii '-' ∧ isLineEnd ch = false) ∧ state.afterLineEnd :=
  (preambleStep_states state ch).2.2.1

theorem preambleStep_a1 : preambleStep state ch = .a1 ↔ ch = ascii '-' ∧ state = .a0 :=
  (preambleStep_states state ch).2.2.2.1

theorem preambleStep_e : preambleStep state ch = .e ↔ state = .e ∨ ch = ascii '-' ∧ (state = .a1 ∨ state = .d) :=
  (preambleStep_states state ch).2.2.2.2

end Steps

section Taken

variable {beol : Bool} {text : List UInt8} {indx : Nat}

def startState (beol : Bool) : PreambleState := if beol then .a0 else .a

theorem startState_cases (beol : Bool) : ¬ (startState beol).afterLineEnd ∧ startState beol ≠ .d ∧ startState beol ≠ .a1 ∧
    (startState beol = .a0 ↔ beol = true) := by
  cases beol <;> simp [startState, PreambleState.afterLineEnd]

theorem afterLineEnd_iff (indx : Nat) (alive : ∀ before ≤ indx, stateAt (startState beol) text before ≠ .e) (inside : indx < text.length) :
    (stateAt (startState beol) text (indx + 1)).afterLineEnd ↔ endsLine text indx = true := by
  have start := startState_cases beol
  have octet : ∀ {place} (here : place < text.length), text[place]? = some text[place] := fun here => List.getElem?_eq_getElem here
  rw [stateAt_succ (octet inside), preambleStep_afterLineEnd]
  have running := alive indx (le_refl indx)
  match indx with
  | 0 =>
      have notD : stateAt (startState beol) text 0 ≠ .d := start.2.1
      simp only [endsLine, octet inside, Option.any_some, notD, running, ne_eq, not_false_eq_true, and_true]
  | 1 =>
      have notD : stateAt (startState beol) text 1 ≠ .d := by
        rw [stateAt_succ (octet (Nat.lt_of_succ_lt inside)), ne_eq, preambleStep_d]
        exact fun both => start.1 both.2
      simp only [endsLine, octet inside, Option.any_some, notD, running, ne_eq, not_false_eq_true, and_true]
  | indx + 2 =>
      have before := afterLineEnd_iff indx (fun place earlier => alive place (by omega)) (by omega)
      have isD : stateAt (startState beol) text (indx + 2) = .d ↔ text[indx + 1]? = some (ascii '-') ∧ endsLine text indx = true := by
        rw [stateAt_succ (octet (show indx + 1 < text.length by omega)), preambleStep_d, before, octet (show indx + 1 < text.length by omega),
          Option.some.injEq]
      simp only [endsLine, octet inside, Option.any_some, running, isD, ne_eq, not_false_eq_true, and_true, Bool.and_eq_true,
        Bool.not_eq_eq_eq_not, Bool.not_true, Bool.and_eq_false_imp, decide_eq_true_eq, not_and, Bool.not_eq_true]

theorem stateAt_a0 (alive : ∀ before ≤ indx, stateAt (startState beol) text before ≠ .e) (inside : indx ≤ text.length) :
    stateAt (startState beol) text indx = .a0 ↔ indx = 0 ∧ beol = true ∨
      ∃ before ch, indx = before + 2 ∧ text[before + 1]? = some ch ∧ (ch ≠ ascii '-' ∧ isLineEnd ch = false) ∧ endsLine text before = true := by
  have start := startState_cases beol
  match indx with
  | 0 =>
      rw [show stateAt (startState beol) text 0 = startState beol from rfl, start.2.2.2]
      simp
  | 1 =>
      rw [stateAt_succ (List.getElem?_eq_getElem inside), preambleStep_a0]
      constructor
      · exact fun both => absurd both.2 start.1
      · rintro (⟨impossible, _⟩ | ⟨before, _, impossible, _⟩)
        · cases impossible
        · omega
  | indx + 2 =>
      have octet : text[indx + 1]? = some text[indx + 1] := List.getElem?_eq_getElem (by omega)
      have before := afterLineEnd_iff indx (fun place earlier => alive place (by omega)) (by omega)
      rw [stateAt_succ octet, preambleStep_a0, before]
      constructor
      · exact fun both => .inr ⟨indx, _, rfl, octet, both⟩
      · rintro (⟨impossible, _⟩ | ⟨place, ch, same, there, both⟩)
        · cases impossible
        · have samePlace : place = indx := by omega
          subst samePlace
          rw [octet] at there
          exact Option.some.inj there ▸ both

theorem stateAt_e (alive : ∀ before ≤ indx + 1, stateAt (startState beol) text before ≠ .e) (inside : indx + 1 < text.length) :
    stateAt (startState beol) text (indx + 2) = .e ↔ Taken beol text indx := by
  have octet : text[indx]? = some text[indx] := List.getElem?_eq_getElem (by omega)
  have next : text[indx + 1]? = some text[indx + 1] := List.getElem?_eq_getElem inside
  have aliveBefore : ∀ before ≤ indx, stateAt (startState beol) text before ≠ .e := fun before earlier => alive before (by omega)
  have isA0 := stateAt_a0 aliveBefore (by omega)
  rw [stateAt_succ next, preambleStep_e, stateAt_succ octet, preambleStep_a1, preambleStep_d, isA0]
  have running := alive (indx + 1) (le_refl _)
  rw [stateAt_succ octet] at running
  simp only [running, false_or]
  have dashesAt : text[indx] = ascii '-' → text[indx + 1] = ascii '-' → DashesAt text indx := fun one two => ⟨by rw [octet, one], by rw [next, two]⟩
  have fromDashes : DashesAt text indx → text[indx] = ascii '-' ∧ text[indx + 1] = ascii '-' := by
    rintro ⟨one, two⟩
    rw [octet] at one
    rw [next] at two
    exact ⟨Option.some.inj one, Option.some.inj two⟩
  constructor
  · rintro ⟨two, ⟨one, ⟨rfl, atStart⟩ | ⟨before, ch, rfl, there, plain, ends⟩⟩ | ⟨one, after⟩⟩
    · exact .first (dashesAt one two) atStart
    · exact .inLine (dashesAt one two) there plain ends
    · cases indx with
      | zero => exact absurd after (startState_cases beol).1
      | succ before =>
          exact .line (dashesAt one two) ((afterLineEnd_iff before (fun place earlier => alive place (by omega)) (by omega)).mp after)
  · intro taken
    cases taken with
    | first dashes atStart => exact ⟨(fromDashes dashes).2, .inl ⟨(fromDashes dashes).1, .inl ⟨rfl, atStart⟩⟩⟩
    | @line before dashes ends =>
        have after := (afterLineEnd_iff before (fun place earlier => alive place (by omega)) (by omega)).mpr ends
        exact ⟨(fromDashes dashes).2, .inr ⟨(fromDashes dashes).1, after⟩⟩
    | @inLine before ch dashes there plain ends =>
        exact ⟨(fromDashes dashes).2, .inl ⟨(fromDashes dashes).1, .inr ⟨before, ch, rfl, there, plain, ends⟩⟩⟩

theorem Taken.dashes (taken : Taken beol text indx) : DashesAt text indx := by
  cases taken with
  | first dashes | line dashes | inLine dashes => exact dashes

theorem Taken.inside (taken : Taken beol text indx) : indx + 1 < text.length := (List.getElem?_eq_some_iff.mp taken.dashes.2).1

theorem preambleScan_taken (count : Nat) :
    preambleScan (startState beol) text = some count ↔
      ∃ indx, count = indx + 2 ∧ Taken beol text indx ∧ ∀ before < indx, ¬ Taken beol text before := by
  have scanned := preambleScan_spec text (startState beol)
  have start := startState_cases beol
  have early : ∀ place < 2, stateAt (startState beol) text place ≠ .e := by
    intro place short
    match place with
    | 0 => cases beol <;> exact PreambleState.noConfusion
    | 1 =>
        cases octet : text[0]? with
        | none =>
            have empty : text = [] := by simpa using octet
            rw [empty]
            cases beol <;> exact PreambleState.noConfusion
        | some ch =>
            rw [stateAt_succ octet, ne_eq, preambleStep_e]
            rintro (impossible | ⟨_, impossible | impossible⟩)
            · cases beol <;> cases impossible
            · exact start.2.2.1 impossible
            · exact start.2.1 impossible
  -- what is taken before the state is e for the first time
  have noneTaken : ∀ {limit}, (∀ before < limit, stateAt (startState beol) text before ≠ .e) → ∀ before, before + 2 < limit → ¬ Taken beol text before := by
    intro limit alive before short taken
    exact alive (before + 2) short ((stateAt_e (fun place earlier => alive place (by omega)) taken.inside).mpr taken)
  cases result : preambleScan (startState beol) text with
  | none =>
      rw [result] at scanned
      refine ⟨fun impossible => absurd impossible (by simp), ?_⟩
      rintro ⟨indx, _, taken, _⟩
      exact absurd taken (noneTaken (fun before _ => scanned before) indx (Nat.lt_succ_self (indx + 2)))
  | some stop =>
      rw [result] at scanned
      obtain ⟨within, accepted, alive⟩ := scanned
      have long : 2 ≤ stop := by
        by_contra short
        exact early stop (by omega) accepted
      obtain ⟨indx, rfl⟩ := Nat.exists_eq_add_of_le' long
      have taken := (stateAt_e (fun place earlier => alive place (by omega)) (by omega)).mp accepted
      have notBefore : ∀ before < indx, ¬ Taken beol text before := fun before earlier => noneTaken alive before (by omega)
      constructor
      · intro same
        exact ⟨indx, (Option.some.inj same).symm, taken, notBefore⟩
      · rintro ⟨other, rfl, otherTaken, otherBefore⟩
        have same : other = indx := by
          rcases Nat.lt_trichotomy other indx with earlier | same | later
          · exact absurd otherTaken (notBefore other earlier)
          · exact same
          · exact absurd taken (otherBefore indx later)
        rw [same]

end Taken

/-! ### The delimiters that are found -/

/-- The scanner stops after the first `--` at the start of a line, and fails when there is none. -/
structure FindsFirst (message : List UInt8) (indx : Nat) (beol : Bool) : Prop where
  found : ∀ place, DelimiterAt beol (message.drop indx) place → (∀ before < place, ¬ DelimiterAt beol (message.drop indx) before) →
    mailmimePreambleParse message indx beol = .ok (indx + place + 2)
  missing : (∀ place, ¬ DelimiterAt beol (message.drop indx) place) → mailmimePreambleParse message indx beol = .error .parse

/-- Up to the first delimiter, no line is one octet with `--` behind it, no bare CR has `--`
behind it, and the LF in front of the delimiter is taken for a line end. -/
structure PlainPreamble (beol : Bool) (text : List UInt8) : Prop where
  noOctet : ∀ indx ch, (∀ before ≤ indx + 2, ¬ DelimiterAt beol text before) → text[indx + 1]? = some ch → ch ≠ ascii '-' → isLineEnd ch = false →
    DashesAt text (indx + 2) → endsLine text indx = false
  noBareCr : ∀ indx, (∀ before ≤ indx + 1, ¬ DelimiterAt beol text before) → text[indx]? = some CR → DashesAt text (indx + 1) →
    endsLine text indx = false
  seen : ∀ indx, (∀ before ≤ indx, ¬ DelimiterAt beol text before) → DelimiterAt beol text (indx + 1) → endsLine text indx = true

section Exact

variable {beol : Bool} {text : List UInt8} {indx : Nat}

theorem endsLine_octet (ends : endsLine text indx = true) : text[indx]? = some CR ∨ text[indx]? = some LF := by
  have isEnd : text[indx]?.any isLineEnd = true := by
    match indx with
    | 0 => exact ends
    | 1 => exact ends
    | indx + 2 => exact (Bool.and_eq_true _ _ ▸ ends).1
  rw [Option.any_eq_true] at isEnd
  obtain ⟨ch, there, isEnd⟩ := isEnd
  rw [there]
  simpa [isLineEnd] using isEnd

theorem PlainPreamble.not_taken (plain : PlainPreamble beol text) (none' : ∀ before ≤ indx, ¬ DelimiterAt beol text before) :
    ¬ Taken beol text indx := by
  intro taken
  cases taken with
  | first dashes atStart => exact none' 0 (Nat.zero_le _) ⟨dashes, .inl ⟨rfl, atStart⟩⟩
  | @line before dashes ends =>
      rcases endsLine_octet ends with isCr | isLf
      · exact absurd ends (by rw [plain.noBareCr before none' isCr dashes]; simp)
      · exact none' (before + 1) (le_refl _) ⟨dashes, .inr ⟨Nat.succ_pos before, isLf⟩⟩
  | @inLine before ch dashes there notDash ends =>
      exact absurd ends (by rw [plain.noOctet before ch none' there notDash.1 notDash.2 dashes]; simp)

theorem DelimiterAt.taken (plain : PlainPreamble beol text) (delimiter : DelimiterAt beol text indx)
    (first : ∀ before < indx, ¬ DelimiterAt beol text before) : Taken beol text indx := by
  rcases delimiter.2 with ⟨rfl, atStart⟩ | ⟨later, _⟩
  · exact .first delimiter.1 atStart
  · obtain ⟨before, rfl⟩ := Nat.exists_eq_add_of_le' later
    exact .line delimiter.1 (plain.seen before (fun place earlier => first place (Nat.lt_succ_of_le earlier)) delimiter)

theorem exists_first {property : Nat → Prop} (some' : ∃ indx, property indx) : ∃ indx, property indx ∧ ∀ before < indx, ¬ property before := by
  classical
  exact ⟨Nat.find some', Nat.find_spec some', fun before earlier => Nat.find_min some' earlier⟩

theorem mailmimePreambleParse_taken {message : List UInt8} {indx : Nat} (place : Nat) :
    mailmimePreambleParse message indx beol = .ok (indx + place + 2) ↔
      Taken beol (message.drop indx) place ∧ ∀ before < place, ¬ Taken beol (message.drop indx) before := by
  have scanned := @preambleScan_taken beol (message.drop indx) (place + 2)
  rw [mailmimePreambleParse, show (if beol then PreambleState.a0 else PreambleState.a) = startState beol from rfl]
  constructor
  · intro result
    cases run : preambleScan (startState beol) (message.drop indx) with
    | none =>
        rw [run] at result
        cases result
    | some count =>
        rw [run, Except.ok.injEq] at result
        have same : count = place + 2 := by omega
        obtain ⟨other, eq, taken⟩ := scanned.mp (by rw [run, same])
        have samePlace : other = place := by omega
        rwa [samePlace] at taken
  · intro taken
    rw [scanned.mpr ⟨place, rfl, taken⟩]
    rfl

theorem mailmimePreambleParse_missing {message : List UInt8} {indx : Nat} :
    mailmimePreambleParse message indx beol = .error .parse ↔ ∀ place, ¬ Taken beol (message.drop indx) place := by
  constructor
  · intro failed place taken
    obtain ⟨first, least⟩ := exists_first ⟨place, taken⟩
    rw [(mailmimePreambleParse_taken first).mpr least] at failed
    cases failed
  · intro noneTaken
    rw [mailmimePreambleParse, show (if beol then PreambleState.a0 else PreambleState.a) = startState beol from rfl]
    cases run : preambleScan (startState beol) (message.drop indx) with
    | none => rfl
    | some count =>
        obtain ⟨place, _, taken, _⟩ := (preambleScan_taken count).mp run
        exact absurd taken (noneTaken place)

/-- The scanner finds the first delimiter just when it takes nothing else before it. -/
theorem FindsFirst.eq_of_taken {message : List UInt8} {indx place : Nat} (finds : FindsFirst message indx beol)
    (taken : Taken beol (message.drop indx) place) (none' : ∀ before < place, ¬ DelimiterAt beol (message.drop indx) before) :
    DelimiterAt beol (message.drop indx) place := by
  obtain ⟨first, least⟩ := exists_first ⟨place, taken⟩
  have early : first ≤ place := Nat.le_of_not_lt fun later => least.2 place later taken
  have stops := (mailmimePreambleParse_taken first).mpr least
  by_cases some' : ∃ other, DelimiterAt beol (message.drop indx) other
  · obtain ⟨delimiter, isDelimiter, before⟩ := exists_first some'
    have found := finds.found delimiter isDelimiter before
    rw [stops, Except.ok.injEq] at found
    have same : first = delimiter := by omega
    subst same
    have samePlace : first = place := by
      by_contra differs
      exact none' first (by omega) isDelimiter
    rwa [samePlace] at isDelimiter
  · rw [finds.missing (not_exists.mp some')] at stops
    cases stops

end Exact

/-- The scanner finds the first `--` at the start of a line just when up to there no line
other than the first is one octet with `--` behind it, there is no bare CR with `--` behind it,
and the line before is no single `-` that is ended by LF. -/
theorem mailmimePreambleParse_findsFirst (message : List UInt8) (indx : Nat) (beol : Bool) :
    FindsFirst message indx beol ↔ PlainPreamble beol (message.drop indx) := by
  constructor
  · intro finds
    have wrong : ∀ {place}, Taken beol (message.drop indx) place → ¬ ∀ before ≤ place, ¬ DelimiterAt beol (message.drop indx) before :=
      fun taken none' => none' _ (le_refl _) (finds.eq_of_taken taken fun before earlier => none' before (Nat.le_of_lt earlier))
    constructor
    case noOctet =>
      intro place ch none' there notDash notEnd dashes
      by_contra ends
      exact wrong (.inLine dashes there ⟨notDash, notEnd⟩ (Bool.not_eq_false _ ▸ ends)) none'
    case noBareCr =>
      intro place none' _ dashes
      by_contra ends
      exact wrong (.line dashes (Bool.not_eq_false _ ▸ ends)) none'
    case seen =>
      intro place none' delimiter
      have found := finds.found (place + 1) delimiter fun before earlier => none' before (Nat.le_of_lt_succ earlier)
      have taken := ((mailmimePreambleParse_taken (place + 1)).mp found).1
      rcases delimiter.2 with ⟨impossible, _⟩ | ⟨_, isLf⟩
      · omega
      · generalize isPlace : place + 1 = other at taken
        cases taken with
        | first => omega
        | @line before dashes ends => rwa [Nat.succ.inj isPlace]
        | @inLine before ch dashes there plain ends =>
            have same : place = before + 1 := Nat.succ.inj isPlace
            subst same
            rw [Nat.add_sub_cancel, there, Option.some.injEq] at isLf
            rw [isLf] at plain
            exact absurd plain.2 (by decide)
  · intro plain
    constructor
    case found =>
      intro place delimiter first
      refine (mailmimePreambleParse_taken place).mpr ⟨delimiter.taken plain first, fun before earlier => ?_⟩
      exact plain.not_taken fun other early => first other (Nat.lt_of_le_of_lt early earlier)
    case missing =>
      intro none'
      exact mailmimePreambleParse_missing.mpr fun place => plain.not_taken fun before _ => none' before

/-- "q--" in a line, and a delimiter after a line that is a dash. -/
theorem mailmimePreambleParse_misled :
    ¬ FindsFirst [LF, 113, 45, 45] 0 true ∧ ¬ FindsFirst [LF, 45, LF, 45, 45] 0 true := by
  constructor
  · intro finds
    have missing := finds.missing (by
      rintro (_ | _ | _ | place) ⟨⟨first, second⟩, start⟩
      · exact absurd first (by decide)
      · exact absurd first (by decide)
      · exact absurd start (by decide)
      · exact absurd second (by simp))
    exact absurd missing (by decide)
  · intro finds
    have found := finds.found 3 ⟨⟨rfl, rfl⟩, .inr ⟨by decide, rfl⟩⟩ (by
      rintro (_ | _ | _ | place) earlier ⟨⟨first, second⟩, _⟩
      · exact absurd first (by decide)
      · exact absurd second (by decide)
      · exact absurd first (by decide)
      · omega)
    exact absurd found (by decide)

end Etpan.Mime
