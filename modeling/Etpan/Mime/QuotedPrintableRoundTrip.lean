import Etpan.Mime.QuotedPrintableWrite

namespace Etpan.Mime

open Etpan.Data Etpan.Imf

/-! When a quoted-printable body is read back as it was written. -/

/-- `text` with CR before each LF that has none. -/
def bareLfToCrlf (afterCR : Bool) : List UInt8 → List UInt8
  | [] => []
  | byte :: rest =>
      if byte = LF ∧ afterCR = false then CR :: LF :: bareLfToCrlf false rest
      else byte :: bareLfToCrlf (byte = CR) rest

def expectedText (istext : Bool) (text : List UInt8) : List UInt8 :=
  if istext then bareLfToCrlf false text else text

def QpLine (line : List UInt8) : Prop :=
  line.length ≤ 76 ∧ ∀ ch, line.getLast? = some ch → isBlank ch = false

/-- The encoded text gives back what was written, in lines that mail keeps intact. -/
def QpFaithful (istext : Bool) (text encoded : List UInt8) : Prop :=
  (∃ stop, mailmimeQuotedPrintableBodyParse encoded 0 false = .ok (stop, expectedText istext text)) ∧
    ∀ line ∈ splitLines encoded, QpLine line

def blankBeforeBreak : List UInt8 → Bool
  | [] => false
  | ch :: rest =>
      (isBlank ch && (rest.head? == some CR || rest.head? == some LF)) || blankBeforeBreak rest

def endsBlank (text : List UInt8) : Bool := text.getLast?.any isBlank

def endsCR (text : List UInt8) : Bool := text.getLast? == some CR

def qpWritable (text : List UInt8) : Bool :=
  !blankBeforeBreak text && !endsBlank text && !endsCR text

theorem bareLfToCrlf_append (afterCR : Bool) (text more : List UInt8) :
    bareLfToCrlf afterCR (text ++ more) =
      bareLfToCrlf afterCR text ++ bareLfToCrlf (if text = [] then afterCR else endsCR text) more := by
  induction text generalizing afterCR with
  | nil => rfl
  | cons byte rest ih =>
      have flag : (if rest = [] then decide (byte = CR) else endsCR rest) = endsCR (byte :: rest) := by
        cases rest with
        | nil => rfl
        | cons next rest => simp [endsCR]
      have flagLF : byte = LF → (if rest = [] then false else endsCR rest) = endsCR (byte :: rest) := by
        rintro rfl
        cases rest with
        | nil => rfl
        | cons next rest => simp [endsCR]
      simp only [List.cons_append, bareLfToCrlf]
      split
      · next bare =>
          rw [ih, flagLF bare.1]
          simp
      · rw [ih, flag]
        simp

theorem expectedText_append (istext : Bool) (text more : List UInt8) :
    expectedText istext (text ++ more) =
      expectedText istext text ++ if istext then bareLfToCrlf (endsCR text) more else more := by
  have flag : (if text = [] then false else endsCR text) = endsCR text := by
    split
    · next empty => rw [empty]; rfl
    · rfl
  cases istext with
  | false => rfl
  | true => simp only [expectedText, if_true, bareLfToCrlf_append, flag]

theorem expectedText_other {istext : Bool} {text : List UInt8} {ch : UInt8}
    (kept : ch ≠ LF ∨ istext = false) :
    expectedText istext (text ++ [ch]) = expectedText istext text ++ [ch] := by
  rw [expectedText_append]
  rcases kept with notLF | binary
  · simp [bareLfToCrlf, notLF]
  · simp [binary]

theorem expectedText_lf {text : List UInt8} (bare : endsCR text = false) :
    expectedText true (text ++ [LF]) = expectedText true text ++ [CR, LF] := by
  rw [expectedText_append, bare]
  rfl

theorem expectedText_crlf (istext : Bool) (text : List UInt8) :
    expectedText istext (text ++ [CR, LF]) = expectedText istext text ++ [CR, LF] := by
  rw [expectedText_append]
  cases istext <;> rfl

theorem expectedText_break (istext : Bool) (text rest : List UInt8) {ch : UInt8} (isBreak : ch = CR ∨ ch = LF) :
    ∃ first later, expectedText istext (text ++ ch :: rest) = expectedText istext text ++ first :: later ∧
      (first = CR ∨ first = LF) := by
  rw [expectedText_append]
  cases istext with
  | false => exact ⟨ch, rest, rfl, isBreak⟩
  | true =>
      simp only [if_true, bareLfToCrlf]
      split
      · exact ⟨CR, _, rfl, .inl rfl⟩
      · exact ⟨ch, _, rfl, isBreak⟩

theorem blankBeforeBreak_append (text : List UInt8) (ch : UInt8) :
    blankBeforeBreak (text ++ [ch]) =
      (blankBeforeBreak text || (endsBlank text && (ch == CR || ch == LF))) := by
  induction text with
  | nil => simp [blankBeforeBreak, endsBlank]
  | cons byte rest ih =>
      rw [List.cons_append, blankBeforeBreak, ih]
      cases rest with
      | nil => simp [blankBeforeBreak, endsBlank]
      | cons next rest => simp [blankBeforeBreak, endsBlank, Bool.or_assoc]

theorem blankBeforeBreak_of_append {text more : List UInt8} (found : blankBeforeBreak text = true) :
    blankBeforeBreak (text ++ more) = true := by
  induction more using List.reverseRecOn with
  | nil => simpa using found
  | append_singleton more ch ih =>
      rw [← List.append_assoc, blankBeforeBreak_append, ih]
      rfl

def Decodes (encoded octets : List UInt8) : Prop :=
  ∀ rest, (qpDecode false false (encoded ++ rest)).1 = octets ++ (qpDecode false false rest).1

theorem Decodes.append {first second early late : List UInt8} (firstDecodes : Decodes first early)
    (secondDecodes : Decodes second late) : Decodes (first ++ second) (early ++ late) := by
  intro rest
  rw [List.append_assoc, firstDecodes, secondDecodes, List.append_assoc]

theorem Decodes.nil : Decodes [] [] := fun _ => rfl

theorem Decodes.literal {ch : UInt8} (notEqual : ch ≠ ascii '=') (notLF : ch ≠ LF) (notCR : ch ≠ CR) :
    Decodes [ch] [ch] :=
  fun rest => congrArg Prod.fst (qpDecode_literal notEqual notLF notCR (by simp) rest)

theorem Decodes.crlf : Decodes [CR, LF] [CR, LF] :=
  fun rest => congrArg Prod.fst (qpDecode_crlf rest)

theorem Decodes.softBreak : Decodes [ascii '=', CR, LF] [] :=
  fun rest => congrArg Prod.fst (qpDecode_soft_crlf rest)

theorem hexstr_toChar (ch : UInt8) :
    hexDigit (ch.toNat / 16) ≠ CR ∧ hexDigit (ch.toNat / 16) ≠ LF ∧ hexDigit (ch.toNat % 16) ≠ CR ∧
      hexDigit (ch.toNat % 16) ≠ LF ∧ isBlank (hexDigit (ch.toNat % 16)) = false ∧
      toChar (hexDigit (ch.toNat / 16)) (hexDigit (ch.toNat % 16)) = ch := by
  revert ch
  apply forall_octet
  decide +kernel

theorem Decodes.hexstr (ch : UInt8) : Decodes (hexstr ch) [ch] := by
  obtain ⟨notCR, notLF, -, -, -, value⟩ := hexstr_toChar ch
  intro rest
  have escape : (qpDecode false false (Mime.hexstr ch ++ rest)).1 =
      [toChar (hexDigit (ch.toNat / 16)) (hexDigit (ch.toNat % 16))] ++ (qpDecode false false rest).1 :=
    congrArg Prod.fst (qpDecode_escape notCR notLF (hexDigit (ch.toNat % 16)) rest)
  rw [escape, value]

theorem hexstr_breakFree (ch : UInt8) : BreakFree (hexstr ch) := by
  obtain ⟨firstCR, firstLF, secondCR, secondLF, -, -⟩ := hexstr_toChar ch
  intro byte member
  simp only [hexstr, List.mem_cons, List.not_mem_nil, or_false] at member
  rcases member with rfl | rfl | rfl
  · decide
  · exact ⟨firstCR, firstLF⟩
  · exact ⟨secondCR, secondLF⟩

section Writer

variable (text : List UInt8) (beyond : UInt8) (istext : Bool)

def wire (w : QpWrite (List UInt8)) : List UInt8 := w.out.data ++ run text beyond w.start w.len

def QpWrite.line (w : QpWrite (List UInt8)) : Nat := w.out.col + w.len

/-- The first `count` octets of the text stand encoded on the wire, in lines that fit. -/
structure Written (w : QpWrite (List UInt8)) (count : Nat) : Prop where
  inside : count ≤ text.length
  runLength : (run text beyond w.start w.len).length = w.len
  decodes : Decodes (wire text beyond w) (expectedText istext (text.take count))
  lines : ∃ full last, wire text beyond w = joinLines full ++ last ∧ last.length = w.line ∧ BreakFree last ∧
    ∀ line ∈ full, BreakFree line ∧ QpLine line
  blank : ∀ ch, (wire text beyond w).getLast? = some ch → isBlank ch = true →
    endsBlank (text.take count) = true

variable {text beyond istext} {w : QpWrite (List UInt8)} {count : Nat}

theorem Written.runFree (written : Written text beyond istext w count) :
    BreakFree (run text beyond w.start w.len) := by
  obtain ⟨full, last, spelled, length, free, -⟩ := written.lines
  have lengths := congrArg List.length spelled
  have size := written.runLength
  rw [wire, List.length_append, List.length_append, size, length, QpWrite.line] at lengths
  -- the run is the end of the open line
  have suffix : run text beyond w.start w.len <:+ last := by
    apply List.suffix_of_suffix_length_le
    · exact ⟨w.out.data, rfl⟩
    · exact ⟨joinLines full, spelled.symm⟩
    · rw [size, length, QpWrite.line]
      omega
  intro byte member
  exact free byte (suffix.subset member)

theorem Written.writeRemaining (written : Written text beyond istext w count) (short : w.line ≤ 75) :
    writeRemaining memory text beyond w =
      some { w with out := ⟨wire text beyond w, w.line⟩, len := 0 } := by
  have size := written.runLength
  unfold Mime.writeRemaining
  split
  · have bound : (run text beyond w.start w.len).length ≤ maxImfLine := by
      rw [size]
      unfold QpWrite.line at short
      unfold maxImfLine
      omega
    rw [mailimfStringWriteDriver_breakFree written.runFree bound, size]
    rfl
  · next empty =>
      have nothing : w.len = 0 := by omega
      have unchanged : wire text beyond w = w.out.data := by simp [wire, run, nothing]
      rw [unchanged, QpWrite.line, nothing]
      cases w
      simp_all

theorem Written.writeThen_text (written : Written text beyond istext w count) (short : w.line ≤ 75)
    {str : List UInt8} (free : BreakFree str) (few : str.length ≤ 5) (start : Nat) :
    writeThen memory text beyond w str start =
      some { w with out := ⟨wire text beyond w ++ str, w.line + str.length⟩, len := 0, start } := by
  have bound : str.length ≤ maxImfLine := by
    unfold maxImfLine
    omega
  rw [writeThen, written.writeRemaining short, Option.bind_some, mailimfStringWriteDriver_breakFree free bound]
  rfl

theorem Written.writeThen_crlf (written : Written text beyond istext w count) (short : w.line ≤ 75)
    {str : List UInt8} (free : BreakFree str) (few : str.length ≤ 5) (start : Nat) :
    writeThen memory text beyond w (str ++ [CR, LF]) start =
      some { w with out := ⟨wire text beyond w ++ str ++ [CR, LF], 0⟩, len := 0, start } := by
  have bound : str.length < maxImfLine := by
    unfold maxImfLine
    omega
  rw [writeThen, written.writeRemaining short, Option.bind_some, mailimfStringWriteDriver_crlf free bound]
  rfl

theorem wire_empty {w' : QpWrite (List UInt8)} (empty : w'.len = 0) :
    wire text beyond w' = w'.out.data := by
  simp [wire, run, empty]

theorem Written.appendText {w' : QpWrite (List UInt8)} {count' : Nat} {str octets : List UInt8}
    (written : Written text beyond istext w count) (inside : count' ≤ text.length)
    (out : w'.out = ⟨wire text beyond w ++ str, w.line + str.length⟩) (empty : w'.len = 0)
    (free : BreakFree str) (notBlank : ∃ front ch, str = front ++ [ch] ∧ isBlank ch = false)
    (strDecodes : Decodes str octets)
    (next : expectedText istext (text.take count') = expectedText istext (text.take count) ++ octets) :
    Written text beyond istext w' count' := by
  obtain ⟨full, last, spelled, length, lastFree, fullLines⟩ := written.lines
  have data : wire text beyond w' = wire text beyond w ++ str := by rw [wire_empty empty, out]
  refine ⟨inside, by simp [run, empty], ?_, ⟨full, last ++ str, ?_, ?_, ?_, fullLines⟩, ?_⟩
  · rw [data, next]
    exact written.decodes.append strDecodes
  · rw [data, spelled, List.append_assoc]
  · rw [List.length_append, length, QpWrite.line.eq_1 w', out, empty]
    rfl
  · intro byte member
    rcases List.mem_append.mp member with early | late
    · exact lastFree byte early
    · exact free byte late
  · intro ch isLast isBlankLast
    obtain ⟨front, final, rfl, notBlank⟩ := notBlank
    rw [data, ← List.append_assoc, List.getLast?_concat] at isLast
    cases isLast
    rw [notBlank] at isBlankLast
    contradiction

theorem Written.appendCrlf {w' : QpWrite (List UInt8)} {count' : Nat} {str octets : List UInt8}
    (written : Written text beyond istext w count) (inside : count' ≤ text.length)
    (out : w'.out = ⟨wire text beyond w ++ str ++ [CR, LF], 0⟩) (empty : w'.len = 0)
    (short : w.line + str.length ≤ 76) (free : BreakFree str)
    (notBlank : ∀ ch, (wire text beyond w ++ str).getLast? = some ch → isBlank ch = false)
    (strDecodes : Decodes (str ++ [CR, LF]) octets)
    (next : expectedText istext (text.take count') = expectedText istext (text.take count) ++ octets) :
    Written text beyond istext w' count' := by
  obtain ⟨full, last, spelled, length, lastFree, fullLines⟩ := written.lines
  have data : wire text beyond w' = wire text beyond w ++ (str ++ [CR, LF]) := by
    rw [wire_empty empty, out, List.append_assoc]
  refine ⟨inside, by simp [run, empty], ?_, ⟨full ++ [last ++ str], [], ?_, ?_, ?_, ?_⟩, ?_⟩
  · rw [data, next]
    exact written.decodes.append strDecodes
  · rw [data, spelled]
    simp
  · simp [QpWrite.line, out, empty]
  · simp [BreakFree]
  · intro line member
    rcases List.mem_append.mp member with early | late
    · exact fullLines line early
    · rw [List.mem_singleton.mp late]
      refine ⟨?_, ?_, ?_⟩
      · intro byte inner
        rcases List.mem_append.mp inner with before | after
        · exact lastFree byte before
        · exact free byte after
      · rw [List.length_append, length]
        exact short
      · intro ch isLast
        apply notBlank
        rw [spelled, List.append_assoc, List.getLast?_append, isLast]
        rfl
  · intro ch isLast isBlankLast
    have breakLast : (wire text beyond w ++ (str ++ [CR, LF])).getLast? = some LF := by
      rw [← List.append_assoc, List.getLast?_append]
      rfl
    rw [data, breakLast] at isLast
    cases isLast
    exact absurd isBlankLast (by decide)

theorem run_literal {ch : UInt8} {start len : Nat} (here : text[start + len]? = some ch) :
    run text beyond start (len + 1) = run text beyond start len ++ [ch] := by
  have bound : start + len < text.length := (List.getElem?_eq_some_iff.mp here).1
  have element : (text ++ [beyond])[start + len]? = some ch := by
    rw [List.getElem?_append_left bound, here]
  rw [run, List.take_add_one, List.getElem?_drop, element]
  rfl

theorem Written.appendLiteral (w' : QpWrite (List UInt8)) {ch : UInt8}
    (written : Written text beyond istext w count) (here : text[count]? = some ch)
    (aligned : w.start + w.len = count) (out : w'.out = w.out) (start : w'.start = w.start)
    (longer : w'.len = w.len + 1) (notEqual : ch ≠ ascii '=') (notLF : ch ≠ LF) (notCR : ch ≠ CR)
    (next : expectedText istext (text.take (count + 1)) = expectedText istext (text.take count) ++ [ch]) :
    Written text beyond istext w' (count + 1) ∧ wire text beyond w' = wire text beyond w ++ [ch] := by
  obtain ⟨full, last, spelled, length, lastFree, fullLines⟩ := written.lines
  have grown : run text beyond w'.start w'.len = run text beyond w.start w.len ++ [ch] := by
    rw [start, longer, run_literal (by rw [aligned, here])]
  have data : wire text beyond w' = wire text beyond w ++ [ch] := by
    rw [wire, out, grown, wire, List.append_assoc]
  have bound : count < text.length := (List.getElem?_eq_some_iff.mp here).1
  refine ⟨⟨bound, by rw [grown, longer, List.length_append, written.runLength]; rfl, ?_,
    ⟨full, last ++ [ch], ?_, ?_, ?_, fullLines⟩, ?_⟩, data⟩
  · rw [data, next]
    exact written.decodes.append (.literal notEqual notLF notCR)
  · rw [data, spelled, List.append_assoc]
  · rw [List.length_append, length, QpWrite.line, QpWrite.line, out, longer]
    rfl
  · intro byte member
    rcases List.mem_append.mp member with early | late
    · exact lastFree byte early
    · rw [List.mem_singleton.mp late]
      exact ⟨notCR, notLF⟩
  · intro final isLast isBlankLast
    rw [data, List.getLast?_concat] at isLast
    cases isLast
    rw [List.take_add_one, here]
    simpa [endsBlank] using isBlankLast

variable (text) in
/-- What may follow the octets the writer has dealt with in its initial state. -/
def NextOk (i : Nat) : Prop :=
  (endsBlank (text.take i) = true →
      ∃ ch rest, text.drop i = ch :: rest ∧ ch ≠ CR ∧ ch ≠ LF ∧ isBlank ch = false) ∧
    (endsCR (text.take i) = true → ∃ ch rest, text.drop i = ch :: rest ∧ ch ≠ LF)

variable (text beyond istext) in
/-- The writer before a turn, as long as no blank before a line break was met; after
`spaceCr` one has been. -/
inductive Stage : QpWrite (List UInt8) → Prop where
  | init {w : QpWrite (List UInt8)} (state : w.state = .init)
      (written : Written text beyond istext w w.i) (aligned : w.start + w.len = w.i)
      (clean : blankBeforeBreak (text.take w.i) = false) (next : NextOk text w.i) : Stage w
  | space {w : QpWrite (List UInt8)} (state : w.state = .space)
      (written : Written text beyond istext w w.i) (aligned : w.start + w.len = w.i)
      (clean : blankBeforeBreak (text.take w.i) = false) (blank : endsBlank (text.take w.i) = true) : Stage w
  | cr {w : QpWrite (List UInt8)} {count : Nat} (state : w.state = .cr) (position : w.i = count + 1)
      (isCR : text[count]? = some CR) (written : Written text beyond istext w count)
      (clean : blankBeforeBreak (text.take count) = false)
      (blank : endsBlank (text.take count) = false) : Stage w
  | spaceCr {w : QpWrite (List UInt8)} {count : Nat} (state : w.state = .spaceCr) (position : w.i = count + 1)
      (isCR : text[count]? = some CR) (written : Written text beyond istext w count)
      (blank : endsBlank (text.take count) = true) : Stage w

theorem softBreak_stage (stage : Stage text beyond istext w) (short : w.line ≤ 75) :
    ∃ w', softBreak memory text beyond w = some w' ∧ Stage text beyond istext w' ∧ w'.i = w.i ∧
      w'.state = w.state ∧ w'.line ≤ 72 := by
  unfold softBreak
  split
  · have free : BreakFree [ascii '='] := by decide
    -- the same for every state: the line is ended by a soft break and nothing is pending
    have broken : ∀ count, Written text beyond istext w count →
        let w' : QpWrite (List UInt8) :=
          { w with out := ⟨wire text beyond w ++ [ascii '='] ++ [CR, LF], 0⟩, len := 0, start := w.i }
        writeThen memory text beyond w [ascii '=', CR, LF] w.i = some w' ∧
          Written text beyond istext w' count := by
      intro count written w'
      refine ⟨written.writeThen_crlf short free (by decide) w.i, ?_⟩
      refine written.appendCrlf written.inside rfl rfl (by simpa using Nat.succ_le_succ short) free ?_
        .softBreak (by simp)
      intro ch isLast
      rw [List.getLast?_concat] at isLast
      cases isLast
      decide
    cases stage with
    | init state written aligned clean next =>
        obtain ⟨wrote, written'⟩ := broken _ written
        exact ⟨_, wrote, .init state written' rfl clean next, rfl, rfl, by simp [QpWrite.line]⟩
    | space state written aligned clean blank =>
        obtain ⟨wrote, written'⟩ := broken _ written
        exact ⟨_, wrote, .space state written' rfl clean blank, rfl, rfl, by simp [QpWrite.line]⟩
    | cr state position isCR written clean blank =>
        obtain ⟨wrote, written'⟩ := broken _ written
        exact ⟨_, wrote, .cr state position isCR written' clean blank, rfl, rfl, by simp [QpWrite.line]⟩
    | spaceCr state position isCR written blank =>
        obtain ⟨wrote, written'⟩ := broken _ written
        exact ⟨_, wrote, .spaceCr state position isCR written' blank, rfl, rfl, by simp [QpWrite.line]⟩
  · next fits => exact ⟨w, rfl, stage, rfl, rfl, by unfold QpWrite.line; unfold qpMaxCol at fits; omega⟩

variable (text istext) in
/-- A blank too many: the wire holds a second blank where the text has its line break. -/
def Doubled (data : List UInt8) : Prop :=
  ∃ count encoded blank ch rest, encoded <+: data ∧
    Decodes encoded (expectedText istext (text.take count) ++ [blank]) ∧ isBlank blank = true ∧
    text.drop count = ch :: rest ∧ (ch = CR ∨ ch = LF)

theorem Doubled.mono {data data' : List UInt8} (doubled : Doubled text istext data) (more : data <+: data') :
    Doubled text istext data' := by
  obtain ⟨count, encoded, blank, ch, rest, front, facts⟩ := doubled
  exact ⟨count, encoded, blank, ch, rest, front.trans more, facts⟩

theorem Doubled.not_faithful {data : List UInt8} (doubled : Doubled text istext data) :
    ¬ QpFaithful istext text data := by
  obtain ⟨count, encoded, blank, ch, rest, ⟨more, rfl⟩, decodes, isBlankOctet, here, isBreak⟩ := doubled
  rintro ⟨⟨stop, parsed⟩, -⟩
  rw [mailmimeQuotedPrintableBodyParse, mailmimeQuotedPrintableBodyParseImpl_eq _ _ _ (Nat.zero_le _),
    List.drop_zero] at parsed
  have octets := (Prod.mk.inj (Except.ok.inj parsed)).2
  obtain ⟨first, later, expected, firstBreak⟩ := expectedText_break istext (text.take count) rest isBreak
  rw [← here, List.take_append_drop] at expected
  rw [decodes more, expected, List.append_assoc] at octets
  have same := (List.cons.inj (List.append_cancel_left octets)).1
  rw [same] at isBlankOctet
  rcases firstBreak with rfl | rfl <;> exact absurd isBlankOctet (by decide)

theorem here_spec {i : Nat} {ch : UInt8} {rest : List UInt8} (here : text.drop i = ch :: rest) :
    text[i]? = some ch ∧ text.take (i + 1) = text.take i ++ [ch] ∧ i < text.length := by
  have element : text[i]? = some ch := by rw [← List.head?_drop, here, List.head?_cons]
  refine ⟨element, ?_, (List.getElem?_eq_some_iff.mp element).1⟩
  rw [List.take_add_one, element]
  rfl

theorem endsBlank_concat (front : List UInt8) (ch : UInt8) : endsBlank (front ++ [ch]) = isBlank ch := by
  simp [endsBlank]

theorem endsCR_concat (front : List UInt8) (ch : UInt8) : endsCR (front ++ [ch]) = decide (ch = CR) := by
  rw [endsCR, List.getLast?_concat]
  rfl

theorem Stage.other {w' : QpWrite (List UInt8)} {i : Nat} {ch : UInt8} {rest : List UInt8}
    (here : text.drop i = ch :: rest) (state : w'.state = .init) (position : w'.i = i + 1)
    (written : Written text beyond istext w' (i + 1)) (aligned : w'.start + w'.len = i + 1)
    (clean : blankBeforeBreak (text.take i) = false) (notBlank : isBlank ch = false) (notCR : ch ≠ CR)
    (fresh : ch = LF → endsBlank (text.take i) = false) : Stage text beyond istext w' := by
  obtain ⟨-, taken, -⟩ := here_spec here
  rw [← position] at written aligned
  refine .init state written aligned ?_ ?_
  · rw [position, taken, blankBeforeBreak_append, clean]
    cases blank : endsBlank (text.take i) with
    | false => rfl
    | true =>
        have notLF : ch ≠ LF := fun isLF => by rw [fresh isLF] at blank; contradiction
        simp [notCR, notLF]
  · rw [position]
    constructor
    · intro blank
      rw [taken, endsBlank_concat, notBlank] at blank
      contradiction
    · intro cr
      rw [taken, endsCR_concat] at cr
      simp [notCR] at cr

/-- The outcome of a turn: the writer goes on, one octet further or back in its initial
state, or a blank was doubled. -/
def Turned (text : List UInt8) (beyond : UInt8) (istext : Bool) (w w' : QpWrite (List UInt8)) : Prop :=
  (Stage text beyond istext w' ∧ w'.line ≤ 75 ∧
      (w'.state = .space → ∃ front ch, wire text beyond w' = front ++ [ch] ∧ isBlank ch = true) ∧
      (w'.i = w.i + 1 ∨ w'.i = w.i ∧ w'.state = .init ∧ w.state ≠ .init)) ∨
    Doubled text istext w'.out.data ∧ blankBeforeBreak text = true

theorem escape_notBlank (ch : UInt8) :
    ∃ front last, hexstr ch = front ++ [last] ∧ isBlank last = false := by
  obtain ⟨-, -, -, -, notBlank, -⟩ := hexstr_toChar ch
  exact ⟨[ascii '=', hexDigit (ch.toNat / 16)], _, rfl, notBlank⟩

theorem qpInitStep_turned {ch : UInt8} {rest : List UInt8} (here : text.drop w.i = ch :: rest)
    (state : w.state = .init) (written : Written text beyond istext w w.i)
    (aligned : w.start + w.len = w.i) (clean : blankBeforeBreak (text.take w.i) = false)
    (next : NextOk text w.i) (short : w.line ≤ 72) :
    ∃ w', qpInitStep memory text beyond istext w ch = some w' ∧ Turned text beyond istext w w' := by
  obtain ⟨element, taken, inside⟩ := here_spec here
  -- what may not follow a blank or a CR
  have afterBlank : endsBlank (text.take w.i) = true → ch ≠ CR ∧ ch ≠ LF ∧ isBlank ch = false := by
    intro blank
    obtain ⟨following, later, same, facts⟩ := next.1 blank
    rw [here] at same
    rw [(List.cons.inj same).1]
    exact facts
  have afterCR : endsCR (text.take w.i) = true → ch ≠ LF := by
    intro cr
    obtain ⟨following, later, same, fact⟩ := next.2 cr
    rw [here] at same
    rw [(List.cons.inj same).1]
    exact fact
  have notAfterBlank : ch = CR ∨ ch = LF → endsBlank (text.take w.i) = false := by
    intro isBreak
    cases blank : endsBlank (text.take w.i) with
    | false => rfl
    | true =>
        obtain ⟨notCR, notLF, -⟩ := afterBlank blank
        rcases isBreak with isCR | isLF
        · exact absurd isCR notCR
        · exact absurd isLF notLF
  -- an octet written as an escape
  have escaped : ch ≠ CR → isBlank ch = false → (ch ≠ LF ∨ istext = false) →
      ∃ w', (writeThen memory text beyond w (hexstr ch) (w.i + 1)).map (fun w => { w with i := w.i + 1 }) =
        some w' ∧ Turned text beyond istext w w' := by
    intro notCR notBlank kept
    have wrote := written.writeThen_text (by omega) (hexstr_breakFree ch) (by simp [hexstr]) (w.i + 1)
    refine ⟨_, by rw [wrote]; rfl, .inl ⟨?_, ?_, by simp [state], .inl rfl⟩⟩
    · refine Stage.other here state rfl ?_ rfl clean notBlank notCR (fun isLF => notAfterBlank (.inr isLF))
      exact written.appendText inside rfl rfl (hexstr_breakFree ch) (escape_notBlank ch) (.hexstr ch)
        (by rw [taken, expectedText_other kept])
    · simp only [QpWrite.line, hexstr, List.length_cons, List.length_nil]
      unfold QpWrite.line at short
      omega
  unfold qpInitStep
  by_cases blank : isBlank ch = true
  · rw [if_pos blank]
    have plain : ch ≠ ascii '=' ∧ ch ≠ LF ∧ ch ≠ CR := by
      refine ⟨?_, ?_, ?_⟩ <;> rintro rfl <;> exact absurd blank (by decide)
    obtain ⟨written', data⟩ := written.appendLiteral
      { w with state := .space, len := w.len + 1, i := w.i + 1 } element aligned rfl rfl rfl
      plain.1 plain.2.1 plain.2.2 (by rw [taken, expectedText_other (.inl plain.2.1)])
    refine ⟨_, rfl, .inl ⟨.space rfl written' ?_ ?_ ?_, ?_, fun _ => ⟨_, ch, data, blank⟩, .inl rfl⟩⟩
    · simp only
      omega
    · simp only [taken, blankBeforeBreak_append, clean]
      simp [plain.2.1, plain.2.2]
    · simp only [taken, endsBlank_concat, blank]
    · simp only [QpWrite.line]
      unfold QpWrite.line at short
      omega
  rw [if_neg blank]
  have notBlank : isBlank ch = false := by simpa using blank
  by_cases isCR : ch = CR
  · rw [if_pos isCR]
    refine ⟨_, rfl, .inl ⟨.cr rfl rfl (by rw [element, isCR]) ?_ clean (notAfterBlank (.inl isCR)), ?_,
      by simp, .inl rfl⟩⟩
    · exact ⟨written.inside, written.runLength, written.decodes, written.lines, written.blank⟩
    · simp only [QpWrite.line]
      unfold QpWrite.line at short
      omega
  rw [if_neg isCR]
  by_cases special : ch ∈ qpSpecials
  · rw [if_pos special]
    have notLF : ch ≠ LF := by
      rintro rfl
      exact absurd special (by decide)
    exact escaped isCR notBlank (.inl notLF)
  rw [if_neg special]
  by_cases lineBreak : istext = true ∧ ch = LF
  · rw [if_pos lineBreak]
    obtain ⟨rfl, rfl⟩ := lineBreak
    have free : BreakFree [] := by simp [BreakFree]
    have wrote := written.writeThen_crlf (by omega) free (by simp) (w.i + 1)
    rw [List.nil_append] at wrote
    refine ⟨_, by rw [wrote]; rfl, .inl ⟨?_, ?_, by simp [state], .inl rfl⟩⟩
    · refine Stage.other here state rfl ?_ rfl clean notBlank isCR (fun isLF => notAfterBlank (.inr isLF))
      have bare : endsCR (text.take w.i) = false := by
        cases cr : endsCR (text.take w.i) with
        | false => rfl
        | true => exact absurd rfl (afterCR cr)
      refine written.appendCrlf inside rfl rfl ?_ free ?_ .crlf (by rw [taken, expectedText_lf bare])
      · simp
        omega
      · intro last isLast
        cases blankLast : isBlank last with
        | false => rfl
        | true =>
            have wrong := written.blank last (by simpa using isLast) blankLast
            rw [notAfterBlank (.inr rfl)] at wrong
            contradiction
    · simp [QpWrite.line]
  rw [if_neg lineBreak]
  have kept : ch ≠ LF ∨ istext = false := by
    cases istext with
    | false => exact .inr rfl
    | true => exact .inl (fun isLF => lineBreak ⟨rfl, isLF⟩)
  by_cases literal : isQpLiteral ch = true
  · rw [if_pos literal]
    have plain : ch ≠ ascii '=' ∧ ch ≠ LF := by
      refine ⟨?_, ?_⟩ <;> rintro rfl <;> exact absurd literal (by decide)
    refine ⟨_, rfl, .inl ⟨?_, ?_, by simp [state], .inl rfl⟩⟩
    · refine Stage.other here state rfl ?_ ?_ clean notBlank isCR (fun isLF => notAfterBlank (.inr isLF))
      · exact (written.appendLiteral { w with len := w.len + 1, i := w.i + 1 } element aligned rfl rfl rfl plain.1
          plain.2 isCR (by rw [taken, expectedText_other (.inl plain.2)])).1
      · simp only
        omega
    · simp only [QpWrite.line]
      unfold QpWrite.line at short
      omega
  · rw [if_neg literal]
    exact escaped isCR notBlank kept

theorem qpCrStep_turned {ch : UInt8} {rest : List UInt8} (here : text.drop w.i = ch :: rest)
    (state : w.state = .cr) (position : w.i = count + 1) (isCR : text[count]? = some CR)
    (written : Written text beyond istext w count) (clean : blankBeforeBreak (text.take count) = false)
    (blank : endsBlank (text.take count) = false) (short : w.line ≤ 72) :
    ∃ w', qpCrStep memory text beyond w ch = some w' ∧ Turned text beyond istext w w' := by
  obtain ⟨element, taken, inside⟩ := here_spec here
  have takenCR : text.take w.i = text.take count ++ [CR] := by
    rw [position, List.take_add_one, isCR]
    rfl
  have cleanCR : blankBeforeBreak (text.take w.i) = false := by
    rw [takenCR, blankBeforeBreak_append, clean, blank]
    rfl
  have notBlankCR : endsBlank (text.take w.i) = false := by
    rw [takenCR, endsBlank_concat]
    decide
  unfold qpCrStep
  by_cases isLF : ch = LF
  · subst isLF
    rw [if_pos rfl]
    have free : BreakFree [] := by simp [BreakFree]
    have wrote := written.writeThen_crlf (by omega) free (by simp) (w.i + 1)
    rw [List.nil_append] at wrote
    refine ⟨_, by rw [wrote]; rfl, .inl ⟨?_, by simp [QpWrite.line], by simp, .inl rfl⟩⟩
    refine Stage.other here rfl rfl ?_ rfl cleanCR (by decide) (by decide) (fun _ => notBlankCR)
    refine written.appendCrlf inside rfl rfl ?_ free ?_ .crlf ?_
    · simp
      omega
    · intro last isLast
      cases blankLast : isBlank last with
      | false => rfl
      | true =>
          have wrong := written.blank last (by simpa using isLast) blankLast
          rw [blank] at wrong
          contradiction
    · rw [taken, takenCR, List.append_assoc]
      exact expectedText_crlf istext (text.take count)
  · rw [if_neg isLF]
    have wrote := written.writeThen_text (by omega) (hexstr_breakFree CR) (by simp [hexstr]) w.i
    refine ⟨{ w with
      out := ⟨wire text beyond w ++ hexstr CR, w.line + 3⟩, len := 0, start := w.i, state := .init },
      by rw [wrote]; rfl, .inl ⟨.init rfl ?_ rfl cleanCR ⟨?_, ?_⟩, ?_, by simp,
        .inr ⟨rfl, rfl, by simp [state]⟩⟩⟩
    · refine written.appendText inside.le rfl rfl (hexstr_breakFree CR) (escape_notBlank CR) (.hexstr CR) ?_
      rw [takenCR, expectedText_other (.inl (by decide))]
    · intro wrong
      rw [notBlankCR] at wrong
      contradiction
    · intro _
      exact ⟨ch, rest, here, isLF⟩
    · simp only [QpWrite.line]
      unfold QpWrite.line at short
      omega

theorem exists_last_blank {front : List UInt8} (blank : endsBlank front = true) :
    ∃ earlier ch, front = earlier ++ [ch] ∧ isBlank ch = true := by
  rcases List.eq_nil_or_concat front with rfl | ⟨earlier, ch, rfl⟩
  · simp [endsBlank] at blank
  · rw [List.concat_eq_append, endsBlank_concat] at blank
    exact ⟨earlier, ch, List.concat_eq_append, blank⟩

theorem getD_last {i : Nat} {earlier : List UInt8} {ch : UInt8} (inside : i ≤ text.length)
    (last : text.take i = earlier ++ [ch]) : text.getD (i - 1) 0 = ch := by
  have size := congrArg List.length last
  rw [List.length_take, Nat.min_eq_left inside, List.length_append, List.length_singleton] at size
  have element : (text.take i)[i - 1]? = some ch := by
    rw [last, List.getElem?_append_right (by omega), show i - 1 - earlier.length = 0 by omega]
    rfl
  rw [List.getElem?_take_of_lt (by omega)] at element
  rw [List.getD_eq_getElem?_getD, element]
  rfl

theorem blankBeforeBreak_here {ch : UInt8} {rest : List UInt8} {i : Nat} (here : text.drop i = ch :: rest)
    (blank : endsBlank (text.take i) = true) (isBreak : ch = CR ∨ ch = LF) :
    blankBeforeBreak text = true := by
  obtain ⟨-, taken, -⟩ := here_spec here
  have found : blankBeforeBreak (text.take (i + 1)) = true := by
    rw [taken, blankBeforeBreak_append, blank]
    rcases isBreak with rfl | rfl <;> simp
  rw [← List.take_append_drop (i + 1) text]
  exact blankBeforeBreak_of_append found

theorem qpSpaceStep_turned {ch : UInt8} {rest : List UInt8} (here : text.drop w.i = ch :: rest)
    (state : w.state = .space) (written : Written text beyond istext w w.i)
    (aligned : w.start + w.len = w.i) (clean : blankBeforeBreak (text.take w.i) = false)
    (blank : endsBlank (text.take w.i) = true) (short : w.line ≤ 72) :
    ∃ w', qpSpaceStep memory text beyond w ch = some w' ∧ Turned text beyond istext w w' := by
  obtain ⟨element, taken, inside⟩ := here_spec here
  unfold qpSpaceStep
  by_cases isCR : ch = CR
  · rw [if_pos isCR]
    refine ⟨_, rfl, .inl ⟨.spaceCr rfl rfl (by rw [element, isCR]) ?_ blank, ?_, by simp, .inl rfl⟩⟩
    · exact ⟨written.inside, written.runLength, written.decodes, written.lines, written.blank⟩
    · simp only [QpWrite.line]
      unfold QpWrite.line at short
      omega
  rw [if_neg isCR]
  by_cases isLF : ch = LF
  · rw [if_pos isLF]
    obtain ⟨earlier, octet, last, isBlankOctet⟩ := exists_last_blank blank
    have previous : text.getD (w.i - 1) 0 = octet := getD_last written.inside last
    have free : BreakFree (hexstr octet) := hexstr_breakFree octet
    have wrote := written.writeThen_crlf (by omega) free (by simp [hexstr]) (w.i + 1)
    rw [previous]
    refine ⟨_, by rw [wrote]; rfl, .inr ⟨?_, blankBeforeBreak_here here blank (.inr isLF)⟩⟩
    exact ⟨w.i, wire text beyond w ++ hexstr octet, octet, ch, rest, ⟨[CR, LF], rfl⟩,
      written.decodes.append (.hexstr octet), isBlankOctet, here, .inr isLF⟩
  rw [if_neg isLF]
  by_cases again : isBlank ch = true
  · rw [if_pos again]
    have notEqual : ch ≠ ascii '=' := by
      rintro rfl
      exact absurd again (by decide)
    obtain ⟨written', data⟩ := written.appendLiteral
      { w with len := w.len + 1, i := w.i + 1 } element aligned rfl rfl rfl notEqual isLF isCR
      (by rw [taken, expectedText_other (.inl isLF)])
    refine ⟨_, rfl, .inl ⟨.space state written' ?_ ?_ ?_, ?_, fun _ => ⟨_, ch, data, again⟩, .inl rfl⟩⟩
    · simp only
      omega
    · simp only [taken, blankBeforeBreak_append, clean]
      simp [isLF, isCR]
    · simp only [taken, endsBlank_concat, again]
    · simp only [QpWrite.line]
      unfold QpWrite.line at short
      omega
  · rw [if_neg again]
    refine ⟨_, rfl, .inl ⟨.init rfl ?_ aligned clean ⟨?_, ?_⟩, ?_, by simp, .inr ⟨rfl, rfl, by simp [state]⟩⟩⟩
    · exact ⟨written.inside, written.runLength, written.decodes, written.lines, written.blank⟩
    · intro _
      exact ⟨ch, rest, here, isCR, isLF, by simpa using again⟩
    · intro _
      exact ⟨ch, rest, here, isLF⟩
    · simp only [QpWrite.line]
      unfold QpWrite.line at short
      omega

theorem qpSpaceCrStep_turned (ch : UInt8) (position : w.i = count + 1) (isCR : text[count]? = some CR)
    (written : Written text beyond istext w count) (blank : endsBlank (text.take count) = true)
    (short : w.line ≤ 72) :
    ∃ w', qpSpaceCrStep memory text beyond w ch = some w' ∧ Turned text beyond istext w w' := by
  obtain ⟨earlier, octet, last, isBlankOctet⟩ := exists_last_blank blank
  have previous : text.getD (w.i - 2) 0 = octet := by
    rw [position]
    exact getD_last written.inside last
  have atCR : ∃ later, text.drop count = CR :: later := by
    obtain ⟨bound, element⟩ := List.getElem?_eq_some_iff.mp isCR
    exact ⟨text.drop (count + 1), by rw [List.drop_eq_getElem_cons bound, element]⟩
  obtain ⟨later, cr⟩ := atCR
  have found := blankBeforeBreak_here cr blank (.inl rfl)
  unfold qpSpaceCrStep
  rw [previous]
  by_cases isLF : ch = LF
  · rw [if_pos isLF]
    have free : BreakFree (hexstr octet) := hexstr_breakFree octet
    have wrote := written.writeThen_crlf (by omega) free (by simp [hexstr]) (w.i + 1)
    refine ⟨_, by rw [wrote]; rfl, .inr ⟨?_, found⟩⟩
    exact ⟨count, wire text beyond w ++ hexstr octet, octet, CR, later, ⟨[CR, LF], rfl⟩,
      written.decodes.append (.hexstr octet), isBlankOctet, cr, .inl rfl⟩
  · rw [if_neg isLF]
    have plain : octet ≠ ascii '=' ∧ octet ≠ LF ∧ octet ≠ CR := by
      refine ⟨?_, ?_, ?_⟩ <;> rintro rfl <;> exact absurd isBlankOctet (by decide)
    have free : BreakFree (octet :: hexstr CR) := (hexstr_breakFree CR).cons plain.2.2 plain.2.1
    have wrote := written.writeThen_text (by omega) free (by simp [hexstr]) (w.i + 1)
    refine ⟨_, by rw [wrote]; rfl, .inr ⟨?_, found⟩⟩
    refine ⟨count, wire text beyond w ++ [octet], octet, CR, later, ⟨hexstr CR, by simp⟩,
      written.decodes.append (.literal plain.1 plain.2.1 plain.2.2), isBlankOctet, cr, .inl rfl⟩

theorem qpWriteStep_turned {ch : UInt8} {rest : List UInt8} (here : text.drop w.i = ch :: rest)
    (stage : Stage text beyond istext w) (short : w.line ≤ 75) :
    ∃ w', qpWriteStep memory text beyond istext w ch = some w' ∧ Turned text beyond istext w w' := by
  obtain ⟨softened, soft, stage', sameI, sameState, fits⟩ := softBreak_stage stage short
  rw [← sameI] at here
  have turned : ∃ w', qpWriteStep memory text beyond istext w ch = some w' ∧
      Turned text beyond istext softened w' := by
    unfold qpWriteStep
    rw [soft, Option.bind_some]
    cases stage' with
    | init state written aligned clean next =>
        simp only [state]
        exact qpInitStep_turned here state written aligned clean next fits
    | space state written aligned clean blank =>
        simp only [state]
        exact qpSpaceStep_turned here state written aligned clean blank fits
    | cr state position isCR written clean blank =>
        simp only [state]
        exact qpCrStep_turned here state position isCR written clean blank fits
    | spaceCr state position isCR written blank =>
        simp only [state]
        exact qpSpaceCrStep_turned ch position isCR written blank fits
  obtain ⟨w', stepped, outcome⟩ := turned
  refine ⟨w', stepped, ?_⟩
  unfold Turned at outcome ⊢
  rwa [sameI, sameState] at outcome

variable (text beyond) in
theorem writeThen_extends (w : QpWrite (List UInt8)) (str : List UInt8) (start : Nat) :
    ∃ w', writeThen memory text beyond w str start = some w' ∧ w.out.data <+: w'.out.data := by
  have remaining : ∃ w', Mime.writeRemaining memory text beyond w = some w' ∧ w.out.data <+: w'.out.data := by
    unfold Mime.writeRemaining
    split
    · obtain ⟨out, wrote, more⟩ := mailimfStringWriteDriver_extends w.out (run text beyond w.start w.len)
      exact ⟨_, by rw [wrote]; rfl, more⟩
    · exact ⟨w, rfl, List.prefix_rfl⟩
  obtain ⟨w', first, more⟩ := remaining
  obtain ⟨out, second, further⟩ := mailimfStringWriteDriver_extends w'.out str
  exact ⟨_, by rw [writeThen, first, Option.bind_some, second]; rfl, more.trans further⟩

variable (text beyond istext) in
theorem qpWriteStep_extends (w : QpWrite (List UInt8)) (ch : UInt8) :
    ∃ w', qpWriteStep memory text beyond istext w ch = some w' ∧ w.out.data <+: w'.out.data := by
  -- every branch either leaves the output alone or writes one string
  have written : ∀ (w : QpWrite (List UInt8)) str start (update : QpWrite (List UInt8) → QpWrite (List UInt8)),
      (∀ w, (update w).out = w.out) → ∃ w',
        (writeThen memory text beyond w str start).map update = some w' ∧ w.out.data <+: w'.out.data := by
    intro w str start update same
    obtain ⟨w', wrote, more⟩ := writeThen_extends text beyond w str start
    exact ⟨update w', by rw [wrote]; rfl, by rw [same]; exact more⟩
  have softened : ∃ w', softBreak memory text beyond w = some w' ∧ w.out.data <+: w'.out.data := by
    unfold softBreak
    split
    · exact writeThen_extends text beyond w _ _
    · exact ⟨w, rfl, List.prefix_rfl⟩
  obtain ⟨w', soft, more⟩ := softened
  have later : ∀ turned : Option (QpWrite (List UInt8)), (∃ w'', turned = some w'' ∧ w'.out.data <+: w''.out.data) →
      ∃ w'', turned = some w'' ∧ w.out.data <+: w''.out.data := by
    rintro _ ⟨w'', rfl, further⟩
    exact ⟨w'', rfl, more.trans further⟩
  rw [qpWriteStep, soft, Option.bind_some]
  apply later
  cases w'.state with
  | init =>
      simp only [qpInitStep]
      repeat' split
      all_goals first
        | exact ⟨_, rfl, List.prefix_rfl⟩
        | exact written _ _ _ _ (fun _ => rfl)
  | cr =>
      simp only [qpCrStep]
      split
      all_goals exact written _ _ _ _ (fun _ => rfl)
  | space =>
      simp only [qpSpaceStep]
      repeat' split
      all_goals first
        | exact ⟨_, rfl, List.prefix_rfl⟩
        | exact written _ _ _ _ (fun _ => rfl)
  | spaceCr =>
      simp only [qpSpaceCrStep]
      split
      all_goals exact written _ _ _ _ (fun _ => rfl)

variable (text beyond istext) in
theorem qpWriteLoop_extends (turns : Nat) (w : QpWrite (List UInt8)) :
    ∃ w', qpWriteLoop memory text beyond istext turns w = some w' ∧ w.out.data <+: w'.out.data := by
  induction turns generalizing w with
  | zero => exact ⟨w, rfl, List.prefix_rfl⟩
  | succ turns ih =>
      rw [qpWriteLoop]
      cases text.drop w.i with
      | nil => exact ⟨w, rfl, List.prefix_rfl⟩
      | cons ch rest =>
          obtain ⟨w', stepped, more⟩ := qpWriteStep_extends text beyond istext w ch
          obtain ⟨w'', ran, further⟩ := ih w'
          exact ⟨w'', by simp only [stepped, Option.bind_some]; exact ran, more.trans further⟩

variable (text beyond) in
def finish (w : QpWrite (List UInt8)) : Option (Output (List UInt8)) :=
  (Mime.writeRemaining memory text beyond w).map fun w => w.out

variable (text beyond) in
theorem finish_extends (w : QpWrite (List UInt8)) :
    ∃ out, finish text beyond w = some out ∧ w.out.data <+: out.data := by
  unfold finish Mime.writeRemaining
  split
  · obtain ⟨out, wrote, more⟩ := mailimfStringWriteDriver_extends w.out (run text beyond w.start w.len)
    exact ⟨out, by rw [wrote]; rfl, more⟩
  · exact ⟨w.out, rfl, List.prefix_rfl⟩

theorem Decodes.parse {encoded octets : List UInt8} (decodes : Decodes encoded octets) {expected : List UInt8} :
    (∃ stop, mailmimeQuotedPrintableBodyParse encoded 0 false = .ok (stop, expected)) ↔ octets = expected := by
  have whole := decodes []
  rw [List.append_nil] at whole
  have nothing : (qpDecode false false []).1 = [] := rfl
  rw [nothing, List.append_nil] at whole
  rw [mailmimeQuotedPrintableBodyParse, mailmimeQuotedPrintableBodyParseImpl_eq _ _ _ (Nat.zero_le _),
    List.drop_zero, whole]
  constructor
  · rintro ⟨stop, same⟩
    exact (Prod.mk.inj (Except.ok.inj same)).2
  · rintro rfl
    exact ⟨_, rfl⟩

theorem finish_faithful (stage : Stage text beyond istext w) (short : w.line ≤ 75)
    (trailing : w.state = .space → ∃ front ch, wire text beyond w = front ++ [ch] ∧ isBlank ch = true)
    (ended : text.drop w.i = []) :
    ∃ out, finish text beyond w = some out ∧
      (QpFaithful istext text out.data ↔ qpWritable text = true) := by
  have whole : text.take w.i = text := List.take_of_length_le (List.drop_eq_nil_iff.mp ended)
  have wrote : ∀ count, Written text beyond istext w count →
      finish text beyond w = some ⟨wire text beyond w, w.line⟩ := by
    intro count written
    rw [finish, written.writeRemaining short]
    rfl
  -- a CR at the end of the text is lost
  have lostCR : ∀ count, w.i = count + 1 → text[count]? = some CR → Written text beyond istext w count →
      ∃ out, finish text beyond w = some out ∧ (QpFaithful istext text out.data ↔ qpWritable text = true) := by
    intro count position isCR written
    have spelled : text = text.take count ++ [CR] := by
      conv_lhs => rw [← whole, position, List.take_add_one, isCR]
      rfl
    have expected : expectedText istext text = expectedText istext (text.take count) ++ [CR] := by
      conv_lhs => rw [spelled, expectedText_other (.inl (by decide))]
    refine ⟨_, wrote count written, ?_⟩
    have notWritable : qpWritable text = false := by
      rw [qpWritable, spelled, endsCR_concat]
      simp
    rw [notWritable]
    constructor
    · rintro ⟨parsed, -⟩
      have same := written.decodes.parse.mp parsed
      rw [expected] at same
      simp at same
    · intro wrong
      contradiction
  cases stage with
  | init state written aligned clean next =>
      refine ⟨_, wrote w.i written, ?_⟩
      have notBlank : endsBlank text = false := by
        cases blank : endsBlank text with
        | false => rfl
        | true =>
            obtain ⟨ch, rest, here, -⟩ := next.1 (by rw [whole, blank])
            rw [ended] at here
            cases here
      have notCR : endsCR text = false := by
        cases cr : endsCR text with
        | false => rfl
        | true =>
            obtain ⟨ch, rest, here, -⟩ := next.2 (by rw [whole, cr])
            rw [ended] at here
            cases here
      rw [whole] at clean
      have writable : qpWritable text = true := by
        rw [qpWritable, clean, notBlank, notCR]
        rfl
      refine ⟨fun _ => writable, fun _ => ⟨written.decodes.parse.mpr (by rw [whole]), ?_⟩⟩
      obtain ⟨full, last, spelled, length, lastFree, fullLines⟩ := written.lines
      intro line member
      rw [spelled, splitLines_joinLines_append (fun line isLine => (fullLines line isLine).1) lastFree] at member
      rcases List.mem_append.mp member with early | late
      · exact (fullLines line early).2
      · rw [List.mem_singleton.mp late]
        refine ⟨by omega, fun ch isLast => ?_⟩
        cases blank : isBlank ch with
        | false => rfl
        | true =>
            have onWire : (wire text beyond w).getLast? = some ch := by
              rw [spelled, List.getLast?_append, isLast]
              rfl
            have wrong := written.blank ch onWire blank
            rw [whole, notBlank] at wrong
            contradiction
  | space state written aligned clean blank =>
      refine ⟨_, wrote w.i written, ?_⟩
      rw [whole] at blank
      have notWritable : qpWritable text = false := by
        rw [qpWritable, blank]
        simp
      rw [notWritable]
      constructor
      · rintro ⟨-, lines⟩
        obtain ⟨front, ch, spelled, isBlankLast⟩ := trailing state
        obtain ⟨full, last, split, -, lastFree, fullLines⟩ := written.lines
        have atEnd : last.getLast? = some ch := by
          have final : (joinLines full ++ last).getLast? = some ch := by
            rw [← split, spelled, List.getLast?_concat]
          rw [List.getLast?_append] at final
          cases lastOctet : last.getLast? with
          | some octet => simpa [lastOctet] using final
          | none =>
              have atBreak : (joinLines full).getLast? = some ch := by simpa [lastOctet] using final
              rw [joinLines_getLast? atBreak] at isBlankLast
              exact absurd isBlankLast (by decide)
        have member : last ∈ splitLines (wire text beyond w) := by
          rw [split, splitLines_joinLines_append (fun line isLine => (fullLines line isLine).1) lastFree]
          simp
        have wrong := (lines last member).2 ch atEnd
        rw [wrong] at isBlankLast
        contradiction
      · intro wrong
        contradiction
  | cr state position isCR written clean blank => exact lostCR _ position isCR written
  | spaceCr state position isCR written blank => exact lostCR _ position isCR written

theorem qpWriteLoop_faithful {turns : Nat} (stage : Stage text beyond istext w) (short : w.line ≤ 75)
    (trailing : w.state = .space → ∃ front ch, wire text beyond w = front ++ [ch] ∧ isBlank ch = true)
    (enough : 2 * (text.length - w.i) + (if w.state = .init then 0 else 1) ≤ turns) :
    ∃ out, (qpWriteLoop memory text beyond istext turns w).bind (finish text beyond) = some out ∧
      (QpFaithful istext text out.data ↔ qpWritable text = true) := by
  induction turns generalizing w with
  | zero =>
      have ended : text.drop w.i = [] := by
        rw [List.drop_eq_nil_iff]
        omega
      exact finish_faithful stage short trailing ended
  | succ turns ih =>
      rw [qpWriteLoop]
      cases here : text.drop w.i with
      | nil => exact finish_faithful stage short trailing here
      | cons ch rest =>
          have inside := (here_spec here).2.2
          obtain ⟨w', stepped, outcome⟩ := qpWriteStep_turned here stage short
          simp only [stepped, Option.bind_some]
          rcases outcome with ⟨stage', short', trailing', progress⟩ | ⟨doubled, found⟩
          · refine ih stage' short' trailing' ?_
            rcases progress with moved | ⟨stayed, back, left⟩
            · rw [moved]
              split <;> omega
            · rw [if_neg left] at enough
              rw [stayed, if_pos back]
              omega
          · obtain ⟨w'', ran, more⟩ := qpWriteLoop_extends text beyond istext turns w'
            obtain ⟨out, finished, further⟩ := finish_extends text beyond w''
            refine ⟨out, by rw [ran]; exact finished, ?_⟩
            have notWritable : qpWritable text = false := by
              rw [qpWritable, found]
              rfl
            rw [notWritable]
            constructor
            · intro faithful
              exact absurd faithful (doubled.mono (more.trans further)).not_faithful
            · intro wrong
              contradiction

end Writer

/-- The writer never fails in memory, and its output gives the text back, in lines that
mail keeps intact, exactly for the texts without a blank before a line break that do
not end in a blank or a CR. -/
theorem mailmimeQuotedPrintableWriteDriver_faithful (text : List UInt8) (beyond : UInt8) (istext : Bool) :
    ∃ out, mailmimeQuotedPrintableWriteDriver memory text beyond istext ⟨[], 0⟩ = some out ∧
      (QpFaithful istext text out.data ↔ qpWritable text = true) := by
  have written : Written text beyond istext ⟨⟨[], 0⟩, 0, 0, 0, .init⟩ 0 := by
    refine ⟨Nat.zero_le _, by simp [run], ?_, ⟨[], [], ?_, rfl, by simp [BreakFree], by simp⟩, ?_⟩
    · have nothing : expectedText istext (text.take 0) = [] := by cases istext <;> rfl
      rw [nothing]
      exact .nil
    · simp [wire, run]
    · simp [wire, run]
  have stage : Stage text beyond istext ⟨⟨[], 0⟩, 0, 0, 0, .init⟩ := by
    refine .init rfl written rfl rfl ⟨?_, ?_⟩
    · intro wrong
      contradiction
    · intro wrong
      contradiction
  exact qpWriteLoop_faithful stage (by decide) (by simp) (by simp)

/-- A blank before an LF is written twice. -/
theorem mailmimeQuotedPrintableWriteDriver_doublesBlank :
    mailmimeQuotedPrintableWriteDriver memory [ascii ' ', LF] 0 false ⟨[], 0⟩ =
        some ⟨[ascii ' ', ascii '=', ascii '2', ascii '0', CR, LF], 0⟩ ∧
      ¬ QpFaithful false [ascii ' ', LF] [ascii ' ', ascii '=', ascii '2', ascii '0', CR, LF] := by
  refine ⟨by decide, ?_⟩
  rintro ⟨⟨stop, parsed⟩, -⟩
  have decoded : mailmimeQuotedPrintableBodyParse [ascii ' ', ascii '=', ascii '2', ascii '0', CR, LF] 0 false =
      .ok (6, [ascii ' ', ascii ' ', CR, LF]) := by
    decide
  rw [decoded] at parsed
  simp [expectedText] at parsed

end Etpan.Mime
