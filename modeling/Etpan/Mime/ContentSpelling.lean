import Etpan.Imf.Gaps
import Etpan.Mime.ContentType
import Etpan.Mime.Rfc2231Exact

namespace Etpan.Mime

open Etpan.Data Etpan.Imf

/-! Contents as they are written with white space and comments, and what the parser makes of their parts. -/

/-- A token that starts visibly; control characters may be inside of it, as the parser takes them. -/
structure TokenRun where
  octets : List UInt8
  nonempty : octets ≠ []
  areToken : ∀ ch ∈ octets, isToken ch = true
  nulFree : NulFree octets
  starts : ∀ ch ∈ octets.head?, isBlankOctet ch = false

structure MimeToken (octets : List UInt8) : Prop where
  nonempty : octets ≠ []
  visible : ∀ ch ∈ octets, 33 ≤ ch ∧ ch ≤ 126 ∧ isTspecials ch = false

/-- A value is a token, or a quoted string of printable characters, of which the ones marked are escaped. -/
inductive SpelledValue where
  | token (octets : List UInt8) (isToken : MimeToken octets)
  | quoted (octets : List (Bool × UInt8))
      (proper : ∀ octet ∈ octets, 32 ≤ octet.2 ∧ octet.2 ≤ 126 ∧ (octet.1 = false → octet.2 ≠ ascii '"' ∧ octet.2 ≠ ascii '\\'))

def quotedSpelling (octets : List (Bool × UInt8)) : List UInt8 :=
  octets.flatMap fun octet => if octet.1 then [ascii '\\', octet.2] else [octet.2]

def SpelledValue.text : SpelledValue → List UInt8
  | .token octets _ => octets
  | .quoted octets _ => ascii '"' :: (quotedSpelling octets ++ [ascii '"'])

def SpelledValue.value : SpelledValue → List UInt8
  | .token octets _ => octets
  | .quoted octets _ => octets.map Prod.snd

def SpelledValue.isBare : SpelledValue → Bool
  | .token _ _ => true
  | .quoted _ _ => false

structure SpelledParameter where
  beforeSemicolon : Gap
  afterSemicolon : Gap
  name : TokenRun
  notExtended : ascii '*' ∉ name.octets
  beforeEquals : Gap
  afterEquals : Gap
  value : SpelledValue

/-- What stands behind the semicolon and its gap. -/
def SpelledParameter.assignment (param : SpelledParameter) : List UInt8 :=
  param.name.octets ++ (param.beforeEquals.text ++ ascii '=' :: (param.afterEquals.text ++ param.value.text))

def SpelledParameter.text (param : SpelledParameter) : List UInt8 :=
  param.beforeSemicolon.text ++ ascii ';' :: (param.afterSemicolon.text ++ param.assignment)

def parametersText (parameters : List SpelledParameter) : List UInt8 := parameters.flatMap SpelledParameter.text

structure SpelledContent where
  type : TokenRun
  beforeSlash : Gap
  afterSlash : Gap
  subtype : TokenRun
  parameters : List SpelledParameter

def SpelledContent.text (content : SpelledContent) : List UInt8 :=
  content.type.octets ++ (content.beforeSlash.text ++ ascii '/' ::
    (content.afterSlash.text ++ (content.subtype.octets ++ parametersText content.parameters)))

def typeOf (name : List UInt8) : MailmimeTypeName :=
  match typeNames.find? fun known => sameCaseless name known.1 with
  | some known => known.2
  | none => .extension name

/-- The text with one space for each run of spaces; `blank` says that one has just been. -/
def squeezeBlanks : Bool → List UInt8 → List UInt8
  | _, [] => []
  | blank, ch :: rest =>
      if ch = ascii ' ' then if blank then squeezeBlanks true rest else ch :: squeezeBlanks true rest
      else ch :: squeezeBlanks false rest

def SameParameter (parsed : MailmimeParameter) (name value : List UInt8) : Prop :=
  parsed.1 = name ∧ squeezeBlanks false parsed.2 = squeezeBlanks false value

theorem isToken_octets : ∀ ch, isToken ch = true → ch ≠ ascii '(' ∧ ch ≠ ascii '=' ∧ ch ≠ ascii ';' ∧ ch ≠ ascii '/' ∧ ch ≠ ascii ' ' :=
  forall_octet (by decide +kernel)

theorem mimeToken_octets : ∀ ch, 33 ≤ ch ∧ ch ≤ 126 ∧ isTspecials ch = false →
    isToken ch = true ∧ isAtext ch = true ∧ ch ≠ 0 ∧ isBlankOctet ch = false ∧ ch ≠ ascii '(' ∧ ch ≠ CR ∧ ch ≠ LF :=
  forall_octet (by decide +kernel)

theorem quotedOctet_octets : ∀ ch, 32 ≤ ch ∧ ch ≤ 126 → ch ≠ ascii '"' ∧ ch ≠ ascii '\\' → ch ≠ 0 ∧ (ch = ascii ' ' ∨ isQtext ch = true ∧ isBlankOctet ch = false) :=
  forall_octet (by decide +kernel)

theorem TokenRun.cons (run : TokenRun) : ∃ ch rest, run.octets = ch :: rest ∧ isBlankOctet ch = false ∧ isToken ch = true := by
  obtain ⟨ch, rest, spelled⟩ := List.exists_cons_of_ne_nil run.nonempty
  have visible := run.starts ch (by rw [spelled]; rfl)
  have token := run.areToken ch (by rw [spelled]; exact List.mem_cons_self)
  exact ⟨ch, rest, spelled, visible, token⟩

theorem TokenRun.skipCfws (run : TokenRun) (gap : Gap) (rest : List UInt8) :
    skipCfws (gap.text ++ (run.octets ++ rest)) = Gap.text gap.left ++ (run.octets ++ rest) := by
  obtain ⟨ch, octets, spelled, visible, token⟩ := run.cons
  rw [spelled]
  exact Gap.skipCfws visible (isToken_octets ch token).1 (octets ++ rest) gap

/-- The octets of a gap that are taken into a token before it, and what remains of the gap. -/
def swallow : Gap → List UInt8 × Gap
  | .blank true :: gap => (wsp true :: (swallow gap).1, (swallow gap).2)
  | .fold true :: gap => (CR :: LF :: wsp true :: (swallow gap).1, (swallow gap).2)
  | .fold false :: gap => ([CR, LF], .blank false :: gap)
  | gap => ([], gap)

theorem swallow_text (gap : Gap) : gap.text = (swallow gap).1 ++ Gap.text (swallow gap).2 := by
  fun_induction swallow gap with
  | case1 gap ih => rw [Gap.text_cons, ih]; rfl
  | case2 gap ih => rw [Gap.text_cons, ih]; rfl
  | case3 gap => rfl
  | case4 gap => rfl

theorem swallow_octets (gap : Gap) : ∀ ch ∈ (swallow gap).1, isToken ch = true ∧ isBlankOctet ch = true := by
  fun_induction swallow gap with
  | case1 gap ih => exact List.forall_mem_cons.mpr ⟨by decide, ih⟩
  | case2 gap ih => exact List.forall_mem_cons.mpr ⟨by decide, List.forall_mem_cons.mpr ⟨by decide, List.forall_mem_cons.mpr ⟨by decide, ih⟩⟩⟩
  | case3 gap =>
      exact List.forall_mem_cons.mpr ⟨by decide, List.forall_mem_cons.mpr ⟨by decide, fun _ member => absurd member List.not_mem_nil⟩⟩
  | case4 gap => exact fun _ member => absurd member List.not_mem_nil

theorem swallow_stops (gap : Gap) (nonempty : (swallow gap).2 ≠ []) : (Gap.text (swallow gap).2).head?.any isToken = false ∧ Gap.text (swallow gap).2 ≠ [] := by
  fun_induction swallow gap with
  | case1 gap ih => exact ih nonempty
  | case2 gap ih => exact ih nonempty
  | case3 gap => exact ⟨rfl, List.cons_ne_nil _ _⟩
  | case4 gap first second third =>
      obtain ⟨piece, gap, rfl⟩ := List.exists_cons_of_ne_nil nonempty
      cases piece with
      | blank tab =>
          cases tab with
          | true => exact absurd rfl (first gap)
          | false => exact ⟨rfl, List.cons_ne_nil _ _⟩
      | fold tab =>
          cases tab with
          | true => exact absurd rfl (second gap)
          | false => exact absurd rfl (third gap)
      | comment content isText => exact ⟨rfl, List.cons_ne_nil _ _⟩

def EndsToken (gap : Gap) : Prop := (swallow gap).1 = []

theorem span_gap (gap : Gap) {rest : List UInt8} (stops : rest.head?.any isToken = false) :
    (gap.text ++ rest).takeWhile isToken = (swallow gap).1 ∧ (gap.text ++ rest).dropWhile isToken = Gap.text (swallow gap).2 ++ rest := by
  have areToken : ∀ ch ∈ (swallow gap).1, isToken ch = true := fun ch member => (swallow_octets gap ch member).1
  have taken : ∀ more : List UInt8, more.head?.any isToken = false → more.takeWhile isToken = [] ∧ more.dropWhile isToken = more := by
    intro more noToken
    cases more with
    | nil => exact ⟨rfl, rfl⟩
    | cons ch more =>
        have notToken : ¬ isToken ch = true := Bool.eq_false_iff.mp noToken
        exact ⟨List.takeWhile_cons_of_neg notToken, List.dropWhile_cons_of_neg notToken⟩
  have remaining : (Gap.text (swallow gap).2 ++ rest).head?.any isToken = false := by
    by_cases nothing : (swallow gap).2 = []
    · rw [nothing]
      exact stops
    · obtain ⟨noToken, nonempty⟩ := swallow_stops gap nothing
      obtain ⟨ch, more, spelled⟩ := List.exists_cons_of_ne_nil nonempty
      rw [spelled] at noToken ⊢
      exact noToken
  obtain ⟨first, second⟩ := taken _ remaining
  rw [swallow_text gap, List.append_assoc, List.takeWhile_append_of_pos areToken, List.dropWhile_append_of_pos areToken, first, second, List.append_nil]
  exact ⟨rfl, rfl⟩

theorem blank_nulFree {text : List UInt8} (blank : ∀ ch ∈ text, isBlankOctet ch = true) : NulFree text := by
  intro ch member isNul
  have isBlank := blank ch member
  rw [isNul] at isBlank
  cases isBlank

theorem mailmimeTokenParse_run (run : TokenRun) (gap : Gap) {rest : List UInt8} (stops : rest.head?.any isToken = false) :
    mailmimeTokenParse (run.octets ++ (gap.text ++ rest)) = some (run.octets ++ (swallow gap).1, Gap.text (swallow gap).2 ++ rest) := by
  obtain ⟨taken, behind⟩ := span_gap gap stops
  have nonempty : run.octets ++ (swallow gap).1 ≠ [] := fun empty => run.nonempty (List.append_eq_nil_iff.mp empty).1
  have nulFree : NulFree (run.octets ++ (swallow gap).1) := by
    intro ch member
    obtain inRun | inGap := List.mem_append.mp member
    · exact run.nulFree ch inRun
    · exact blank_nulFree (fun ch member => (swallow_octets gap ch member).2) ch inGap
  rw [mailmimeTokenParse, mailimfCustomStringParse, List.takeWhile_append_of_pos run.areToken, List.dropWhile_append_of_pos run.areToken, taken,
    behind, if_neg nonempty, cString_eq_self nulFree]

theorem mailmimeTokenParse_left (run : TokenRun) {gap : Gap} (white : ∀ piece ∈ gap, piece.isComment = false) (nonempty : gap ≠ [])
    {text : List UInt8} {found : List UInt8 × List UInt8} (parsed : mailmimeTokenParse (gap.text ++ text) = some found) :
    ∀ behind, found.1 ≠ run.octets ++ behind := by
  intro behind same
  obtain ⟨blank, more, starts, isBlank⟩ := Gap.text_head white nonempty
  obtain ⟨ch, octets, spelled, visible, -⟩ := run.cons
  have notNul : blank ≠ 0 := fun isNul => by rw [isNul] at isBlank; cases isBlank
  rw [mailmimeTokenParse, mailimfCustomStringParse, starts, List.cons_append] at parsed
  by_cases token : isToken blank = true
  · rw [List.takeWhile_cons_of_pos token, if_neg (List.cons_ne_nil _ _)] at parsed
    rw [← Option.some.inj parsed, spelled, cString, List.takeWhile_cons_of_pos (by simpa using notNul), List.cons_append, List.cons.injEq] at same
    rw [same.1, visible] at isBlank
    cases isBlank
  · rw [List.takeWhile_cons_of_neg token, if_pos rfl] at parsed
    cases parsed

/-- What the parser makes of a quoted string; `inFws` says that a blank has just been given. -/
def quotedRead : Bool → List (Bool × UInt8) → List UInt8
  | _, [] => []
  | inFws, (isEscaped, ch) :: rest =>
      if isEscaped = false ∧ ch = ascii ' ' then if inFws then quotedRead true rest else ch :: quotedRead true rest
      else ch :: quotedRead false rest

def SpelledValue.read : SpelledValue → List UInt8
  | .token octets _ => octets
  | .quoted octets _ => quotedRead false octets

theorem quotedStringLoop_spelling {octets : List (Bool × UInt8)}
    (proper : ∀ octet ∈ octets, 32 ≤ octet.2 ∧ octet.2 ≤ 126 ∧ (octet.1 = false → octet.2 ≠ ascii '"' ∧ octet.2 ≠ ascii '\\')) (inFws : Bool)
    (rest : List UInt8) :
    quotedStringLoop inFws (quotedSpelling octets ++ ascii '"' :: rest) = (quotedRead inFws octets, ascii '"' :: rest) := by
  induction octets generalizing inFws with
  | nil =>
      have closing : startsFws (ascii '"' :: rest) = false ∧ isQtext (ascii '"') = false ∧ ascii '"' ≠ ascii '\\' := by
        refine ⟨rfl, by decide, by decide⟩
      rw [quotedSpelling, List.flatMap_nil, List.nil_append]
      cases rest with
      | nil => rfl
      | cons next rest => rw [quotedStringLoop, closing.1, closing.2.1, if_neg closing.2.2]; rfl
  | cons octet octets ih =>
      obtain ⟨isEscaped, ch⟩ := octet
      obtain ⟨low, high, unescaped⟩ := proper (isEscaped, ch) List.mem_cons_self
      have tail := ih fun other member => proper other (List.mem_cons_of_mem _ member)
      have spelled : quotedSpelling ((isEscaped, ch) :: octets) ++ ascii '"' :: rest =
          (if isEscaped then [ascii '\\', ch] else [ch]) ++ (quotedSpelling octets ++ ascii '"' :: rest) := by
        rw [quotedSpelling, List.flatMap_cons, List.append_assoc]
        rfl
      obtain ⟨next, after, later⟩ : ∃ next after, quotedSpelling octets ++ ascii '"' :: rest = next :: after :=
        List.exists_cons_of_ne_nil (List.append_ne_nil_of_right_ne_nil _ (List.cons_ne_nil _ _))
      rw [spelled, quotedRead]
      rw [later] at tail ⊢
      cases isEscaped with
      | true =>
          have pair : startsFws (ascii '\\' :: ch :: next :: after) = false ∧ isQtext (ascii '\\') = false := ⟨rfl, by decide⟩
          rw [if_pos rfl, List.cons_append, List.singleton_append, quotedStringLoop, pair.1, pair.2, if_neg Bool.false_ne_true,
            if_neg Bool.false_ne_true, if_pos rfl, tail false, if_neg (by simp)]
      | false =>
          obtain ⟨-, isSpace | ⟨qtext, visible⟩⟩ := quotedOctet_octets ch ⟨low, high⟩ (unescaped rfl)
          · have starts : startsFws (ch :: next :: after) = true := by
              rw [isSpace]
              rfl
            rw [if_neg Bool.false_ne_true, List.singleton_append, quotedStringLoop, if_pos starts, tail true, if_pos ⟨rfl, isSpace⟩, isSpace]
          · have starts : startsFws (ch :: next :: after) = false := startsFws_solid (solid_cons.mpr visible)
            have notSpace : ch ≠ ascii ' ' := fun isSpace => by rw [isSpace] at visible; cases visible
            rw [if_neg Bool.false_ne_true, List.singleton_append, quotedStringLoop, starts, if_neg Bool.false_ne_true, if_pos qtext, tail false,
              if_neg fun both => notSpace both.2]

theorem squeezeBlanks_quotedRead (octets : List (Bool × UInt8)) (inFws blank : Bool) (given : inFws = true → blank = true) :
    squeezeBlanks blank (quotedRead inFws octets) = squeezeBlanks blank (octets.map Prod.snd) := by
  induction octets generalizing inFws blank with
  | nil => rfl
  | cons octet octets ih =>
      obtain ⟨isEscaped, ch⟩ := octet
      rw [quotedRead, List.map_cons, squeezeBlanks]
      by_cases isSpace : ch = ascii ' '
      · rw [if_pos isSpace]
        cases isEscaped with
        | true =>
            rw [if_neg (fun both => nomatch both.1), squeezeBlanks, if_pos isSpace, ih false true nofun]
        | false =>
            rw [if_pos ⟨rfl, isSpace⟩]
            cases inFws with
            | true =>
                rw [if_pos rfl, given rfl, if_pos rfl, ih true true fun _ => rfl]
            | false =>
                rw [if_neg Bool.false_ne_true, squeezeBlanks, if_pos isSpace, ih true true fun _ => rfl]
      · rw [if_neg fun both => isSpace both.2, squeezeBlanks, if_neg isSpace, if_neg isSpace, ih false false nofun]

theorem quotedRead_nulFree {octets : List (Bool × UInt8)}
    (proper : ∀ octet ∈ octets, 32 ≤ octet.2 ∧ octet.2 ≤ 126 ∧ (octet.1 = false → octet.2 ≠ ascii '"' ∧ octet.2 ≠ ascii '\\')) (inFws : Bool) :
    NulFree (quotedRead inFws octets) := by
  induction octets generalizing inFws with
  | nil => exact fun _ member => absurd member List.not_mem_nil
  | cons octet octets ih =>
      obtain ⟨isEscaped, ch⟩ := octet
      have rest := ih fun other member => proper other (List.mem_cons_of_mem _ member)
      have notNul : ch ≠ 0 := fun isNul => by
        have low : (32 : UInt8) ≤ ch := (proper (isEscaped, ch) List.mem_cons_self).1
        rw [isNul] at low
        exact absurd low (by decide)
      have first : ∀ inFws, NulFree (ch :: quotedRead inFws octets) := fun inFws => List.forall_mem_cons.mpr ⟨notNul, rest inFws⟩
      rw [quotedRead]
      split_ifs
      · exact rest true
      · exact first true
      · exact first false

theorem SpelledValue.squeezeBlanks_read (value : SpelledValue) : squeezeBlanks false value.read = squeezeBlanks false value.value := by
  cases value with
  | token octets isToken => rfl
  | quoted octets proper => exact squeezeBlanks_quotedRead octets false false id

def Stops (rest : List UInt8) : Prop := rest.head?.any isAtext = false

section Values

variable (gap : Gap) {rest : List UInt8}

theorem mailmimeValueParse_quoted {octets : List (Bool × UInt8)}
    (proper : ∀ octet ∈ octets, 32 ≤ octet.2 ∧ octet.2 ≤ 126 ∧ (octet.1 = false → octet.2 ≠ ascii '"' ∧ octet.2 ≠ ascii '\\')) :
    mailmimeValueParse (skipCfws (gap.text ++ (ascii '"' :: (quotedSpelling octets ++ [ascii '"']) ++ rest))) =
      some (quotedRead false octets, rest) := by
  have visible : isBlankOctet (ascii '"') = false := by decide
  have noComment : ascii '"' ≠ ascii '(' := by decide
  have spelled : ascii '"' :: (quotedSpelling octets ++ [ascii '"']) ++ rest = ascii '"' :: (quotedSpelling octets ++ ascii '"' :: rest) := by
    rw [List.cons_append, List.append_assoc]
    rfl
  have again := @Skipped.cfws _ (quotedSpelling octets ++ ascii '"' :: rest) _ (Gap.skipped gap.left_white) visible noComment
  have noAtom := mailimfAtomParse_none again rfl
  have opened : mailimfCharParse (ascii '"') (ascii '"' :: (quotedSpelling octets ++ ascii '"' :: rest)) =
    some (quotedSpelling octets ++ ascii '"' :: rest) := rfl
  have closed : mailimfCharParse (ascii '"') (ascii '"' :: rest) = some rest := rfl
  rw [spelled, Gap.skipCfws visible noComment _ gap, mailmimeValueParse, noAtom, mailimfQuotedStringParse, again, opened]
  simp only [Option.bind_some, quotedStringLoop_spelling proper, closed, Option.map_some, Option.none_or, cString_eq_self (quotedRead_nulFree proper false)]

theorem mailmimeValueParse_token {octets : List UInt8} (isToken : MimeToken octets) :
    mailmimeValueParse (skipCfws (gap.text ++ (octets ++ rest))) =
      some (cString (octets ++ rest.takeWhile isAtext), rest.dropWhile isAtext) := by
  obtain ⟨ch, more, spelled⟩ := List.exists_cons_of_ne_nil isToken.nonempty
  have areAtext : ∀ ch ∈ octets, isAtext ch = true := fun ch member => (mimeToken_octets ch (isToken.visible ch member)).2.1
  obtain ⟨-, -, -, visible, noComment, -⟩ := mimeToken_octets ch (isToken.visible ch (by rw [spelled]; exact List.mem_cons_self))
  have started : skipCfws (Gap.text gap.left ++ (octets ++ rest)) = octets ++ rest := by
    rw [spelled]
    exact (Gap.skipped gap.left_white).cfws visible noComment
  have first : skipCfws (gap.text ++ (octets ++ rest)) = Gap.text gap.left ++ (octets ++ rest) := by
    rw [spelled]
    exact Gap.skipCfws visible noComment _ gap
  have nonempty : octets ++ rest.takeWhile isAtext ≠ [] := fun empty => isToken.nonempty (List.append_eq_nil_iff.mp empty).1
  rw [first, mailmimeValueParse, mailimfAtomParse, started, List.takeWhile_append_of_pos areAtext, List.dropWhile_append_of_pos areAtext,
    if_neg nonempty]
  rfl

theorem mailmimeValueParse_stops (value : SpelledValue) (stops : value.isBare = true → Stops rest) :
    mailmimeValueParse (skipCfws (gap.text ++ (value.text ++ rest))) = some (value.read, rest) := by
  cases value with
  | quoted octets proper => exact mailmimeValueParse_quoted gap proper
  | token octets isToken =>
      have ends := stops rfl
      have nothing : rest.takeWhile isAtext = [] ∧ rest.dropWhile isAtext = rest := by
        cases rest with
        | nil => exact ⟨rfl, rfl⟩
        | cons ch rest =>
            have notAtext : ¬ isAtext ch = true := Bool.eq_false_iff.mp ends
            exact ⟨List.takeWhile_cons_of_neg notAtext, List.dropWhile_cons_of_neg notAtext⟩
      have nulFree : NulFree octets := fun ch member => (mimeToken_octets ch (isToken.visible ch member)).2.2.1
      have parsed := @mailmimeValueParse_token gap rest octets isToken
      rw [nothing.1, nothing.2, List.append_nil, cString_eq_self nulFree] at parsed
      exact parsed

theorem squeezeBlanks_append {text : List UInt8} (solid : ascii ' ' ∉ text) (rest : List UInt8) :
    squeezeBlanks false (text ++ rest) = text ++ squeezeBlanks false rest := by
  induction text with
  | nil => rfl
  | cons ch text ih =>
      rw [List.mem_cons, not_or] at solid
      rw [List.cons_append, squeezeBlanks, if_neg (Ne.symm solid.1), ih solid.2, List.cons_append]

theorem mailmimeValueParse_right (value : SpelledValue) (noNul : ∀ ch ∈ rest.head?, ch ≠ 0) {found : List UInt8 × List UInt8}
    (parsed : mailmimeValueParse (skipCfws (gap.text ++ (value.text ++ rest))) = some found)
    (same : squeezeBlanks false found.1 = squeezeBlanks false value.value) : value.isBare = true → Stops rest := by
  cases value with
  | quoted octets proper => exact fun isBare => nomatch isBare
  | token octets isToken =>
      intro _
      have read := @mailmimeValueParse_token gap rest octets isToken
      cases rest with
      | nil => rfl
      | cons ch rest =>
          cases isAtext : isAtext ch with
          | false => exact isAtext
          | true =>
              have notNul := noNul ch rfl
              have nulFree : NulFree octets := fun ch member => (mimeToken_octets ch (isToken.visible ch member)).2.2.1
              have solid : ascii ' ' ∉ octets := fun member => by
                have visible := (isToken.visible _ member).1
                exact absurd visible (by decide)
              have notSpace : ch ≠ ascii ' ' := fun isSpace => by rw [isSpace] at isAtext; cases isAtext
              have isFound : found.1 = octets ++ ch :: cString (rest.takeWhile Imf.isAtext) := by
                have both := read.symm.trans parsed
                rw [List.takeWhile_cons_of_pos isAtext] at both
                rw [← Option.some.inj both, cString, List.takeWhile_append_of_pos fun ch member => bne_iff_ne.mpr (nulFree ch member)]
                exact congrArg (octets ++ ·) (List.takeWhile_cons_of_pos (p := fun ch => ch != 0) (bne_iff_ne.mpr notNul))
              have value := squeezeBlanks_append solid []
              rw [List.append_nil] at value
              rw [isFound, squeezeBlanks_append solid, squeezeBlanks, if_neg notSpace, SpelledValue.value, value, List.append_cancel_left_eq] at same
              cases same

end Values

structure SpelledParameter.Assigned (param : SpelledParameter) : Prop where
  named : param.afterSemicolon.left = []
  nameEnds : EndsToken param.beforeEquals
  equals : param.beforeEquals.left = []

section Parameters

variable (param : SpelledParameter) {rest : List UInt8}

theorem parameter_equals : mailimfUnstrictCharParse (ascii '=') (param.beforeEquals.text ++ ascii '=' :: rest) =
    if param.beforeEquals.left = [] ∧ ascii '=' = ascii '=' then some rest else none :=
  Gap.unstrictChar (by decide) (by decide) rest param.beforeEquals (by decide)

theorem assignment_append : param.assignment ++ rest =
    param.name.octets ++ (param.beforeEquals.text ++ ascii '=' :: (param.afterEquals.text ++ (param.value.text ++ rest))) := by
  simp only [SpelledParameter.assignment, List.append_assoc, List.cons_append]

theorem mailmimeParameterParse_assigned (assigned : param.Assigned) (stops : param.value.isBare = true → Stops rest) :
    mailmimeParameterParse (skipCfws (param.afterSemicolon.text ++ (param.assignment ++ rest))) =
      some ((param.name.octets, param.value.read), rest) := by
  have named := @mailmimeTokenParse_run param.name param.beforeEquals (ascii '=' :: (param.afterEquals.text ++ (param.value.text ++ rest))) rfl
  have same := swallow_text param.beforeEquals
  rw [assigned.nameEnds, List.nil_append] at same
  rw [assigned.nameEnds, List.append_nil, ← same] at named
  have equals := @parameter_equals param (param.afterEquals.text ++ (param.value.text ++ rest))
  rw [if_pos ⟨assigned.equals, rfl⟩] at equals
  have value := mailmimeValueParse_stops param.afterEquals param.value stops
  rw [assignment_append, TokenRun.skipCfws, assigned.named]
  simp only [Gap.text, List.flatMap_nil, List.nil_append] at named equals value ⊢
  simp only [mailmimeParameterParse, mailmimeAttributeParse, Option.bind_eq_bind, named, equals, value, Option.bind_some]

theorem mailmimeParameterParse_right (noNul : ∀ ch ∈ rest.head?, ch ≠ 0) {parsed : MailmimeParameter} {behind : List UInt8}
    (found : mailmimeParameterParse (skipCfws (param.afterSemicolon.text ++ (param.assignment ++ rest))) = some (parsed, behind))
    (same : SameParameter parsed param.name.octets param.value.value) :
    param.Assigned ∧ (param.value.isBare = true → Stops rest) ∧ behind = rest := by
  have named := @mailmimeTokenParse_run param.name param.beforeEquals (ascii '=' :: (param.afterEquals.text ++ (param.value.text ++ rest))) rfl
  rw [assignment_append, TokenRun.skipCfws] at found
  simp only [mailmimeParameterParse, mailmimeAttributeParse, Option.bind_eq_bind, Option.bind_eq_some_iff, Prod.exists] at found
  obtain ⟨name, afterName, isName, afterEquals, isEquals, value, afterValue, isValue, result⟩ := found
  obtain ⟨isParsed, isBehind⟩ := Prod.mk.inj (Option.some.inj result)
  rw [← isParsed] at same
  have nameSame : name = param.name.octets := same.1
  have visibleName : param.afterSemicolon.left = [] := by
    by_contra nonempty
    exact mailmimeTokenParse_left param.name param.afterSemicolon.left_white nonempty isName [] (by rw [List.append_nil]; exact nameSame)
  rw [visibleName] at isName
  have both := Option.some.inj (named.symm.trans isName)
  have nameEnds : EndsToken param.beforeEquals := by
    have spelled : param.name.octets ++ (swallow param.beforeEquals).1 = param.name.octets ++ [] :=
      (congrArg Prod.fst both).trans (nameSame.trans (List.append_nil _).symm)
    exact List.append_cancel_left spelled
  have gapSame := swallow_text param.beforeEquals
  rw [nameEnds, List.nil_append] at gapSame
  have behindName : afterName = param.beforeEquals.text ++ ascii '=' :: (param.afterEquals.text ++ (param.value.text ++ rest)) := by
    rw [gapSame]
    exact (congrArg Prod.snd both).symm
  rw [behindName, parameter_equals] at isEquals
  split_ifs at isEquals with equals
  rw [← Option.some.inj isEquals] at isValue
  have stops := mailmimeValueParse_right param.afterEquals param.value noNul isValue same.2
  have read := mailmimeValueParse_stops param.afterEquals param.value stops
  have valueSame := Option.some.inj (read.symm.trans isValue)
  refine ⟨⟨visibleName, nameEnds, equals.1⟩, stops, ?_⟩
  rw [← isBehind]
  exact (congrArg Prod.snd valueSame).symm

end Parameters

end Etpan.Mime
