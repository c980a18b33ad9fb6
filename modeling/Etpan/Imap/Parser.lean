import Etpan.Stream.ReadCalls
import Etpan.Imap.Sender
import Etpan.Data.Abnf

namespace Etpan.Imap

open Etpan.Data Etpan.Stream

/-! The tokens of `low-level/imap/mailimap_keywords.c` and `mailimap_parser.c`.

A parser is given the line buffer and an index into it.  Those that can ask the stream for
more also return the buffer and the stream as they leave them, on an error too; the others
return the new index, or `none` for `MAILIMAP_ERROR_PARSE`.  The syntax is the unstrict one,
which the library always compiles. -/

inductive ParseError where
  | parse
  | stream
  | needsMoreData
deriving Repr, DecidableEq

/-- The line buffer and the stream that it is filled from, which a caller may leave out. -/
structure Source where
  buffer : List UInt8
  fd : Option Mailstream

abbrev Parser (α : Type) := Source → Nat → Except ParseError (α × Nat) × Source

def isSpaceOrTab (ch : UInt8) : Bool := ch = ascii ' ' || ch = 9

def mailimapSpaceParse (buffer : List UInt8) (indx : Nat) : Option Nat :=
  let blanks := (buffer.drop indx).takeWhile isSpaceOrTab
  if blanks = [] then none else some (indx + blanks.length)

/-- The calls of `mailimap_space_parse` whose result is not looked at. -/
def skipSpace (buffer : List UInt8) (indx : Nat) : Nat := (mailimapSpaceParse buffer indx).getD indx

def mailimapCharParse (buffer : List UInt8) (indx : Nat) (token : UInt8) : Option Nat :=
  if buffer[indx]? = some token then some (indx + 1) else none

def mailimapUnstrictCharParse (buffer : List UInt8) (indx : Nat) (token : UInt8) : Option Nat :=
  let curToken := skipSpace buffer indx
  if token = ascii ' ' then some curToken else mailimapCharParse buffer curToken token

def mailimapTokenCaseInsensitiveParse (buffer : List UInt8) (indx : Nat) (token : List UInt8) : Option Nat :=
  let curToken := skipSpace buffer indx
  if curToken ≤ buffer.length ∧ token.length ≤ buffer.length - curToken ∧
      ((buffer.drop curToken).take token.length).map tolower = token.map tolower then
    some (curToken + token.length)
  else none

def mailimapOparenthParse (buffer : List UInt8) (indx : Nat) : Option Nat :=
  mailimapUnstrictCharParse buffer indx (ascii '(')

def mailimapCparenthParse (buffer : List UInt8) (indx : Nat) : Option Nat :=
  mailimapUnstrictCharParse buffer indx (ascii ')')

def mailimapOaccoladeParse (buffer : List UInt8) (indx : Nat) : Option Nat :=
  mailimapUnstrictCharParse buffer indx (ascii '{')

def mailimapCaccoladeParse (buffer : List UInt8) (indx : Nat) : Option Nat :=
  mailimapUnstrictCharParse buffer indx (ascii '}')

def mailimapMinusParse (buffer : List UInt8) (indx : Nat) : Option Nat :=
  mailimapUnstrictCharParse buffer indx (ascii '-')

def mailimapDquoteParse (buffer : List UInt8) (indx : Nat) : Option Nat :=
  mailimapCharParse buffer indx (ascii '"')

def mailimapCrlfParse (buffer : List UInt8) (indx : Nat) : Option Nat :=
  let curToken := skipSpace buffer indx
  match mailimapTokenCaseInsensitiveParse buffer curToken [CR, LF] with
  | some curToken => some curToken
  | none => mailimapUnstrictCharParse buffer curToken LF

def mailimapNumberOverflows (number : UInt32) (digit : Nat) : Bool :=
  (4294967295 - digit) / 10 < number.toNat

/-- A number that does not fit becomes the largest one and stays it. -/
def mailimapNumberAddDigit (number : UInt32) (digit : Nat) : UInt32 :=
  if mailimapNumberOverflows number digit then 4294967295
  else if number ≠ 4294967295 then number * 10 + UInt32.ofNat digit
  else number

def mailimapNumberParse (buffer : List UInt8) (indx : Nat) : Option (UInt32 × Nat) :=
  let curToken := skipSpace buffer indx
  let negative := mailimapCharParse buffer curToken (ascii '-')
  let curToken := negative.getD curToken
  let digits := (buffer.drop curToken).takeWhile isDigit
  let number := digits.foldl (fun number digit => mailimapNumberAddDigit number (digit.toNat - 48)) 0
  if digits = [] then none
  else some (if negative.isSome then 0 else number, curToken + digits.length)

/-! ### Strings of one kind of characters -/

def mailimapCustomStringParse (isCustomChar : UInt8 → Bool) (buffer : List UInt8) (indx : Nat) :
    Option (List UInt8 × Nat) :=
  let begin_ := skipSpace buffer indx
  let found := (buffer.drop begin_).takeWhile isCustomChar
  if found = [] then none else some (found, begin_ + found.length)

def isCtl (ch : UInt8) : Bool := ch ≤ 0x1f

def isListWildcards (ch : UInt8) : Bool := ch = ascii '%' || ch = ascii '*'

def isRespSpecials (ch : UInt8) : Bool := ch = ascii ']'

def isAtomSpecials (ch : UInt8) : Bool :=
  ch = ascii '(' || ch = ascii ')' || ch = ascii '{' || ch = ascii ' ' || isCtl ch || isListWildcards ch ||
    isRespSpecials ch || isQuotedSpecials ch

def isAtomChar (ch : UInt8) : Bool := !isAtomSpecials ch && ch != 0

def isAstringChar (ch : UInt8) : Bool := isAtomChar ch || isRespSpecials ch

def mailimapAtomAstringParse (buffer : List UInt8) (indx : Nat) : Option (List UInt8 × Nat) :=
  mailimapCustomStringParse isAstringChar buffer indx

def mailimapQuotedSpecialsParse (buffer : List UInt8) (indx : Nat) : Option (UInt8 × Nat) :=
  match buffer[indx]? with
  | some ch => if isQuotedSpecials ch then some (ch, indx + 1) else none
  | none => none

def mailimapQuotedCharParse (buffer : List UInt8) (indx : Nat) : Option (UInt8 × Nat) :=
  match buffer[indx]? with
  | none => none
  | some ch =>
      if !isQuotedSpecials ch then some (ch, indx + 1)
      else if ch = ascii '\\' then
        match mailimapQuotedSpecialsParse buffer (indx + 1) with
        | some (special, curToken) => some (special, curToken)
        | none => some (ascii '\\', indx + 1)
      else none

def Source.octets (source : Source) : Nat :=
  source.buffer.length + match source.fd with
    | some s => s.incoming.length
    | none => 0

/-- The loop of `mailimap_quoted_parse`, which takes at least one octet a turn. -/
def quotedLoop : Nat → Source → Nat → List UInt8 → Except ParseError (List UInt8 × Nat) × Source
  | 0, source, _, _ => (.error .parse, source)
  | turns + 1, source, curToken, quoted =>
      let filled : Except ParseError Unit × Source :=
        if curToken ≥ source.buffer.length then
          match source.fd with
          | none => (.error .needsMoreData, source)
          | some s =>
              let read := mailstreamReadLineAppend s source.buffer
              match read.1 with
              | none => (.error .parse, { source with fd := some read.2 })
              | some buffer => (.ok (), { buffer, fd := some read.2 })
        else (.ok (), source)
      match filled.1 with
      | .error reason => (.error reason, filled.2)
      | .ok () =>
          match mailimapQuotedCharParse filled.2.buffer curToken with
          | some (ch, curToken) => quotedLoop turns filled.2 curToken (quoted ++ [ch])
          | none =>
              match mailimapDquoteParse filled.2.buffer curToken with
              | some curToken => (.ok (quoted, curToken), filled.2)
              | none => (.error .parse, filled.2)

def mailimapQuotedParse : Parser (List UInt8) := fun source indx =>
  let curToken := skipSpace source.buffer indx
  match mailimapDquoteParse source.buffer curToken with
  | none => (.error .parse, source)
  | some curToken => quotedLoop (source.octets + 1) source curToken []

section At

variable {buffer rest : List UInt8} {indx : Nat}

theorem drop_behind {text : List UInt8} (at_ : buffer.drop indx = text ++ rest) :
    buffer.drop (indx + text.length) = rest := by
  rw [← List.drop_drop, at_, List.drop_left]

theorem getElem?_at {byte : UInt8} (at_ : buffer.drop indx = byte :: rest) : buffer[indx]? = some byte := by
  rw [← List.head?_drop, at_]
  rfl

theorem skipSpace_none (at_ : (buffer.drop indx).takeWhile isSpaceOrTab = []) : skipSpace buffer indx = indx := by
  rw [skipSpace, mailimapSpaceParse, at_]
  rfl

theorem skipSpace_at {byte : UInt8} (at_ : buffer.drop indx = byte :: rest) (visible : isSpaceOrTab byte = false) :
    skipSpace buffer indx = indx := by
  apply skipSpace_none
  rw [at_, List.takeWhile_cons_of_neg (by rw [visible]; decide)]

theorem mailimapSpaceParse_at {byte : UInt8} (at_ : buffer.drop indx = ascii ' ' :: byte :: rest)
    (visible : isSpaceOrTab byte = false) : mailimapSpaceParse buffer indx = some (indx + 1) := by
  have blanks : (buffer.drop indx).takeWhile isSpaceOrTab = [ascii ' '] := by
    rw [at_, List.takeWhile_cons_of_pos (by decide), List.takeWhile_cons_of_neg (by rw [visible]; decide)]
  rw [mailimapSpaceParse, blanks]
  rfl

theorem mailimapCharParse_at {token : UInt8} (at_ : buffer.drop indx = token :: rest) :
    mailimapCharParse buffer indx token = some (indx + 1) := by
  rw [mailimapCharParse, getElem?_at at_, if_pos rfl]

theorem mailimapCharParse_other {token byte : UInt8} (at_ : buffer.drop indx = byte :: rest) (other : byte ≠ token) :
    mailimapCharParse buffer indx token = none := by
  rw [mailimapCharParse, getElem?_at at_, if_neg (by simpa using other)]

theorem mailimapUnstrictCharParse_at {token : UInt8} (at_ : buffer.drop indx = token :: rest)
    (visible : isSpaceOrTab token = false) : mailimapUnstrictCharParse buffer indx token = some (indx + 1) := by
  have notSpace : token ≠ ascii ' ' := by
    rintro rfl
    revert visible
    decide
  rw [mailimapUnstrictCharParse, skipSpace_at at_ visible, if_neg notSpace, mailimapCharParse_at at_]

theorem mailimapUnstrictCharParse_other {token byte : UInt8} (at_ : buffer.drop indx = byte :: rest)
    (visible : isSpaceOrTab byte = false) (notSpace : token ≠ ascii ' ') (other : byte ≠ token) :
    mailimapUnstrictCharParse buffer indx token = none := by
  rw [mailimapUnstrictCharParse, skipSpace_at at_ visible, if_neg notSpace, mailimapCharParse_other at_ other]

theorem mailimapTokenCaseInsensitiveParse_at {byte : UInt8} {token : List UInt8}
    (at_ : buffer.drop indx = byte :: token ++ rest) (visible : isSpaceOrTab byte = false) :
    mailimapTokenCaseInsensitiveParse buffer indx (byte :: token) = some (indx + (byte :: token).length) := by
  have lengths := congrArg List.length at_
  rw [List.length_drop, List.length_append, List.length_cons] at lengths
  rw [mailimapTokenCaseInsensitiveParse, skipSpace_at at_ visible,
    if_pos ⟨by omega, by rw [List.length_cons]; omega, by rw [at_, List.take_left]⟩]

theorem mailimapCustomStringParse_at {isCustomChar : UInt8 → Bool} {byte : UInt8} {text : List UInt8}
    (at_ : buffer.drop indx = byte :: text ++ rest) (visible : isSpaceOrTab byte = false)
    (custom : ∀ ch ∈ byte :: text, isCustomChar ch = true) (ends : rest.takeWhile isCustomChar = []) :
    mailimapCustomStringParse isCustomChar buffer indx = some (byte :: text, indx + (byte :: text).length) := by
  have found : (buffer.drop indx).takeWhile isCustomChar = byte :: text := by
    rw [at_, List.takeWhile_append_of_pos custom, ends, List.append_nil]
  rw [mailimapCustomStringParse, skipSpace_at at_ visible, found]
  rfl

theorem mailimapCustomStringParse_other {isCustomChar : UInt8 → Bool} {byte : UInt8}
    (at_ : buffer.drop indx = byte :: rest) (visible : isSpaceOrTab byte = false) (other : isCustomChar byte = false) :
    mailimapCustomStringParse isCustomChar buffer indx = none := by
  have nothing : (buffer.drop indx).takeWhile isCustomChar = [] := by
    rw [at_, List.takeWhile_cons_of_neg (by rw [other]; decide)]
  rw [mailimapCustomStringParse, skipSpace_at at_ visible, nothing]
  rfl

end At

/-! ### Quoted strings where they stand -/

def escaped (ch : UInt8) : List UInt8 := if isQuotedSpecials ch then [ascii '\\', ch] else [ch]

def quotedText (string : List UInt8) : List UInt8 := ascii '"' :: string.flatMap escaped ++ [ascii '"']

theorem mailimapQuotedCharParse_at {buffer rest : List UInt8} {indx : Nat} {ch : UInt8}
    (at_ : buffer.drop indx = escaped ch ++ rest) :
    mailimapQuotedCharParse buffer indx = some (ch, indx + (escaped ch).length) := by
  rw [mailimapQuotedCharParse]
  cases special : isQuotedSpecials ch with
  | false =>
      rw [escaped, special] at at_ ⊢
      rw [getElem?_at at_]
      simp [special]
  | true =>
      rw [escaped, special] at at_ ⊢
      have second : buffer[indx + 1]? = some ch := by
        apply getElem?_at
        exact @drop_behind buffer (ch :: rest) indx [ascii '\\'] at_
      have backslash : isQuotedSpecials (ascii '\\') = true := by decide
      rw [getElem?_at at_]
      simp [mailimapQuotedSpecialsParse, second, special, backslash]

theorem escaped_length_pos (ch : UInt8) : 0 < (escaped ch).length := by
  rw [escaped]
  split_ifs <;> exact Nat.zero_lt_succ _

theorem length_le_flatMap {α : Type} {write : α → List UInt8} (nonempty : ∀ value, 0 < (write value).length)
    (list : List α) : list.length ≤ (list.flatMap write).length := by
  induction list with
  | nil => exact Nat.le_refl _
  | cons value list ih =>
      have positive := nonempty value
      rw [List.flatMap_cons, List.length_append, List.length_cons]
      omega

theorem quotedLoop_at {source : Source} {rest : List UInt8} {string : List UInt8} {turns curToken : Nat}
    {quoted : List UInt8} (at_ : source.buffer.drop curToken = string.flatMap escaped ++ ascii '"' :: rest)
    (enough : string.length < turns) :
    quotedLoop turns source curToken quoted =
      (.ok (quoted ++ string, curToken + (string.flatMap escaped).length + 1), source) := by
  induction string generalizing turns curToken quoted with
  | nil =>
      obtain ⟨turns, rfl⟩ := Nat.exists_eq_add_of_lt enough
      have inside := congrArg List.length at_
      rw [List.length_drop, List.flatMap_nil, List.nil_append, List.length_cons] at inside
      have closing : mailimapQuotedCharParse source.buffer curToken = none := by
        rw [mailimapQuotedCharParse, getElem?_at at_]
        rfl
      rw [List.length_nil, Nat.zero_add, quotedLoop, if_neg (by omega)]
      simp only [closing, mailimapDquoteParse, mailimapCharParse_at at_]
      simp
  | cons ch string ih =>
      obtain ⟨turns, rfl⟩ := Nat.exists_eq_add_of_lt enough
      rw [List.flatMap_cons, List.append_assoc] at at_
      have inside := congrArg List.length at_
      have positive := escaped_length_pos ch
      rw [List.length_drop, List.length_append] at inside
      have next : quotedLoop ((ch :: string).length + turns) source (curToken + (escaped ch).length) (quoted ++ [ch]) =
          (.ok (quoted ++ [ch] ++ string, curToken + (escaped ch).length + (string.flatMap escaped).length + 1), source) :=
        ih (drop_behind at_) (by rw [List.length_cons]; omega)
      rw [quotedLoop, if_neg (by omega)]
      simp only [mailimapQuotedCharParse_at at_]
      rw [next, List.flatMap_cons, List.length_append]
      simp [Nat.add_assoc]

theorem mailimapQuotedParse_at {source : Source} {indx : Nat} {string rest : List UInt8}
    (at_ : source.buffer.drop indx = quotedText string ++ rest) :
    mailimapQuotedParse source indx = (.ok (string, indx + (quotedText string).length), source) := by
  have whole : quotedText string ++ rest = [ascii '"'] ++ (string.flatMap escaped ++ ascii '"' :: rest) := by
    rw [quotedText]
    simp
  rw [whole] at at_
  have behind : source.buffer.drop (indx + 1) = string.flatMap escaped ++ ascii '"' :: rest := drop_behind at_
  have lengths := congrArg List.length at_
  have short := length_le_flatMap escaped_length_pos string
  rw [List.length_drop, List.length_append, List.length_append] at lengths
  have enough : string.length < source.octets + 1 := by
    rw [Source.octets]
    omega
  rw [mailimapQuotedParse, skipSpace_at at_ (by decide), mailimapDquoteParse, mailimapCharParse_at at_]
  simp only [quotedLoop_at behind enough]
  rw [quotedText]
  simp [Nat.add_assoc, Nat.add_comm 1]

theorem mailimapQuotedParse_other {source : Source} {indx : Nat} {byte : UInt8} {rest : List UInt8}
    (at_ : source.buffer.drop indx = byte :: rest) (visible : isSpaceOrTab byte = false) (other : byte ≠ ascii '"') :
    mailimapQuotedParse source indx = (.error .parse, source) := by
  rw [mailimapQuotedParse, skipSpace_at at_ visible, mailimapDquoteParse, mailimapCharParse_other at_ other]

/-! Literals, strings and astrings, `low-level/imap/mailimap_parser.c`. -/

def maxReadProgress : Nat := 65536

def mailimapLiteralSizeMax : Nat := 64 * 1024 * 1024

structure ParserContext where
  isRamblerWorkaroundEnabled : Bool
deriving Repr, DecidableEq

def okCompleted : List UInt8 := asciiText " OK completed\r\n"

def uidToken : List UInt8 := asciiText " UID "

/-- The end of what was received looks like the end of a FETCH response and a tagged
response: " UID ", digits, ")" and CRLF, digits, " OK completed" and CRLF. -/
def endsLikeRambler (received : List UInt8) : Bool :=
  let back := received.reverse
  let tagged := (back.drop okCompleted.length).dropWhile isDigit
  let numbered := (tagged.drop 3).dropWhile isDigit
  okCompleted.reverse.isPrefixOf back && 3 < tagged.length && [LF, CR, ascii ')'].isPrefixOf tagged &&
    5 < numbered.length && uidToken.reverse.isPrefixOf numbered

/-- The loop that takes the rest of a literal from the stream. -/
def readLiteral (ctx : ParserContext) (s : Mailstream) (needed : Nat) (literal : List UInt8) :
    Except ParseError (List UInt8) × Mailstream :=
  if needed = 0 then (.ok literal, s)
  else
    let read := mailstreamRead s (min needed maxReadProgress)
    match read.1 with
    | none => (.error .stream, read.2)
    | some [] => (.error .stream, read.2)
    | some (byte :: rest) =>
        let left := needed - (byte :: rest).length
        let literal := literal ++ byte :: rest
        if left > 0 ∧ ctx.isRamblerWorkaroundEnabled ∧ endsLikeRambler literal then (.error .parse, read.2)
        else readLiteral ctx read.2 left literal
termination_by needed
decreasing_by
  simp only [left, List.length_cons]
  omega

def hasCrlf (buffer : List UInt8) (index : Nat) : Bool := (buffer.drop index).contains LF

/-- The head of a literal: the index of its number, the number and where its octets start. -/
def literalHeadParse (buffer : List UInt8) (indx : Nat) : Option (Nat × UInt32 × Nat) := do
  let numberToken ← mailimapOaccoladeParse buffer indx
  let (number, curToken) ← match mailimapNumberParse buffer numberToken with
    | some found => some found
    | none => do
        -- workaround for a server that announces -1
        let curToken ← mailimapMinusParse buffer numberToken
        let (_, curToken) ← mailimapNumberParse buffer curToken
        some (0, curToken)
  let curToken ← mailimapCaccoladeParse buffer curToken
  let curToken := match mailimapCrlfParse buffer curToken with
    | some curToken => curToken
    | none => skipSpace buffer (skipSpace buffer curToken)
  if number.toNat > mailimapLiteralSizeMax then none else some (numberToken, number, curToken)

def appendFollowingLine (source : Source) (curToken : Nat) (literal : List UInt8) :
    Except ParseError (List UInt8 × Nat) × Source :=
  match source.fd with
  | none => if hasCrlf source.buffer curToken then (.ok (literal, curToken), source) else (.error .needsMoreData, source)
  | some s =>
      let read := mailstreamReadLineAppend s source.buffer
      match read.1 with
      | none => (.error .stream, { source with fd := some read.2 })
      | some buffer => (.ok (literal, curToken), { buffer, fd := some read.2 })

/-- A literal that is not whole in the buffer is replaced there by an empty one. -/
def mailimapLiteralParse (ctx : ParserContext) : Parser (List UInt8) := fun source indx =>
  match literalHeadParse source.buffer indx with
  | none => (.error .parse, source)
  | some (numberToken, number, curToken) =>
      let left := (source.buffer.length - curToken) % 2 ^ 32
      if number.toNat ≤ left then
        appendFollowingLine source (curToken + number.toNat) ((source.buffer.drop curToken).take number.toNat)
      else
        match source.fd with
        | none => (.error .needsMoreData, source)
        | some s =>
            let read := readLiteral ctx s (number.toNat - left) ((source.buffer.drop curToken).take left)
            match read.1 with
            | .error reason => (.error reason, { source with fd := some read.2 })
            | .ok literal =>
                appendFollowingLine
                  { buffer := source.buffer.take numberToken ++ [ascii '0', ascii '}', CR, LF], fd := some read.2 }
                  (numberToken + 4) literal

/-- The string and its length as the caller gets them: that of a quoted string is counted
up to its first zero octet. -/
def mailimapStringParse (ctx : ParserContext) : Parser (List UInt8 × Nat) := fun source indx =>
  let quoted := mailimapQuotedParse source indx
  match quoted.1 with
  | .ok (string, curToken) => (.ok ((string, (cString string).length), curToken), quoted.2)
  | .error .parse =>
      let literal := mailimapLiteralParse ctx quoted.2 indx
      match literal.1 with
      | .ok (string, curToken) => (.ok ((string, string.length), curToken), literal.2)
      | .error reason => (.error reason, literal.2)
  | .error reason => (.error reason, quoted.2)

def mailimapAstringParse (ctx : ParserContext) : Parser (List UInt8) := fun source indx =>
  match mailimapAtomAstringParse source.buffer indx with
  | some (astring, curToken) => (.ok (astring, curToken), source)
  | none =>
      let string := mailimapStringParse ctx source indx
      match string.1 with
      | .ok ((astring, _), curToken) => (.ok (astring, curToken), string.2)
      | .error reason => (.error reason, string.2)

def mailimapMailboxParse (ctx : ParserContext) : Parser (List UInt8) := mailimapAstringParse ctx

end Etpan.Imap
